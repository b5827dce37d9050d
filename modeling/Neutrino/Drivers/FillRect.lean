import Neutrino.Drivers.Vga

/-!
# Filled rectangles

`vga_fillrect` walks over the framebuffer with one running offset. What it draws is what
`vga_putpixel` draws pixel by pixel, row after row (`vgaFillrect_eq`): the offset after `i` pixels of row
`j` is that of pixel `(x + i, y + j)`, in arithmetic modulo `2^32`, whatever the resolution.
-/

namespace Neutrino.Drivers

open Neutrino.Lib

/-! ## Pixel by pixel -/

structure Pixel where
  x : UInt32
  y : UInt32
  color : UInt32
  deriving DecidableEq, Repr

/-- `w` pixels from `(x, y)` to the right. -/
def rowPixels (x y : UInt32) (w : Nat) (color : Nat → UInt32) : List Pixel :=
  (List.range w).map fun i => ⟨x + UInt32.ofNat i, y, color i⟩

/-- The pixels of a rectangle in row order; `color j i` is that of row `j`, column `i`. -/
def rectPixels (x y : UInt32) (w h : Nat) (color : Nat → Nat → UInt32) : List Pixel :=
  (List.range h).flatMap fun j => rowPixels x (y + UInt32.ofNat j) w (color j)

theorem rowPixels_succ (x y : UInt32) (w : Nat) (color : Nat → UInt32) :
    rowPixels x y (w + 1) color = rowPixels x y w color ++ [⟨x + UInt32.ofNat w, y, color w⟩] := by
  unfold rowPixels
  rw [List.range_succ, List.map_append]
  rfl

theorem rectPixels_succ (x y : UInt32) (w h : Nat) (color : Nat → Nat → UInt32) :
    rectPixels x y w (h + 1) color =
      rectPixels x y w h color ++ rowPixels x (y + UInt32.ofNat h) w (color h) := by
  unfold rectPixels
  rw [List.range_succ, List.flatMap_append, List.flatMap_singleton]

variable (lerp : UInt8 → UInt8 → UInt32 → UInt8) (m : Mode)

/-- `vga_putpixel`, once for each pixel. -/
def drawPixels (ps : List Pixel) (s : Screen) : Screen :=
  ps.foldl (fun s p => vgaPutpixel lerp m p.x p.y p.color s) s

theorem drawPixels_append (ps qs : List Pixel) (s : Screen) :
    drawPixels lerp m (ps ++ qs) s = drawPixels lerp m qs (drawPixels lerp m ps s) :=
  List.foldl_append

/-! ## The function -/

/-- One round of the inner loop. The running offset is the `where` of the source. -/
def fillPixel (b g r : UInt8) (a : UInt32) (p : UInt32 × Screen) : UInt32 × Screen :=
  (p.1 + m.bpp,
    ((p.2.update p.1 fun old => lerp old b a).update (p.1 + 1) fun old => lerp old g a).update
      (p.1 + 2) fun old => lerp old r a)

def vgaFillrect (x y w h c : UInt32) (s : Screen) : Screen :=
  let offset := x * m.bpp + y * m.width * m.bpp
  let b := (c &&& 255).toUInt8
  let g := ((c >>> 8) &&& 255).toUInt8
  let r := ((c >>> 16) &&& 255).toUInt8
  let a := (c >>> 24) &&& 255
  let verticalStep := m.width * m.bpp - w * m.bpp
  ((List.range h.toNat).foldl
    (fun p _ =>
      let p := (List.range w.toNat).foldl (fun p _ => fillPixel lerp m b g r a p) p
      (p.1 + verticalStep, p.2))
    (offset, s)).2

/-! ## The running offset -/

section Offsets

variable {m}

theorem offset_start (x y : UInt32) : x * m.bpp + y * m.width * m.bpp = m.offset x y := by
  unfold Mode.offset
  grind

theorem offset_right (x y : UInt32) (i : Nat) :
    m.offset (x + UInt32.ofNat (i + 1)) y = m.offset (x + UInt32.ofNat i) y + m.bpp := by
  unfold Mode.offset
  rw [UInt32.ofNat_add]
  grind

/-- A row of `w` pixels and the vertical step make one line. -/
theorem offset_below (x y w : UInt32) (j : Nat) :
    m.offset (x + w) (y + UInt32.ofNat j) + (m.width * m.bpp - w * m.bpp) =
      m.offset x (y + UInt32.ofNat (j + 1)) := by
  unfold Mode.offset
  rw [UInt32.ofNat_add]
  grind

end Offsets

/-! ## The loops -/

section Loops

variable {lerp m} {x y : UInt32} {s : Screen}

/-- The inner loop draws one row. -/
theorem fillRow (c : UInt32) (w : Nat) :
    (List.range w).foldl
        (fun p _ => fillPixel lerp m (c &&& 255).toUInt8 ((c >>> 8) &&& 255).toUInt8
          ((c >>> 16) &&& 255).toUInt8 ((c >>> 24) &&& 255) p) (m.offset x y, s) =
      (m.offset (x + UInt32.ofNat w) y, drawPixels lerp m (rowPixels x y w fun _ => c) s) := by
  apply foldl_range_rule (I := fun i p =>
    p = (m.offset (x + UInt32.ofNat i) y, drawPixels lerp m (rowPixels x y i fun _ => c) s))
  · exact congrArg (fun x' => (m.offset x' y, s)) (UInt32.add_zero x).symm
  · rintro i _ - rfl
    rw [rowPixels_succ, drawPixels_append, offset_right]
    rfl

/-- The outer loop draws row after row. -/
theorem fillRows (w c : UInt32) (h : Nat) :
    (List.range h).foldl
        (fun p _ =>
          let p := (List.range w.toNat).foldl
            (fun p _ => fillPixel lerp m (c &&& 255).toUInt8 ((c >>> 8) &&& 255).toUInt8
              ((c >>> 16) &&& 255).toUInt8 ((c >>> 24) &&& 255) p) p
          (p.1 + (m.width * m.bpp - w * m.bpp), p.2)) (m.offset x y, s) =
      (m.offset x (y + UInt32.ofNat h),
        drawPixels lerp m (rectPixels x y w.toNat h fun _ _ => c) s) := by
  apply foldl_range_rule (I := fun j p =>
    p = (m.offset x (y + UInt32.ofNat j), drawPixels lerp m (rectPixels x y w.toNat j fun _ _ => c) s))
  · exact congrArg (fun y' => (m.offset x y', s)) (UInt32.add_zero y).symm
  · rintro j _ - rfl
    rw [fillRow, UInt32.ofNat_toNat, rectPixels_succ, drawPixels_append]
    exact congrArg (fun off => (off, _)) (offset_below x y w j)

theorem vgaFillrect_eq_draw (w h c : UInt32) :
    vgaFillrect lerp m x y w h c s =
      drawPixels lerp m (rectPixels x y w.toNat h.toNat fun _ _ => c) s := by
  unfold vgaFillrect
  rw [offset_start]
  exact congrArg Prod.snd (fillRows w c h.toNat)

end Loops

/-! ## Nothing else is drawn -/

/-- `a` is not the offset of a byte of the pixel. -/
def Pixel.Avoids (p : Pixel) (a : Nat) : Prop :=
  ∀ b < 3, a ≠ (m.offset p.x p.y + UInt32.ofNat b).toNat

theorem Screen.update_of_ne {off : UInt32} {a : Nat} (h : a ≠ off.toNat) (f : UInt8 → UInt8)
    (s : Screen) : (s.update off f).bytes a = s.bytes a :=
  Function.update_of_ne h _ _

theorem Pixel.Avoids.offsets {m : Mode} {p : Pixel} {a : Nat} (h : p.Avoids m a) :
    a ≠ (m.offset p.x p.y).toNat ∧ a ≠ (m.offset p.x p.y + 1).toNat ∧
      a ≠ (m.offset p.x p.y + 2).toNat := by
  refine ⟨?_, h 1 (by decide), h 2 (by decide)⟩
  rw [← UInt32.add_zero (m.offset p.x p.y)]
  exact h 0 (by decide)

theorem vgaPutpixel_avoids {p : Pixel} {a : Nat} (h : p.Avoids m a) (s : Screen) :
    (vgaPutpixel lerp m p.x p.y p.color s).bytes a = s.bytes a := by
  obtain ⟨hzero, hone, htwo⟩ := h.offsets
  unfold vgaPutpixel
  rw [Screen.update_of_ne htwo, Screen.update_of_ne hone, Screen.update_of_ne hzero]

theorem drawPixels_avoids {ps : List Pixel} {a : Nat} (h : ∀ p ∈ ps, p.Avoids m a) :
    ∀ s : Screen, (drawPixels lerp m ps s).bytes a = s.bytes a := by
  induction ps with
  | nil => exact fun _ => rfl
  | cons p ps ih =>
      intro s
      show (drawPixels lerp m ps (vgaPutpixel lerp m p.x p.y p.color s)).bytes a = _
      rw [ih fun q hq => h q (List.mem_cons_of_mem p hq),
        vgaPutpixel_avoids lerp m (h p List.mem_cons_self)]

/-- **`vga_fillrect` is `vga_putpixel` on every pixel of the rectangle**, and so changes no byte
outside them. -/
theorem vgaFillrect_eq (x y w h c : UInt32) (s : Screen) :
    vgaFillrect lerp m x y w h c s =
      drawPixels lerp m (rectPixels x y w.toNat h.toNat fun _ _ => c) s ∧
    ∀ a, (∀ p ∈ rectPixels x y w.toNat h.toNat fun _ _ => c, p.Avoids m a) →
      (vgaFillrect lerp m x y w h c s).bytes a = s.bytes a := by
  refine ⟨vgaFillrect_eq_draw w h c, ?_⟩
  intro a ha
  rw [vgaFillrect_eq_draw]
  exact drawPixels_avoids lerp m ha s

end Neutrino.Drivers
