import Mathlib.Data.Rat.Floor
import Neutrino.Lib.Blend
import Neutrino.Drivers.FillRect
import Neutrino.Drivers.VgaPixels

/-!
# Icons

`vga_fillicon` draws a rectangle of colours. It blends all three bytes of a pixel with the first one in
the framebuffer, which it has already written by the time it gets to the second. `vga_putpixel` blends
each byte with itself.

`filliconRight_iff` says for which icons, framebuffers and rectangles the two agree all the same.
-/

namespace Neutrino.Drivers

open Neutrino.Lib

/-! ## Exact interpolation -/

/-- `a + (v * (b - a))` with `v = alpha / 255`, truncated to a byte. -/
def exactLerp (a b : UInt8) (alpha : UInt32) : UInt8 :=
  UInt8.ofNat ⌊(a.toNat : ℚ) + alpha.toNat / 255 * ((b.toNat : ℚ) - a.toNat)⌋₊

/-- A transparent colour. -/
theorem exactLerp_zero (a b : UInt8) : exactLerp a b 0 = a := by
  simp [exactLerp]

/-- A solid colour. -/
theorem exactLerp_solid (a b : UInt8) : exactLerp a b 255 = b := by
  have hsum : (a.toNat : ℚ) + (255 : UInt32).toNat / 255 * ((b.toNat : ℚ) - a.toNat) = b.toNat := by
    rw [show (255 : UInt32).toNat = 255 from rfl]
    norm_num
  rw [exactLerp, hsum, Nat.floor_natCast, UInt8.ofNat_toNat]

/-! ## The function -/

/-- `__vesaFramebuffer[dst]` from `__vesaFramebuffer[src]` -/
def Screen.blendFrom (dst src : UInt32) (f : UInt8 → UInt8) (s : Screen) : Screen :=
  { s with
    bytes := Function.update s.bytes dst.toNat (f (s.bytes src.toNat))
    touched := dst.toNat :: src.toNat :: s.touched }

section Drawing

variable (lerp : UInt8 → UInt8 → UInt32 → UInt8) (m : Mode)

/-- The three assignments to a pixel at the offset `off`. -/
def smearPixel (off color : UInt32) (s : Screen) : Screen :=
  ((s.update off fun old => lerp old (color &&& 255).toUInt8 ((color >>> 24) &&& 255)).blendFrom
      (off + 1) off
      fun old => lerp old ((color >>> 8) &&& 255).toUInt8 ((color >>> 24) &&& 255)).blendFrom
      (off + 2) off
      fun old => lerp old ((color >>> 16) &&& 255).toUInt8 ((color >>> 24) &&& 255)

/-- Where the next pixel goes, which colour of the icon is next, and the screen. -/
structure IconState where
  offset : UInt32
  next : Nat
  screen : Screen

def iconPixel (icon : Nat → UInt32) (p : IconState) : IconState where
  offset := p.offset + m.bpp
  next := p.next + 1
  screen := smearPixel lerp p.offset (icon p.next) p.screen

def vgaFillicon (x y w h : UInt32) (icon : Nat → UInt32) (s : Screen) : Screen :=
  let offset := x * m.bpp + y * m.width * m.bpp
  ((List.range h.toNat).foldl
    (fun p _ =>
      let p := (List.range w.toNat).foldl (fun p _ => iconPixel lerp m icon p) p
      { p with offset := p.offset + (m.width * m.bpp - w * m.bpp) })
    { offset, next := 0, screen := s }).screen

/-- The pixels of an icon. -/
def iconPixels (x y w h : UInt32) (icon : Nat → UInt32) : List Pixel :=
  rectPixels x y w.toNat h.toNat fun j i => icon (j * w.toNat + i)

def smearPixels (ps : List Pixel) (s : Screen) : Screen :=
  ps.foldl (fun s p => smearPixel lerp (m.offset p.x p.y) p.color s) s

theorem smearPixels_append (ps qs : List Pixel) (s : Screen) :
    smearPixels lerp m (ps ++ qs) s = smearPixels lerp m qs (smearPixels lerp m ps s) :=
  List.foldl_append

end Drawing

/-! ## The loops -/

section Loops

variable {lerp : UInt8 → UInt8 → UInt32 → UInt8} {m : Mode} {x y : UInt32} {icon : Nat → UInt32}
  {s : Screen}

theorem iconRow (next w : Nat) :
    (List.range w).foldl (fun p _ => iconPixel lerp m icon p) ⟨m.offset x y, next, s⟩ =
      ⟨m.offset (x + UInt32.ofNat w) y, next + w,
        smearPixels lerp m (rowPixels x y w fun i => icon (next + i)) s⟩ := by
  apply foldl_range_rule (I := fun i p =>
    p = IconState.mk (m.offset (x + UInt32.ofNat i) y) (next + i)
      (smearPixels lerp m (rowPixels x y i fun i => icon (next + i)) s))
  · exact congrArg (fun x' => IconState.mk (m.offset x' y) next s) (UInt32.add_zero x).symm
  · rintro i _ - rfl
    rw [rowPixels_succ, smearPixels_append, offset_right]
    rfl

theorem iconRows (w : UInt32) (h : Nat) :
    (List.range h).foldl
        (fun p _ =>
          let p := (List.range w.toNat).foldl (fun p _ => iconPixel lerp m icon p) p
          { p with offset := p.offset + (m.width * m.bpp - w * m.bpp) })
        (⟨m.offset x y, 0, s⟩ : IconState) =
      ⟨m.offset x (y + UInt32.ofNat h), h * w.toNat,
        smearPixels lerp m (rectPixels x y w.toNat h fun j i => icon (j * w.toNat + i)) s⟩ := by
  apply foldl_range_rule (I := fun j p =>
    p = IconState.mk (m.offset x (y + UInt32.ofNat j)) (j * w.toNat)
      (smearPixels lerp m (rectPixels x y w.toNat j fun j i => icon (j * w.toNat + i)) s))
  · rw [Nat.zero_mul]
    exact congrArg (fun y' => IconState.mk (m.offset x y') 0 s) (UInt32.add_zero y).symm
  · rintro j _ - rfl
    rw [iconRow, UInt32.ofNat_toNat, rectPixels_succ, smearPixels_append, Nat.succ_mul]
    exact congrArg (fun off => IconState.mk off _ _) (offset_below x y w j)

theorem vgaFillicon_eq_smear (w h : UInt32) :
    vgaFillicon lerp m x y w h icon s = smearPixels lerp m (iconPixels x y w h icon) s := by
  unfold vgaFillicon
  rw [offset_start]
  exact congrArg IconState.screen (iconRows w h.toNat)

end Loops

/-! ## As draws -/

/-- What a colour makes of byte `k` of a pixel. -/
def mixByte (lerp : UInt8 → UInt8 → UInt32 → UInt8) (k : Nat) (color : UInt32) (old : UInt8) : UInt8 :=
  lerp old (channel color k) ((color >>> 24) &&& 255)

def Pixel.draw (m : Mode) (p : Pixel) : Draw UInt32 := ⟨(m.offset p.x p.y).toNat, p.color⟩

/-- The offsets of the pixel do not wrap. -/
def Pixel.Fits (m : Mode) (p : Pixel) : Prop := (m.offset p.x p.y).toNat + 2 < 2 ^ 32

section Draws

variable {lerp : UInt8 → UInt8 → UInt32 → UInt8} {m : Mode} {p : Pixel}

theorem Pixel.Fits.offset_add (h : p.Fits m) {b : UInt32} (hb : b.toNat < 3) :
    (m.offset p.x p.y + b).toNat = (m.offset p.x p.y).toNat + b.toNat := by
  unfold Pixel.Fits at h
  rw [UInt32.toNat_add]
  exact Nat.mod_eq_of_lt (by omega)

theorem Pixel.Fits.offsets (h : p.Fits m) :
    (m.offset p.x p.y + 1).toNat = (m.offset p.x p.y).toNat + 1 ∧
      (m.offset p.x p.y + 2).toNat = (m.offset p.x p.y).toNat + 2 :=
  ⟨h.offset_add (by decide), h.offset_add (by decide)⟩

theorem Pixel.Fits.avoids (h : p.Fits m) {a : Nat} (huntouched : ¬(p.draw m).Touches 3 a) :
    p.Avoids m a := by
  rintro b hb rfl
  have hofNat : (UInt32.ofNat b).toNat = b :=
    UInt32.toNat_ofNat_of_lt' (Nat.lt_trans hb (by decide))
  have hoffset := h.offset_add (b := UInt32.ofNat b) (by omega)
  rw [hofNat] at hoffset
  apply huntouched
  rw [hoffset]
  exact ⟨Nat.le_add_right _ _, Nat.add_lt_add_left hb _⟩

theorem Screen.blendFrom_of_ne {dst src : UInt32} {a : Nat} (h : a ≠ dst.toNat) (f : UInt8 → UInt8)
    (s : Screen) : (s.blendFrom dst src f).bytes a = s.bytes a :=
  Function.update_of_ne h _ _

theorem smearPixel_avoids {a : Nat} (h : p.Avoids m a) (s : Screen) :
    (smearPixel lerp (m.offset p.x p.y) p.color s).bytes a = s.bytes a := by
  obtain ⟨hzero, hone, htwo⟩ := h.offsets
  rw [smearPixel, Screen.blendFrom_of_ne htwo, Screen.blendFrom_of_ne hone,
    Screen.update_of_ne hzero]

theorem vgaPutpixel_paint (h : p.Fits m) (s : Screen) :
    (vgaPutpixel lerp m p.x p.y p.color s).bytes = paint 3 (mixByte lerp) (p.draw m) s.bytes := by
  obtain ⟨hone, htwo⟩ := h.offsets
  funext a
  by_cases htouches : (p.draw m).Touches 3 a
  · obtain ⟨k, hk, rfl⟩ := htouches.place
    rw [paint_at hk]
    unfold Pixel.draw
    obtain rfl | rfl | rfl : k = 0 ∨ k = 1 ∨ k = 2 := by omega
    all_goals
      simp [vgaPutpixel, Screen.update, hone, htwo, mixByte, channel]
  · rw [paint_untouched htouches, vgaPutpixel_avoids lerp m (h.avoids htouches)]

theorem smearPixel_smear (h : p.Fits m) (s : Screen) :
    (smearPixel lerp (m.offset p.x p.y) p.color s).bytes =
      smear 3 (mixByte lerp) (p.draw m) s.bytes := by
  obtain ⟨hone, htwo⟩ := h.offsets
  funext a
  by_cases htouches : (p.draw m).Touches 3 a
  · obtain ⟨k, hk, rfl⟩ := htouches.place
    unfold Pixel.draw smear Draw.Touches
    obtain rfl | rfl | rfl : k = 0 ∨ k = 1 ∨ k = 2 := by omega
    all_goals
      simp [smearPixel, Screen.blendFrom, Screen.update, hone, htwo, mixByte, channel]
  · rw [smear_untouched (by decide) htouches, smearPixel_avoids (h.avoids htouches)]

variable {ps : List Pixel} {s : Screen}

theorem drawPixels_paint (h : ∀ p ∈ ps, p.Fits m) :
    ∀ {s : Screen}, (drawPixels lerp m ps s).bytes =
      paintAll 3 (mixByte lerp) (ps.map (Pixel.draw m)) s.bytes := by
  induction ps with
  | nil => exact rfl
  | cons p ps ih =>
      intro s
      show (drawPixels lerp m ps (vgaPutpixel lerp m p.x p.y p.color s)).bytes = _
      rw [ih fun q hq => h q (List.mem_cons_of_mem p hq), vgaPutpixel_paint (h p List.mem_cons_self)]
      rfl

theorem smearPixels_smear (h : ∀ p ∈ ps, p.Fits m) :
    ∀ {s : Screen}, (smearPixels lerp m ps s).bytes =
      smearAll 3 (mixByte lerp) (ps.map (Pixel.draw m)) s.bytes := by
  induction ps with
  | nil => exact rfl
  | cons p ps ih =>
      intro s
      show (smearPixels lerp m ps (smearPixel lerp (m.offset p.x p.y) p.color s)).bytes = _
      rw [ih fun q hq => h q (List.mem_cons_of_mem p hq), smearPixel_smear (h p List.mem_cons_self)]
      rfl

/-- A split of the draws is a split of the pixels. -/
theorem draw_split {before after : List (Draw UInt32)} {d : Draw UInt32}
    (h : ps.map (Pixel.draw m) = before ++ d :: after) :
    ∃ before' p after', ps = before' ++ p :: after' ∧ before = before'.map (Pixel.draw m) ∧
      d = p.draw m ∧ after = after'.map (Pixel.draw m) := by
  obtain ⟨before', rest, rfl, rfl, hrest⟩ := List.map_eq_append_iff.mp h
  obtain ⟨p, after', rfl, rfl, rfl⟩ := List.map_eq_cons_iff.mp hrest
  exact ⟨before', p, after', rfl, rfl, rfl, rfl⟩

/-- It makes no difference to the pixel that its other bytes are blended with the first one. -/
def BlendsAlike (lerp : UInt8 → UInt8 → UInt32 → UInt8) (m : Mode) (p : Pixel)
    (bytes : Nat → UInt8) : Prop :=
  let offset := (m.offset p.x p.y).toNat
  let alpha := (p.color >>> 24) &&& 255
  ∀ k, 0 < k → k < 3 →
    lerp (lerp (bytes offset) (channel p.color 0) alpha) (channel p.color k) alpha =
      lerp (bytes (offset + k)) (channel p.color k) alpha

theorem smearPixels_eq_iff (hfits : ∀ p ∈ ps, p.Fits m)
    (hapart : ∀ p ∈ ps, ∀ q ∈ ps, (q.draw m).Apart 3 (p.draw m)) :
    (smearPixels lerp m ps s).bytes = (drawPixels lerp m ps s).bytes ↔
      ∀ before p after, ps = before ++ p :: after →
        (∀ q ∈ after, m.offset q.x q.y ≠ m.offset p.x p.y) →
        BlendsAlike lerp m p (drawPixels lerp m before s).bytes := by
  have hapart' : ∀ d ∈ ps.map (Pixel.draw m), ∀ d' ∈ ps.map (Pixel.draw m), d'.Apart 3 d := by
    intro d hd d' hd'
    obtain ⟨p, hp, rfl⟩ := List.mem_map.mp hd
    obtain ⟨q, hq, rfl⟩ := List.mem_map.mp hd'
    exact hapart p hp q hq
  rw [smearPixels_smear hfits, drawPixels_paint hfits, smearAll_eq_iff (by decide) hapart']
  constructor
  case mp =>
    rintro halike before p after rfl hlast
    rw [drawPixels_paint fun q hq => hfits q (List.mem_append_left _ hq)]
    apply halike (before.map (Pixel.draw m)) (p.draw m) (after.map (Pixel.draw m))
    · rw [List.map_append, List.map_cons]
    · intro d hd hoff
      obtain ⟨q, hq, rfl⟩ := List.mem_map.mp hd
      exact hlast q hq (UInt32.toNat_inj.mp hoff)
  case mpr =>
    intro halike before d after hsplit hlast
    obtain ⟨before', p, after', rfl, rfl, rfl, rfl⟩ := draw_split hsplit
    rw [← drawPixels_paint fun q hq => hfits q (List.mem_append_left _ hq)]
    apply halike before' p after' rfl
    intro q hq hoff
    exact hlast (q.draw m) (List.mem_map_of_mem hq) (congrArg UInt32.toNat hoff)

theorem smearPixels_eq_of_alike (hfits : ∀ p ∈ ps, p.Fits m)
    (halike : ∀ before p after, ps = before ++ p :: after →
      BlendsAlike lerp m p (drawPixels lerp m before s).bytes) :
    (smearPixels lerp m ps s).bytes = (drawPixels lerp m ps s).bytes := by
  rw [smearPixels_smear hfits, drawPixels_paint hfits]
  apply smearAll_eq_of_alike (by decide)
  intro before d after hsplit
  obtain ⟨before', p, after', rfl, rfl, rfl, rfl⟩ := draw_split hsplit
  rw [← drawPixels_paint fun q hq => hfits q (List.mem_append_left _ hq)]
  exact halike before' p after' rfl

end Draws

/-! ## Rectangles in the framebuffer -/

/-- Every byte of every pixel is in the framebuffer. -/
def InFramebuffer (m : Mode) (x y w h : UInt32) : Prop :=
  ∀ i < w.toNat, ∀ j < h.toNat,
    (x.toNat + i + (y.toNat + j) * m.width.toNat) * m.bpp.toNat + 2 < m.size

section Rectangles

variable {m : Mode} {x y w h : UInt32} {icon : Nat → UInt32}

theorem mem_rectPixels {color : Nat → Nat → UInt32} {w h : Nat} {p : Pixel}
    (hp : p ∈ rectPixels x y w h color) :
    ∃ i < w, ∃ j < h, p = ⟨x + UInt32.ofNat i, y + UInt32.ofNat j, color j i⟩ := by
  unfold rectPixels rowPixels at hp
  obtain ⟨j, hj, hrow⟩ := List.mem_flatMap.mp hp
  obtain ⟨i, hi, rfl⟩ := List.mem_map.mp hrow
  exact ⟨i, List.mem_range.mp hi, j, List.mem_range.mp hj, rfl⟩

theorem rect_offset {i j : Nat}
    (hlt : (x.toNat + i + (y.toNat + j) * m.width.toNat) * m.bpp.toNat < 2 ^ 32) :
    (m.offset (x + UInt32.ofNat i) (y + UInt32.ofNat j)).toNat =
      (x.toNat + i + (y.toNat + j) * m.width.toNat) * m.bpp.toNat := by
  have hofNat : m.offset (x + UInt32.ofNat i) (y + UInt32.ofNat j) =
      UInt32.ofNat ((x.toNat + i + (y.toNat + j) * m.width.toNat) * m.bpp.toNat) := by
    simp only [Mode.offset, UInt32.ofNat_mul, UInt32.ofNat_add, UInt32.ofNat_toNat]
  rw [hofNat, UInt32.toNat_ofNat_of_lt' hlt]

/-- The offset of a pixel of the rectangle is a multiple of the pixel size. -/
theorem InFramebuffer.offset_eq (hin : InFramebuffer m x y w h) (hsize : m.size ≤ 2 ^ 32)
    {color : Nat → Nat → UInt32} {p : Pixel} (hp : p ∈ rectPixels x y w.toNat h.toNat color) :
    ∃ n, (m.offset p.x p.y).toNat = n * m.bpp.toNat ∧ n * m.bpp.toNat + 2 < m.size := by
  obtain ⟨i, hi, j, hj, rfl⟩ := mem_rectPixels hp
  have hlt := hin i hi j hj
  exact ⟨_, rect_offset (by omega), hlt⟩

theorem InFramebuffer.fits (hin : InFramebuffer m x y w h) (hsize : m.size ≤ 2 ^ 32)
    {color : Nat → Nat → UInt32} {p : Pixel} (hp : p ∈ rectPixels x y w.toNat h.toNat color) :
    p.Fits m := by
  obtain ⟨n, hn, hlt⟩ := hin.offset_eq hsize hp
  unfold Pixel.Fits
  omega

/-- Pixels of three bytes or more are the same or disjoint. -/
theorem InFramebuffer.apart (hin : InFramebuffer m x y w h) (hsize : m.size ≤ 2 ^ 32)
    (hbpp : 3 ≤ m.bpp.toNat) {color : Nat → Nat → UInt32} {p q : Pixel}
    (hp : p ∈ rectPixels x y w.toNat h.toNat color)
    (hq : q ∈ rectPixels x y w.toNat h.toNat color) : (q.draw m).Apart 3 (p.draw m) := by
  obtain ⟨n, hn, -⟩ := hin.offset_eq hsize hp
  obtain ⟨n', hn', -⟩ := hin.offset_eq hsize hq
  show (m.offset q.x q.y).toNat = (m.offset p.x p.y).toNat ∨
    (m.offset q.x q.y).toNat + 3 ≤ (m.offset p.x p.y).toNat ∨
      (m.offset p.x p.y).toNat + 3 ≤ (m.offset q.x q.y).toNat
  rw [hn, hn']
  rcases Nat.lt_trichotomy n' n with hlt | rfl | hlt
  · have hle : (n' + 1) * m.bpp.toNat ≤ n * m.bpp.toNat := Nat.mul_le_mul_right _ hlt
    rw [Nat.succ_mul] at hle
    omega
  · exact .inl rfl
  · have hle : (n + 1) * m.bpp.toNat ≤ n' * m.bpp.toNat := Nat.mul_le_mul_right _ hlt
    rw [Nat.succ_mul] at hle
    omega

/-- Only the first `w * h` colours count. -/
theorem iconPixels_const {c : UInt32} (hicon : ∀ k < w.toNat * h.toNat, icon k = c) :
    iconPixels x y w h icon = rectPixels x y w.toNat h.toNat fun _ _ => c := by
  unfold iconPixels rectPixels rowPixels
  refine List.flatMap_congr fun j hj => List.map_congr_left fun i hi => ?_
  have hi := List.mem_range.mp hi
  have hj := List.mem_range.mp hj
  have hindex : j * w.toNat + i < w.toNat * h.toNat := by
    calc j * w.toNat + i
        < j * w.toNat + w.toNat := Nat.add_lt_add_left hi _
      _ = (j + 1) * w.toNat := (Nat.succ_mul _ _).symm
      _ ≤ h.toNat * w.toNat := Nat.mul_le_mul_right _ hj
      _ = w.toNat * h.toNat := Nat.mul_comm _ _
  exact congrArg (Pixel.mk _ _) (hicon _ hindex)

end Rectangles

/-! ## When an icon is drawn right -/

/-- The framebuffer is left as by `vga_putpixel` on every pixel, and as by `vga_fillrect` where the
icon has one colour. -/
def FilliconRight (m : Mode) (x y w h : UInt32) (icon : Nat → UInt32) (s : Screen) : Prop :=
  (vgaFillicon exactLerp m x y w h icon s).bytes =
      (drawPixels exactLerp m (iconPixels x y w h icon) s).bytes ∧
    ∀ c, (∀ k < w.toNat * h.toNat, icon k = c) →
      (vgaFillicon exactLerp m x y w h icon s).bytes = (vgaFillrect exactLerp m x y w h c s).bytes

theorem filliconRight_iff_smear {m : Mode} {x y w h : UInt32} {icon : Nat → UInt32} {s : Screen} :
    FilliconRight m x y w h icon s ↔
      (smearPixels exactLerp m (iconPixels x y w h icon) s).bytes =
        (drawPixels exactLerp m (iconPixels x y w h icon) s).bytes := by
  unfold FilliconRight
  rw [vgaFillicon_eq_smear]
  constructor
  case mp => exact And.left
  case mpr =>
    intro heq
    refine ⟨heq, fun c hicon => ?_⟩
    rw [heq, vgaFillrect_eq_draw, iconPixels_const hicon]

/-! ## Rectangles no wider than the screen -/

section Narrow

variable {m : Mode} {x y w h : UInt32} {color : Nat → Nat → UInt32} {s : Screen}

/-- No pixel of such a rectangle is drawn twice. -/
theorem InFramebuffer.pairwise_ne (hin : InFramebuffer m x y w h) (hsize : m.size ≤ 2 ^ 32)
    (hbpp : 0 < m.bpp.toNat) (hnarrow : w.toNat ≤ m.width.toNat) :
    (rectPixels x y w.toNat h.toNat color).Pairwise fun p q =>
      m.offset p.x p.y ≠ m.offset q.x q.y := by
  have hne : ∀ {i j i' j' : Nat}, i < w.toNat → j < h.toNat → i' < w.toNat → j' < h.toNat →
      i + j * m.width.toNat < i' + j' * m.width.toNat →
      m.offset (x + UInt32.ofNat i) (y + UInt32.ofNat j) ≠
        m.offset (x + UInt32.ofNat i') (y + UInt32.ofNat j') := by
    intro i j i' j' hi hj hi' hj' hlt heq
    have hplace := hin i hi j hj
    have hplace' := hin i' hi' j' hj'
    have hoffset := congrArg UInt32.toNat heq
    rw [rect_offset (by omega), rect_offset (by omega)] at hoffset
    have hpixel := Nat.eq_of_mul_eq_mul_right hbpp hoffset
    rw [Nat.add_mul, Nat.add_mul] at hpixel
    omega
  unfold rectPixels rowPixels
  rw [List.pairwise_flatMap]
  constructor
  · intro j hj
    rw [List.pairwise_map]
    refine List.pairwise_lt_range.imp_of_mem fun {i i'} hi hi' hlt => ?_
    exact hne (List.mem_range.mp hi) (List.mem_range.mp hj) (List.mem_range.mp hi')
      (List.mem_range.mp hj) (Nat.add_lt_add_right hlt _)
  · refine List.pairwise_lt_range.imp_of_mem fun {j j'} hj hj' hlt => ?_
    intro p hp q hq
    obtain ⟨i, hi, rfl⟩ := List.mem_map.mp hp
    obtain ⟨i', hi', rfl⟩ := List.mem_map.mp hq
    have hi := List.mem_range.mp hi
    refine hne hi (List.mem_range.mp hj) (List.mem_range.mp hi') (List.mem_range.mp hj') ?_
    have hrow : (j + 1) * m.width.toNat ≤ j' * m.width.toNat := Nat.mul_le_mul_right _ hlt
    rw [Nat.succ_mul] at hrow
    omega

theorem blendsAlike_congr {lerp : UInt8 → UInt8 → UInt32 → UInt8} {p : Pixel}
    {bytes bytes' : Nat → UInt8}
    (h : ∀ k < 3, bytes' ((m.offset p.x p.y).toNat + k) = bytes ((m.offset p.x p.y).toNat + k)) :
    BlendsAlike lerp m p bytes' ↔ BlendsAlike lerp m p bytes := by
  have hfirst : bytes' (m.offset p.x p.y).toNat = bytes (m.offset p.x p.y).toNat := h 0 (by decide)
  unfold BlendsAlike
  refine forall_congr' fun k => forall_congr' fun _ => forall_congr' fun hk => ?_
  rw [hfirst, h k hk]

/-- **On such a rectangle it is the framebuffer before the call that decides.** -/
theorem InFramebuffer.right_iff_initial (hin : InFramebuffer m x y w h) (hbpp : 3 ≤ m.bpp.toNat)
    (hsize : m.size ≤ 2 ^ 32) (hnarrow : w.toNat ≤ m.width.toNat) (icon : Nat → UInt32) :
    FilliconRight m x y w h icon s ↔
      ∀ p ∈ iconPixels x y w h icon, BlendsAlike exactLerp m p s.bytes := by
  have hfits : ∀ p ∈ iconPixels x y w h icon, p.Fits m := fun p hp => hin.fits hsize hp
  have hapart : ∀ p ∈ iconPixels x y w h icon, ∀ q ∈ iconPixels x y w h icon,
      (q.draw m).Apart 3 (p.draw m) := fun p hp q hq => hin.apart hsize hbpp hp hq
  have hpairwise : (iconPixels x y w h icon).Pairwise fun p q =>
      m.offset p.x p.y ≠ m.offset q.x q.y :=
    hin.pairwise_ne hsize (Nat.lt_of_lt_of_le (by decide) hbpp) hnarrow
  -- the pixels drawn before `p` leave its bytes as they were
  have hinitial : ∀ before p after, iconPixels x y w h icon = before ++ p :: after →
      (BlendsAlike exactLerp m p (drawPixels exactLerp m before s).bytes ↔
        BlendsAlike exactLerp m p s.bytes) := by
    intro before p after hsplit
    rw [hsplit] at hfits hapart hpairwise
    apply blendsAlike_congr
    intro k hk
    apply drawPixels_avoids
    intro q hq
    have hne : m.offset q.x q.y ≠ m.offset p.x p.y :=
      (List.pairwise_append.mp hpairwise).2.2 q hq p List.mem_cons_self
    have hq' : q ∈ before ++ p :: after := List.mem_append_left _ hq
    refine (hfits q hq').avoids ?_
    exact (hapart p (List.mem_append_right before List.mem_cons_self) q hq').not_touches
      (fun hoff => hne (UInt32.toNat_inj.mp hoff)) hk
  rw [filliconRight_iff_smear, smearPixels_eq_iff hfits hapart]
  constructor
  case mp =>
    intro halike p hp
    obtain ⟨before, after, hsplit⟩ := List.append_of_mem hp
    refine (hinitial before p after hsplit).mp (halike before p after hsplit ?_)
    rw [hsplit] at hpairwise
    intro q hq hoff
    exact (List.pairwise_cons.mp (List.pairwise_append.mp hpairwise).2.1).1 q hq hoff.symm
  case mpr =>
    intro halike before p after hsplit _
    refine (hinitial before p after hsplit).mpr (halike p ?_)
    rw [hsplit]
    exact List.mem_append_right before List.mem_cons_self

end Narrow

/-! ## When it draws an icon right -/

/-- **`vga_fillicon` draws an icon right iff no pixel tells apart the bytes it is blended with.** With
pixels of three bytes or more this is about the last pixel drawn in each place, and the bytes there when
it is drawn; in a rectangle no wider than the screen it is about every pixel, and the bytes before the
call. With smaller pixels, which overlap, it is enough if it holds of all. -/
theorem filliconRight_iff (m : Mode) (hsize : m.size ≤ 2 ^ 32) (x y w h : UInt32)
    (hin : InFramebuffer m x y w h) (icon : Nat → UInt32) (s : Screen) :
    (3 ≤ m.bpp.toNat →
      (FilliconRight m x y w h icon s ↔
        ∀ before p after, iconPixels x y w h icon = before ++ p :: after →
          (∀ q ∈ after, m.offset q.x q.y ≠ m.offset p.x p.y) →
          BlendsAlike exactLerp m p (drawPixels exactLerp m before s).bytes)) ∧
    (3 ≤ m.bpp.toNat → w.toNat ≤ m.width.toNat →
      (FilliconRight m x y w h icon s ↔
        ∀ p ∈ iconPixels x y w h icon, BlendsAlike exactLerp m p s.bytes)) ∧
    ((∀ before p after, iconPixels x y w h icon = before ++ p :: after →
        BlendsAlike exactLerp m p (drawPixels exactLerp m before s).bytes) →
      FilliconRight m x y w h icon s) := by
  have hfits : ∀ p ∈ iconPixels x y w h icon, p.Fits m := fun p hp => hin.fits hsize hp
  refine ⟨fun hbpp => ?_, fun hbpp hnarrow => hin.right_iff_initial hbpp hsize hnarrow icon, fun halike => ?_⟩
  · rw [filliconRight_iff_smear]
    exact smearPixels_eq_iff hfits fun p hp q hq => hin.apart hsize hbpp hp hq
  · rw [filliconRight_iff_smear]
    exact smearPixels_eq_of_alike hfits halike

/-- Of a solid pixel nothing is left of what was there. -/
theorem blendsAlike_solid {m : Mode} {p : Pixel} (hsolid : (p.color >>> 24) &&& 255 = 255)
    (bytes : Nat → UInt8) : BlendsAlike exactLerp m p bytes := by
  intro k _ _
  rw [hsolid, exactLerp_solid, exactLerp_solid]

/-- Three bytes per pixel, `2 * 1` pixels, and the bytes 0 to 5. -/
def twoPixels : Mode := ⟨2, 1, 3⟩

def twoPixelScreen : Screen := ⟨UInt8.ofNat, 0, 0, [], []⟩

theorem inFramebuffer_twoPixels : InFramebuffer twoPixels 0 0 2 1 := by
  unfold InFramebuffer
  decide

/-- A solid icon. -/
theorem filliconRight_solid :
    FilliconRight twoPixels 0 0 2 1 (fun _ => 0xFF0000FF) twoPixelScreen := by
  have hiff := filliconRight_iff twoPixels (by decide) 0 0 2 1 inFramebuffer_twoPixels
    (fun _ => 0xFF0000FF) twoPixelScreen
  refine (hiff.1 (by decide)).mpr fun before p after hsplit _ => ?_
  have hmem : p ∈ iconPixels 0 0 2 1 fun _ => 0xFF0000FF := by
    rw [hsplit]
    exact List.mem_append_right before List.mem_cons_self
  have hcolor : p.color = 0xFF0000FF := by
    obtain ⟨_, _, _, _, rfl⟩ := mem_rectPixels hmem
    rfl
  apply blendsAlike_solid
  rw [hcolor]
  decide

/-- A transparent icon, which should leave the framebuffer as it is. -/
theorem not_filliconRight :
    InFramebuffer twoPixels 0 0 2 1 ∧ ¬FilliconRight twoPixels 0 0 2 1 (fun _ => 0) twoPixelScreen := by
  refine ⟨inFramebuffer_twoPixels, ?_⟩
  rw [filliconRight_iff_smear]
  intro heq
  have hsmeared : (smearPixels exactLerp twoPixels (iconPixels 0 0 2 1 fun _ => 0)
      twoPixelScreen).bytes 1 = exactLerp (exactLerp 0 0 0) 0 0 := rfl
  have hdrawn : (drawPixels exactLerp twoPixels (iconPixels 0 0 2 1 fun _ => 0)
      twoPixelScreen).bytes 1 = exactLerp 1 0 0 := rfl
  rw [heq, hdrawn, exactLerp_zero, exactLerp_zero, exactLerp_zero] at hsmeared
  exact absurd hsmeared (by decide)

end Neutrino.Drivers
