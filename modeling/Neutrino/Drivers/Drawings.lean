import Neutrino.Drivers.ConsoleGlyphs
import Neutrino.Drivers.FillIcon

/-!
# Pictures

What a sequence of calls of `vga_fillrect` and `vga_fillicon` puts on the screen, pixel by pixel: each pixel
goes through the drawings that cover it, in order, whatever becomes of the others (`runs_shown`). So
drawings that have no pixel in common can be made in any order (`apart_drawings`).
-/

namespace Neutrino.Drivers

open Neutrino.Lib

/-! ## Pixels -/

structure Rgb where
  blue : UInt8
  green : UInt8
  red : UInt8
  deriving DecidableEq, Repr

/-- The pixel in column `x` and row `y`. -/
def shown (m : Mode) (s : Screen) (x y : Nat) : Rgb where
  blue := s.bytes (m.byteAt x y 0)
  green := s.bytes (m.byteAt x y 1)
  red := s.bytes (m.byteAt x y 2)

section Colours

variable (lerp : UInt8 → UInt8 → UInt32 → UInt8)

/-- Each byte is blended with its own. -/
def blend (color : UInt32) (old : Rgb) : Rgb where
  blue := mixByte lerp 0 color old.blue
  green := mixByte lerp 1 color old.green
  red := mixByte lerp 2 color old.red

/-- Green and red are blended with what has become of blue. -/
def blendFirst (color : UInt32) (old : Rgb) : Rgb where
  blue := mixByte lerp 0 color old.blue
  green := mixByte lerp 1 color (mixByte lerp 0 color old.blue)
  red := mixByte lerp 2 color (mixByte lerp 0 color old.blue)

end Colours

/-! ## Drawings -/

structure Area where
  x : UInt32
  y : UInt32
  w : UInt32
  h : UInt32
  deriving DecidableEq, Repr

def Area.Covers (a : Area) (x y : Nat) : Prop :=
  (a.y.toNat ≤ y ∧ y < a.y.toNat + a.h.toNat) ∧ a.x.toNat ≤ x ∧ x < a.x.toNat + a.w.toNat

instance (a : Area) (x y : Nat) : Decidable (a.Covers x y) := inferInstanceAs (Decidable (_ ∧ _))

/-- The area does not reach over the edges of the screen. -/
def Area.On (a : Area) (m : Mode) : Prop :=
  a.x.toNat + a.w.toNat ≤ m.width.toNat ∧ a.y.toNat + a.h.toNat ≤ m.height.toNat

instance (a : Area) (m : Mode) : Decidable (a.On m) := inferInstanceAs (Decidable (_ ∧ _))

inductive Drawing where
  | rect (area : Area) (c : UInt32)
  | icon (area : Area) (colors : Nat → UInt32)

namespace Drawing

def area : Drawing → Area
  | .rect area _ => area
  | .icon area _ => area

def run (lerp : UInt8 → UInt8 → UInt32 → UInt8) (m : Mode) (s : Screen) : Drawing → Screen
  | .rect a c => vgaFillrect lerp m a.x a.y a.w a.h c s
  | .icon a colors => vgaFillicon lerp m a.x a.y a.w a.h colors s

/-- What becomes of the pixel in column `x` and row `y`. -/
def paint (lerp : UInt8 → UInt8 → UInt32 → UInt8) (x y : Nat) (old : Rgb) (d : Drawing) : Rgb :=
  if d.area.Covers x y then
    match d with
    | .rect _ c => blend lerp c old
    | .icon a colors =>
        blendFirst lerp (colors ((y - a.y.toNat) * a.w.toNat + (x - a.x.toNat))) old
  else old

end Drawing

/-! ## One pixel at a time -/

/-- `step` changes the three bytes of its pixel, and those by `mix`. -/
structure PixelStep (m : VideoMode) (step : Pixel → Screen → Screen) (mix : UInt32 → Rgb → Rgb) :
    Prop where
  pixel : ∀ (p : Pixel) (s : Screen) (x y : Nat), p.x.toNat < m.width.toNat →
    p.y.toNat < m.height.toNat → x < m.width.toNat → shown m.toMode (step p s) x y =
      if x = p.x.toNat ∧ y = p.y.toNat then mix p.color (shown m.toMode s x y)
      else shown m.toMode s x y
  rest : ∀ (p : Pixel) (s : Screen) (a : Nat), p.Avoids m.toMode a → (step p s).bytes a = s.bytes a

section Steps

variable {m : VideoMode} {lerp : UInt8 → UInt8 → UInt32 → UInt8}

theorem putpixel_step (m : VideoMode) (lerp : UInt8 → UInt8 → UInt32 → UInt8) :
    PixelStep m (fun p => vgaPutpixel lerp m.toMode p.x p.y p.color) (blend lerp) where
  pixel p s x y hpx hpy hx := by
    simp only [shown]
    rw [vgaPutpixel_byteAt lerp s p.color hpx hpy hx (by decide),
      vgaPutpixel_byteAt lerp s p.color hpx hpy hx (by decide),
      vgaPutpixel_byteAt lerp s p.color hpx hpy hx (by decide)]
    by_cases hhere : x = p.x.toNat ∧ y = p.y.toNat
    · simp only [if_pos hhere]
      rfl
    · simp only [if_neg hhere]
  rest p s a ha := vgaPutpixel_avoids lerp m.toMode ha s

/-- Where the draw of a pixel on the screen starts. -/
theorem draw_off {p : Pixel} (hpx : p.x.toNat < m.width.toNat) (hpy : p.y.toNat < m.height.toNat) :
    (p.draw m.toMode).off = m.byteAt p.x.toNat p.y.toNat 0 := by
  have hoffset := offset_toNat (b := 0) hpx hpy (by decide)
  rwa [UInt32.add_zero] at hoffset

theorem smearPixel_step (m : VideoMode) (lerp : UInt8 → UInt8 → UInt32 → UInt8) :
    PixelStep m (fun p => smearPixel lerp (m.offset p.x p.y) p.color) (blendFirst lerp) where
  pixel p s x y hpx hpy hx := by
    have hoff := draw_off hpx hpy
    have hfits : p.Fits m.toMode := by
      have hlt := byteAt_lt (b := 2) hpx hpy (by decide)
      have hsize := m.size_lt
      show (p.draw m.toMode).off + 2 < 2 ^ 32
      rw [hoff]
      unfold Mode.byteAt at hlt ⊢
      omega
    simp only [shown]
    rw [smearPixel_smear hfits]
    by_cases hhere : x = p.x.toNat ∧ y = p.y.toNat
    · obtain ⟨rfl, rfl⟩ := hhere
      have hone : m.byteAt p.x.toNat p.y.toNat 1 = (p.draw m.toMode).off + 1 := by rw [hoff]; rfl
      have htwo : m.byteAt p.x.toNat p.y.toNat 2 = (p.draw m.toMode).off + 2 := by rw [hoff]; rfl
      rw [if_pos ⟨rfl, rfl⟩, hone, htwo, ← hoff, smear_off, smear_at (by decide) (by decide),
        smear_at (by decide) (by decide)]
      rfl
    · have huntouched : ∀ b < 3, ¬(p.draw m.toMode).Touches 3 (m.byteAt x y b) := by
        intro b hb htouches
        obtain ⟨k, hk, hplace⟩ := htouches.place
        rw [hoff] at hplace
        obtain ⟨hcol, hrow, -⟩ := byteAt_inj hx hpx hb hk hplace
        exact hhere ⟨hcol, hrow⟩
      rw [if_neg hhere, smear_untouched (by decide) (huntouched 0 (by decide)),
        smear_untouched (by decide) (huntouched 1 (by decide)),
        smear_untouched (by decide) (huntouched 2 (by decide))]
  rest p s a ha := smearPixel_avoids ha s

end Steps

/-! ## Rows and areas -/

section Areas

variable {m : VideoMode} {step : Pixel → Screen → Screen} {mix : UInt32 → Rgb → Rgb}

theorem PixelStep.row (h : PixelStep m step mix) {x y : UInt32} (hy : y.toNat < m.height.toNat)
    (color : Nat → UInt32) (s : Screen) {x' y' : Nat} (hx' : x' < m.width.toNat) {w : Nat}
    (hw : x.toNat + w ≤ m.width.toNat) :
    shown m.toMode ((rowPixels x y w color).foldl (fun s p => step p s) s) x' y' =
      if y' = y.toNat ∧ x.toNat ≤ x' ∧ x' < x.toNat + w then
        mix (color (x' - x.toNat)) (shown m.toMode s x' y')
      else shown m.toMode s x' y' := by
  induction w with
  | zero => exact (if_neg (by omega)).symm
  | succ w ih =>
      have hcol : (x + UInt32.ofNat w).toNat = x.toNat + w := by
        have hwidth := m.width.toNat_lt
        rw [UInt32.toNat_add, UInt32.toNat_ofNat']
        omega
      rw [rowPixels_succ, List.foldl_append, List.foldl_cons, List.foldl_nil,
        h.pixel _ _ _ _ (by rw [hcol]; omega) hy hx', ih (by omega), hcol]
      by_cases hlast : x' = x.toNat + w ∧ y' = y.toNat
      · obtain ⟨rfl, rfl⟩ := hlast
        rw [if_pos ⟨rfl, rfl⟩, if_neg (by omega), if_pos (by omega), Nat.add_sub_cancel_left]
      · rw [if_neg hlast]
        by_cases hbefore : y' = y.toNat ∧ x.toNat ≤ x' ∧ x' < x.toNat + w
        · rw [if_pos hbefore, if_pos (by omega)]
        · rw [if_neg hbefore, if_neg (by omega)]

theorem PixelStep.rect (h : PixelStep m step mix) {x y : UInt32} {w : Nat}
    (hw : x.toNat + w ≤ m.width.toNat) (color : Nat → Nat → UInt32) (s : Screen) {x' y' : Nat}
    (hx' : x' < m.width.toNat) {n : Nat} (hn : y.toNat + n ≤ m.height.toNat) :
    shown m.toMode ((rectPixels x y w n color).foldl (fun s p => step p s) s) x' y' =
      if (y.toNat ≤ y' ∧ y' < y.toNat + n) ∧ x.toNat ≤ x' ∧ x' < x.toNat + w then
        mix (color (y' - y.toNat) (x' - x.toNat)) (shown m.toMode s x' y')
      else shown m.toMode s x' y' := by
  induction n with
  | zero => exact (if_neg (by omega)).symm
  | succ n ih =>
      have hrow : (y + UInt32.ofNat n).toNat = y.toNat + n := by
        have hheight := m.height.toNat_lt
        rw [UInt32.toNat_add, UInt32.toNat_ofNat']
        omega
      rw [rectPixels_succ, List.foldl_append, h.row (by rw [hrow]; omega) _ _ hx' hw, ih (by omega), hrow]
      by_cases hlast : y' = y.toNat + n ∧ x.toNat ≤ x' ∧ x' < x.toNat + w
      · obtain ⟨rfl, hcols⟩ := hlast
        rw [if_pos ⟨rfl, hcols⟩, if_neg (by omega), if_pos (by omega), Nat.add_sub_cancel_left]
      · rw [if_neg hlast]
        by_cases hbefore : (y.toNat ≤ y' ∧ y' < y.toNat + n) ∧ x.toNat ≤ x' ∧ x' < x.toNat + w
        · rw [if_pos hbefore, if_pos (by omega)]
        · rw [if_neg hbefore, if_neg (by omega)]

theorem PixelStep.untouched (h : PixelStep m step mix) {a : Nat} : ∀ {ps : List Pixel} (s : Screen),
    (∀ p ∈ ps, p.Avoids m.toMode a) → (ps.foldl (fun s p => step p s) s).bytes a = s.bytes a
  | [], _, _ => rfl
  | p :: ps, s, hps => by
      rw [List.foldl_cons, h.untouched _ fun q hq => hps q (List.mem_cons_of_mem p hq),
        h.rest p s a (hps p List.mem_cons_self)]

/-- The pixels of an area on the screen have only bytes of the screen. -/
theorem Area.On.avoids {area : Area} (hon : area.On m.toMode) {a : Nat}
    (ha : ∀ x y b, x < m.width.toNat → y < m.height.toNat → b < 3 → a ≠ m.byteAt x y b)
    {color : Nat → Nat → UInt32} :
    ∀ p ∈ rectPixels area.x area.y area.w.toNat area.h.toNat color, p.Avoids m.toMode a := by
  intro p hp
  obtain ⟨i, hi, j, hj, rfl⟩ := mem_rectPixels hp
  obtain ⟨hwidth, hheight⟩ := hon
  have hwlt := m.width.toNat_lt
  have hhlt := m.height.toNat_lt
  have hcol : (area.x + UInt32.ofNat i).toNat < m.width.toNat := by
    rw [UInt32.toNat_add, UInt32.toNat_ofNat']
    omega
  have hrow : (area.y + UInt32.ofNat j).toNat < m.height.toNat := by
    rw [UInt32.toNat_add, UInt32.toNat_ofNat']
    omega
  intro b hb
  have hb' : (UInt32.ofNat b).toNat < 3 := by
    rw [UInt32.toNat_ofNat_of_lt' (Nat.lt_trans hb (by decide))]
    exact hb
  rw [offset_toNat hcol hrow hb']
  exact ha _ _ _ hcol hrow hb'

end Areas

/-! ## Sequences of drawings -/

section Drawings

variable {m : VideoMode} {lerp : UInt8 → UInt8 → UInt32 → UInt8}

/-- **One drawing.** -/
theorem run_shown {d : Drawing} (hon : d.area.On m.toMode) (s : Screen) {x y : Nat}
    (hx : x < m.width.toNat) :
    shown m.toMode (d.run lerp m.toMode s) x y = d.paint lerp x y (shown m.toMode s x y) := by
  cases d with
  | rect a c =>
      show shown m.toMode (vgaFillrect lerp m.toMode a.x a.y a.w a.h c s) x y = _
      rw [vgaFillrect_eq_draw]
      exact (putpixel_step m lerp).rect hon.1 (fun _ _ => c) s hx hon.2
  | icon a colors =>
      show shown m.toMode (vgaFillicon lerp m.toMode a.x a.y a.w a.h colors s) x y = _
      rw [vgaFillicon_eq_smear]
      exact (smearPixel_step m lerp).rect hon.1 (fun j i => colors (j * a.w.toNat + i)) s hx hon.2

theorem run_rest {d : Drawing} (hon : d.area.On m.toMode) (s : Screen) {a : Nat}
    (ha : ∀ x y b, x < m.width.toNat → y < m.height.toNat → b < 3 → a ≠ m.byteAt x y b) :
    (d.run lerp m.toMode s).bytes a = s.bytes a := by
  cases d with
  | rect area c =>
      show (vgaFillrect lerp m.toMode area.x area.y area.w area.h c s).bytes a = _
      rw [vgaFillrect_eq_draw]
      exact (putpixel_step m lerp).untouched s (hon.avoids ha)
  | icon area colors =>
      show (vgaFillicon lerp m.toMode area.x area.y area.w area.h colors s).bytes a = _
      rw [vgaFillicon_eq_smear]
      exact (smearPixel_step m lerp).untouched s (hon.avoids ha)

/-- **What a sequence of drawings shows.** Each pixel has gone through the drawings that cover it, in order. -/
theorem runs_shown : ∀ {ds : List Drawing} (s : Screen), (∀ d ∈ ds, d.area.On m.toMode) →
    ∀ {x y : Nat}, x < m.width.toNat →
      shown m.toMode (ds.foldl (Drawing.run lerp m.toMode) s) x y =
        ds.foldl (Drawing.paint lerp x y) (shown m.toMode s x y)
  | [], _, _, _, _, _ => rfl
  | d :: ds, s, hds, x, y, hx => by
      rw [List.foldl_cons, runs_shown _ (fun q hq => hds q (List.mem_cons_of_mem d hq)) hx,
        run_shown (hds d List.mem_cons_self) s hx, List.foldl_cons]

/-- No byte changes that is not a colour byte of a pixel. -/
theorem runs_rest {a : Nat}
    (ha : ∀ x y b, x < m.width.toNat → y < m.height.toNat → b < 3 → a ≠ m.byteAt x y b) :
    ∀ {ds : List Drawing} (s : Screen), (∀ d ∈ ds, d.area.On m.toMode) →
      (ds.foldl (Drawing.run lerp m.toMode) s).bytes a = s.bytes a
  | [], _, _ => rfl
  | d :: ds, s, hds => by
      rw [List.foldl_cons, runs_rest ha _ fun q hq => hds q (List.mem_cons_of_mem d hq),
        run_rest (hds d List.mem_cons_self) s ha]

/-! ## The order of drawings -/

/-- No pixel is covered by both. -/
def Drawing.Apart (d d' : Drawing) : Prop := ∀ x y, ¬(d.area.Covers x y ∧ d'.area.Covers x y)

theorem Drawing.Apart.symm {d d' : Drawing} (h : d.Apart d') : d'.Apart d :=
  fun x y hboth => h x y hboth.symm

theorem Drawing.paint_uncovered {d : Drawing} {x y : Nat} (h : ¬d.area.Covers x y) (old : Rgb) :
    d.paint lerp x y old = old :=
  if_neg h

theorem Drawing.Apart.paint_comm {d d' : Drawing} (h : d.Apart d') (x y : Nat) (old : Rgb) :
    d'.paint lerp x y (d.paint lerp x y old) = d.paint lerp x y (d'.paint lerp x y old) := by
  by_cases hd : d.area.Covers x y
  · have hd' : ¬d'.area.Covers x y := fun hd' => h x y ⟨hd, hd'⟩
    rw [Drawing.paint_uncovered hd', Drawing.paint_uncovered hd']
  · rw [Drawing.paint_uncovered hd, Drawing.paint_uncovered hd]

/-- **Drawings with no pixel in common** can be made in any order. -/
theorem apart_drawings (m : VideoMode) (lerp : UInt8 → UInt8 → UInt32 → UInt8) (ds ds' : List Drawing)
    (hds : ∀ d ∈ ds, d.area.On m.toMode) (hapart : ds.Pairwise Drawing.Apart) (hperm : ds.Perm ds')
    (s : Screen) :
    (ds.foldl (Drawing.run lerp m.toMode) s).bytes = (ds'.foldl (Drawing.run lerp m.toMode) s).bytes := by
  have hds' : ∀ d ∈ ds', d.area.On m.toMode := fun d hd => hds d (hperm.mem_iff.mpr hd)
  have hshown : ∀ {x y : Nat}, x < m.width.toNat →
      shown m.toMode (ds.foldl (Drawing.run lerp m.toMode) s) x y =
        shown m.toMode (ds'.foldl (Drawing.run lerp m.toMode) s) x y := by
    intro x y hx
    rw [runs_shown s hds hx, runs_shown s hds' hx]
    apply hperm.foldl_eq'
    intro d hd d' hd' old
    by_cases hsame : d = d'
    · rw [hsame]
    · have : Std.Symm Drawing.Apart := ⟨fun _ _ => Drawing.Apart.symm⟩
      exact (hapart.forall hd hd' hsame).paint_comm x y old
  funext a
  by_cases ha : ∃ x y b, x < m.width.toNat ∧ y < m.height.toNat ∧ b < 3 ∧ a = m.byteAt x y b
  · obtain ⟨x, y, b, hx, hy, hb, rfl⟩ := ha
    have hpixel := hshown (y := y) hx
    obtain rfl | rfl | rfl : b = 0 ∨ b = 1 ∨ b = 2 := by omega
    · exact congrArg Rgb.blue hpixel
    · exact congrArg Rgb.green hpixel
    · exact congrArg Rgb.red hpixel
  · have hrest : ∀ x y b, x < m.width.toNat → y < m.height.toNat → b < 3 → a ≠ m.byteAt x y b :=
      fun x y b hx hy hb hab => ha ⟨x, y, b, hx, hy, hb, hab⟩
    rw [runs_rest hrest s hds, runs_rest hrest s hds']

end Drawings

/-! ### A rectangle and an icon next to it -/

theorem beside_either_order :
    (Drawing.run lerpByte twoCells.toMode (Drawing.run lerpByte twoCells.toMode Console.cleared.screen
        (.rect ⟨0, 0, 8, 9⟩ 0xFFFF0000)) (.icon ⟨8, 0, 8, 9⟩ UInt32.ofNat)).bytes =
      (Drawing.run lerpByte twoCells.toMode (Drawing.run lerpByte twoCells.toMode Console.cleared.screen
        (.icon ⟨8, 0, 8, 9⟩ UInt32.ofNat)) (.rect ⟨0, 0, 8, 9⟩ 0xFFFF0000)).bytes := by
  refine apart_drawings twoCells lerpByte [.rect ⟨0, 0, 8, 9⟩ 0xFFFF0000, .icon ⟨8, 0, 8, 9⟩ UInt32.ofNat]
    [.icon ⟨8, 0, 8, 9⟩ UInt32.ofNat, .rect ⟨0, 0, 8, 9⟩ 0xFFFF0000] (by decide) ?_ (.swap _ _ [])
    Console.cleared.screen
  rw [List.pairwise_pair]
  rintro x y ⟨⟨-, -, hleft⟩, -, hright, -⟩
  exact absurd hleft (Nat.not_lt.mpr hright)

end Neutrino.Drivers
