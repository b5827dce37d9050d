import Neutrino.Drivers.ConsoleBounds
import Neutrino.Drivers.VgaPixels

/-!
# What the console shows

The default background is transparent: its alpha byte is 0, so drawing an unset bit of a glyph leaves
the pixel as it is. Characters pile up. On a screen that was cleared before, a cell shows all the glyphs
drawn there since then, or since it was scrolled in (`vgaPuts_depicts`), and so the last one alone
only if it covers those under it (`vgaPuts_shows_iff`). A backspace in particular, which draws a space,
erases nothing.
-/

namespace Neutrino.Drivers

open Neutrino.Lib

/-- `vga_lerp` is exact where the console uses it. -/
structure ExactLerp (lerp : UInt8 → UInt8 → UInt32 → UInt8) : Prop where
  zero : ∀ old new, lerp old new 0 = old
  full : ∀ old new, lerp old new 255 = new

/-- The glyph of `c` has a pixel in this row and column. -/
def glyphBit (c : Int8) (row col : Nat) : Bool := fontBit (fontRow c.toUInt8 row) col

/-! ## Pictures -/

/-- The screen is white where `lit` is true, and black elsewhere. -/
structure Depicts (m : VideoMode) (s : Screen) (lit : Nat → Nat → Bool) : Prop where
  fg : s.fg = 0xFFFFFFFF
  bg : s.bg = 0x00000000
  pixels : ∀ x y b, x < m.width.toNat → y < m.height.toNat → b < 3 →
    s.bytes (m.byteAt x y b) = if lit x y then 255 else 0

/-- The glyphs of all cells. The first of the nine rows of a cell stays empty. -/
def picture (cells : Nat → Nat → List Int8) (x y : Nat) : Bool :=
  y % 9 ≠ 0 && (cells (x / 8) (y / 9)).any fun c => glyphBit c (y % 9 - 1) (x % 8)

section Pictures

variable {m : VideoMode} {lerp : UInt8 → UInt8 → UInt32 → UInt8} {s : Screen}
  {lit lit' : Nat → Nat → Bool}

theorem Depicts.congr (h : Depicts m s lit) (heq : ∀ x y, lit x y = lit' x y) : Depicts m s lit' :=
  ⟨h.fg, h.bg, fun x y b hx hy hb => heq x y ▸ h.pixels x y b hx hy hb⟩

theorem Depicts.glyph (h : Depicts m s lit) (c : UInt8) :
    Depicts m { s with glyphs := c :: s.glyphs } lit :=
  ⟨h.fg, h.bg, h.pixels⟩

/-! ## Drawing -/

/-- The background colour changes nothing, the foreground colour makes its pixel white. -/
theorem vgaPutpixel_depicts (hlerp : ExactLerp lerp) (h : Depicts m s lit) {x y : UInt32}
    (hx : x.toNat < m.width.toNat) (hy : y.toNat < m.height.toNat) (on : Bool) :
    Depicts m (vgaPutpixel lerp m.toMode x y (if on then s.fg else s.bg) s)
      (fun x' y' => lit x' y' || (on && x' = x.toNat && y' = y.toNat)) := by
  refine ⟨h.fg, h.bg, ?_⟩
  intro x' y' b hx' hy' hb
  rw [vgaPutpixel_byteAt lerp s _ hx hy hx' hb, h.pixels x' y' b hx' hy' hb, h.fg, h.bg]
  cases on
  case false =>
    -- the background has alpha 0: this is where nothing is erased
    simp [hlerp.zero]
  case true =>
    have halpha : ((0xFFFFFFFF : UInt32) >>> 24) &&& 255 = 255 := by decide
    have hwhite : channel 0xFFFFFFFF b = 255 := by
      obtain rfl | rfl | rfl : b = 0 ∨ b = 1 ∨ b = 2 := by omega
      all_goals decide
    simp only [if_true, halpha, hlerp.full, hwhite]
    by_cases hhere : x' = x.toNat ∧ y' = y.toNat
    · simp [hhere]
    · have hother : (decide (x' = x.toNat) && decide (y' = y.toNat)) = false := by
        simpa using hhere
      simp [if_neg hhere, hother]

theorem drawRow_depicts (hlerp : ExactLerp lerp) (h : Depicts m s lit) {bmask x k : UInt32}
    (hx : x.toNat < m.cols) (hk : k.toNat < m.height.toNat) :
    Depicts m (drawRow lerp m.toMode bmask (x * 8) k s) (fun x' y' =>
      lit x' y' || (y' = k.toNat && x' / 8 = x.toNat && fontBit bmask (x' % 8))) := by
  have hcolumns : Depicts m (drawRow lerp m.toMode bmask (x * 8) k s) (fun x' y' =>
      lit x' y' ||
        (y' = k.toNat && x' / 8 = x.toNat && x' % 8 < 8 && fontBit bmask (x' % 8))) := by
    unfold drawRow
    -- after `n` columns the pixels of those columns are lit, as far as the mask has them
    apply foldl_range_rule (I := fun n s' => Depicts m s' (fun x' y' => lit x' y' ||
      (y' = k.toNat && x' / 8 = x.toNat && x' % 8 < n && fontBit bmask (x' % 8)))) 8
    · exact h.congr fun x' y' => by simp
    · intro i s' hi h'
      have hcol := cell_column hx hi
      apply (vgaPutpixel_depicts hlerp h' (hcol.1 ▸ hcol.2) hk (fontBit bmask i)).congr
      intro x' y'
      rw [hcol.1]
      have hcell : x' = x.toNat * 8 + i ↔ x' / 8 = x.toNat ∧ x' % 8 = i := by omega
      grind
  apply hcolumns.congr
  intro x' y'
  have h8 : x' % 8 < 8 := Nat.mod_lt _ (by decide)
  simp [h8]

theorem vgaDrawchar_depicts (hlerp : ExactLerp lerp) (h : Depicts m s lit) {c : Int8}
    {x y : UInt32} (hc : 0x20 ≤ c) (hx : x.toNat < m.cols) (hy : y.toNat < m.rows) :
    Depicts m (vgaDrawchar lerp m.toMode c.toUInt8 (x * 8) (y * 9 + 1) s) (fun x' y' =>
      lit x' y' || (y' / 9 = y.toNat && y' % 9 ≠ 0 && x' / 8 = x.toNat &&
        glyphBit c (y' % 9 - 1) (x' % 8))) := by
  have hfont : ¬ c.toUInt8 > 128 := fun hgt =>
    absurd (UInt8.lt_trans (toUInt8_lt_of_printable hc) hgt) (UInt8.lt_irrefl _)
  have hrows : Depicts m (vgaDrawchar lerp m.toMode c.toUInt8 (x * 8) (y * 9 + 1) s) (fun x' y' =>
      lit x' y' || (y' / 9 = y.toNat && y' % 9 ≠ 0 && y' % 9 ≤ 8 && x' / 8 = x.toNat &&
        glyphBit c (y' % 9 - 1) (x' % 8))) := by
    unfold vgaDrawchar
    rw [if_neg hfont]
    apply foldl_range_rule (I := fun n s' => Depicts m s' (fun x' y' => lit x' y' ||
      (y' / 9 = y.toNat && y' % 9 ≠ 0 && y' % 9 ≤ n && x' / 8 = x.toNat &&
        glyphBit c (y' % 9 - 1) (x' % 8)))) 8
    · exact h.congr fun x' y' => by by_cases htop : y' % 9 = 0 <;> simp [htop]
    · intro i s' hi h'
      have hrow := cell_row hy hi
      apply (drawRow_depicts hlerp (h'.glyph c.toUInt8) hx (hrow.1 ▸ hrow.2)).congr
      intro x' y'
      rw [hrow.1]
      have hcell : y' = y.toNat * 9 + 1 + i ↔ y' / 9 = y.toNat ∧ y' % 9 = i + 1 := by omega
      unfold glyphBit
      grind
  apply hrows.congr
  intro x' y'
  have h9 : y' % 9 ≤ 8 := Nat.le_of_lt_succ (Nat.mod_lt _ (by decide))
  simp [h9]

/-! ## Scrolling -/

theorem scrollScreen_depicts (h : Depicts m s lit) :
    Depicts m (scrollScreen m s) (fun x y => y + 9 < m.height.toNat && lit x (y + 9)) := by
  have hcleared := scrollScreen_cleared (m := m) s
  have hcopied := scroll_copied (m := m) s
  refine ⟨hcleared.fg.trans (hcopied.fg.trans h.fg), hcleared.bg.trans (hcopied.bg.trans h.bg), ?_⟩
  intro x y b hx hy hb
  have hline : x + y * m.width.toNat < m.width.toNat * (m.height.toNat - 9) ↔
      y + 9 < m.height.toNat := by
    rw [pixel_lt_iff hx]
    exact Nat.lt_sub_iff_add_lt
  unfold Mode.byteAt
  rw [scrollScreen_bytes s ((pixel_lt_iff hx).mpr hy) hb]
  by_cases hbelow : y + 9 < m.height.toNat
  · have hsrc : (x + y * m.width.toNat + 9 * m.width.toNat) * m.bpp.toNat + b =
        m.byteAt x (y + 9) b := by
      unfold Mode.byteAt
      ring
    rw [if_pos (hline.mpr hbelow), hsrc, h.pixels x (y + 9) b hx hbelow hb]
    simp [hbelow]
  · rw [if_neg (mt hline.mp hbelow)]
    simp [hbelow]

end Pictures

/-! ## The console -/

section Console

variable {m : VideoMode} {lerp : UInt8 → UInt8 → UInt32 → UInt8}

/-- The glyphs of the grid are on the screen. -/
theorem depicts_simulates (m : VideoMode) (hlerp : ExactLerp lerp) :
    Simulates m lerp fun s cells => Depicts m s (picture cells) where
  draw := by
    intro s cells c x y hc hx hy h
    apply (vgaDrawchar_depicts hlerp h hc hx hy).congr
    intro x' y'
    unfold picture TextGrid.stack
    by_cases hcell : x' / 8 = x.toNat ∧ y' / 9 = y.toNat
    · rw [if_pos hcell, List.any_cons]
      grind
    · rw [if_neg hcell]
      grind
  scroll := by
    intro s cells hempty h
    apply (scrollScreen_depicts h).congr
    intro x y
    unfold picture
    have hnext : (y + 9) / 9 = y / 9 + 1 := by omega
    rw [Nat.add_mod_right, hnext]
    by_cases hbelow : y + 9 < m.height.toNat
    · simp [hbelow]
    · -- the pixel rows that come in from below belong to no text row, and are empty
      have hrow : m.rows ≤ y / 9 + 1 := by
        unfold Mode.rows
        omega
      simp [hempty _ _ hrow]

def Console.cleared : Console := Console.start (fun _ => 0) 0xFFFFFFFF 0x00000000

/-- The text after a sequence of characters, from a cleared screen. -/
def textOf (m : VideoMode) (cs : List Int8) : TextGrid Int8 :=
  gridPuts m.cols m.rows cs TextGrid.clear

/-- **What is on the screen**: everything drawn in a cell since it was cleared or scrolled in. -/
theorem vgaPuts_depicts (hcols : 0 < m.cols) (hlerp : ExactLerp lerp) (cs : List Int8) :
    Depicts m (vgaPuts m lerp cs Console.cleared).screen (picture (textOf m cs).cells) := by
  have hstart : Refines (fun s cells => Depicts m s (picture cells)) Console.cleared
      TextGrid.clear := by
    refine ⟨rfl, rfl, rfl, rfl, ?_⟩
    intro x y b _ _ _
    simp [picture, TextGrid.clear, Console.cleared, Console.start]
  exact (vgaPuts_refines (depicts_simulates m hlerp) cs
    (TextGrid.fits_clear hcols m.rows_pos) hstart).2.screen

/-- The glyph of the last character drawn in a cell, blank if there is none. -/
def lastBit (drawn : List Int8) (row col : Nat) : Bool :=
  drawn.head?.any fun c => glyphBit c row col

/-- Every cell shows the last character drawn in it since it was cleared or scrolled in. -/
def ShowsLast (m : VideoMode) (s : Screen) (g : TextGrid Int8) : Prop :=
  ∀ x y row col b, x < m.cols → y < m.rows → row < 8 → col < 8 → b < 3 →
    s.bytes (m.byteAt (x * 8 + col) (y * 9 + 1 + row) b) =
      if lastBit (g.cells x y) row col then 255 else 0

/-- In every cell the last character covers all the others. -/
def LastCovers (cols rows : Nat) (g : TextGrid Int8) : Prop :=
  ∀ x y, x < cols → y < rows → ∀ c ∈ g.cells x y, ∀ row col, row < 8 → col < 8 →
    glyphBit c row col → lastBit (g.cells x y) row col

/-- The pixels of one cell. -/
theorem cell_pixels {s : Screen} {cells : Nat → Nat → List Int8} (h : Depicts m s (picture cells))
    {x y row col b : Nat} (hx : x < m.cols) (hy : y < m.rows) (hrow : row < 8) (hcol : col < 8)
    (hb : b < 3) : s.bytes (m.byteAt (x * 8 + col) (y * 9 + 1 + row) b) =
      if (cells x y).any fun c => glyphBit c row col then 255 else 0 := by
  unfold Mode.cols at hx
  unfold Mode.rows at hy
  rw [h.pixels _ _ _ (by omega) (by omega) hb]
  have hxcell : (x * 8 + col) / 8 = x ∧ (x * 8 + col) % 8 = col := by omega
  have hycell : (y * 9 + 1 + row) / 9 = y ∧ (y * 9 + 1 + row) % 9 = row + 1 := by omega
  unfold picture
  rw [hxcell.1, hxcell.2, hycell.1, hycell.2]
  simp

theorem any_of_lastBit {drawn : List Int8} {row col : Nat} (h : lastBit drawn row col) :
    drawn.any fun c => glyphBit c row col := by
  unfold lastBit at h
  cases drawn with
  | nil => simp at h
  | cons c rest => simp_all

theorem showsLast_iff {s : Screen} {g : TextGrid Int8} (h : Depicts m s (picture g.cells)) :
    ShowsLast m s g ↔ LastCovers m.cols m.rows g := by
  constructor
  · intro hlast x y hx hy c hc row col hrow hcol hbit
    have hany : (g.cells x y).any fun c => glyphBit c row col := List.any_eq_true.mpr ⟨c, hc, hbit⟩
    have hpixel := hlast x y row col 0 hx hy hrow hcol (by decide)
    rw [cell_pixels h hx hy hrow hcol (by decide), if_pos hany] at hpixel
    by_contra hunlit
    rw [if_neg hunlit] at hpixel
    exact absurd hpixel (by decide)
  · intro hcovers x y row col b hx hy hrow hcol hb
    rw [cell_pixels h hx hy hrow hcol hb]
    congr 1
    apply propext
    constructor
    · intro hany
      obtain ⟨c, hc, hbit⟩ := List.any_eq_true.mp hany
      exact hcovers x y hx hy c hc row col hrow hcol hbit
    · exact any_of_lastBit

/-- **When the console shows what was last printed.** A screen too narrow for a character has no cell. -/
theorem vgaPuts_shows_iff (m : VideoMode) (lerp : UInt8 → UInt8 → UInt32 → UInt8)
    (hlerp : ExactLerp lerp) (cs : List Int8) :
    ShowsLast m (vgaPuts m lerp cs Console.cleared).screen (textOf m cs) ↔
      LastCovers m.cols m.rows (textOf m cs) := by
  by_cases hcols : 0 < m.cols
  case pos => exact showsLast_iff (vgaPuts_depicts hcols hlerp cs)
  case neg =>
    have hnone : ∀ x, ¬ x < m.cols := fun x hx => hcols (Nat.zero_lt_of_lt hx)
    exact ⟨fun _ x _ hx => absurd hx (hnone x), fun _ x _ _ _ _ hx => absurd hx (hnone x)⟩

/-- Interpolation, cut to a byte. -/
def lerpByte (old new : UInt8) (alpha : UInt32) : UInt8 :=
  UInt8.ofNat ((old.toNat * (255 - alpha.toNat) + new.toNat * alpha.toNat) / 255)

theorem lerpByte_exact : ExactLerp lerpByte where
  zero old new := by
    simp [lerpByte]
  full old new := by
    simp [lerpByte]

theorem vgaPuts_shows_iff_overprint :
    ShowsLast twoCells (vgaPuts twoCells lerpByte [0x2D, 0x0D, 0x2B] Console.cleared).screen
        (textOf twoCells [0x2D, 0x0D, 0x2B]) ↔
      LastCovers twoCells.cols twoCells.rows (textOf twoCells [0x2D, 0x0D, 0x2B]) :=
  vgaPuts_shows_iff twoCells lerpByte lerpByte_exact _

/-- An `A` that was taken back is still there. -/
theorem backspace_leaves_glyph :
    ExactLerp lerpByte ∧
      ¬ ShowsLast twoCells (vgaPuts twoCells lerpByte [0x41, 0x08] Console.cleared).screen
        (textOf twoCells [0x41, 0x08]) := by
  refine ⟨lerpByte_exact, fun hlast => ?_⟩
  have hpixel := hlast 0 0 0 2 0 (by decide) (by decide) (by decide) (by decide) (by decide)
  revert hpixel
  decide +kernel

end Console

end Neutrino.Drivers
