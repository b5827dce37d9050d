import Neutrino.Drivers.Drawings

/-!
# Text over pictures

`vga_putc` draws over whatever is on the screen and, where it scrolls, moves all of it. `Canvas` has a cursor
over a picture; characters and drawings act on it pixel by pixel. The framebuffer follows it through any
sequence of both, in any colours (`canvas_shown`).
-/

namespace Neutrino.Drivers

open Neutrino.Lib

/-! ## The canvas -/

/-- The text is that drawn since the start. -/
structure Canvas where
  grid : TextGrid Int8
  pixel : Nat → Nat → Rgb

section Operations

variable (m : VideoMode) (lerp : UInt8 → UInt8 → UInt32 → UInt8) (fg bg : UInt32)

/-- A character in a cell. The first of the nine rows of the cell stays as it is. -/
def drawnChar (c : Int8) (col row : Nat) (pixel : Nat → Nat → Rgb) : Nat → Nat → Rgb := fun x y =>
  if x / 8 = col ∧ y / 9 = row ∧ y % 9 ≠ 0 then
    blend lerp (if glyphBit c (y % 9 - 1) (x % 8) then fg else bg) (pixel x y)
  else pixel x y

/-- Black comes in from below. -/
def scrolledUp (pixel : Nat → Nat → Rgb) : Nat → Nat → Rgb := fun x y =>
  if y + 9 < m.height.toNat then pixel x (y + 9) else ⟨0, 0, 0⟩

namespace Canvas

def settle (v : Canvas) : Canvas where
  grid := v.grid.settle m.cols m.rows
  pixel := if (v.grid.wrap m.cols).row < m.rows then v.pixel else scrolledUp m v.pixel

def draw (c : Int8) (v : Canvas) : Canvas :=
  settle m ⟨v.grid.draw c, drawnChar lerp fg bg c v.grid.col v.grid.row v.pixel⟩

def back (v : Canvas) : Canvas :=
  settle m ⟨if v.grid.col = 0 then v.grid.nextLine else v.grid.left, v.pixel⟩

def putc (c : Int8) (v : Canvas) : Canvas :=
  if c = 0x08 then back m (draw m lerp fg bg 0x20 ⟨v.grid.left, v.pixel⟩)
  else if c = 0x09 then settle m ⟨v.grid.tab, v.pixel⟩
  else if c = 0x0D then ⟨v.grid.home, v.pixel⟩
  else if c = 0x0A then settle m ⟨v.grid.nextLine, v.pixel⟩
  else if c ≥ 0x20 then draw m lerp fg bg c v
  else v

end Canvas

end Operations

/-- What the kernel does with the screen. -/
inductive ScreenCall where
  | putc (c : Int8)
  | draw (d : Drawing)

namespace ScreenCall

def run (m : VideoMode) (lerp : UInt8 → UInt8 → UInt32 → UInt8) (con : Console) : ScreenCall → Console
  | .putc c => vgaPutc m lerp c con
  | .draw d => { con with screen := d.run lerp m.toMode con.screen }

def apply (m : VideoMode) (lerp : UInt8 → UInt8 → UInt32 → UInt8) (fg bg : UInt32) (v : Canvas) :
    ScreenCall → Canvas
  | .putc c => v.putc m lerp fg bg c
  | .draw d => { v with pixel := fun x y => d.paint lerp x y (v.pixel x y) }

/-- A drawing does not reach over the edges. -/
def On (m : Mode) : ScreenCall → Prop
  | .putc _ => True
  | .draw d => d.area.On m

instance (m : Mode) : DecidablePred (On m)
  | .putc _ => inferInstanceAs (Decidable True)
  | .draw d => inferInstanceAs (Decidable (d.area.On m))

end ScreenCall

/-! ## The screen -/

/-- The screen shows `pixel`. -/
structure Paints (m : VideoMode) (fg bg : UInt32) (pixel : Nat → Nat → Rgb) (s : Screen) : Prop where
  fg : s.fg = fg
  bg : s.bg = bg
  pixel : ∀ x y, x < m.width.toNat → y < m.height.toNat → shown m.toMode s x y = pixel x y

section Screen

variable {m : VideoMode} {lerp : UInt8 → UInt8 → UInt32 → UInt8} {fg bg : UInt32}
  {pixel : Nat → Nat → Rgb} {s : Screen}

/-- The colours of the text are never changed. -/
theorem drawPixels_colours (m : VideoMode) (lerp : UInt8 → UInt8 → UInt32 → UInt8) (ps : List Pixel) :
    ∀ s : Screen,
    (drawPixels lerp m.toMode ps s).fg = s.fg ∧ (drawPixels lerp m.toMode ps s).bg = s.bg := by
  induction ps with
  | nil => exact fun _ => ⟨rfl, rfl⟩
  | cons p ps ih => exact fun s => ih (vgaPutpixel lerp m.toMode p.x p.y p.color s)

theorem smearPixels_colours (m : VideoMode) (lerp : UInt8 → UInt8 → UInt32 → UInt8) (ps : List Pixel) :
    ∀ s : Screen,
    (smearPixels lerp m.toMode ps s).fg = s.fg ∧ (smearPixels lerp m.toMode ps s).bg = s.bg := by
  induction ps with
  | nil => exact fun _ => ⟨rfl, rfl⟩
  | cons p ps ih => exact fun s => ih (smearPixel lerp (m.offset p.x p.y) p.color s)

theorem Paints.run (h : Paints m fg bg pixel s) {d : Drawing} (hon : d.area.On m.toMode) :
    Paints m fg bg (fun x y => d.paint lerp x y (pixel x y)) (d.run lerp m.toMode s) := by
  have hcolours : (d.run lerp m.toMode s).fg = s.fg ∧ (d.run lerp m.toMode s).bg = s.bg := by
    cases d with
    | rect a c =>
        show (vgaFillrect lerp m.toMode a.x a.y a.w a.h c s).fg = _ ∧
          (vgaFillrect lerp m.toMode a.x a.y a.w a.h c s).bg = _
        rw [vgaFillrect_eq_draw]
        exact drawPixels_colours m lerp _ s
    | icon a colors =>
        show (vgaFillicon lerp m.toMode a.x a.y a.w a.h colors s).fg = _ ∧
          (vgaFillicon lerp m.toMode a.x a.y a.w a.h colors s).bg = _
        rw [vgaFillicon_eq_smear]
        exact smearPixels_colours m lerp _ s
  refine ⟨hcolours.1.trans h.fg, hcolours.2.trans h.bg, ?_⟩
  intro x y hx hy
  rw [run_shown hon s hx, h.pixel x y hx hy]

/-- A row of a glyph is a row of pixels. -/
theorem drawRow_eq (bmask x k : UInt32) (s : Screen) :
    drawRow lerp m.toMode bmask x k s =
      drawPixels lerp m.toMode (rowPixels x k 8 fun i => if fontBit bmask i then s.fg else s.bg) s := by
  apply foldl_range_rule (I := fun i s' => s' = drawPixels lerp m.toMode
    (rowPixels x k i fun i => if fontBit bmask i then s.fg else s.bg) s)
  · rfl
  · rintro i _ - rfl
    obtain ⟨hfg, hbg⟩ := drawPixels_colours m lerp
      (rowPixels x k i fun i => if fontBit bmask i then s.fg else s.bg) s
    rw [hfg, hbg, rowPixels_succ, drawPixels_append]
    rfl

theorem Paints.drawRow (h : Paints m fg bg pixel s) (lerp : UInt8 → UInt8 → UInt32 → UInt8)
    (bmask : UInt32) {x k : UInt32} (hx : x.toNat < m.cols) (hk : k.toNat < m.height.toNat) :
    Paints m fg bg (fun x' y' =>
      if y' = k.toNat ∧ x' / 8 = x.toNat then
        blend lerp (if fontBit bmask (x' % 8) then fg else bg) (pixel x' y')
      else pixel x' y') (drawRow lerp m.toMode bmask (x * 8) k s) := by
  have hcol : (x * 8).toNat = x.toNat * 8 := by
    simpa using (cell_column (i := 0) hx (by decide)).1
  unfold Mode.cols at hx
  rw [drawRow_eq]
  obtain ⟨hfg, hbg⟩ := drawPixels_colours m lerp
    (rowPixels (x * 8) k 8 fun i => if fontBit bmask i then s.fg else s.bg) s
  refine ⟨hfg.trans h.fg, hbg.trans h.bg, ?_⟩
  intro x' y' hx' hy'
  refine ((putpixel_step m lerp).row hk _ s hx' (by rw [hcol]; omega)).trans ?_
  rw [hcol, h.fg, h.bg, h.pixel x' y' hx' hy']
  by_cases hin : y' = k.toNat ∧ x' / 8 = x.toNat
  · rw [if_pos hin, if_pos (show y' = k.toNat ∧ x.toNat * 8 ≤ x' ∧ x' < x.toNat * 8 + 8 by omega),
      show x' - x.toNat * 8 = x' % 8 by omega]
  · rw [if_neg hin, if_neg (show ¬(y' = k.toNat ∧ x.toNat * 8 ≤ x' ∧ x' < x.toNat * 8 + 8) by omega)]

theorem Paints.drawchar (h : Paints m fg bg pixel s) {c : Int8} {x y : UInt32} (hc : 0x20 ≤ c)
    (hx : x.toNat < m.cols) (hy : y.toNat < m.rows) :
    Paints m fg bg (drawnChar lerp fg bg c x.toNat y.toNat pixel)
      (vgaDrawchar lerp m.toMode c.toUInt8 (x * 8) (y * 9 + 1) s) := by
  have hfont : ¬ c.toUInt8 > 128 := fun hgt =>
    absurd (UInt8.lt_trans (toUInt8_lt_of_printable hc) hgt) (UInt8.lt_irrefl _)
  have hrows : Paints m fg bg (fun x' y' =>
      if x' / 8 = x.toNat ∧ y' / 9 = y.toNat ∧ y' % 9 ≠ 0 ∧ y' % 9 ≤ 8 then
        blend lerp (if glyphBit c (y' % 9 - 1) (x' % 8) then fg else bg) (pixel x' y')
      else pixel x' y') (vgaDrawchar lerp m.toMode c.toUInt8 (x * 8) (y * 9 + 1) s) := by
    unfold vgaDrawchar
    rw [if_neg hfont]
    -- after `n` rows those rows of the cell are drawn
    apply foldl_range_rule (I := fun n s' => Paints m fg bg (fun x' y' =>
      if x' / 8 = x.toNat ∧ y' / 9 = y.toNat ∧ y' % 9 ≠ 0 ∧ y' % 9 ≤ n then
        blend lerp (if glyphBit c (y' % 9 - 1) (x' % 8) then fg else bg) (pixel x' y')
      else pixel x' y') s')
    · refine ⟨h.fg, h.bg, ?_⟩
      intro x' y' hx' hy'
      rw [if_neg (by omega)]
      exact h.pixel x' y' hx' hy'
    · intro i s' hi h'
      have hrow := cell_row hy hi
      have hglyph : Paints m fg bg _ { s' with glyphs := c.toUInt8 :: s'.glyphs } :=
        ⟨h'.fg, h'.bg, h'.pixel⟩
      have hdrawn := hglyph.drawRow lerp (fontRow c.toUInt8 i) hx (hrow.1 ▸ hrow.2)
      refine ⟨hdrawn.fg, hdrawn.bg, ?_⟩
      intro x' y' hx' hy'
      have hpixel := hdrawn.pixel x' y' hx' hy'
      simp only [hrow.1] at hpixel
      rw [hpixel]
      by_cases hlast : y' = y.toNat * 9 + 1 + i ∧ x' / 8 = x.toNat
      · have hnot : ¬(x' / 8 = x.toNat ∧ y' / 9 = y.toNat ∧ y' % 9 ≠ 0 ∧ y' % 9 ≤ i) := by omega
        have hnew : x' / 8 = x.toNat ∧ y' / 9 = y.toNat ∧ y' % 9 ≠ 0 ∧ y' % 9 ≤ i + 1 := by omega
        rw [if_pos hlast, if_neg hnot, if_pos hnew, show y' % 9 - 1 = i by omega]
        rfl
      · rw [if_neg hlast]
        have hsame : (x' / 8 = x.toNat ∧ y' / 9 = y.toNat ∧ y' % 9 ≠ 0 ∧ y' % 9 ≤ i) ↔
            x' / 8 = x.toNat ∧ y' / 9 = y.toNat ∧ y' % 9 ≠ 0 ∧ y' % 9 ≤ i + 1 := by omega
        simp only [hsame]
  refine ⟨hrows.fg, hrows.bg, ?_⟩
  intro x' y' hx' hy'
  have hall : (x' / 8 = x.toNat ∧ y' / 9 = y.toNat ∧ y' % 9 ≠ 0 ∧ y' % 9 ≤ 8) ↔
      x' / 8 = x.toNat ∧ y' / 9 = y.toNat ∧ y' % 9 ≠ 0 := by omega
  rw [hrows.pixel x' y' hx' hy', drawnChar]
  simp only [hall]

theorem Paints.scroll (h : Paints m fg bg pixel s) :
    Paints m fg bg (scrolledUp m pixel) (scrollScreen m s) := by
  have hcleared := scrollScreen_cleared (m := m) s
  have hcopied := scroll_copied (m := m) s
  refine ⟨hcleared.fg.trans (hcopied.fg.trans h.fg), hcleared.bg.trans (hcopied.bg.trans h.bg), ?_⟩
  intro x y hx hy
  -- each byte is the one nine rows below, or cleared
  have hbyte : ∀ b < 3, (scrollScreen m s).bytes (m.byteAt x y b) =
      if y + 9 < m.height.toNat then s.bytes (m.byteAt x (y + 9) b) else 0 := by
    intro b hb
    have hline : x + y * m.width.toNat < m.width.toNat * (m.height.toNat - 9) ↔
        y + 9 < m.height.toNat := by
      rw [pixel_lt_iff hx]
      exact Nat.lt_sub_iff_add_lt
    have hsource : (x + y * m.width.toNat + 9 * m.width.toNat) * m.bpp.toNat + b =
        m.byteAt x (y + 9) b := by
      unfold Mode.byteAt
      ring
    refine (scrollScreen_bytes s ((pixel_lt_iff hx).mpr hy) hb).trans ?_
    rw [hsource]
    simp only [hline]
  have hpixel : shown m.toMode (scrollScreen m s) x y =
      if y + 9 < m.height.toNat then shown m.toMode s x (y + 9) else ⟨0, 0, 0⟩ := by
    unfold shown
    rw [hbyte 0 (by decide), hbyte 1 (by decide), hbyte 2 (by decide)]
    split <;> rfl
  rw [hpixel, scrolledUp]
  split
  · next hbelow => exact h.pixel x (y + 9) hx hbelow
  · rfl

end Screen

/-! ## The console -/

/-- The console has the cursor of the canvas, and the screen shows its picture. -/
structure Canvas.Shown (m : VideoMode) (fg bg : UInt32) (v : Canvas) (con : Console) : Prop where
  col : con.csrX.toNat = v.grid.col
  row : con.csrY.toNat = v.grid.row
  screen : Paints m fg bg v.pixel con.screen

/-- The cursor alone, whatever is on the screen. -/
theorem cursor_simulates (m : VideoMode) (lerp : UInt8 → UInt8 → UInt32 → UInt8) :
    Simulates m lerp fun _ _ => True where
  draw := fun _ _ _ _ => trivial
  scroll := fun _ _ => trivial

section Console

variable {m : VideoMode} {lerp : UInt8 → UInt8 → UInt32 → UInt8} {fg bg : UInt32} {v : Canvas}
  {con : Console}

theorem Canvas.Shown.cursor (h : v.Shown m fg bg con) : Refines (fun _ _ => True) con v.grid :=
  ⟨h.col, h.row, trivial⟩

/-- The end of every call of `vga_putc`. -/
theorem Canvas.Shown.settle (h : v.Shown m fg bg con) (hrow : v.grid.row ≤ m.rows)
    (hbelow : ∀ x y, m.rows ≤ y → v.grid.cells x y = []) :
    (v.settle m).Shown m fg bg (vgaScroll m (wrapLine m con)) := by
  have hwrap := wrapLine_refines hrow h.cursor
  have hsettle := settle_refines (cursor_simulates m fun old _ _ => old) hrow hbelow h.cursor
  refine ⟨hsettle.col, hsettle.row, ?_⟩
  -- the wrap moves the cursor only
  have hscreen : (wrapLine m con).screen = con.screen := by
    unfold wrapLine
    split <;> rfl
  have hlt : (wrapLine m con).csrY < m.height / 9 ↔ (v.grid.wrap m.cols).row < m.rows := by
    rw [UInt32.lt_iff_toNat_lt, UInt32.toNat_div, hwrap.row]
    rfl
  unfold Canvas.settle vgaScroll
  by_cases habove : (v.grid.wrap m.cols).row < m.rows
  · rw [if_pos (hlt.mpr habove), if_pos habove, hscreen]
    exact h.screen
  · rw [if_neg (mt hlt.mp habove), if_neg habove]
    show Paints m fg bg (scrolledUp m v.pixel) (scrollScreen m (wrapLine m con).screen)
    rw [hscreen]
    exact h.screen.scroll

theorem Canvas.Shown.draw (h : v.Shown m fg bg con) (hfits : v.grid.Fits m.cols m.rows) {c : Int8}
    (hc : 0x20 ≤ c) : (v.draw m lerp fg bg c).Shown m fg bg (vgaPutc m lerp c con) := by
  have hcol := hfits.col
  have hwidth := m.width.toNat_lt
  rw [vgaPutc_of_printable hc]
  refine Canvas.Shown.settle ⟨?_, h.row, ?_⟩ (Nat.le_of_lt hfits.row)
    (TextGrid.stack_below hfits.row hfits.below)
  · show (con.csrX + 1).toNat = v.grid.col + 1
    unfold Mode.cols at hcol
    rw [UInt32.toNat_add, h.col, UInt32.toNat_one]
    omega
  · rw [← h.col, ← h.row]
    exact h.screen.drawchar hc (h.col ▸ hfits.col) (h.row ▸ hfits.row)

theorem Canvas.Shown.left (h : v.Shown m fg bg con) :
    Canvas.Shown m fg bg ⟨v.grid.left, v.pixel⟩
      (if con.csrX ≠ 0 then { con with csrX := con.csrX - 1 } else con) := by
  have hleft := left_refines h.cursor
  refine ⟨hleft.col, hleft.row, ?_⟩
  split <;> exact h.screen

/-- From column 0 the cursor goes below zero, which is past every margin. -/
theorem Canvas.Shown.back (h : v.Shown m fg bg con) (hfits : v.grid.Fits m.cols m.rows) :
    (v.back m).Shown m fg bg (vgaScroll m (wrapLine m { con with csrX := con.csrX - 1 })) := by
  unfold Canvas.back
  by_cases hcol : v.grid.col = 0
  · have hzero : con.csrX = 0 := UInt32.toNat_inj.mp (h.col.trans hcol)
    -- the column wraps below zero
    have hunder : Canvas.Shown m fg bg ⟨{ v.grid with col := 2 ^ 32 - 1 }, v.pixel⟩
        { con with csrX := con.csrX - 1 } := by
      refine ⟨?_, h.row, h.screen⟩
      rw [hzero]
      rfl
    have hwrap : TextGrid.wrap m.cols { v.grid with col := 2 ^ 32 - 1 } =
        TextGrid.wrap m.cols v.grid.nextLine := by
      have hwidth : m.cols ≤ 2 ^ 32 - 1 := by
        have hlt := m.width.toNat_lt
        unfold Mode.cols
        omega
      have hinside : ¬ m.cols ≤ v.grid.nextLine.col := Nat.not_le.mpr (Nat.zero_lt_of_lt hfits.col)
      unfold TextGrid.wrap
      rw [if_pos hwidth, if_neg hinside]
      rfl
    have hsettle := hunder.settle (Nat.le_of_lt hfits.row) hfits.below
    unfold Canvas.settle TextGrid.settle at hsettle ⊢
    rw [hwrap] at hsettle
    rw [if_pos hcol]
    exact hsettle
  · rw [if_neg hcol]
    have hx : con.csrX ≠ 0 := by
      intro h0
      rw [← h.col, h0] at hcol
      exact hcol rfl
    have hleft := h.left
    rw [if_pos hx] at hleft
    exact hleft.settle (Nat.le_of_lt hfits.row) hfits.below

theorem Canvas.Shown.tab (h : v.Shown m fg bg con) (hfits : v.grid.Fits m.cols m.rows) :
    Canvas.Shown m fg bg (Canvas.settle m ⟨v.grid.tab, v.pixel⟩)
      (vgaScroll m (wrapLine m { con with csrX := (con.csrX + 8) &&& ~~~7 })) := by
  have hcol := hfits.col
  have hwidth := m.width.toNat_lt
  refine Canvas.Shown.settle ⟨?_, h.row, h.screen⟩ (Nat.le_of_lt hfits.row) hfits.below
  have hadd : (con.csrX + 8).toNat = v.grid.col + 8 := by
    unfold Mode.cols at hcol
    rw [UInt32.toNat_add, h.col]
    exact Nat.mod_eq_of_lt (show v.grid.col + 8 < 2 ^ 32 by omega)
  rw [and_not_seven_toNat, hadd]
  rfl

theorem Canvas.Shown.nextLine (h : v.Shown m fg bg con) (hfits : v.grid.Fits m.cols m.rows) :
    Canvas.Shown m fg bg (Canvas.settle m ⟨v.grid.nextLine, v.pixel⟩)
      (vgaScroll m (wrapLine m { con with csrX := 0, csrY := con.csrY + 1 })) := by
  have hrow := hfits.row
  have hheight := m.height.toNat_lt
  refine Canvas.Shown.settle ⟨rfl, ?_, h.screen⟩ hfits.row hfits.below
  show (con.csrY + 1).toNat = v.grid.row + 1
  unfold Mode.rows at hrow
  rw [UInt32.toNat_add, h.row, UInt32.toNat_one]
  omega

/-- Where the cursor is inside, the end of a call changes nothing. -/
theorem Canvas.settle_eq (hfits : v.grid.Fits m.cols m.rows) : v.settle m = v := by
  have hwrap : v.grid.wrap m.cols = v.grid := if_neg (Nat.not_le.mpr hfits.col)
  unfold Canvas.settle
  rw [hfits.settle_eq, hwrap, if_pos hfits.row]

/-- **One call of `vga_putc`** on the canvas. -/
theorem Canvas.Shown.putc (h : v.Shown m fg bg con) (hfits : v.grid.Fits m.cols m.rows) (c : Int8) :
    (v.putc m lerp fg bg c).Shown m fg bg (vgaPutc m lerp c con) := by
  rw [vgaPutc, Canvas.putc]
  by_cases hback : c = 0x08
  · rw [if_pos hback, if_pos hback]
    exact (h.left.draw hfits.left (by decide)).back (hfits.left.draw 0x20)
  rw [if_neg hback, if_neg hback]
  by_cases htab : c = 0x09
  · rw [if_pos htab, if_pos htab]
    exact h.tab hfits
  rw [if_neg htab, if_neg htab]
  by_cases hhome : c = 0x0D
  · rw [if_pos hhome, if_pos hhome]
    have hstart : Canvas.Shown m fg bg ⟨v.grid.home, v.pixel⟩ { con with csrX := 0 } :=
      ⟨rfl, h.row, h.screen⟩
    have hsettle := hstart.settle (Nat.le_of_lt hfits.row) hfits.below
    rwa [Canvas.settle_eq hfits.home] at hsettle
  rw [if_neg hhome, if_neg hhome]
  by_cases hnewline : c = 0x0A
  · rw [if_pos hnewline, if_pos hnewline]
    exact h.nextLine hfits
  rw [if_neg hnewline, if_neg hnewline]
  by_cases hprint : c ≥ 0x20
  · rw [if_pos hprint, if_pos hprint, ← vgaPutc_of_printable hprint]
    exact h.draw hfits hprint
  · rw [if_neg hprint, if_neg hprint]
    have hsettle := h.settle (Nat.le_of_lt hfits.row) hfits.below
    rwa [Canvas.settle_eq hfits] at hsettle

theorem Canvas.putc_grid (c : Int8) :
    (v.putc m lerp fg bg c).grid = gridPutc m.cols m.rows c v.grid := by
  unfold Canvas.putc gridPutc
  repeat' split
  all_goals rfl

/-! ## Any sequence of calls -/

theorem ScreenCall.shown (h : v.Shown m fg bg con) (hfits : v.grid.Fits m.cols m.rows)
    {call : ScreenCall} (hon : call.On m.toMode) :
    (call.apply m lerp fg bg v).Shown m fg bg (call.run m lerp con) ∧
      (call.apply m lerp fg bg v).grid.Fits m.cols m.rows := by
  cases call with
  | putc c =>
      refine ⟨h.putc hfits c, ?_⟩
      rw [ScreenCall.apply, Canvas.putc_grid]
      exact gridPutc_fits hfits c
  | draw d => exact ⟨⟨h.col, h.row, h.screen.run hon⟩, hfits⟩

theorem ScreenCall.all_shown (calls : List ScreenCall) (hon : ∀ call ∈ calls, call.On m.toMode)
    (h : v.Shown m fg bg con) (hfits : v.grid.Fits m.cols m.rows) :
    (calls.foldl (ScreenCall.apply m lerp fg bg) v).Shown m fg bg
      (calls.foldl (ScreenCall.run m lerp) con) := by
  induction calls generalizing v con with
  | nil => exact h
  | cons call calls ih =>
      obtain ⟨h', hfits'⟩ := ScreenCall.shown h hfits (hon call List.mem_cons_self)
      exact ih (fun c hc => hon c (List.mem_cons_of_mem call hc)) h' hfits'

/-- What the screen shows, and where the cursor is. -/
def Canvas.of (m : VideoMode) (con : Console) : Canvas :=
  ⟨⟨con.csrX.toNat, con.csrY.toNat, fun _ _ => []⟩, shown m.toMode con.screen⟩

/-- **Text over pictures.** Through any sequence of characters and drawings, from any cursor on the screen and
in any colours, the framebuffer shows the picture that they make of the one before. -/
theorem canvas_shown (m : VideoMode) (lerp : UInt8 → UInt8 → UInt32 → UInt8) (calls : List ScreenCall)
    (hon : ∀ call ∈ calls, call.On m.toMode) (con : Console) (hcol : con.csrX.toNat < m.cols)
    (hrow : con.csrY.toNat < m.rows) :
    (calls.foldl (ScreenCall.apply m lerp con.screen.fg con.screen.bg) (Canvas.of m con)).Shown m
      con.screen.fg con.screen.bg (calls.foldl (ScreenCall.run m lerp) con) := by
  have hstart : (Canvas.of m con).Shown m con.screen.fg con.screen.bg con :=
    ⟨rfl, rfl, rfl, rfl, fun _ _ _ _ => rfl⟩
  exact ScreenCall.all_shown calls hon hstart ⟨hcol, hrow, fun _ _ _ => rfl⟩

end Console

/-! ### A letter over a rectangle -/

/-- The backspace draws a space over the `A`; the space is transparent, so the `A` stays. -/
def letterOnRed : List ScreenCall := [.draw (.rect ⟨0, 0, 16, 9⟩ 0xFFFF0000), .putc 0x41, .putc 0x08]

theorem letterOnRed_shown :
    (letterOnRed.foldl (ScreenCall.run twoCells lerpByte) Console.cleared).csrX.toNat = 0 ∧
      shown twoCells.toMode
          (letterOnRed.foldl (ScreenCall.run twoCells lerpByte) Console.cleared).screen 3 1 =
        ⟨255, 255, 255⟩ ∧
      shown twoCells.toMode
          (letterOnRed.foldl (ScreenCall.run twoCells lerpByte) Console.cleared).screen 3 0 =
        ⟨0, 0, 255⟩ := by
  have hshown := canvas_shown twoCells lerpByte letterOnRed (by decide) Console.cleared (by decide)
    (by decide)
  refine ⟨hshown.col, ?_, ?_⟩
  · rw [hshown.screen.pixel 3 1 (by decide) (by decide)]
    decide +kernel
  · rw [hshown.screen.pixel 3 0 (by decide) (by decide)]
    decide +kernel

end Neutrino.Drivers
