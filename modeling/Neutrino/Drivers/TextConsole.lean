import Mathlib.Tactic.IntervalCases
import Neutrino.Drivers.Vga
import Neutrino.Lib.TextGrid

/-!
# The console as a text grid

What `vga_putc` does to the cursor and to the text is stated on a grid of cells (`gridPutc`). The code
follows it for every relation `P` between the screen and the cells that drawing a character and
scrolling preserve (`vgaPuts_refines`).
-/

namespace Neutrino.Drivers

open Neutrino.Lib

/-! ## The text -/

section Grid

variable (cols rows : Nat)

/-- A backspace draws a space one to the left and steps left again. In a grid of one column the space
has ended the line, and there is no way back. -/
def gridBack (g : TextGrid Int8) : TextGrid Int8 :=
  TextGrid.settle cols rows (if g.col = 0 then g.nextLine else g.left)

def gridPutc (c : Int8) (g : TextGrid Int8) : TextGrid Int8 :=
  if c = 0x08 then gridBack cols rows (TextGrid.settle cols rows (g.left.draw 0x20))
  else if c = 0x09 then TextGrid.settle cols rows g.tab
  else if c = 0x0D then g.home
  else if c = 0x0A then TextGrid.settle cols rows g.nextLine
  else if c ≥ 0x20 then TextGrid.settle cols rows (g.draw c)
  else g

def gridPuts (cs : List Int8) (g : TextGrid Int8) : TextGrid Int8 :=
  cs.foldl (fun g c => gridPutc cols rows c g) g

variable {cols rows} {g : TextGrid Int8}

theorem gridBack_fits (h : g.Fits cols rows) : (gridBack cols rows g).Fits cols rows := by
  unfold gridBack
  by_cases hcol : g.col = 0
  · rw [if_pos hcol]
    exact h.nextLine
  · rw [if_neg hcol, h.left.settle_eq]
    exact h.left

theorem gridPutc_fits (h : g.Fits cols rows) (c : Int8) : (gridPutc cols rows c g).Fits cols rows := by
  unfold gridPutc
  repeat' split
  · exact gridBack_fits (h.left.draw 0x20)
  · exact h.tab
  · exact h.home
  · exact h.nextLine
  · exact h.draw c
  · exact h

end Grid

/-! ## The simulation -/

section Simulation

variable {m : VideoMode} {lerp : UInt8 → UInt8 → UInt32 → UInt8}
  {P : Screen → (Nat → Nat → List Int8) → Prop}

/-- What the two operations on the screen have to preserve. -/
structure Simulates (m : VideoMode) (lerp : UInt8 → UInt8 → UInt32 → UInt8)
    (P : Screen → (Nat → Nat → List Int8) → Prop) : Prop where
  draw : ∀ {s : Screen} {cells : Nat → Nat → List Int8} {c : Int8} {x y : UInt32}, 0x20 ≤ c →
    x.toNat < m.cols → y.toNat < m.rows → P s cells →
    P (vgaDrawchar lerp m.toMode c.toUInt8 (x * 8) (y * 9 + 1) s)
      (TextGrid.stack cells x.toNat y.toNat c)
  scroll : ∀ {s : Screen} {cells : Nat → Nat → List Int8}, (∀ x y, m.rows ≤ y → cells x y = []) →
    P s cells → P (scrollScreen m s) (fun x y => cells x (y + 1))

structure Refines (P : Screen → (Nat → Nat → List Int8) → Prop) (con : Console)
    (g : TextGrid Int8) : Prop where
  col : con.csrX.toNat = g.col
  row : con.csrY.toNat = g.row
  screen : P con.screen g.cells

variable {con : Console} {g : TextGrid Int8}

theorem VideoMode.rows_pos (m : VideoMode) : 0 < m.rows :=
  Nat.div_pos m.height_ge (by decide)

theorem wrapLine_refines (hrow : g.row ≤ m.rows) (h : Refines P con g) :
    Refines P (wrapLine m con) (g.wrap m.cols) := by
  have hge : con.csrX ≥ m.width / 8 ↔ m.cols ≤ g.col := by
    rw [ge_iff_le, UInt32.le_iff_toNat_le, UInt32.toNat_div, h.col]
    rfl
  unfold wrapLine TextGrid.wrap
  by_cases hcol : m.cols ≤ g.col
  · rw [if_pos (hge.mpr hcol), if_pos hcol]
    have hheight := m.height.toNat_lt
    have hnext : (con.csrY + 1).toNat = con.csrY.toNat + 1 := by
      rw [UInt32.toNat_add]
      apply Nat.mod_eq_of_lt
      unfold Mode.rows at hrow
      rw [h.row, UInt32.toNat_one]
      omega
    exact ⟨rfl, by rw [hnext, h.row]; rfl, h.screen⟩
  · rw [if_neg (mt hge.mp hcol), if_neg hcol]
    exact h

theorem vgaScroll_refines (sim : Simulates m lerp P)
    (hbelow : ∀ x y, m.rows ≤ y → g.cells x y = []) (h : Refines P con g) :
    Refines P (vgaScroll m con) (g.scroll m.rows) := by
  have hlt : con.csrY < m.height / 9 ↔ g.row < m.rows := by
    rw [UInt32.lt_iff_toNat_lt, UInt32.toNat_div, h.row]
    rfl
  unfold vgaScroll TextGrid.scroll
  by_cases hrow : g.row < m.rows
  · rw [if_pos (hlt.mpr hrow), if_pos hrow]
    exact h
  · rw [if_neg (mt hlt.mp hrow), if_neg hrow]
    have hone : (1 : UInt32) ≤ con.csrY := by
      rw [UInt32.le_iff_toNat_le, UInt32.toNat_one, h.row]
      have hpos := m.rows_pos
      omega
    refine ⟨h.col, ?_, sim.scroll hbelow h.screen⟩
    show (con.csrY - 1).toNat = g.row - 1
    rw [UInt32.toNat_sub_of_le _ _ hone, h.row, UInt32.toNat_one]

/-- The end of every call. -/
theorem settle_refines (sim : Simulates m lerp P) (hrow : g.row ≤ m.rows)
    (hbelow : ∀ x y, m.rows ≤ y → g.cells x y = []) (h : Refines P con g) :
    Refines P (vgaScroll m (wrapLine m con)) (g.settle m.cols m.rows) := by
  apply vgaScroll_refines sim
  · unfold TextGrid.wrap TextGrid.nextLine
    split <;> exact hbelow
  · exact wrapLine_refines hrow h

/-! ## One character -/

/-- Printable characters are below 128. -/
theorem toUInt8_lt_of_printable {c : Int8} (hc : 0x20 ≤ c) : c.toUInt8 < 128 := by
  have hsign : (0 : Int) ≤ c.toInt := Int.le_trans (by decide) (Int8.le_iff_toInt_le.mp hc)
  have hbits : c.toInt = if 2 * c.toBitVec.toNat < 2 ^ 8 then (c.toBitVec.toNat : Int)
      else c.toBitVec.toNat - (2 ^ 8 : Nat) := BitVec.toInt_eq_toNat_cond c.toBitVec
  have hlt := c.toBitVec.isLt
  rw [UInt8.lt_iff_toNat_lt]
  show c.toBitVec.toNat < 128
  split at hbits <;> omega

theorem vgaPutc_of_printable {c : Int8} (hc : 0x20 ≤ c) : vgaPutc m lerp c con =
    vgaScroll m (wrapLine m { con with
      csrX := con.csrX + 1
      screen := vgaDrawchar lerp m.toMode c.toUInt8 (con.csrX * 8) (con.csrY * 9 + 1) con.screen }) := by
  have hctrl : ∀ d : Int8, d < 0x20 → c ≠ d := by
    rintro d hd rfl
    exact absurd hc (Int8.not_le.mpr hd)
  rw [vgaPutc, if_neg (hctrl _ (by decide)), if_neg (hctrl _ (by decide)),
    if_neg (hctrl _ (by decide)), if_neg (hctrl _ (by decide)), if_pos hc]

theorem draw_refines (sim : Simulates m lerp P) (hfits : g.Fits m.cols m.rows) (h : Refines P con g)
    {c : Int8} (hc : 0x20 ≤ c) :
    Refines P (vgaPutc m lerp c con) ((g.draw c).settle m.cols m.rows) := by
  rw [vgaPutc_of_printable hc]
  apply settle_refines sim
  case hrow => exact Nat.le_of_lt hfits.row
  case hbelow => exact TextGrid.stack_below hfits.row hfits.below
  case h =>
    have hcol := hfits.col
    have hwidth := m.width.toNat_lt
    refine ⟨?_, h.row, ?_⟩
    · show (con.csrX + 1).toNat = g.col + 1
      rw [UInt32.toNat_add, h.col]
      apply Nat.mod_eq_of_lt
      unfold Mode.cols at hcol
      rw [UInt32.toNat_one]
      omega
    · show P (vgaDrawchar _ _ _ _ _ _) (TextGrid.stack g.cells g.col g.row c)
      rw [← h.col, ← h.row]
      apply sim.draw hc _ _ h.screen
      · rw [h.col]
        exact hfits.col
      · rw [h.row]
        exact hfits.row

/-- The first half of a backspace. -/
theorem left_refines (h : Refines P con g) :
    Refines P (if con.csrX ≠ 0 then { con with csrX := con.csrX - 1 } else con) g.left := by
  by_cases hx : con.csrX = 0
  · rw [if_neg (not_not.mpr hx)]
    refine ⟨?_, h.row, h.screen⟩
    show con.csrX.toNat = g.col - 1
    rw [← h.col, hx]
    rfl
  · rw [if_pos hx]
    have hone : (1 : UInt32) ≤ con.csrX := by
      rw [UInt32.le_iff_toNat_le, UInt32.toNat_one]
      exact Nat.pos_of_ne_zero fun h0 => hx (UInt32.toNat_inj.mp h0)
    refine ⟨?_, h.row, h.screen⟩
    show (con.csrX - 1).toNat = g.col - 1
    rw [UInt32.toNat_sub_of_le _ _ hone, h.col, UInt32.toNat_one]

/-- The second half. The cursor goes below zero if the space has ended the line, and from there it is
past the margin. -/
theorem back_refines (sim : Simulates m lerp P) (hfits : g.Fits m.cols m.rows) (h : Refines P con g) :
    Refines P (vgaScroll m (wrapLine m { con with csrX := con.csrX - 1 }))
      (gridBack m.cols m.rows g) := by
  unfold gridBack
  by_cases hcol : g.col = 0
  · rw [if_pos hcol]
    -- one to the left of column 0 is the column `2 ^ 32 - 1`, past every margin
    have hzero : con.csrX = 0 := UInt32.toNat_inj.mp (h.col.trans hcol)
    have hbelow : Refines P { con with csrX := con.csrX - 1 } { g with col := 2 ^ 32 - 1 } := by
      refine ⟨?_, h.row, h.screen⟩
      rw [hzero]
      rfl
    have hwidth : m.cols ≤ 2 ^ 32 - 1 := by
      have hlt := m.width.toNat_lt
      unfold Mode.cols
      omega
    have hwrap : TextGrid.settle m.cols m.rows { g with col := 2 ^ 32 - 1 } =
        TextGrid.settle m.cols m.rows g.nextLine := by
      have hinside : ¬ m.cols ≤ g.nextLine.col := Nat.not_le.mpr (Nat.zero_lt_of_lt hfits.col)
      unfold TextGrid.settle TextGrid.wrap
      rw [if_pos hwidth, if_neg hinside]
      rfl
    rw [← hwrap]
    exact settle_refines sim (Nat.le_of_lt hfits.row) hfits.below hbelow
  · rw [if_neg hcol]
    have hx : con.csrX ≠ 0 := by
      intro h0
      rw [← h.col, h0] at hcol
      exact hcol rfl
    have hleft := left_refines h
    rw [if_pos hx] at hleft
    exact settle_refines sim (Nat.le_of_lt hfits.row) hfits.below hleft

/-- `& ~7` rounds down to a multiple of eight. -/
theorem and_not_seven_toNat (x : UInt32) : (x &&& ~~~(7 : UInt32)).toNat = x.toNat / 8 * 8 := by
  have hshift : x &&& ~~~(7 : UInt32) = x >>> 3 <<< 3 := by
    apply UInt32.toBitVec_inj.mp
    ext i hi
    simp
    interval_cases i <;> simp
  rw [hshift, UInt32.toNat_shiftLeft, UInt32.toNat_shiftRight]
  have hx := x.toNat_lt
  simp [Nat.shiftLeft_eq, Nat.shiftRight_eq_div_pow]
  omega

theorem tab_refines (sim : Simulates m lerp P) (hfits : g.Fits m.cols m.rows) (h : Refines P con g) :
    Refines P (vgaScroll m (wrapLine m { con with csrX := (con.csrX + 8) &&& ~~~7 }))
      (g.tab.settle m.cols m.rows) := by
  have hcol := hfits.col
  have hwidth := m.width.toNat_lt
  apply settle_refines (g := g.tab) sim (Nat.le_of_lt hfits.row) hfits.below
  refine ⟨?_, h.row, h.screen⟩
  show ((con.csrX + 8) &&& ~~~7).toNat = (g.col + 8) / 8 * 8
  have hadd : (con.csrX + 8).toNat = g.col + 8 := by
    rw [UInt32.toNat_add, h.col]
    apply Nat.mod_eq_of_lt
    unfold Mode.cols at hcol
    show g.col + 8 < 2 ^ 32
    omega
  rw [and_not_seven_toNat, hadd]

theorem newline_refines (sim : Simulates m lerp P) (hfits : g.Fits m.cols m.rows)
    (h : Refines P con g) :
    Refines P (vgaScroll m (wrapLine m { con with csrX := 0, csrY := con.csrY + 1 }))
      (g.nextLine.settle m.cols m.rows) := by
  have hrow := hfits.row
  have hheight := m.height.toNat_lt
  apply settle_refines (g := g.nextLine) sim hrow hfits.below
  refine ⟨rfl, ?_, h.screen⟩
  show (con.csrY + 1).toNat = g.row + 1
  rw [UInt32.toNat_add, h.row]
  apply Nat.mod_eq_of_lt
  unfold Mode.rows at hrow
  rw [UInt32.toNat_one]
  omega

/-- **One call of `vga_putc`.** -/
theorem vgaPutc_refines (sim : Simulates m lerp P) (hfits : g.Fits m.cols m.rows)
    (h : Refines P con g) (c : Int8) :
    Refines P (vgaPutc m lerp c con) (gridPutc m.cols m.rows c g) := by
  rw [vgaPutc, gridPutc]
  by_cases hback : c = 0x08
  · rw [if_pos hback, if_pos hback]
    apply back_refines sim (hfits.left.draw 0x20)
    exact draw_refines sim hfits.left (left_refines h) (by decide)
  rw [if_neg hback, if_neg hback]
  by_cases htab : c = 0x09
  · rw [if_pos htab, if_pos htab]
    exact tab_refines sim hfits h
  rw [if_neg htab, if_neg htab]
  by_cases hhome : c = 0x0D
  · rw [if_pos hhome, if_pos hhome, ← hfits.home.settle_eq]
    exact settle_refines sim (Nat.le_of_lt hfits.row) hfits.below ⟨rfl, h.row, h.screen⟩
  rw [if_neg hhome, if_neg hhome]
  by_cases hnewline : c = 0x0A
  · rw [if_pos hnewline, if_pos hnewline]
    exact newline_refines sim hfits h
  rw [if_neg hnewline, if_neg hnewline]
  by_cases hprint : c ≥ 0x20
  · rw [if_pos hprint, if_pos hprint, ← vgaPutc_of_printable hprint]
    exact draw_refines sim hfits h hprint
  · rw [if_neg hprint, if_neg hprint, ← hfits.settle_eq]
    exact settle_refines sim (Nat.le_of_lt hfits.row) hfits.below h

/-- **Any sequence of characters.** -/
theorem vgaPuts_refines (sim : Simulates m lerp P) (cs : List Int8) :
    ∀ {con : Console} {g : TextGrid Int8}, g.Fits m.cols m.rows → Refines P con g →
      (gridPuts m.cols m.rows cs g).Fits m.cols m.rows ∧
        Refines P (vgaPuts m lerp cs con) (gridPuts m.cols m.rows cs g) := by
  induction cs with
  | nil => exact fun hfits h => ⟨hfits, h⟩
  | cons c cs ih =>
      intro con g hfits h
      apply ih
      · exact gridPutc_fits hfits c
      · exact vgaPutc_refines sim hfits h c

end Simulation

end Neutrino.Drivers
