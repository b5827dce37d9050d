/-!
# Text grids

A grid of cells with a cursor, as a text console has. A cell keeps everything that was drawn there, the
last item first. The grid is `cols` cells wide and `rows` cells high; the cursor may stand one past
either edge until `settle` brings it back, which scrolls the grid when it was below the last row.

`Fits` is the invariant: the cursor is inside and nothing was drawn below the grid. Every operation
that ends with `settle` keeps it.
-/

namespace Neutrino.Lib

structure TextGrid (α : Type) where
  col : Nat
  row : Nat
  cells : Nat → Nat → List α

namespace TextGrid

variable {α : Type}

/-! ## Operations -/

def clear : TextGrid α := ⟨0, 0, fun _ _ => []⟩

/-- `a` on top of what is in the cell. -/
def stack (cells : Nat → Nat → List α) (col row : Nat) (a : α) : Nat → Nat → List α := fun x y =>
  if x = col ∧ y = row then a :: cells x y else cells x y

def draw (a : α) (g : TextGrid α) : TextGrid α :=
  { g with cells := stack g.cells g.col g.row a, col := g.col + 1 }

def nextLine (g : TextGrid α) : TextGrid α := { g with col := 0, row := g.row + 1 }

def home (g : TextGrid α) : TextGrid α := { g with col := 0 }

/-- To the first column of the next group of eight. -/
def tab (g : TextGrid α) : TextGrid α := { g with col := (g.col + 8) / 8 * 8 }

/-- One to the left, if there is room. -/
def left (g : TextGrid α) : TextGrid α := { g with col := g.col - 1 }

/-- Past the right edge the line is at its end. -/
def wrap (cols : Nat) (g : TextGrid α) : TextGrid α := if cols ≤ g.col then g.nextLine else g

/-- Below the last row everything moves up. -/
def scroll (rows : Nat) (g : TextGrid α) : TextGrid α :=
  if g.row < rows then g else { g with row := g.row - 1, cells := fun x y => g.cells x (y + 1) }

def settle (cols rows : Nat) (g : TextGrid α) : TextGrid α := scroll rows (wrap cols g)

/-! ## The invariant -/

structure Fits (cols rows : Nat) (g : TextGrid α) : Prop where
  col : g.col < cols
  row : g.row < rows
  below : ∀ x y, rows ≤ y → g.cells x y = []

variable {cols rows : Nat} {g : TextGrid α}

theorem fits_clear (hcols : 0 < cols) (hrows : 0 < rows) : Fits cols rows (clear : TextGrid α) where
  col := hcols
  row := hrows
  below _ _ _ := rfl

/-- `settle` takes a cursor back into the grid that is on some row, in any column, or on the row just
below in the first one. -/
theorem fits_settle (hcols : 0 < cols) (hrows : 0 < rows)
    (hrow : g.row < rows ∨ (g.row = rows ∧ g.col = 0))
    (hbelow : ∀ x y, rows ≤ y → g.cells x y = []) : Fits cols rows (settle cols rows g) := by
  unfold settle scroll wrap nextLine
  -- only a wrap can take the cursor below the grid, and only from the last row
  by_cases hcol : cols ≤ g.col
  · have hin : g.row < rows := by omega
    simp only [hcol, if_true]
    split
    case isTrue h => exact ⟨hcols, h, hbelow⟩
    case isFalse => exact ⟨hcols, by simpa using hin, fun x y hy => hbelow x (y + 1) (by omega)⟩
  · simp only [hcol, if_false]
    split
    case isTrue h => exact ⟨by omega, h, hbelow⟩
    case isFalse => exact ⟨by simp; omega, by simp; omega, fun x y hy => hbelow x (y + 1) (by omega)⟩

/-- A cursor inside stays where it is. -/
theorem Fits.settle_eq (h : Fits cols rows g) : settle cols rows g = g := by
  unfold settle wrap scroll
  rw [if_neg (Nat.not_le.mpr h.col), if_pos h.row]

theorem stack_below {cells : Nat → Nat → List α} {col row : Nat} {a : α} (hrow : row < rows)
    (h : ∀ x y, rows ≤ y → cells x y = []) : ∀ x y, rows ≤ y → stack cells col row a x y = [] := by
  intro x y hy
  unfold stack
  rw [if_neg (by omega), h x y hy]

theorem Fits.draw (h : Fits cols rows g) (a : α) : Fits cols rows (settle cols rows (g.draw a)) :=
  fits_settle (Nat.zero_lt_of_lt h.col) (Nat.zero_lt_of_lt h.row) (.inl h.row)
    (stack_below h.row h.below)

theorem Fits.left (h : Fits cols rows g) : Fits cols rows g.left :=
  ⟨Nat.lt_of_le_of_lt (Nat.sub_le _ _) h.col, h.row, h.below⟩

theorem Fits.nextLine (h : Fits cols rows g) : Fits cols rows (settle cols rows g.nextLine) := by
  apply fits_settle (Nat.zero_lt_of_lt h.col) (Nat.zero_lt_of_lt h.row)
  case hrow =>
    have hrow := h.row
    by_cases hlast : g.row + 1 < rows
    · exact .inl hlast
    · exact .inr ⟨Nat.le_antisymm hrow (Nat.not_lt.mp hlast), rfl⟩
  case hbelow => exact h.below

theorem Fits.home (h : Fits cols rows g) : Fits cols rows g.home :=
  ⟨Nat.zero_lt_of_lt h.col, h.row, h.below⟩

theorem Fits.tab (h : Fits cols rows g) : Fits cols rows (settle cols rows g.tab) :=
  fits_settle (Nat.zero_lt_of_lt h.col) (Nat.zero_lt_of_lt h.row) (.inl h.row) h.below

end TextGrid

end Neutrino.Lib
