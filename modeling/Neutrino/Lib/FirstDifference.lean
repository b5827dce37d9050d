import Mathlib.Data.List.Lex
import Mathlib.Order.Lattice

/-!
# The first difference of two lists

`DiffersAt xs ys j x y` says that the lists agree in their first `j` entries and have different ones,
`x` and `y`, behind them. There is at most one such place (`DiffersAt.unique`), and two lists of at
least `n` entries agree in the first `n` or have it there (`take_eq_or_differsAt`).

It is where a lexicographic comparison is decided: `DiffersAt.map_take_lt_iff` is about the first `n`
entries, compared by a key in a linear order.
-/

namespace Neutrino.Lib

variable {α β : Type}

/-- The first entries that differ are `x` and `y`, at `j`. -/
structure DiffersAt (xs ys : List α) (j : Nat) (x y : α) : Prop where
  agree : xs.take j = ys.take j
  left : xs[j]? = some x
  right : ys[j]? = some y
  ne : x ≠ y

namespace DiffersAt

variable {xs ys : List α} {j k n : Nat} {a x y x' y' : α}

theorem head (h : x ≠ y) : DiffersAt (x :: xs) (y :: ys) 0 x y := ⟨rfl, rfl, rfl, h⟩

theorem cons (h : DiffersAt xs ys j x y) : DiffersAt (a :: xs) (a :: ys) (j + 1) x y where
  agree := by rw [List.take_succ_cons, List.take_succ_cons, h.agree]
  left := h.left
  right := h.right
  ne := h.ne

theorem symm (h : DiffersAt xs ys j x y) : DiffersAt ys xs j y x :=
  ⟨h.agree.symm, h.right, h.left, h.ne.symm⟩

/-- What the lists are. -/
theorem eq_append (h : DiffersAt xs ys j x y) :
    ∃ as bs cs, xs = as ++ x :: bs ∧ ys = as ++ y :: cs ∧ as.length = j := by
  obtain ⟨hj, hx⟩ := List.getElem?_eq_some_iff.mp h.left
  obtain ⟨hj', hy⟩ := List.getElem?_eq_some_iff.mp h.right
  refine ⟨xs.take j, xs.drop (j + 1), ys.drop (j + 1), ?_, ?_, List.length_take_of_le hj.le⟩
  · rw [← hx, ← List.drop_eq_getElem_cons hj, List.take_append_drop]
  · rw [h.agree, ← hy, ← List.drop_eq_getElem_cons hj', List.take_append_drop]

/-- The first `n` entries are different if the place is among them. -/
theorem take_ne (h : DiffersAt xs ys j x y) (hj : j < n) : xs.take n ≠ ys.take n := by
  intro htake
  have hentry : (xs.take n)[j]? = (ys.take n)[j]? := by rw [htake]
  rw [List.getElem?_take_of_lt hj, List.getElem?_take_of_lt hj, h.left, h.right] at hentry
  exact h.ne (Option.some.inj hentry)

/-- **There is one such place at most.** -/
theorem unique (h : DiffersAt xs ys j x y) (h' : DiffersAt xs ys k x' y') :
    j = k ∧ x = x' ∧ y = y' := by
  rcases Nat.lt_trichotomy j k with hlt | rfl | hgt
  · exact absurd h'.agree (h.take_ne hlt)
  · exact ⟨rfl, Option.some.inj (h.left.symm.trans h'.left),
      Option.some.inj (h.right.symm.trans h'.right)⟩
  · exact absurd h.agree (h'.take_ne hgt)

/-- **The lexicographic order is decided at the first difference.** -/
theorem map_take_lt_iff [LinearOrder β] {key : α → β} (hkey : Function.Injective key)
    (h : DiffersAt xs ys j x y) (hj : j < n) :
    (xs.take n).map key < (ys.take n).map key ↔ key x < key y := by
  obtain ⟨as, bs, cs, rfl, rfl, rfl⟩ := h.eq_append
  obtain ⟨m, rfl⟩ := Nat.exists_eq_add_of_lt hj
  have htake : ∀ z zs, ((as ++ z :: zs).take (as.length + m + 1)).map key =
      as.map key ++ key z :: (zs.take m).map key := by
    intro z zs
    rw [Nat.add_assoc, List.take_length_add_append, List.take_succ_cons, List.map_append,
      List.map_cons]
  have hne : key x ≠ key y := fun heq => h.ne (hkey heq)
  rw [htake, htake]
  constructor
  · intro hlt
    rcases lt_or_gt_of_ne hne with hkeys | hkeys
    · exact hkeys
    · exact absurd hlt (lt_asymm (List.append_left_lt (.rel hkeys)))
  · intro hkeys
    exact List.append_left_lt (.rel hkeys)

end DiffersAt

/-- The first `n` entries agree, or the lists differ at one of them first. -/
theorem take_eq_or_differsAt {xs ys : List α} {n : Nat} (hxs : n ≤ xs.length) (hys : n ≤ ys.length) :
    xs.take n = ys.take n ∨ ∃ j x y, j < n ∧ DiffersAt xs ys j x y := by
  induction n generalizing xs ys with
  | zero => exact .inl rfl
  | succ n ih =>
      cases xs with
      | nil => exact absurd hxs (Nat.not_succ_le_zero n)
      | cons x xs =>
          cases ys with
          | nil => exact absurd hys (Nat.not_succ_le_zero n)
          | cons y ys =>
              by_cases hxy : x = y
              · subst hxy
                cases ih (Nat.le_of_succ_le_succ hxs) (Nat.le_of_succ_le_succ hys) with
                | inl hsame =>
                    rw [List.take_succ_cons, List.take_succ_cons, hsame]
                    exact .inl rfl
                | inr hdiffers =>
                    obtain ⟨j, a, b, hj, h⟩ := hdiffers
                    exact .inr ⟨j + 1, a, b, Nat.succ_lt_succ hj, h.cons⟩
              · exact .inr ⟨0, x, y, Nat.succ_pos n, .head hxy⟩

end Neutrino.Lib
