import Mathlib.Data.List.Basic
import Mathlib.Logic.Function.Basic
import Mathlib.Tactic.Common

/-!
# Writing a list into a window of a buffer

`written b q n out` is the buffer `b` after `out` was written from offset `q` on, of which only the
first `n` cells could be written: what does not fit is dropped. Writing in two steps is writing the
two lists in one (`written_append`), whether the next cell is written after the others
(`written_snoc`) or before them (`written_cons`).
-/

namespace Neutrino.Lib

variable {α : Type*}

def written (b : Int → α) (q : Int) (n : Nat) (out : List α) : Int → α := fun x =>
  if q ≤ x then (out.take n)[(x - q).toNat]?.getD (b x) else b x

variable (b : Int → α) (q : Int) (n : Nat)

@[simp] theorem written_nil : written b q n [] = b := by
  funext x
  simp [written]

@[simp] theorem written_zero (out : List α) : written b q 0 out = b := by
  funext x
  simp [written]

/-- Cells before the window keep their contents. -/
theorem written_of_lt (out : List α) {x : Int} (h : x < q) : written b q n out x = b x :=
  if_neg (Int.not_le.mpr h)

/-- So do the cells behind it. -/
theorem written_of_ge (out : List α) {x : Int} (h : q + n ≤ x) : written b q n out x = b x := by
  rw [written, if_pos (by omega), List.getElem?_eq_none]
  · rfl
  · rw [List.length_take]
    omega

/-- And so do those behind what was written. -/
theorem written_of_past (out : List α) {x : Int} (h : q + out.length ≤ x) :
    written b q n out x = b x := by
  rw [written, if_pos (by omega), List.getElem?_eq_none]
  · rfl
  · rw [List.length_take]
    omega

theorem written_apply {out : List α} {i : Nat} (hn : i < n) (hi : i < out.length) :
    written b q n out (q + i) = out[i] := by
  rw [written, if_pos (by omega), show (q + i - q).toNat = i by omega, List.getElem?_take_of_lt hn,
    List.getElem?_eq_getElem hi]
  rfl

theorem written_append (xs ys : List α) :
    written (written b q n xs) (q + xs.length) (n - xs.length) ys = written b q n (xs ++ ys) := by
  funext x
  by_cases hlow : x < q
  · rw [written_of_lt _ _ _ _ (by omega), written_of_lt _ _ _ _ hlow, written_of_lt _ _ _ _ hlow]
  · obtain ⟨i, rfl⟩ : ∃ i : Nat, x = q + i := ⟨(x - q).toNat, by omega⟩
    by_cases hfirst : i < xs.length
    · rw [written_of_lt _ _ _ _ (by omega)]
      simp only [written, show q ≤ q + (i : Int) by omega, if_true,
        show (q + i - q).toNat = i by omega, List.take_append]
      by_cases hn : i < n
      · rw [List.getElem?_append_left (by rw [List.length_take]; omega)]
      · rw [List.getElem?_eq_none (by rw [List.length_take]; omega), List.getElem?_eq_none]
        rw [List.length_append, List.length_take, List.length_take]
        omega
    · have hrest : written b q n xs (q + i) = b (q + i) := by
        rw [written, if_pos (by omega), List.getElem?_eq_none]
        · rfl
        · rw [List.length_take]
          omega
      rw [written, hrest]
      simp only [written, show q + (xs.length : Int) ≤ q + (i : Int) by omega,
        show q ≤ q + (i : Int) by omega, if_true,
        show (q + i - (q + xs.length)).toNat = i - xs.length by omega,
        show (q + i - q).toNat = i by omega, List.take_append]
      by_cases hn : n ≤ xs.length
      · rw [Nat.sub_eq_zero_of_le hn, List.take_zero, List.append_nil,
          List.getElem?_eq_none (Nat.zero_le _),
          List.getElem?_eq_none (by rw [List.length_take]; omega)]
      · rw [List.take_of_length_le (show xs.length ≤ n by omega),
          List.getElem?_append_right (by omega)]

theorem written_singleton (c : α) (h : 0 < n) : written b q n [c] = Function.update b q c := by
  funext x
  by_cases hx : x = q
  · rw [hx, Function.update_self]
    have := @written_apply _ b q n [c] 0 h Nat.one_pos
    rwa [Int.natCast_zero, Int.add_zero] at this
  · rw [Function.update_of_ne hx, written]
    split
    · rw [List.getElem?_eq_none]
      · rfl
      · rw [List.length_take, List.length_singleton]
        omega
    · rfl

theorem written_snoc (out : List α) (c : α) (h : out.length < n) :
    written b q n (out ++ [c]) = Function.update (written b q n out) (q + out.length) c := by
  rw [← written_append, written_singleton _ _ _ _ (by omega)]

/-- Once the window is full, nothing more is written. -/
theorem written_append_of_full (out more : List α) (h : n ≤ out.length) :
    written b q n (out ++ more) = written b q n out := by
  rw [← written_append, Nat.sub_eq_zero_of_le h, written_zero]

theorem written_cons (c : α) (out : List α) (h : 0 < n) :
    written b q n (c :: out) = Function.update (written b (q + 1) (n - 1) out) q c := by
  funext x
  have hcons := written_append b q n [c] out
  rw [List.singleton_append, List.length_singleton, Int.natCast_one] at hcons
  rw [← hcons, written_singleton _ _ _ _ h]
  by_cases hx : x = q
  · rw [hx, Function.update_self, written_of_lt _ _ _ _ (by omega), Function.update_self]
  · rw [Function.update_of_ne hx]
    simp only [written, Function.update_of_ne hx]

end Neutrino.Lib
