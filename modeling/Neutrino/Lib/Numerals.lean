import Mathlib.Data.Nat.Digits.Lemmas

/-!
# Positional numerals with group marks

`Nat.digitsAppend b j m` has the `j` lowest digits of `m` in order of weight (`digitsAppend_eq_map`).
`grouped mark g ds` is the numeral `ds`, highest digit first, with a mark in front of every complete
group of `g` digits, counted from the right, but never in front of the whole numeral. Taking the
marks out gives the digits back (`filter_grouped`).
-/

namespace Neutrino.Lib

/-! ## Digits by position -/

theorem digitsAppend_eq_map {b : Nat} (hb : 2 ≤ b) {m j : Nat}
    (hlen : (Nat.digits b m).length ≤ j) :
    Nat.digitsAppend b j m = (List.range j).map fun i => m / b ^ i % b := by
  unfold Nat.digitsAppend
  apply List.ext_getElem
  · rw [List.length_append, List.length_replicate, List.length_map, List.length_range,
      Nat.add_sub_cancel' hlen]
  · intro i hi _
    rw [List.getElem_map, List.getElem_range, ← Nat.getD_digits m i hb, List.getElem_append,
      List.getD_eq_getElem?_getD]
    split
    · next hin => rw [List.getElem?_eq_getElem hin, Option.getD_some]
    · next hout =>
      rw [List.getElem_replicate, List.getElem?_eq_none (Nat.le_of_not_lt hout), Option.getD_none]

/-! ## Group marks -/

variable {α : Type}

def grouped (mark : α) (g : Nat) : List α → List α
  | [] => []
  | d :: ds => d :: ((if 0 < ds.length ∧ ds.length % g = 0 then [mark] else []) ++ grouped mark g ds)

/-- A single group has no mark. -/
theorem grouped_of_length_le {mark : α} {g : Nat} {ds : List α} (h : ds.length ≤ g) :
    grouped mark g ds = ds := by
  induction ds with
  | nil => rfl
  | cons d ds ih =>
      have hlt : ds.length < g := h
      have hno : ¬ (0 < ds.length ∧ ds.length % g = 0) := by
        rw [Nat.mod_eq_of_lt hlt]
        omega
      rw [grouped, if_neg hno, List.nil_append, ih (Nat.le_of_lt hlt)]

theorem filter_grouped [DecidableEq α] {mark : α} {g : Nat} {ds : List α} (h : mark ∉ ds) :
    (grouped mark g ds).filter (· ≠ mark) = ds := by
  induction ds with
  | nil => rfl
  | cons d ds ih =>
      have hd : d ≠ mark := fun heq => h (heq ▸ List.mem_cons_self)
      have hds : mark ∉ ds := fun hmem => h (List.mem_cons_of_mem d hmem)
      rw [grouped, List.filter_cons_of_pos (by simpa using hd), List.filter_append, ih hds]
      split <;> simp

end Neutrino.Lib
