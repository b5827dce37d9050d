import Mathlib.Data.List.Count
import Mathlib.Data.List.Sort

/-!
# Ranks in sorted lists

A property that is inherited by smaller elements holds, in a sorted list, of a number of elements at
the front: `holds_getElem_iff`. For a value `a` two such numbers say where it is, `rankLt` — how many
elements are below `a`, and `rankLe` — how many are not above it. The elements equal to `a` are those
between the two (`getElem_eq_iff`).
-/

namespace Neutrino.Lib

section Prefix

variable {α : Type} [LE α]

/-- The elements with a downward closed property are the first ones. -/
theorem holds_getElem_iff {p : α → Bool} (hp : ∀ a b, a ≤ b → p b → p a) :
    ∀ {l : List α} {i : Nat}, l.Pairwise (· ≤ ·) → (hi : i < l.length) →
      (p l[i] ↔ i < l.countP p)
  | b :: l, i, hl, hi => by
      obtain ⟨hb, hl⟩ := List.pairwise_cons.mp hl
      by_cases hpb : p b = true
      · rw [List.countP_cons_of_pos hpb]
        cases i with
        | zero => exact iff_of_true hpb (Nat.succ_pos _)
        | succ i =>
            rw [List.getElem_cons_succ, holds_getElem_iff hp hl (Nat.lt_of_succ_lt_succ hi)]
            exact Nat.succ_lt_succ_iff.symm
      · -- what lies behind an element without the property lacks it too
        have hnone : l.countP p = 0 :=
          List.countP_eq_zero.mpr fun c hc hpc => hpb (hp b c (hb c hc) hpc)
        rw [List.countP_cons_of_neg hpb, hnone]
        refine iff_of_false ?_ (Nat.not_lt_zero i)
        cases i with
        | zero => exact hpb
        | succ i =>
            rw [List.getElem_cons_succ]
            exact fun hpc => hpb (hp b _ (hb _ (List.getElem_mem _)) hpc)

end Prefix

/-! ## The two ranks -/

/-- How many elements are below `a`. -/
def rankLt {α : Type} [LT α] [DecidableLT α] (l : List α) (a : α) : Nat := l.countP (· < a)

/-- How many elements are not above `a`. -/
def rankLe {α : Type} [LE α] [DecidableLE α] (l : List α) (a : α) : Nat := l.countP (· ≤ a)

theorem rankLe_le_length {α : Type} [LE α] [DecidableLE α] (l : List α) (a : α) :
    rankLe l a ≤ l.length :=
  List.countP_le_length

theorem getElem_le_iff {α : Type} [LE α] [DecidableLE α] [Std.IsLinearOrder α] {l : List α} {a : α}
    {i : Nat} (hl : l.Pairwise (· ≤ ·)) (hi : i < l.length) : l[i] ≤ a ↔ i < rankLe l a := by
  rw [rankLe, ← holds_getElem_iff _ hl hi, decide_eq_true_iff]
  intro b c hbc hc
  exact decide_eq_true (Std.le_trans hbc (of_decide_eq_true hc))

section Below

variable {α : Type} [LE α] [LT α] [DecidableLT α] [Std.IsLinearOrder α] [Std.LawfulOrderLT α]
  {l : List α} {a : α} {i : Nat}

theorem getElem_lt_iff (hl : l.Pairwise (· ≤ ·)) (hi : i < l.length) :
    l[i] < a ↔ i < rankLt l a := by
  rw [rankLt, ← holds_getElem_iff _ hl hi, decide_eq_true_iff]
  intro b c hbc hc
  exact decide_eq_true (Std.lt_of_le_of_lt hbc (of_decide_eq_true hc))

variable [DecidableLE α]

/-- **The occurrences of `a`** lie between its two ranks. -/
theorem getElem_eq_iff (hl : l.Pairwise (· ≤ ·)) (hi : i < l.length) :
    l[i] = a ↔ rankLt l a ≤ i ∧ i < rankLe l a := by
  have hbelow : rankLt l a ≤ i ↔ a ≤ l[i] := by
    rw [← Nat.not_lt, ← getElem_lt_iff hl hi, Std.not_lt]
  rw [← getElem_le_iff hl hi, hbelow, and_comm]
  exact Std.le_antisymm_iff.symm

theorem mem_iff_rankLt_lt (hl : l.Pairwise (· ≤ ·)) : a ∈ l ↔ rankLt l a < rankLe l a := by
  constructor
  · intro ha
    obtain ⟨i, hi, rfl⟩ := List.getElem_of_mem ha
    obtain ⟨hlo, hhi⟩ := (getElem_eq_iff hl hi).mp rfl
    exact Nat.lt_of_le_of_lt hlo hhi
  · intro hlt
    have hi : rankLt l a < l.length := Nat.lt_of_lt_of_le hlt (rankLe_le_length l a)
    have heq := (getElem_eq_iff (a := a) hl hi).mpr ⟨Nat.le_refl _, hlt⟩
    exact heq ▸ List.getElem_mem hi

end Below

theorem rankLt_le_rankLe {α : Type} [LE α] [LT α] [DecidableLE α] [DecidableLT α]
    [Std.LawfulOrderLT α] (l : List α) (a : α) : rankLt l a ≤ rankLe l a :=
  List.countP_mono_left fun _ _ hb => decide_eq_true (Std.le_of_lt (of_decide_eq_true hb))

end Neutrino.Lib
