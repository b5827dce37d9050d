import Neutrino.Containers.Stack
import Neutrino.Lib.Run

/-!
# The stack container and the end of its array

`stack_push` looks whether the index, already moved, *is* the last one. The index moves by two with a
push, by one with a push that fails and with a pop, so it gets to the last place of the array in some
way or other; from there a push steps over the test and stores two places further on
(`run_isSome_iff`). With the largest size the index wraps instead.
-/

namespace Neutrino.Containers

open Neutrino.Lib

/-- The calls that access the array, and `stack_pop`. -/
inductive Call where
  | push (val : UInt32)
  | pop
  | top
  deriving DecidableEq, Repr

/-- The stack after a call; there is none if the call accesses what is not in the array. -/
def call (s : Stack) : Call → Option Stack
  | .push val => (stackPush s val).map Prod.fst
  | .pop => some (stackPop s).1
  | .top => (top s).map fun _ => s

theorem call_push (s : Stack) (val : UInt32) : call s (.push val) = (stackPush s val).map Prod.fst :=
  rfl

/-- The index is one of the array's. -/
structure IndexInside (size : UInt32) (s : Stack) : Prop where
  size_eq : s.size = size
  arr : s.arr.length = size.toNat
  index : s.top.toNat < size.toNat

section Calls

variable {size : UInt32} {s : Stack} {val : UInt32}

theorem IndexInside.pop (h : IndexInside size s) : IndexInside size (stackPop s).1 := by
  unfold stackPop
  by_cases hempty : stackEmpty s = true
  · rw [if_pos hempty]
    exact h
  · rw [if_neg hempty]
    refine ⟨h.size_eq, h.arr, ?_⟩
    have hone : (1 : UInt32) ≤ s.top := by
      unfold stackEmpty at hempty
      rw [beq_iff_eq, ← UInt32.toNat_inj, UInt32.toNat_zero] at hempty
      rw [UInt32.le_iff_toNat_le, UInt32.toNat_one]
      exact Nat.one_le_iff_ne_zero.mpr hempty
    show (s.top - 1).toNat < size.toNat
    rw [UInt32.toNat_sub_of_le _ _ hone]
    exact Nat.lt_of_le_of_lt (Nat.sub_le _ _) h.index

theorem IndexInside.top (h : IndexInside size s) : call s .top = some s := by
  have hindex : s.top.toNat < s.arr.length := h.arr ▸ h.index
  unfold call Containers.top
  rw [List.getElem?_eq_getElem hindex, Option.map_some]

/-- The index and the size, as natural numbers. -/
theorem IndexInside.toNat_moved (h : IndexInside size s) :
    (s.top + 1).toNat = s.top.toNat + 1 ∧ (s.size - 1).toNat = size.toNat - 1 := by
  have hindex := h.index
  have hlt := size.toNat_lt
  have hone : (1 : UInt32) ≤ s.size := by
    rw [h.size_eq, UInt32.le_iff_toNat_le, UInt32.toNat_one]
    omega
  rw [UInt32.toNat_add, UInt32.toNat_sub_of_le _ _ hone, UInt32.toNat_one, h.size_eq]
  exact ⟨Nat.mod_eq_of_lt (by omega), rfl⟩

theorem IndexInside.full_iff (h : IndexInside size s) :
    stackFull { s with top := s.top + 1 } = true ↔ s.top.toNat + 2 = size.toNat := by
  obtain ⟨hmoved, hlast⟩ := h.toNat_moved
  have hindex := h.index
  unfold stackFull
  rw [beq_iff_eq, ← UInt32.toNat_inj, hmoved, hlast]
  omega

/-- A store by `stack_push`. -/
theorem IndexInside.stored (h : IndexInside size s)
    (hnotfull : ¬ stackFull { s with top := s.top + 1 } = true)
    (hin : (s.top + 1 + 1).toNat < size.toNat) :
    ∃ s', call s (.push val) = some s' ∧ IndexInside size s' := by
  rw [call_push]
  unfold stackPush store
  rw [if_neg hnotfull, if_pos (show (s.top + 1 + 1).toNat < s.arr.length from h.arr ▸ hin)]
  refine ⟨_, rfl, h.size_eq, ?_, hin⟩
  rw [List.length_set]
  exact h.arr

/-- **In front of the last place a push is safe**: it stores two places further on, or sees that the
stack is full. -/
theorem IndexInside.push (h : IndexInside size s) (hne : s.top ≠ size - 1) :
    ∃ s', call s (.push val) = some s' ∧ IndexInside size s' := by
  obtain ⟨hmoved, hlast⟩ := h.toNat_moved
  have hindex := h.index
  have hlt := size.toNat_lt
  rw [← h.size_eq, ne_eq, ← UInt32.toNat_inj, hlast] at hne
  by_cases hfull : stackFull { s with top := s.top + 1 } = true
  · rw [call_push]
    unfold stackPush
    rw [if_pos hfull]
    refine ⟨_, rfl, h.size_eq, h.arr, ?_⟩
    rw [h.full_iff] at hfull
    show (s.top + 1).toNat < size.toNat
    omega
  · refine h.stored hfull ?_
    rw [h.full_iff] at hfull
    rw [UInt32.toNat_add, hmoved, UInt32.toNat_one, Nat.mod_eq_of_lt (by omega)]
    omega

/-- At the last place the test is behind. -/
theorem IndexInside.not_full_of_last (h : IndexInside size s) (heq : s.top = size - 1) :
    ¬ stackFull { s with top := s.top + 1 } = true ∧ s.top.toNat = size.toNat - 1 := by
  obtain ⟨-, hlast⟩ := h.toNat_moved
  have hindex := h.index
  rw [h.full_iff]
  rw [← h.size_eq, ← UInt32.toNat_inj, hlast] at heq
  exact ⟨by omega, heq⟩

/-- With the largest size the index wraps. -/
theorem IndexInside.push_wraps (h : IndexInside size s) (heq : s.top = size - 1)
    (hmax : size = 0xFFFFFFFF) : ∃ s', call s (.push val) = some s' ∧ IndexInside size s' := by
  obtain ⟨hnotfull, -⟩ := h.not_full_of_last heq
  refine h.stored hnotfull ?_
  rw [heq, hmax]
  decide

theorem IndexInside.push_outside (h : IndexInside size s) (heq : s.top = size - 1)
    (hmax : size ≠ 0xFFFFFFFF) : call s (.push val) = none := by
  obtain ⟨hnotfull, hindex⟩ := h.not_full_of_last heq
  obtain ⟨hmoved, -⟩ := h.toNat_moved
  have hpos := h.index
  have hlt := size.toNat_lt
  have hne : size.toNat ≠ 4294967295 := fun hsize => hmax (UInt32.toNat_inj.mp hsize)
  have hout : ¬ (s.top + 1 + 1).toNat < s.arr.length := by
    rw [UInt32.toNat_add, hmoved, UInt32.toNat_one, hindex, h.arr, Nat.mod_eq_of_lt (by omega)]
    omega
  rw [call_push]
  unfold stackPush store
  rw [if_neg hnotfull, if_neg hout]
  rfl

end Calls

/-! ## Whole sequences -/

/-- What keeps a call inside the array. -/
def Allowed (size : UInt32) (s : Stack) : Call → Prop
  | .push _ => s.top = size - 1 → size = 0xFFFFFFFF
  | _ => True

theorem IndexInside.call {size : UInt32} {s : Stack} (h : IndexInside size s) (c : Call)
    (hc : Allowed size s c) : ∃ s', Containers.call s c = some s' ∧ IndexInside size s' := by
  cases c with
  | push val =>
      by_cases heq : s.top = size - 1
      · exact h.push_wraps heq (hc heq)
      · exact h.push heq
  | pop => exact ⟨_, rfl, h.pop⟩
  | top => exact ⟨s, h.top, h⟩

theorem IndexInside.stuck {size : UInt32} {s : Stack} (h : IndexInside size s) (c : Call)
    (hc : ¬ Allowed size s c) : Containers.call s c = none := by
  cases c with
  | push val =>
      obtain ⟨heq, hmax⟩ := Classical.not_imp.mp hc
      exact h.push_outside heq hmax
  | pop => exact absurd trivial hc
  | top => exact absurd trivial hc

/-- **The container stays inside its array precisely when no push finds the index at the last place**,
but for the largest size, with which the index wraps. -/
theorem run_isSome_iff (size : UInt32) (hsize : 1 ≤ size) (arr : List UInt32)
    (harr : arr.length = size.toNat) (calls : List Call) :
    (runFrom call ⟨0, size, arr⟩ calls).isSome ↔
      ∀ before val after, calls = before ++ .push val :: after →
        ∀ s, runFrom call ⟨0, size, arr⟩ before = some s → s.top = size - 1 → size = 0xFFFFFFFF := by
  have hfresh : IndexInside size ⟨0, size, arr⟩ := by
    refine ⟨rfl, harr, ?_⟩
    rw [UInt32.le_iff_toNat_le, UInt32.toNat_one] at hsize
    exact hsize
  rw [runFrom_isSome_iff (fun s c hs hc => hs.call c hc) (fun s c hs hc => hs.stuck c hc) hfresh]
  constructor
  · intro h before val after heq s hs
    exact h before (.push val) after heq s hs
  · intro h before c after heq s hs
    cases c with
    | push val => exact h before val after heq s hs
    | pop => trivial
    | top => trivial

theorem run_isSome_one_push : (runFrom call ⟨0, 3, [0, 0, 0]⟩ [.push 7, .top]).isSome :=
  (run_isSome_iff 3 (by decide) [0, 0, 0] rfl _).mpr fun before val after heq s hs htop => by
    cases before with
    | nil =>
        cases hs
        exact absurd htop (by decide)
    | cons b before =>
        cases before with
        | nil => cases heq
        | cons b before => simp at heq

/-- In an array of three the first push stores at 2, and the second at 4. -/
theorem run_second_push : ¬ (runFrom call ⟨0, 3, [0, 0, 0]⟩ [.push 7, .push 8]).isSome := by decide

end Neutrino.Containers
