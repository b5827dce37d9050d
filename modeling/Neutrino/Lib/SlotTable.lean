import Mathlib.Data.List.Basic

/-!
# Tables of optional values

A table of `n` slots, each empty or holding a value: an array of pointers some of which are null. A
slot outside the table reads as an empty one, so `slot t i = some a` says both that `i` is in range
and that something is there.

`firstFree` is the linear search for an empty slot, `occupied` the number of slots in use;
`occupied_put` says how it changes.
-/

namespace Neutrino.Lib

variable {α : Type} {n : Nat}

abbrev SlotTable (α : Type) (n : Nat) := Vector (Option α) n

namespace SlotTable

/-- The value at slot `i`. -/
def slot (t : SlotTable α n) (i : Nat) : Option α := t[i]?.join

def put (t : SlotTable α n) (i : Nat) (x : Option α) : SlotTable α n := t.setIfInBounds i x

def empty (α : Type) (n : Nat) : SlotTable α n := Vector.replicate n none

/-- How many slots are in use. -/
def occupied (t : SlotTable α n) : Nat := t.countP Option.isSome

/-! ## Reading and writing -/

@[simp] theorem slot_empty (i : Nat) : slot (empty α n) i = none := by
  unfold slot empty
  rw [Vector.getElem?_replicate]
  split
  · rfl
  · rfl

theorem slot_eq_none_of_le (t : SlotTable α n) {i : Nat} (h : n ≤ i) : slot t i = none := by
  unfold slot
  rw [Vector.getElem?_eq_none h]
  rfl

theorem lt_of_slot {t : SlotTable α n} {i : Nat} {a : α} (h : slot t i = some a) : i < n := by
  by_contra hge
  rw [slot_eq_none_of_le t (Nat.le_of_not_lt hge)] at h
  cases h

theorem slot_put_self (t : SlotTable α n) {i : Nat} (h : i < n) (x : Option α) :
    slot (put t i x) i = x := by
  unfold slot put
  rw [Vector.getElem?_setIfInBounds_self_of_lt h]
  rfl

@[simp] theorem slot_put_none (t : SlotTable α n) (i : Nat) : slot (put t i none) i = none := by
  by_cases h : i < n
  · exact slot_put_self t h none
  · exact slot_eq_none_of_le _ (Nat.le_of_not_lt h)

theorem slot_put_ne (t : SlotTable α n) {i j : Nat} (h : i ≠ j) (x : Option α) :
    slot (put t i x) j = slot t j := by
  unfold slot put
  rw [Vector.getElem?_setIfInBounds_ne h]

/-! ## Counting -/

theorem occupied_empty : occupied (empty α n) = 0 := by
  unfold occupied empty
  rw [Vector.countP_replicate]
  rfl

/-- Only which slots are in use counts. -/
theorem occupied_congr {β : Type} {t : SlotTable α n} {t' : SlotTable β n}
    (h : ∀ i, (slot t' i).isSome = (slot t i).isSome) : occupied t' = occupied t := by
  have hmap : Vector.map Option.isSome t' = Vector.map Option.isSome t := by
    apply Vector.ext
    intro i hi
    have hslot := h i
    unfold slot at hslot
    rw [Vector.getElem?_eq_getElem hi, Vector.getElem?_eq_getElem hi, Option.join_some,
      Option.join_some] at hslot
    rw [Vector.getElem_map, Vector.getElem_map, hslot]
  unfold occupied
  have hid : (id : Bool → Bool) ∘ Option.isSome (α := β) = Option.isSome := rfl
  have hid' : (id : Bool → Bool) ∘ Option.isSome (α := α) = Option.isSome := rfl
  rw [← hid, ← hid', ← Vector.countP_map, ← Vector.countP_map, hmap]

theorem occupied_le (t : SlotTable α n) : occupied t ≤ n := Vector.countP_le_size

/-- **What a write does to the count.** -/
theorem occupied_put (t : SlotTable α n) {i : Nat} (h : i < n) (x : Option α) :
    occupied (put t i x) + (slot t i).isSome.toNat = occupied t + x.isSome.toNat := by
  have hset : t.setIfInBounds i x = t.set i x := by
    apply Vector.ext
    intro j hj
    rw [Vector.getElem_setIfInBounds hj, Vector.getElem_set]
  unfold occupied put slot
  rw [hset, Vector.countP_set h, Vector.getElem?_eq_getElem h,
    Option.join_some]
  have hpos : t[i].isSome = true → 0 < t.countP Option.isSome := fun hi =>
    Vector.countP_pos_iff.mpr ⟨t[i], Vector.getElem_mem h, hi⟩
  cases hi : t[i].isSome with
  | true =>
      have := hpos hi
      cases x with
      | none => simp; omega
      | some a => simp; omega
  | false =>
      cases x with
      | none => simp
      | some a => simp

theorem occupied_fill (t : SlotTable α n) {i : Nat} (h : i < n) (hfree : slot t i = none) (a : α) :
    occupied (put t i (some a)) = occupied t + 1 := by
  have := occupied_put t h (some a)
  rwa [hfree] at this

theorem occupied_clear {t : SlotTable α n} {i : Nat} {a : α} (hused : slot t i = some a) :
    occupied (put t i none) + 1 = occupied t := by
  have := occupied_put t (lt_of_slot hused) none
  rwa [hused] at this

/-! ## Searching -/

/-- `while (t[i] != 0) i++;`, leaving the table is `none`. -/
def freeFrom (t : SlotTable α n) : Nat → Nat → Option Nat
  | 0, _ => none
  | steps + 1, i =>
      if i < n then
        if (slot t i).isNone then some i else freeFrom t steps (i + 1)
      else
        none

def firstFree (t : SlotTable α n) (start : Nat) : Option Nat := freeFrom t n start

theorem freeFrom_spec {t : SlotTable α n} {r : Nat} :
    ∀ {steps i : Nat}, freeFrom t steps i = some r →
      r < n ∧ slot t r = none ∧ ∀ j, i ≤ j → j < r → (slot t j).isSome := by
  intro steps
  induction steps with
  | zero =>
      intro i h
      cases h
  | succ steps ih =>
      intro i h
      unfold freeFrom at h
      split at h
      · next hi =>
        split at h
        · next hnone =>
          cases h
          exact ⟨hi, Option.isNone_iff_eq_none.mp hnone, fun j hj hjr => by omega⟩
        · next hsome =>
          obtain ⟨hr, hfree, hbetween⟩ := ih h
          refine ⟨hr, hfree, fun j hj hjr => ?_⟩
          rcases Nat.eq_or_lt_of_le hj with rfl | hlt
          · rwa [Bool.not_eq_true, Option.isNone_eq_false_iff] at hsome
          · exact hbetween j hlt hjr
      · cases h

theorem le_of_freeFrom {t : SlotTable α n} {steps i r : Nat} (h : freeFrom t steps i = some r) :
    i ≤ r := by
  induction steps generalizing i with
  | zero => cases h
  | succ steps ih =>
      unfold freeFrom at h
      split at h
      · split at h
        · cases h
          exact Nat.le_refl _
        · exact Nat.le_of_succ_le (ih h)
      · cases h

theorem freeFrom_of_free {t : SlotTable α n} {r : Nat} (hr : r < n) (hfree : slot t r = none) :
    ∀ {steps i : Nat}, i ≤ r → r < i + steps → (∀ j, i ≤ j → j < r → (slot t j).isSome) →
      freeFrom t steps i = some r := by
  intro steps
  induction steps with
  | zero =>
      intro i hi hlt _
      omega
  | succ steps ih =>
      intro i hi hlt hbetween
      unfold freeFrom
      rw [if_pos (Nat.lt_of_le_of_lt hi hr)]
      rcases Nat.eq_or_lt_of_le hi with rfl | hir
      · rw [if_pos (Option.isNone_iff_eq_none.mpr hfree)]
      · rw [if_neg]
        · exact ih hir (by omega) (fun j hj hjr => hbetween j (Nat.le_of_succ_le hj) hjr)
        · rw [Bool.not_eq_true, Option.isNone_eq_false_iff]
          exact hbetween i (Nat.le_refl i) hir

theorem firstFree_spec {t : SlotTable α n} {start r : Nat} (h : firstFree t start = some r) :
    r < n ∧ slot t r = none ∧ ∀ j, start ≤ j → j < r → (slot t j).isSome :=
  freeFrom_spec h

/-- The search from the start finds the first slot that is free. -/
theorem firstFree_zero {t : SlotTable α n} {r : Nat} (hr : r < n) (hfree : slot t r = none)
    (hused : ∀ j, j < r → (slot t j).isSome) : firstFree t 0 = some r :=
  freeFrom_of_free hr hfree (Nat.zero_le r) (by omega) (fun j _ hj => hused j hj)

end SlotTable

end Neutrino.Lib
