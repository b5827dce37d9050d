import Neutrino.Lib.BoundedStack

/-!
# The stack container

`stack_push` moves the index before it looks for room and once more in the store, `stack_pop` moves
it back once: a stack of `k` values has its index at `2 * k`, and no pop leads back to where a push
started. Against a bounded stack of capacity `size - 1` the container keeps up only with pushes that
reach at most half of the array, and with no pop after a push (`lifo_iff`).
-/

namespace Neutrino.Containers

open Neutrino.Lib

/-- `arr` holds the words the array has room for. -/
structure Stack where
  top : UInt32
  size : UInt32
  arr : List UInt32
  deriving DecidableEq, Repr

def stackFull (s : Stack) : Bool := s.top == s.size - 1

def stackEmpty (s : Stack) : Bool := s.top == 0

/-- `s->arr[i] = val`; there is no such word outside the array. -/
def store (s : Stack) (i val : UInt32) : Option Stack :=
  if i.toNat < s.arr.length then some { s with arr := s.arr.set i.toNat val } else none

/-- The stack afterwards, and what was printed. -/
def stackPush (s : Stack) (val : UInt32) : Option (Stack × String) :=
  if stackFull { s with top := s.top + 1 } then
    some ({ s with top := s.top + 1 }, "Could not push value to stack.\n")
  else
    (store { s with top := s.top + 1 + 1 } (s.top + 1 + 1) val).map (·, "")

def stackPop (s : Stack) : Stack × String :=
  if stackEmpty s then (s, "Stack is empty\n") else ({ s with top := s.top - 1 }, "")

def top (s : Stack) : Option UInt32 := s.arr[s.top.toNat]?

/-! ## What a bounded stack would do -/

inductive Op where
  | push (val : UInt32)
  | pop
  deriving DecidableEq, Repr

/-- A value pushed and not yet popped, with the index its push started from. -/
structure Entry where
  val : UInt32
  start : UInt32
  deriving DecidableEq, Repr

/-- What the container shows is what the bounded stack holds. -/
structure Shows {cap : Nat} (s : Stack) (held : BoundedStack Entry cap) : Prop where
  top : ∀ e rest, held.items = e :: rest → top s = some e.val
  empty : stackEmpty s = true ↔ held.items = []

/-- The container follows the bounded stack through the operations: it shows the same before and
after each of them, a push succeeds when there is room and otherwise leaves index and array alone,
a pop leads back to where the latest push started. -/
def Lifo {cap : Nat} (s : Stack) (held : BoundedStack Entry cap) : List Op → Prop
  | [] => Shows s held
  | .push val :: ops => Shows s held ∧
      (held.HasRoom → ∃ s', stackPush s val = some (s', "") ∧
        Lifo s' (held.push ⟨val, s.top⟩) ops) ∧
      (¬ held.HasRoom → ∃ s' printed, stackPush s val = some (s', printed) ∧
        s'.top = s.top ∧ s'.arr = s.arr ∧ Lifo s' (held.push ⟨val, s.top⟩) ops)
  | .pop :: ops => Shows s held ∧
      (∀ e rest, held.items = e :: rest → (stackPop s).1.top = e.start) ∧
      Lifo (stackPop s).1 held.pop ops

theorem Lifo.shows {cap : Nat} {s : Stack} {held : BoundedStack Entry cap} :
    ∀ {ops : List Op}, Lifo s held ops → Shows s held
  | [], h => h
  | .push _ :: _, h => h.1
  | .pop :: _, h => h.1

/-! ## The index after pushes alone -/

/-- Nothing but pushes has happened: every value stored took two steps of the index. -/
structure Doubled {cap : Nat} (s : Stack) (held : BoundedStack Entry cap) : Prop where
  size : s.size.toNat = cap + 1
  arr : s.arr.length = cap + 1
  index : s.top.toNat = 2 * held.items.length
  latest : ∀ e rest, held.items = e :: rest →
    e.start.toNat = 2 * rest.length ∧ top s = some e.val

namespace Doubled

variable {cap : Nat} {s : Stack} {held : BoundedStack Entry cap}

theorem fresh {size : UInt32} {arr : List UInt32} (hsize : size.toNat = cap + 1)
    (harr : arr.length = cap + 1) : Doubled ⟨0, size, arr⟩ (BoundedStack.empty Entry cap) where
  size := hsize
  arr := harr
  index := rfl
  latest := by simp

theorem shows (h : Doubled s held) : Shows s held where
  top e rest hitems := (h.latest e rest hitems).2
  empty := by
    unfold stackEmpty
    rw [beq_iff_eq, ← UInt32.toNat_inj, h.index, UInt32.toNat_zero, Nat.mul_eq_zero,
      List.length_eq_zero_iff]
    exact or_iff_right (by decide)

/-- The index is inside the array as long as there is one. -/
theorem index_le (h : Doubled s held) : 2 * held.items.length ≤ cap := by
  cases hitems : held.items with
  | nil => simp
  | cons e rest =>
      obtain ⟨-, hread⟩ := h.latest e rest hitems
      obtain ⟨hlt, -⟩ := List.getElem?_eq_some_iff.mp hread
      rw [h.arr, h.index, hitems] at hlt
      exact Nat.le_of_lt_succ hlt

theorem toNat_moved (h : Doubled s held) : (s.top + 1).toNat = 2 * held.items.length + 1 := by
  have hle := h.index_le
  have hsize := h.size
  have hlt := s.size.toNat_lt
  rw [UInt32.toNat_add, h.index, UInt32.toNat_one]
  omega

/-- The test in `stack_push`, made after the index has moved once. -/
theorem full_iff (h : Doubled s held) :
    stackFull { s with top := s.top + 1 } = true ↔ 2 * held.items.length + 1 = cap := by
  have hone : (1 : UInt32) ≤ s.size := by
    rw [UInt32.le_iff_toNat_le, h.size]
    simp
  unfold stackFull
  rw [beq_iff_eq, ← UInt32.toNat_inj, h.toNat_moved, UInt32.toNat_sub_of_le _ _ hone, h.size]
  simp

/-- Two places in the array for each value are more than the bounded stack asks for. -/
theorem hasRoom_of_twice (hroom : 2 * (held.items.length + 1) ≤ cap) : held.HasRoom := by
  unfold BoundedStack.HasRoom
  omega

/-- **With two more places in the array a push succeeds**, and moves the index over both. -/
theorem push (h : Doubled s held) (hroom : 2 * (held.items.length + 1) ≤ cap) (val : UInt32) :
    ∃ s', stackPush s val = some (s', "") ∧ Doubled s' (held.push ⟨val, s.top⟩) := by
  have hnotfull : ¬ stackFull { s with top := s.top + 1 } = true := by
    rw [h.full_iff]
    omega
  have hindex : (s.top + 1 + 1).toNat = 2 * (held.items.length + 1) := by
    have hsize := h.size
    have hlt := s.size.toNat_lt
    rw [UInt32.toNat_add, h.toNat_moved, UInt32.toNat_one]
    omega
  have hin : (s.top + 1 + 1).toNat < s.arr.length := by
    rw [hindex, h.arr]
    exact Nat.lt_succ_of_le hroom
  have hstored := hasRoom_of_twice hroom
  unfold stackPush store
  rw [if_neg hnotfull, if_pos hin]
  refine ⟨_, rfl, ?_⟩
  constructor
  · exact h.size
  · simp [h.arr]
  · rw [BoundedStack.items_push hstored]
    exact hindex
  · intro e rest hitems
    rw [BoundedStack.items_push hstored] at hitems
    cases hitems
    refine ⟨h.index, ?_⟩
    exact List.getElem?_set_self hin

/-- **Otherwise it does not**, although the bounded stack has room: it finds the stack full, or
stores behind the array, or (at the largest size) moves the index round to zero. -/
theorem push_fails (h : Doubled s held) (hcap : 0 < cap)
    (hfull : cap < 2 * (held.items.length + 1)) (val : UInt32) (ops : List Op) :
    ¬ Lifo s held (.push val :: ops) := by
  rintro ⟨-, hsucceeds, -⟩
  have hle := h.index_le
  have hroom : held.HasRoom := by
    unfold BoundedStack.HasRoom
    omega
  obtain ⟨s', hpush, hrest⟩ := hsucceeds hroom
  unfold stackPush at hpush
  split at hpush
  · simp at hpush
  · next hnotfull =>
    rw [h.full_iff] at hnotfull
    unfold store at hpush
    split at hpush
    · next hin =>
      cases hpush
      have hzero : s.top + 1 + 1 = 0 := by
        have hlt := s.size.toNat_lt
        have hsize := h.size
        dsimp only at hin
        rw [UInt32.toNat_add, h.toNat_moved, UInt32.toNat_one, h.arr] at hin
        rw [← UInt32.toNat_inj, UInt32.toNat_add, h.toNat_moved, UInt32.toNat_one]
        simp only [UInt32.toNat_zero]
        omega
      have hempty := hrest.shows.empty.mp (beq_iff_eq.mpr hzero)
      rw [BoundedStack.items_push hroom] at hempty
      cases hempty
    · cases hpush

/-- A pop moves the index back by one only. -/
theorem pop_fails (h : Doubled s held) (hne : held.items ≠ []) (ops : List Op) :
    ¬ Lifo s held (.pop :: ops) := by
  rintro ⟨-, hback, -⟩
  obtain ⟨e, rest, hitems⟩ := List.exists_cons_of_ne_nil hne
  obtain ⟨hstart, -⟩ := h.latest e rest hitems
  have hindex := h.index
  rw [hitems, List.length_cons, Nat.mul_add] at hindex
  have hnotempty : ¬ stackEmpty s = true := by
    rw [h.shows.empty]
    exact hne
  have hone : (1 : UInt32) ≤ s.top := by
    rw [UInt32.le_iff_toNat_le, hindex]
    exact Nat.le_trans (Nat.le_succ 1) (Nat.le_add_left _ _)
  have hafter := congrArg UInt32.toNat (hback e rest hitems)
  unfold stackPop at hafter
  rw [if_neg hnotempty] at hafter
  dsimp only at hafter
  rw [UInt32.toNat_sub_of_le _ _ hone, hindex, hstart, UInt32.toNat_one] at hafter
  omega

theorem pop_empty (h : Doubled s held) (hnil : held.items = []) : (stackPop s).1 = s := by
  unfold stackPop
  rw [if_pos (h.shows.empty.mpr hnil)]

/-- With room, the container goes on from where the push led. -/
theorem push_iff (h : Doubled s held) (hroom : 2 * (held.items.length + 1) ≤ cap) {s' : Stack}
    {val : UInt32} (hpush : stackPush s val = some (s', "")) (ops : List Op) :
    Lifo s held (.push val :: ops) ↔ Lifo s' (held.push ⟨val, s.top⟩) ops := by
  have hstored := hasRoom_of_twice hroom
  constructor
  · rintro ⟨-, hsucceeds, -⟩
    obtain ⟨s'', hpush', hrest⟩ := hsucceeds hstored
    rw [hpush] at hpush'
    cases hpush'
    exact hrest
  · intro hrest
    exact ⟨h.shows, fun _ => ⟨s', hpush, hrest⟩, fun hno => absurd hstored hno⟩

/-- Without room for one more value there is no sequence that starts with a push. -/
theorem pushes_iff_of_full (hcap : 0 < cap) (h : Doubled s held)
    (hfull : ¬ 2 * (held.items.length + 1) ≤ cap) (val : UInt32) (ops : List Op) :
    Lifo s held (.push val :: ops) ↔
      ∃ vals : List UInt32, ops = vals.map Op.push ∧
        2 * (held.items.length + (vals.length + 1)) ≤ cap := by
  constructor
  · intro hlifo
    exact absurd hlifo (h.push_fails hcap (Nat.lt_of_not_le hfull) val ops)
  · rintro ⟨vals, -, hfit⟩
    omega

/-- Once something is pushed, only pushes that still fit may follow. -/
theorem pushes_iff (hcap : 0 < cap) (h : Doubled s held) (val : UInt32) (ops : List Op) :
    Lifo s held (.push val :: ops) ↔
      ∃ vals : List UInt32, ops = vals.map Op.push ∧
        2 * (held.items.length + (vals.length + 1)) ≤ cap := by
  induction ops generalizing s held val with
  | nil =>
      by_cases hroom : 2 * (held.items.length + 1) ≤ cap
      · obtain ⟨s', hpush, h'⟩ := h.push hroom val
        rw [h.push_iff hroom hpush]
        exact ⟨fun _ => ⟨[], rfl, hroom⟩, fun _ => h'.shows⟩
      · exact h.pushes_iff_of_full hcap hroom val []
  | cons op ops ih =>
      by_cases hroom : 2 * (held.items.length + 1) ≤ cap
      · obtain ⟨s', hpush, h'⟩ := h.push hroom val
        have hitems := BoundedStack.items_push (hasRoom_of_twice hroom) ⟨val, s.top⟩
        rw [h.push_iff hroom hpush]
        cases op with
        | pop =>
            refine ⟨fun hlifo => ?_, ?_⟩
            · exact absurd hlifo (h'.pop_fails (by simp [hitems]) ops)
            · rintro ⟨vals, hops, -⟩
              cases vals <;> simp at hops
        | push val' =>
            rw [ih h', hitems, List.length_cons]
            constructor
            · rintro ⟨vals, rfl, hfit⟩
              refine ⟨val' :: vals, rfl, ?_⟩
              rw [List.length_cons]
              omega
            · rintro ⟨vals, hops, hfit⟩
              cases vals with
              | nil => simp at hops
              | cons _ vals =>
                  rw [List.map_cons, List.cons.injEq] at hops
                  rw [List.length_cons] at hfit
                  exact ⟨vals, hops.2, by omega⟩
      · exact h.pushes_iff_of_full hcap hroom val (op :: ops)

/-- Pops on the empty container change nothing. -/
theorem pop_iff (h : Doubled s held) (hnil : held.items = []) (ops : List Op) :
    Lifo s held (.pop :: ops) ↔ Lifo s held ops := by
  have hback : ∀ e rest, held.items = e :: rest → (stackPop s).1.top = e.start := by
    simp [hnil]
  have hstep : Lifo (stackPop s).1 held.pop ops ↔ Lifo s held ops := by
    rw [h.pop_empty hnil, BoundedStack.pop_of_empty hnil]
  exact ⟨fun hlifo => hstep.mp hlifo.2.2, fun hlifo => ⟨h.shows, hback, hstep.mpr hlifo⟩⟩

theorem lifo_iff (hcap : 0 < cap) (h : Doubled s held) (hnil : held.items = []) (ops : List Op) :
    Lifo s held ops ↔
      ∃ (n : Nat) (vals : List UInt32), ops = List.replicate n Op.pop ++ vals.map Op.push ∧
        2 * vals.length ≤ cap := by
  induction ops with
  | nil => exact ⟨fun _ => ⟨0, [], rfl, Nat.zero_le cap⟩, fun _ => h.shows⟩
  | cons op ops ih =>
      cases op with
      | pop =>
          rw [h.pop_iff hnil, ih]
          constructor
          · rintro ⟨n, vals, rfl, hfit⟩
            exact ⟨n + 1, vals, rfl, hfit⟩
          · rintro ⟨n, vals, hops, hfit⟩
            cases n with
            | zero => cases vals <;> simp at hops
            | succ n =>
                rw [List.replicate_succ, List.cons_append, List.cons.injEq] at hops
                exact ⟨n, vals, hops.2, hfit⟩
      | push val =>
          rw [h.pushes_iff hcap, hnil, List.length_nil]
          simp only [Nat.zero_add]
          constructor
          · rintro ⟨vals, rfl, hfit⟩
            exact ⟨0, val :: vals, rfl, hfit⟩
          · rintro ⟨n, vals, hops, hfit⟩
            cases n with
            | zero =>
                cases vals with
                | nil => simp at hops
                | cons _ vals =>
                    rw [List.replicate_zero, List.nil_append, List.map_cons, List.cons.injEq] at hops
                    exact ⟨vals, hops.2, hfit⟩
            | succ n => simp [List.replicate_succ] at hops

end Doubled

/-! ## Whole sequences -/

/-- **The container is a bounded stack for pops that find nothing, followed by pushes that fill at
most half of the array, and for no other sequence of operations.** -/
theorem stack_lifo_iff (size : UInt32) (hsize : 2 ≤ size) (arr : List UInt32)
    (harr : arr.length = size.toNat) (ops : List Op) :
    Lifo ⟨0, size, arr⟩ (BoundedStack.empty Entry (size.toNat - 1)) ops ↔
      ∃ (n : Nat) (vals : List UInt32), ops = List.replicate n Op.pop ++ vals.map Op.push ∧
        2 * vals.length < size.toNat := by
  have htwo : 2 ≤ size.toNat := UInt32.le_iff_toNat_le.mp hsize
  obtain ⟨cap, hcap⟩ : ∃ cap, size.toNat = cap + 1 := ⟨size.toNat - 1, by omega⟩
  rw [hcap, Nat.add_sub_cancel]
  rw [(Doubled.fresh hcap (harr.trans hcap)).lifo_iff (by omega) rfl ops]
  simp only [Nat.lt_succ_iff]

theorem stack_lifo_iff_two_pushes :
    Lifo ⟨0, 5, [0, 0, 0, 0, 0]⟩ (BoundedStack.empty Entry 4) [.pop, .push 7, .push 8] :=
  (stack_lifo_iff 5 (by decide) [0, 0, 0, 0, 0] rfl _).mpr ⟨1, [7, 8], rfl, by decide⟩

/-- A value pushed onto an empty stack with room for three, then popped: the index stays at 1. -/
theorem not_stack_lifo :
    ¬ Lifo ⟨0, 4, [0, 0, 0, 0]⟩ (BoundedStack.empty Entry 3) [.push 7, .pop] := by
  rintro ⟨-, hsucceeds, -⟩
  obtain ⟨s', hpush, hrest⟩ := hsucceeds (by decide)
  cases hpush
  exact absurd (hrest.2.1 ⟨7, 0⟩ [] rfl) (by decide)

end Neutrino.Containers
