import Neutrino.Memory.Alloc
import Mathlib.Tactic.Linarith

/-!
# What the allocator's functions do

One specification lemma for each of `split`, `merge`, `advance` and `free`; the results about whole
calls and runs cite these and never unfold the functions.
-/

namespace Neutrino.Memory

open Neutrino.Lib

/-! ## Running heap code

The proofs are `(rfl)`, not `rfl`: `simp` then rewrites with these equations step by step and does not
leave the execution of a whole call to one definitional unfolding. -/

theorem get_bind {α : Type} (f : Field) (p : Nat) (k : Nat → HeapM α) (h : Heap) :
    (get f p >>= k) h =
      k (field h.mem f p) { h with log := ⟨false, p, f⟩ :: h.log } := (rfl)

theorem set_bind {α : Type} (f : Field) (p v : Nat) (k : Unit → HeapM α) (h : Heap) :
    (set f p v >>= k) h =
      k () { h with
        mem := setField h.mem f p v
        log := ⟨true, p, f⟩ :: h.log } := (rfl)

theorem getCurrent_bind {α : Type} (k : Nat → HeapM α) (h : Heap) :
    (getCurrent >>= k) h = k h.currentAlloc h := (rfl)

theorem setCurrent_bind {α : Type} (p : Nat) (k : Unit → HeapM α) (h : Heap) :
    (setCurrent p >>= k) h = k () { h with currentAlloc := p } := (rfl)

theorem addTotal_bind {α : Type} (v : Nat) (k : Unit → HeapM α) (h : Heap) :
    (addTotal v >>= k) h = k () { h with totalMemory := (h.totalMemory + v) % 2 ^ 64 } := (rfl)

theorem pure_run {α : Type} (x : α) (h : Heap) : (pure x : HeapM α) h = some (x, h) := (rfl)

theorem bind_run {α β : Type} (x : HeapM α) (k : α → HeapM β) (h : Heap) :
    (x >>= k) h = (x h).bind fun r => k r.1 r.2 := (rfl)

theorem ite_run {α : Type} (c : Prop) [Decidable c] (x y : HeapM α) (h : Heap) :
    (if c then x else y) h = if c then x h else y h := by
  split <;> rfl

/-- `h'` is `h` after some more reads, all through pointers satisfying `p`. -/
def Heap.Reads (p : Nat → Prop) (h h' : Heap) : Prop :=
  ∃ new, h' = { h with log := new ++ h.log } ∧ ∀ c ∈ new, c.write = false ∧ p c.base

/-! ## `split`

On a block that is too small `split` only reads its size. On one that is large enough it makes seven
stores, four of them through the `NextAlloc` it has just overwritten. -/

/-- The block at `a` is large enough for `split a size`. -/
def Splittable (m : ByteMemory) (a size : Nat) : Prop := size + sizeofAlloc ≤ field m .size a

instance (m : ByteMemory) (a size : Nat) : Decidable (Splittable m a size) :=
  inferInstanceAs (Decidable (_ ≤ _))

/-- The memory after each of the seven stores of a successful `split a size`. -/
def splitStores (m : ByteMemory) (a size : Nat) : List ByteMemory :=
  let m₁ := setField m .nextAlloc a ((a + sizeofAlloc + size) % 2 ^ 32)
  let m₂ := setField m₁ .previousAlloc (field m₁ .nextAlloc a) a
  let m₃ := setField m₂ .nextAlloc (field m₂ .nextAlloc a) (field m .nextAlloc a)
  let m₄ := setField m₃ .reserved (field m₃ .nextAlloc a) 0
  let m₅ := setField m₄ .size (field m₄ .nextAlloc a)
    ((field m .size a - size - sizeofAlloc) % 2 ^ 32)
  let m₆ := setField m₅ .reserved a 1
  [m₁, m₂, m₃, m₄, m₅, m₆, setField m₆ .size a size]

/-- The memory a successful `split a size` leaves. -/
def splitMem (m : ByteMemory) (a size : Nat) : ByteMemory :=
  (splitStores m a size).getLast (by simp [splitStores])

theorem split_of_not_splittable {h : Heap} {a size : Nat} (hs : ¬ Splittable h.mem a size) :
    ∃ r h', split a size h = some (r, h') ∧ (r = 1 ∨ r = 2) ∧ h.Reads (· = a) h' := by
  unfold Splittable at hs
  rw [split, get_bind, ite_run]
  by_cases hsize : field h.mem .size a < size
  · rw [if_pos hsize, pure_run]
    refine ⟨1, _, rfl, Or.inl rfl, [_], rfl, ?_⟩
    intro c hc
    rw [List.mem_singleton] at hc
    subst hc
    exact ⟨rfl, rfl⟩
  · rw [if_neg hsize, get_bind, ite_run,
      if_pos (show field h.mem .size a - size < sizeofAlloc by omega), pure_run]
    refine ⟨2, _, rfl, Or.inr rfl, [_, _], rfl, ?_⟩
    intro c hc
    simp only [List.mem_cons, List.not_mem_nil, or_false] at hc
    rcases hc with rfl | rfl <;> exact ⟨rfl, rfl⟩

/-- **A block that is large enough is split.** Only the block and the pointers found in its
`NextAlloc` on the way are accessed, and each of the first four is. -/
theorem split_of_splittable {h : Heap} {a size : Nat} (hs : Splittable h.mem a size) :
    ∃ new, split a size h =
        some (0, { h with mem := splitMem h.mem a size, log := new ++ h.log }) ∧
      (∀ c ∈ new, c.base = a ∨ ∃ m ∈ (splitStores h.mem a size).take 4,
        c.base = field m .nextAlloc a) ∧
      ∀ m ∈ (splitStores h.mem a size).take 4, ∃ c ∈ new, c.base = field m .nextAlloc a := by
  unfold Splittable at hs
  rw [split, get_bind, ite_run, if_neg (by omega), get_bind, ite_run,
    if_neg (show ¬ field h.mem .size a - size < sizeofAlloc by omega)]
  simp only [get_bind, set_bind, pure_run]
  refine ⟨[_, _, _, _, _, _, _, _, _, _, _, _, _, _, _], rfl, ?_, ?_⟩
  · intro c hc
    simp only [List.mem_cons, List.not_mem_nil, or_false] at hc
    simp only [splitStores, List.take_succ_cons, List.take_zero, List.mem_cons, List.not_mem_nil,
      or_false, exists_eq_or_imp, exists_eq_left]
    rcases hc with rfl | rfl | rfl | rfl | rfl | rfl | rfl | rfl | rfl | rfl | rfl | rfl | rfl |
      rfl | rfl <;> simp
  · intro m hm
    simp only [splitStores, List.take_succ_cons, List.take_zero, List.mem_cons, List.not_mem_nil,
      or_false] at hm
    rcases hm with rfl | rfl | rfl | rfl <;> simp

/-- The last three stores of `split` leave the `NextAlloc` of the block as the fourth found it. -/
theorem nextAlloc_drop_splitStores {m m' : ByteMemory} {a size : Nat}
    (hm : m' ∈ (splitStores m a size).drop 4) :
    field m' .nextAlloc a = field (splitMem m a size) .nextAlloc a := by
  have hkeep : ∀ x ∈ ((splitStores m a size).drop 4).map (field · .nextAlloc a),
      x = field (splitMem m a size) .nextAlloc a := by
    simp only [splitMem, splitStores, List.getLast_cons_cons, List.getLast_singleton,
      List.drop_succ_cons, List.drop_zero, List.map_cons, List.map_nil, List.mem_cons,
      List.not_mem_nil, or_false, forall_eq_or_imp, forall_eq]
    simp (disch := decide) only [field_setField_ne, and_self]
  exact hkeep _ (List.mem_map_of_mem hm)

/-! ### A split into two headers

`NextAlloc` holds the address of the new header from the first store on, as long as the two headers do
not overlap: then every store goes where it is meant to. -/

section Apart

variable {m : ByteMemory} {a size n : Nat} (hn : (a + sizeofAlloc + size) % 2 ^ 32 = n)
  (hapart : n + 20 ≤ a ∨ a + 20 ≤ n)

include hn hapart

theorem nextAlloc_splitStores_apart :
    ∀ m' ∈ splitStores m a size, field m' .nextAlloc a = n := by
  have hmod : n % 4294967296 = n := by
    rw [← hn]
    exact Nat.mod_mod _ _
  simp only [splitStores, hn, List.mem_cons, List.not_mem_nil, or_false, forall_eq_or_imp,
    forall_eq]
  simp (disch := first | decide | omega) only [field_setField_self, field_setField_ne,
    field_setField_apart, Field.width, Nat.reducePow, hmod, and_self]

/-- The memory after a split, as two headers written in one go. -/
theorem splitMem_eq_apart :
    splitMem m a size =
      setField (setField (setField (setField (setField (setField
        (setField m .nextAlloc a n)
        .previousAlloc n a)
        .nextAlloc n (field m .nextAlloc a))
        .reserved n 0)
        .size n ((field m .size a - size - sizeofAlloc) % 2 ^ 32))
        .reserved a 1)
        .size a size := by
  have hnext := nextAlloc_splitStores_apart (m := m) hn hapart
  simp only [splitStores, List.mem_cons, List.not_mem_nil, or_false, forall_eq_or_imp,
    forall_eq] at hnext
  obtain ⟨h₁, h₂, h₃, h₄, -⟩ := hnext
  simp only [splitMem, splitStores, List.getLast_cons_cons, List.getLast_singleton]
  rw [h₄, h₃, h₂, h₁, hn]

theorem field_splitMem_block_apart (hsize : size < 2 ^ 64) :
    field (splitMem m a size) .nextAlloc a = n ∧
    field (splitMem m a size) .reserved a = 1 ∧
    field (splitMem m a size) .size a = size ∧
    field (splitMem m a size) .previousAlloc a = field m .previousAlloc a := by
  have hmod : n % 4294967296 = n := by
    rw [← hn]
    exact Nat.mod_mod _ _
  have hsize' : size % 18446744073709551616 = size := Nat.mod_eq_of_lt hsize
  rw [splitMem_eq_apart hn hapart]
  simp (disch := first | decide | omega) only [field_setField_self, field_setField_ne,
    field_setField_apart, Field.width, Nat.reducePow, hmod, hsize', Nat.reduceMod, and_self]

theorem field_splitMem_rest_apart (ha : a < 2 ^ 32) :
    field (splitMem m a size) .previousAlloc n = a ∧
    field (splitMem m a size) .nextAlloc n = field m .nextAlloc a ∧
    field (splitMem m a size) .reserved n = 0 ∧
    field (splitMem m a size) .size n = (field m .size a - size - sizeofAlloc) % 2 ^ 32 := by
  have hnext : field m .nextAlloc a < 4294967296 := field_lt m .nextAlloc a
  have hmod : a % 4294967296 = a := Nat.mod_eq_of_lt ha
  have hmod' : field m .nextAlloc a % 4294967296 = field m .nextAlloc a := Nat.mod_eq_of_lt hnext
  have hrest : (field m .size a - size - sizeofAlloc) % 4294967296 % 18446744073709551616 =
      (field m .size a - size - sizeofAlloc) % 4294967296 :=
    Nat.mod_eq_of_lt (Nat.lt_of_lt_of_le (Nat.mod_lt _ (by decide)) (by decide))
  rw [splitMem_eq_apart hn hapart]
  simp (disch := first | decide | omega) only [field_setField_self, field_setField_ne,
    field_setField_apart, Field.width, Nat.reducePow, hmod, hmod', hrest, Nat.reduceMod, and_self]

theorem splitMem_apply_of_outside_apart {x : Nat} (hblock : x < a ∨ a + 20 ≤ x)
    (hrest : x < n ∨ n + 20 ≤ x) : splitMem m a size x = m x := by
  rw [splitMem_eq_apart hn hapart]
  simp (disch := assumption) only [setField_apply_of_outside]

end Apart

/-! ### A split inside the address space -/

section InAddressSpace

variable {m : ByteMemory} {a size : Nat} (hfit : a + sizeofAlloc + size < 2 ^ 32)

include hfit

theorem nextAlloc_splitStores :
    ∀ m' ∈ splitStores m a size, field m' .nextAlloc a = a + sizeofAlloc + size :=
  nextAlloc_splitStores_apart (Nat.mod_eq_of_lt hfit) (Or.inr (Nat.le_add_right _ _))

theorem field_splitMem_block :
    field (splitMem m a size) .nextAlloc a = a + sizeofAlloc + size ∧
    field (splitMem m a size) .reserved a = 1 ∧
    field (splitMem m a size) .size a = size ∧
    field (splitMem m a size) .previousAlloc a = field m .previousAlloc a :=
  field_splitMem_block_apart (Nat.mod_eq_of_lt hfit) (Or.inr (Nat.le_add_right _ _)) (by omega)

theorem field_splitMem_rest (hsize : field m .size a < 2 ^ 32) :
    field (splitMem m a size) .previousAlloc (a + sizeofAlloc + size) = a ∧
    field (splitMem m a size) .nextAlloc (a + sizeofAlloc + size) = field m .nextAlloc a ∧
    field (splitMem m a size) .reserved (a + sizeofAlloc + size) = 0 ∧
    field (splitMem m a size) .size (a + sizeofAlloc + size) =
      field m .size a - size - sizeofAlloc := by
  have hrest := field_splitMem_rest_apart (m := m) (Nat.mod_eq_of_lt hfit)
    (Or.inr (Nat.le_add_right _ _)) (by omega)
  rwa [Nat.mod_eq_of_lt (show field m .size a - size - sizeofAlloc < 2 ^ 32 by omega)] at hrest

theorem splitMem_apply_of_outside {x : Nat} (hblock : x < a ∨ a + 20 ≤ x)
    (hrest : x < a + sizeofAlloc + size ∨ a + sizeofAlloc + size + 20 ≤ x) :
    splitMem m a size x = m x :=
  splitMem_apply_of_outside_apart (Nat.mod_eq_of_lt hfit) (Or.inr (Nat.le_add_right _ _)) hblock
    hrest

/-- A split changes nothing in front of the block. -/
theorem field_splitMem_below {b : Nat} (hb : b + 20 ≤ a) (f : Field) :
    field (splitMem m a size) f b = field m f b := by
  refine field_congr f fun x hlo hhi => ?_
  exact splitMem_apply_of_outside hfit (by omega) (by simp only [sizeofAlloc]; omega)

end InAddressSpace

/-! ## `merge` and `free` -/

/-- The memory a successful `merge first second` leaves. -/
def mergeMem (m : ByteMemory) (first second : Nat) : ByteMemory :=
  setField
    (setField m .size first
      ((field m .size first + (field m .size second + sizeofAlloc) % 2 ^ 64) % 2 ^ 64))
    .nextAlloc first (field m .nextAlloc second)

/-- `merge first second` finds two free blocks that touch. -/
def Mergeable (m : ByteMemory) (first second : Nat) : Prop :=
  field m .reserved first = 0 ∧ field m .reserved second = 0 ∧
    (first + field m .size first + sizeofAlloc) % 2 ^ 32 = second

instance (m : ByteMemory) (first second : Nat) : Decidable (Mergeable m first second) :=
  inferInstanceAs (Decidable (_ ∧ _))

theorem merge_of_not_mergeable {h : Heap} {first second : Nat}
    (hm : ¬ Mergeable h.mem first second) :
    ∃ r h', merge first second h = some (r, h') ∧ r ≠ 0 ∧ h.Reads (fun _ => True) h' := by
  unfold Mergeable at hm
  rw [merge, get_bind, ite_run]
  by_cases hfirst : field h.mem .reserved first ≠ 0
  · rw [if_pos hfirst, pure_run]
    exact ⟨1, _, rfl, by decide, [_], rfl, by simp⟩
  rw [if_neg hfirst, get_bind, ite_run]
  by_cases hsecond : field h.mem .reserved second ≠ 0
  · rw [if_pos hsecond, pure_run]
    exact ⟨1, _, rfl, by decide, [_, _], rfl, by simp⟩
  rw [if_neg hsecond, get_bind, ite_run]
  have hgap : (first + field h.mem .size first + sizeofAlloc) % 2 ^ 32 ≠ second := by
    intro hadj
    exact hm ⟨not_not.mp hfirst, not_not.mp hsecond, hadj⟩
  rw [if_pos hgap, pure_run]
  exact ⟨2, _, rfl, by decide, [_, _, _], rfl, by simp⟩

theorem merge_of_mergeable {h : Heap} {first second : Nat} (hm : Mergeable h.mem first second)
    (hapart : second + 20 ≤ first ∨ first + 20 ≤ second) :
    ∃ new, merge first second h =
        some (0, { h with mem := mergeMem h.mem first second, log := new ++ h.log }) ∧
      ∀ c ∈ new, c.write = true → c.base = first := by
  obtain ⟨hfirst, hsecond, hadj⟩ := hm
  have hnext : field (setField h.mem .size first
      ((field h.mem .size first + (field h.mem .size second + sizeofAlloc) % 2 ^ 64) % 2 ^ 64))
        .nextAlloc second = field h.mem .nextAlloc second :=
    field_setField_apart _ _ _ _ hapart
  rw [merge, get_bind, ite_run, if_neg (not_not.mpr hfirst), get_bind, ite_run,
    if_neg (not_not.mpr hsecond), get_bind, ite_run, if_neg (not_not.mpr hadj)]
  simp only [get_bind, set_bind, pure_run, mergeMem]
  rw [hnext]
  exact ⟨[_, _, _, _, _, _, _, _], rfl, by simp⟩

/-- `free` marks the block unreserved and leaves the rest to `merge`. -/
theorem free_eq_merge (h : Heap) (p : Nat) :
    ∃ new, free p h = merge (header p) (field h.mem .nextAlloc (header p))
        { h with mem := setField h.mem .reserved (header p) 0, log := new ++ h.log } ∧
      ∀ c ∈ new, c.base = header p := by
  have hnext : field (setField h.mem .reserved (header p) 0) .nextAlloc (header p) =
      field h.mem .nextAlloc (header p) := field_setField_ne _ _ _ (by decide)
  refine ⟨[⟨false, header p, .nextAlloc⟩,
    ⟨true, header p, .reserved⟩], ?_, by simp⟩
  rw [free, set_bind, get_bind, hnext]
  rfl

/-- The memory after `free` found nothing to merge. -/
theorem free_of_not_mergeable {h : Heap} {p : Nat}
    (hm : ¬ Mergeable (setField h.mem .reserved (header p) 0) (header p)
      (field h.mem .nextAlloc (header p))) :
    ∃ r new, free p h = some (r, { h with
        mem := setField h.mem .reserved (header p) 0
        log := new ++ h.log }) ∧
      r ≠ 0 ∧ ∀ c ∈ new, c.write = true → c.base = header p := by
  obtain ⟨new₀, heq, hnew₀⟩ := free_eq_merge h p
  obtain ⟨r, h', hrun, hr, new, rfl, hnew⟩ := merge_of_not_mergeable (h := { h with
    mem := setField h.mem .reserved (header p) 0, log := new₀ ++ h.log }) hm
  refine ⟨r, new ++ new₀, ?_, hr, ?_⟩
  · rw [heq, hrun, List.append_assoc]
  · intro c hc hw
    rcases List.mem_append.mp hc with hc | hc
    · rw [(hnew c hc).1] at hw
      exact absurd hw Bool.false_ne_true
    · exact hnew₀ c hc

/-- The memory after `free` merged the block with the one behind it. -/
theorem free_of_mergeable {h : Heap} {p : Nat}
    (hm : Mergeable (setField h.mem .reserved (header p) 0) (header p)
      (field h.mem .nextAlloc (header p)))
    (hapart : field h.mem .nextAlloc (header p) + 20 ≤ header p ∨
      header p + 20 ≤ field h.mem .nextAlloc (header p)) :
    ∃ new, free p h = some (0, { h with
        mem := mergeMem (setField h.mem .reserved (header p) 0) (header p)
          (field h.mem .nextAlloc (header p))
        log := new ++ h.log }) ∧
      ∀ c ∈ new, c.write = true → c.base = header p := by
  obtain ⟨new₀, heq, hnew₀⟩ := free_eq_merge h p
  obtain ⟨new, hrun, hnew⟩ := merge_of_mergeable (h := { h with
    mem := setField h.mem .reserved (header p) 0, log := new₀ ++ h.log }) hm hapart
  refine ⟨new ++ new₀, ?_, ?_⟩
  · rw [heq, hrun, List.append_assoc]
  · intro c hc hw
    rcases List.mem_append.mp hc with hc | hc
    · exact hnew c hc hw
    · exact hnew₀ c hc

theorem mergeMem_apply_of_outside (m : ByteMemory) {first second x : Nat}
    (hx : x < first ∨ first + 20 ≤ x) : mergeMem m first second x = m x := by
  rw [mergeMem, setField_apply_of_outside _ _ _ hx, setField_apply_of_outside _ _ _ hx]

theorem field_mergeMem_apart (m : ByteMemory) {first second b : Nat}
    (h : b + 20 ≤ first ∨ first + 20 ≤ b) (f : Field) :
    field (mergeMem m first second) f b = field m f b :=
  field_congr f fun x hlo hhi => mergeMem_apply_of_outside m (by omega)

/-- The memory `free` leaves. -/
def freeMem (m : ByteMemory) (p : Nat) : ByteMemory :=
  let cleared := setField m .reserved (header p) 0
  if Mergeable cleared (header p) (field m .nextAlloc (header p)) then
    mergeMem cleared (header p) (field m .nextAlloc (header p))
  else
    cleared

theorem freeMem_apply_of_outside (m : ByteMemory) {p x : Nat}
    (hx : x < header p ∨ header p + 20 ≤ x) : freeMem m p x = m x := by
  unfold freeMem
  split
  · rw [mergeMem_apply_of_outside _ hx, setField_apply_of_outside _ _ _ hx]
  · exact setField_apply_of_outside _ _ _ hx

theorem field_freeMem_apart (m : ByteMemory) {p b : Nat} (h : b + 20 ≤ header p ∨ header p + 20 ≤ b)
    (f : Field) : field (freeMem m p) f b = field m f b :=
  field_congr f fun x hlo hhi => freeMem_apply_of_outside m (by omega)

/-- **`free` writes one header.** It always returns, leaves the cursor alone, and stores only into
the header of the block it is given. -/
theorem free_run (h : Heap) (p : Nat)
    (hapart : field h.mem .nextAlloc (header p) + 20 ≤ header p ∨
      header p + 20 ≤ field h.mem .nextAlloc (header p)) :
    ∃ r m new, free p h = some (r, { h with mem := m, log := new ++ h.log }) ∧
      m = freeMem h.mem p ∧ ∀ c ∈ new, c.write = true → c.base = header p := by
  unfold freeMem
  by_cases hm : Mergeable (setField h.mem .reserved (header p) 0) (header p)
      (field h.mem .nextAlloc (header p))
  · obtain ⟨new, hrun, hnew⟩ := free_of_mergeable hm hapart
    exact ⟨0, _, new, hrun, (if_pos hm).symm, hnew⟩
  · obtain ⟨r, new, hrun, -, hnew⟩ := free_of_not_mergeable hm
    exact ⟨r, _, new, hrun, (if_neg hm).symm, hnew⟩

/-! ## `malloc`

The loop reads `Reserved` through the `NextAlloc` of the cursor before it compares that pointer with
`NULL`, so stopping at the end of the list looks at address 8. -/

/-- The cursor cannot move: there is no next block, or it is not marked reserved. -/
def Stuck (m : ByteMemory) (a : Nat) : Prop :=
  field m .nextAlloc a = 0 ∨ field m .reserved (field m .nextAlloc a) ≠ 1

theorem advance_of_stuck {h : Heap} (hs : Stuck h.mem h.currentAlloc) (fuel : Nat) :
    ∃ new, advance (fuel + 1) h = some ((), { h with log := new ++ h.log }) ∧
      (∀ c ∈ new, c.base = h.currentAlloc ∨ c.base = field h.mem .nextAlloc h.currentAlloc) ∧
      ∃ c ∈ new, c.base = field h.mem .nextAlloc h.currentAlloc := by
  rw [advance, getCurrent_bind, get_bind, get_bind, ite_run]
  by_cases hres : field h.mem .reserved (field h.mem .nextAlloc h.currentAlloc) = 1
  · have hnull : field h.mem .nextAlloc h.currentAlloc = 0 :=
      hs.resolve_right (not_not.mpr hres)
    rw [if_pos hres, getCurrent_bind, get_bind, ite_run, if_neg (not_not.mpr hnull), pure_run]
    exact ⟨[_, _, _], rfl, by simp, by simp⟩
  · rw [if_neg hres, pure_run]
    exact ⟨[_, _], rfl, by simp, by simp⟩

/-- One round of the loop: past a reserved block. -/
theorem advance_of_reserved {h : Heap} {b : Nat} (hnext : field h.mem .nextAlloc h.currentAlloc = b)
    (hb : b ≠ 0) (hres : field h.mem .reserved b = 1) (fuel : Nat) :
    ∃ new, advance (fuel + 1) h =
        advance fuel { h with currentAlloc := b, log := new ++ h.log } ∧
      ∀ c ∈ new, c.base = h.currentAlloc ∨ c.base = b := by
  subst hnext
  rw [advance, getCurrent_bind, get_bind, get_bind, ite_run, if_pos hres, getCurrent_bind, get_bind,
    ite_run, if_pos hb, getCurrent_bind, get_bind, setCurrent_bind]
  exact ⟨[_, _, _, _], rfl, by simp⟩

theorem malloc_of_not_splittable {h : Heap} {size : Nat}
    (hs : ¬ Splittable h.mem h.currentAlloc (size % 2 ^ 32)) (fuel : Nat) :
    ∃ new, malloc (fuel + 1) size h =
        (advance fuel { h with log := new ++ h.log }).bind (fun r => malloc fuel size r.2) ∧
      ∀ c ∈ new, c.base = h.currentAlloc := by
  obtain ⟨r, h', hrun, hr, new, rfl, hnew⟩ := split_of_not_splittable hs
  refine ⟨new, ?_, fun c hc => (hnew c hc).2⟩
  rw [malloc, getCurrent_bind, bind_run, hrun, Option.bind_some, ite_run, if_pos hr, bind_run]

/-- **A call that splits.** The cursor moves to whatever `NextAlloc` of the block holds by then. -/
theorem malloc_of_splittable {h : Heap} {size : Nat}
    (hs : Splittable h.mem h.currentAlloc (size % 2 ^ 32)) (fuel : Nat) :
    ∃ new, malloc (fuel + 1) size h =
        some ((field (splitMem h.mem h.currentAlloc (size % 2 ^ 32)) .previousAlloc
            (field (splitMem h.mem h.currentAlloc (size % 2 ^ 32)) .nextAlloc h.currentAlloc) +
              sizeofAlloc) % 2 ^ 32,
          { h with
            mem := splitMem h.mem h.currentAlloc (size % 2 ^ 32)
            currentAlloc :=
              field (splitMem h.mem h.currentAlloc (size % 2 ^ 32)) .nextAlloc h.currentAlloc
            log := new ++ h.log }) ∧
      (∀ c ∈ new, c.base = h.currentAlloc ∨
        ∃ m ∈ splitStores h.mem h.currentAlloc (size % 2 ^ 32),
          c.base = field m .nextAlloc h.currentAlloc) ∧
      ∀ m ∈ splitStores h.mem h.currentAlloc (size % 2 ^ 32),
        ∃ c ∈ new, c.base = field m .nextAlloc h.currentAlloc := by
  set a := h.currentAlloc with ha
  set s := size % 2 ^ 32 with hsize
  have hlast : splitMem h.mem a s ∈ splitStores h.mem a s := List.getLast_mem _
  obtain ⟨new, hrun, hbases, hlinks⟩ := split_of_splittable hs
  have hcall : malloc (fuel + 1) size h = some ((field (splitMem h.mem a s) .previousAlloc
      (field (splitMem h.mem a s) .nextAlloc a) + sizeofAlloc) % 2 ^ 32,
      { h with
        mem := splitMem h.mem a s
        currentAlloc := field (splitMem h.mem a s) .nextAlloc a
        log := ⟨false, field (splitMem h.mem a s) .nextAlloc a, .previousAlloc⟩ ::
          ⟨false, a, .nextAlloc⟩ :: (new ++ h.log) }) := by
    rw [malloc, getCurrent_bind, bind_run, hrun, Option.bind_some, ite_run,
      if_neg (show ¬ (0 = 1 ∨ 0 = 2) by decide), getCurrent_bind, get_bind, setCurrent_bind,
      getCurrent_bind, get_bind, pure_run]
  refine ⟨⟨false, field (splitMem h.mem a s) .nextAlloc a, .previousAlloc⟩ ::
    ⟨false, a, .nextAlloc⟩ :: new, hcall, ?_, ?_⟩
  · intro c hc
    simp only [List.mem_cons] at hc
    rcases hc with rfl | rfl | hc
    · exact Or.inr ⟨_, hlast, rfl⟩
    · exact Or.inl rfl
    · rcases hbases c hc with hc | ⟨m, hm, hc⟩
      · exact Or.inl hc
      · exact Or.inr ⟨m, List.mem_of_mem_take hm, hc⟩
  · intro m hm
    rw [← List.take_append_drop 4 (splitStores h.mem a s)] at hm
    rcases List.mem_append.mp hm with hm | hm
    · obtain ⟨c, hc, hbase⟩ := hlinks m hm
      exact ⟨c, List.mem_cons_of_mem _ (List.mem_cons_of_mem _ hc), hbase⟩
    · exact ⟨_, List.mem_cons_self, (nextAlloc_drop_splitStores hm).symm⟩

/-- The block at the cursor ends in the address space, and `n` bytes of it are left. -/
structure Heap.Room (h : Heap) (n : Nat) : Prop where
  top : h.currentAlloc + sizeofAlloc + field h.mem .size h.currentAlloc ≤ 2 ^ 32
  room : n ≤ field h.mem .size h.currentAlloc

/-- **A call that there is room for returns**, and uses up the request and one header. -/
theorem Heap.Room.malloc {h : Heap} {size n : Nat} (hr : h.Room (size + sizeofAlloc + n)) (fuel : Nat) :
    ∃ p h', malloc (fuel + 1) size h = some (p, h') ∧ h'.Room n := by
  obtain ⟨htop, hroom⟩ := hr
  set a := h.currentAlloc with ha
  have hlt : field h.mem .size a < 2 ^ 32 := by
    simp only [sizeofAlloc] at htop
    omega
  have hsize : size % 2 ^ 32 = size := Nat.mod_eq_of_lt (by omega)
  have hs : Splittable h.mem a (size % 2 ^ 32) := by
    rw [hsize]
    exact le_trans (Nat.le_add_right _ n) hroom
  obtain ⟨new, hrun, -, -⟩ := malloc_of_splittable hs fuel
  rw [hsize, ← ha] at hrun
  have hfit : a + sizeofAlloc + size < 2 ^ 32 := by
    simp only [sizeofAlloc] at htop hroom ⊢
    omega
  have hnext := (field_splitMem_block (m := h.mem) hfit).1
  have hrest := (field_splitMem_rest (m := h.mem) hfit hlt).2.2.2
  refine ⟨_, _, hrun, ⟨?_, ?_⟩⟩
  · show field _ .nextAlloc a + sizeofAlloc + field _ .size (field _ .nextAlloc a) ≤ 2 ^ 32
    rw [hnext, hrest]
    simp only [sizeofAlloc] at htop hroom ⊢
    omega
  · show n ≤ field _ .size (field _ .nextAlloc a)
    rw [hnext, hrest]
    omega

/-- **A stuck cursor on a block that is too small**: `malloc` calls itself forever. -/
theorem malloc_of_stuck {size : Nat} (fuel : Nat) :
    ∀ {h : Heap}, ¬ Splittable h.mem h.currentAlloc (size % 2 ^ 32) →
      Stuck h.mem h.currentAlloc → malloc fuel size h = none := by
  induction fuel with
  | zero => intro h _ _; rfl
  | succ fuel ih =>
      intro h hs hstuck
      obtain ⟨new, heq, -⟩ := malloc_of_not_splittable hs fuel
      rw [heq]
      cases fuel with
      | zero => rfl
      | succ fuel =>
          obtain ⟨new', hadv, -⟩ :=
            advance_of_stuck (h := { h with log := new ++ h.log }) hstuck fuel
          rw [hadv, Option.bind_some]
          exact ih hs hstuck

end Neutrino.Memory
