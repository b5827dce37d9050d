import Neutrino.Memory.Tiling

/-!
# `merge` undoes `split`

`split` writes the new header into the payload of the old block, at an address it computes in 32 bits;
`merge` recognises the neighbour by computing that address again from the fields `split` has changed. If
the old block lies inside the address space the two agree, up to the exact fit.
-/

namespace Neutrino.Memory

open Neutrino.Lib

/-- Clear `Reserved` and merge the block with the one behind it. -/
def unsplit (a : Nat) : HeapM Nat := do
  set .reserved a 0
  merge a (← get .nextAlloc a)

/-- That is what `free` does. -/
theorem free_eq_unsplit (p : Nat) : free p = unsplit (header p) := rfl

/-- The memory `unsplit a` leaves if it merges. -/
def unsplitMem (m : ByteMemory) (a : Nat) : ByteMemory :=
  mergeMem (setField m .reserved a 0) a (field m .nextAlloc a)

theorem unsplit_of_mergeable {h : Heap} {a : Nat} (ha : a < 2 ^ 32)
    (hm : Mergeable (setField h.mem .reserved a 0) a (field h.mem .nextAlloc a))
    (hapart : a + 20 ≤ field h.mem .nextAlloc a) :
    ∃ new, unsplit a h =
      some (0, { h with mem := unsplitMem h.mem a, log := new ++ h.log }) := by
  have hhead : header (a + sizeofAlloc) = a := header_add ha
  have hfree := @free_of_mergeable h (a + sizeofAlloc)
  rw [free_eq_unsplit, hhead] at hfree
  obtain ⟨new, hrun, -⟩ := hfree hm (Or.inr hapart)
  exact ⟨new, hrun⟩

section Restore

variable {m : ByteMemory} {a size : Nat} (hs : Splittable m a size)
  (hfit : a + sizeofAlloc + field m .size a ≤ 2 ^ 32)

include hs hfit

theorem rest_inside : a + sizeofAlloc + size + sizeofAlloc ≤ a + sizeofAlloc + field m .size a ∧
    a + sizeofAlloc + size < 2 ^ 32 ∧ field m .size a < 2 ^ 32 := by
  unfold Splittable at hs
  simp only [sizeofAlloc] at hs hfit ⊢
  omega

/-- The block a split cuts off is the neighbour `merge` expects. -/
theorem mergeable_splitMem :
    Mergeable (setField (splitMem m a size) .reserved a 0) a (a + sizeofAlloc + size) := by
  obtain ⟨-, hin, hlt⟩ := rest_inside hs hfit
  obtain ⟨-, -, hsize, -⟩ := field_splitMem_block (m := m) hin
  obtain ⟨-, -, hres, -⟩ := field_splitMem_rest (m := m) hin hlt
  have hapart : a + 20 ≤ a + sizeofAlloc + size := Nat.le_add_right _ _
  refine ⟨field_setField_self _ _ _ _, ?_, ?_⟩
  · rw [field_setField_apart _ _ _ _ (Or.inr hapart)]
    exact hres
  · rw [field_setField_ne _ _ _ (by decide), hsize, Nat.add_right_comm, Nat.mod_eq_of_lt hin]

/-- The header is as it was. -/
theorem field_unsplitMem (hres : field m .reserved a = 0) (f : Field) :
    field (unsplitMem (splitMem m a size) a) f a = field m f a := by
  obtain ⟨-, hin, hlt⟩ := rest_inside hs hfit
  obtain ⟨hnext, -, hsize, hprev⟩ := field_splitMem_block (m := m) hin
  obtain ⟨-, hnext', -, hsize'⟩ := field_splitMem_rest (m := m) hin hlt
  have hapart : a + 20 ≤ a + sizeofAlloc + size := Nat.le_add_right _ _
  have hblock : field (setField (splitMem m a size) .reserved a 0) .size a = size :=
    (field_setField_ne _ _ _ (by decide)).trans hsize
  have hrest : ∀ f, field (setField (splitMem m a size) .reserved a 0) f (a + sizeofAlloc + size) =
      field (splitMem m a size) f (a + sizeofAlloc + size) :=
    fun f => field_setField_apart _ _ _ _ (Or.inr hapart)
  have hsum : size + (field m .size a - size - sizeofAlloc + sizeofAlloc) = field m .size a := by
    unfold Splittable at hs
    omega
  obtain ⟨hmnext, hmsize⟩ := @field_mergeMem (setField (splitMem m a size) .reserved a 0) a
    (a + sizeofAlloc + size) (by rw [hblock, hrest, hsize']; omega)
  rw [unsplitMem, hnext]
  cases f with
  | nextAlloc => rw [hmnext, hrest, hnext']
  | size => rw [hmsize, hblock, hrest, hsize', hsum]
  | reserved =>
      rw [mergeMem, field_setField_ne _ _ _ (by decide), field_setField_ne _ _ _ (by decide),
        field_setField_self, hres]
      rfl
  | previousAlloc =>
      rw [mergeMem, field_setField_ne _ _ _ (by decide), field_setField_ne _ _ _ (by decide),
        field_setField_ne _ _ _ (by decide), hprev]

/-- Neither call stores outside the block. -/
theorem splitMem_apply_of_outside_block {x : Nat}
    (hx : x < a ∨ a + sizeofAlloc + field m .size a ≤ x) : splitMem m a size x = m x := by
  obtain ⟨hend, hin, -⟩ := rest_inside hs hfit
  simp only [sizeofAlloc] at hx hend
  exact splitMem_apply_of_outside hin (by omega) (by simp only [sizeofAlloc]; omega)

theorem unsplitMem_apply_of_outside_block {x : Nat}
    (hx : x < a ∨ a + sizeofAlloc + field m .size a ≤ x) :
    unsplitMem (splitMem m a size) a x = m x := by
  have hheader : x < a ∨ a + 20 ≤ x := by
    simp only [sizeofAlloc] at hx
    omega
  rw [unsplitMem, mergeMem_apply_of_outside _ hheader, setField_apply_of_outside _ _ _ hheader,
    splitMem_apply_of_outside_block hs hfit hx]

end Restore

/-- `m'` after a split of the block at `a` and `m''` after its undoing: the header is as it was in `m`,
and no byte outside the block has changed on the way. -/
structure Undone (m m' m'' : ByteMemory) (a : Nat) : Prop where
  header : ∀ f, field m'' f a = field m f a
  frame : ∀ x, x < a ∨ a + sizeofAlloc + field m .size a ≤ x → m' x = m x ∧ m'' x = m x

/-- **`merge` undoes `split`.** On a free block inside the address space `split` always returns. If it
returns `0`, clearing `Reserved` and merging the block with its new neighbour returns `0` too and undoes
the split. Otherwise no byte of memory has changed. -/
theorem merge_undoes_split (h : Heap) {a : Nat} (size : Nat) (hres : field h.mem .reserved a = 0)
    (hfit : a + sizeofAlloc + field h.mem .size a ≤ 2 ^ 32) :
    ∃ r h', split a size h = some (r, h') ∧
      ((r = 0 ∧ ∃ h'', unsplit a h' = some (0, h'') ∧ Undone h.mem h'.mem h''.mem a) ∨
        (r = 1 ∨ r = 2) ∧ h'.mem = h.mem) := by
  by_cases hs : Splittable h.mem a size
  · obtain ⟨new, hrun, -⟩ := split_of_splittable hs
    obtain ⟨-, hin, -⟩ := rest_inside hs hfit
    have hnext := (field_splitMem_block (m := h.mem) hin).1
    have hm := mergeable_splitMem hs hfit
    rw [← hnext] at hm
    obtain ⟨new', hrun'⟩ := @unsplit_of_mergeable { h with
      mem := splitMem h.mem a size
      log := new ++ h.log } a (by omega) hm (by rw [hnext]; exact Nat.le_add_right _ _)
    refine ⟨0, _, hrun, Or.inl ⟨rfl, _, hrun', field_unsplitMem hs hfit hres, fun x hx => ?_⟩⟩
    exact ⟨splitMem_apply_of_outside_block hs hfit hx, unsplitMem_apply_of_outside_block hs hfit hx⟩
  · obtain ⟨r, h', hrun, hr, new, rfl, -⟩ := split_of_not_splittable hs
    exact ⟨r, _, hrun, Or.inr ⟨hr, rfl⟩⟩

/-- An exact fit: the remainder is a header and no payload. -/
theorem oneBlock_unsplit : ∃ h' h'', split 0x100000 0xFD8 (Heap.oneBlock 0x100000 0xFEC) = some (0, h') ∧
    unsplit 0x100000 h' = some (0, h'') ∧
    Undone (Heap.oneBlock 0x100000 0xFEC).mem h'.mem h''.mem 0x100000 := by
  obtain ⟨r, h', hrun, hundone⟩ :=
    @merge_undoes_split (Heap.oneBlock 0x100000 0xFEC) 0x100000 0xFD8 (by decide) (by decide)
  have hs : Splittable (Heap.oneBlock 0x100000 0xFEC).mem 0x100000 0xFD8 := by decide
  obtain ⟨new, hsplit, -⟩ := split_of_splittable hs
  have hr := (Prod.mk.inj (Option.some.inj (hsplit.symm.trans hrun))).1
  subst hr
  rcases hundone with ⟨-, h'', hundo, hback⟩ | ⟨hr, -⟩
  · exact ⟨h', h'', hrun, hundo, hback⟩
  · exact absurd hr (by decide)

end Neutrino.Memory
