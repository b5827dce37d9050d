import Neutrino.Memory.MemoryInit

/-!
# Freed memory does not come back

`free` marks a block unreserved and merges it with the free block behind it, but the cursor stays
where `malloc` left it, and `malloc` never moves it back. So what a `malloc` took off the cursor block
is gone for good: a request that only just fitted before does not return after the block was freed. Freeing
loses nothing only where nothing can be handed out (`reusable_iff`).
-/

namespace Neutrino.Memory

open Neutrino.Lib

/-- `malloc m` returns a block of at least `m` bytes. -/
def Satisfies (h : Heap) (m : Nat) : Prop :=
  ∃ fuel p h', malloc fuel m h.fresh = some (p, h') ∧ m ≤ field h'.mem .size (header p)

/-- Whatever `malloc n` hands out, freed again, leaves a heap that satisfies what this one does. -/
def Reusable (h : Heap) (n : Nat) : Prop :=
  ∀ fuel p h₁ r h₂, malloc fuel n h.fresh = some (p, h₁) → free p h₁.fresh = some (r, h₂) →
    ∀ m, Satisfies h m → Satisfies h₂ m

/-- The cursor block is too small, and the cursor cannot move. -/
structure Unfit (h : Heap) (n : Nat) : Prop where
  small : ¬ Splittable h.mem h.currentAlloc (n % 2 ^ 32)
  stuck : Stuck h.mem h.currentAlloc

/-- The header that a split of the block at `a` writes behind `size` bytes lies apart from the one in front
of them and from a free block behind, and says that less is left than the largest requests take. -/
structure CleanSplit (m : ByteMemory) (a size : Nat) : Prop where
  apart : (a + sizeofAlloc + size) % 2 ^ 32 + 20 ≤ a ∨ a + 20 ≤ (a + sizeofAlloc + size) % 2 ^ 32
  behind : field m .nextAlloc a = 0 ∨ field m .reserved (field m .nextAlloc a) ≠ 1 ∧
    (field m .nextAlloc a + 20 ≤ a ∨ a + 20 ≤ field m .nextAlloc a) ∧
    (field m .nextAlloc a + 20 ≤ (a + sizeofAlloc + size) % 2 ^ 32 ∨
      (a + sizeofAlloc + size) % 2 ^ 32 + 20 ≤ field m .nextAlloc a)
  below : (field m .size a - size - sizeofAlloc) % 2 ^ 32 < 2 ^ 32 - 20

/-- The cursor cannot move, and if its block is large enough, it is split cleanly. -/
structure Ordinary (h : Heap) (n : Nat) : Prop where
  cursor : h.currentAlloc < 2 ^ 32
  stuck : Stuck h.mem h.currentAlloc
  clean : Splittable h.mem h.currentAlloc (n % 2 ^ 32) →
    CleanSplit h.mem h.currentAlloc (n % 2 ^ 32)

/-! ## One allocation and its release -/

theorem header_mod {a : Nat} (h : a < 2 ^ 32) : header ((a + sizeofAlloc) % 2 ^ 32) = a := by
  unfold header
  simp only [sizeofAlloc]
  omega

section Lost

variable {h : Heap} {n : Nat}

/-- `malloc` with the two headers apart: the cursor ends at the second. -/
theorem malloc_apart (hcur : h.currentAlloc < 2 ^ 32)
    (hs : Splittable h.mem h.currentAlloc (n % 2 ^ 32)) {c : Nat}
    (hc : (h.currentAlloc + sizeofAlloc + n % 2 ^ 32) % 2 ^ 32 = c)
    (hapart : c + 20 ≤ h.currentAlloc ∨ h.currentAlloc + 20 ≤ c) :
    ∃ new, malloc 1 n h.fresh = some ((h.currentAlloc + sizeofAlloc) % 2 ^ 32,
      { h with mem := splitMem h.mem h.currentAlloc (n % 2 ^ 32), currentAlloc := c, log := new }) := by
  obtain ⟨new, hrun, -, -⟩ := malloc_of_splittable (h := h.fresh) hs 0
  simp only [Heap.fresh_mem, Heap.fresh_currentAlloc, Heap.fresh_log, List.append_nil] at hrun
  have hnext := (field_splitMem_block_apart (m := h.mem) hc hapart (by omega)).1
  have hprev := (field_splitMem_rest_apart (m := h.mem) hc hapart hcur).1
  rw [hnext, hprev] at hrun
  exact ⟨new, hrun⟩

/-- **What a block larger than its header can be split for.** The second header stays clear of the first
for all requests but the largest. -/
theorem satisfies_of_splittable (hcur : h.currentAlloc < 2 ^ 32) {m : Nat} (hm : m ≤ 2 ^ 32 - 40)
    (hs : Splittable h.mem h.currentAlloc m) : Satisfies h m := by
  have hmod : m % 2 ^ 32 = m := Nat.mod_eq_of_lt (by omega)
  have hapart : (h.currentAlloc + sizeofAlloc + m) % 2 ^ 32 + 20 ≤ h.currentAlloc ∨
      h.currentAlloc + 20 ≤ (h.currentAlloc + sizeofAlloc + m) % 2 ^ 32 := by
    simp only [sizeofAlloc]
    omega
  obtain ⟨new, hrun⟩ := @malloc_apart h m hcur (by rwa [hmod]) _ rfl (by rwa [hmod])
  refine ⟨1, _, _, hrun, ?_⟩
  have hsize := (field_splitMem_block_apart (m := h.mem) rfl hapart (by omega)).2.2.1
  rw [header_mod hcur, hmod, hsize]

/-- **What is lost.** If `n` can be handed out, the largest request that the block could be split for, but
for those whose headers would overlap, is not satisfied any more after the release. -/
theorem request_lost (hcur : h.currentAlloc < 2 ^ 32)
    (hs : Splittable h.mem h.currentAlloc (n % 2 ^ 32))
    (hc : CleanSplit h.mem h.currentAlloc (n % 2 ^ 32)) :
    ∃ p h₁ r h₂, malloc 1 n h.fresh = some (p, h₁) ∧ free p h₁.fresh = some (r, h₂) ∧
      ∃ m, Satisfies h m ∧ ¬ Satisfies h₂ m := by
  obtain ⟨hapart, hbehind, hbelow⟩ := hc
  obtain ⟨new, hmalloc⟩ := malloc_apart hcur hs rfl hapart
  set a := h.currentAlloc with ha
  set size := n % 2 ^ 32 with hsize
  have hlt : size < 2 ^ 64 := by omega
  obtain ⟨hnext, -, -, -⟩ := field_splitMem_block_apart (m := h.mem) rfl hapart hlt
  obtain ⟨-, hnext', -, hsize'⟩ := field_splitMem_rest_apart (m := h.mem) rfl hapart hcur
  set c := (a + sizeofAlloc + size) % 2 ^ 32 with hcdef
  have hhead : header ((a + sizeofAlloc) % 2 ^ 32) = a := header_mod hcur
  generalize hp : (a + sizeofAlloc) % 2 ^ 32 = p at hmalloc hhead
  have hbeside : field (splitMem h.mem a size) .nextAlloc (header p) + 20 ≤ header p ∨
      header p + 20 ≤ field (splitMem h.mem a size) .nextAlloc (header p) := by
    rw [hhead, hnext]
    exact hapart
  obtain ⟨r, m₂, new', hfree, hm₂, -⟩ := free_run
    (Heap.fresh { h with mem := splitMem h.mem a size, currentAlloc := c, log := new }) p hbeside
  change m₂ = freeMem (splitMem h.mem a size) p at hm₂
  -- the release changes the first header only, and the cursor is at the second
  have hkept : ∀ {b : Nat}, b + 20 ≤ a ∨ a + 20 ≤ b → ∀ f : Field,
      field m₂ f b = field (splitMem h.mem a size) f b := fun hb f => by
    rw [hm₂]
    exact field_freeMem_apart _ (by rwa [hhead]) f
  have hstuck : Stuck m₂ c := by
    unfold Stuck
    rw [hkept hapart, hnext']
    refine hbehind.imp_right fun hfar => ?_
    obtain ⟨hfree, hblock, hrest⟩ := hfar
    have hsame : field (splitMem h.mem a size) .reserved (field h.mem .nextAlloc a) =
        field h.mem .reserved (field h.mem .nextAlloc a) :=
      field_congr .reserved fun x hlo hhi =>
        splitMem_apply_of_outside_apart rfl hapart (by omega) (by omega)
    rw [hkept hblock, hsame]
    exact hfree
  refine ⟨p, _, r, _, hmalloc, hfree, min (field h.mem .size a - 20) (2 ^ 32 - 40), ?_, ?_⟩
  · refine satisfies_of_splittable hcur (Nat.min_le_right _ _) ?_
    show _ ≤ field h.mem .size a
    unfold Splittable at hs
    simp only [sizeofAlloc] at hs ⊢
    omega
  · rintro ⟨fuel, q, h', hrun, -⟩
    rw [malloc_of_stuck fuel ?_ hstuck] at hrun
    · cases hrun
    · show ¬ Splittable m₂ c _
      unfold Splittable at hs ⊢
      rw [hkept hapart, hsize']
      simp only [sizeofAlloc] at hs hbelow ⊢
      omega

end Lost

/-- Where nothing is handed out, nothing is lost. -/
theorem Unfit.reusable {h : Heap} {n : Nat} (hu : Unfit h n) : Reusable h n := by
  intro fuel p h₁ r h₂ hmalloc
  rw [malloc_of_stuck fuel (h := h.fresh) hu.small hu.stuck] at hmalloc
  cases hmalloc

/-- A block that can be handed out can be freed, and then something is lost. -/
theorem Ordinary.unfit {h : Heap} {n : Nat} (ho : Ordinary h n) (hr : Reusable h n) : Unfit h n := by
  refine ⟨fun hs => ?_, ho.stuck⟩
  obtain ⟨p, h₁, r, h₂, hmalloc, hfree, m, hbefore, hafter⟩ := request_lost ho.cursor hs (ho.clean hs)
  exact hafter (hr _ _ _ _ _ hmalloc hfree m hbefore)

/-- The cursor block of a bump heap ends in the address space, and the block behind it lies elsewhere. -/
theorem Bump.ordinary {tail lo hi : Nat} {s : State} (hb : Bump tail lo hi s) (n : Nat) :
    Ordinary s.heap n := by
  have hreach := hb.reach
  have htop := hb.top
  have hcursor := hb.cursor
  simp only [sizeofAlloc] at hreach
  refine ⟨by omega, hb.stuck, fun hs => ?_⟩
  unfold Splittable at hs
  simp only [sizeofAlloc] at hs
  have hrest : (s.heap.currentAlloc + sizeofAlloc + n % 2 ^ 32) % 2 ^ 32 =
      s.heap.currentAlloc + 20 + n % 2 ^ 32 := by
    simp only [sizeofAlloc]
    omega
  refine ⟨?_, ?_, ?_⟩
  · rw [hrest]
    omega
  · rw [hrest, hb.next]
    refine hb.barrier.imp_right fun hbarrier => ?_
    have hapart := hbarrier.2
    simp only [sizeofAlloc] at hapart
    exact ⟨hbarrier.1, by omega, by omega⟩
  · simp only [sizeofAlloc]
    omega

theorem oneRegion_boot : ∃ t' h, memoryInit oneRegion ⟨fun _ => 0xFF, 0, 0, []⟩ = some (t', h) ∧
    FreshRegion h 0x1000 0x6C00 := by
  obtain ⟨new, hinit⟩ := memoryInit_run oneRegion ⟨fun _ => 0xFF, 0, 0, []⟩
  exact ⟨_, _, hinit, memoryInit_fresh oneRegion_sane oneRegion_usable hinit⟩

end Neutrino.Memory
