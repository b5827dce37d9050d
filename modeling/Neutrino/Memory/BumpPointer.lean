import Neutrino.Memory.Coverage
import Neutrino.Memory.Reuse

/-!
# The heap is a bump pointer

`memory_init` gives the cursor one usable region, however many there are. From then on all that calls of
`malloc` and `free` come down to is a pointer into that region that goes up by each request and a header
(`BumpStep`): the next address, and whether `malloc` returns at all, follow from the sizes requested so
far, and do not depend on what was freed (`heap_refines_pointer`).

Memory that no usable region covers is never written (`outside_kept`).
-/

namespace Neutrino.Memory

open Neutrino.Lib

/-! ## The pointer -/

/-- What an action does to the pointer, in a region that ends at `hi`. A block is followed by another
header. -/
def BumpStep (hi cursor : Nat) : Event → Nat → Prop
  | .malloc size p, cursor' =>
      p = cursor + sizeofAlloc ∧ cursor' = p + size ∧ cursor' + sizeofAlloc ≤ hi
  | .free _, cursor' => cursor' = cursor
  | .write _ _ _, cursor' => cursor' = cursor

/-- The bytes a request takes. -/
def taken : Event → Nat
  | .malloc size _ => sizeofAlloc + size
  | .free _ => 0
  | .write _ _ _ => 0

def takenBy (tr : List (Event × State)) : Nat := (tr.map fun e => taken e.1).sum

section Step

variable {tail lo hi : Nat} {s s' : State} {e : Event}

/-- **One action**: what it does to the pointer, and that it stays inside the region. -/
theorem Bump.step_pointer (hb : Bump tail lo hi s) (hstep : Step s e s') :
    BumpStep hi s.heap.currentAlloc e s'.heap.currentAlloc ∧
      s'.heap.currentAlloc = s.heap.currentAlloc + taken e ∧
      ∀ x, x < lo ∨ hi ≤ x → s'.heap.mem x = s.heap.mem x := by
  have hcur := hb.cursor
  have hreach := hb.reach
  simp only [sizeofAlloc] at hreach
  cases hstep with
  | @malloc size p fuel h hsize hrun =>
      obtain ⟨k, rfl, hs⟩ := hb.splittable_of_malloc hrun
      obtain ⟨new, heq, -⟩ := hb.malloc_of_splittable hs k
      obtain ⟨rfl, rfl⟩ := Prod.mk.inj (Option.some.inj (heq.symm.trans hrun))
      have hroom := hb.fits hs
      have hmod : size % 2 ^ 32 = size := Nat.mod_eq_of_lt hsize
      have hcursor : s.heap.currentAlloc + sizeofAlloc + size % 2 ^ 32 =
          s.heap.currentAlloc + sizeofAlloc + size := by rw [hmod]
      rw [hmod] at hroom
      refine ⟨⟨rfl, hcursor, ?_⟩, hcursor.trans (Nat.add_assoc _ _ _),
        fun x hx => hb.splitMem_outside hs (by omega)⟩
      show s.heap.currentAlloc + sizeofAlloc + size % 2 ^ 32 + sizeofAlloc ≤ hi
      rwa [hcursor]
  | @free p r h hp hrun =>
      obtain ⟨-, halloc⟩ := hb.live p hp
      have hbelow := halloc.below
      have habove := halloc.above
      simp only [sizeofAlloc] at hbelow
      obtain ⟨r', m, new, heq, hm, -⟩ := free_run s.heap.fresh p (Or.inr (hb.next_apart hp))
      obtain ⟨rfl, rfl⟩ := Prod.mk.inj (Option.some.inj (heq.symm.trans hrun))
      refine ⟨rfl, rfl, fun x hx => ?_⟩
      have hout : x < header p ∨ header p + 20 ≤ x := by omega
      show m x = s.heap.mem x
      rw [hm, freeMem_apply_of_outside _ hout, Heap.fresh_mem]
  | @write p i b hp hi' =>
      obtain ⟨heq, halloc⟩ := hb.live p hp
      have hbelow := halloc.below
      have habove := halloc.above
      simp only [sizeofAlloc] at hbelow heq
      exact ⟨rfl, rfl, fun x hx => Function.update_of_ne (by omega) _ _⟩

/-- **When `malloc` returns**: the block and one more header fit behind the pointer. -/
theorem Bump.returns_iff (hb : Bump tail lo hi s) {size : Nat} (hsize : size < 2 ^ 32) :
    (∃ p s', Step s (.malloc size p) s') ↔
      s.heap.currentAlloc + sizeofAlloc + size + sizeofAlloc ≤ hi := by
  have hreach := hb.reach
  have hmod : size % 2 ^ 32 = size := Nat.mod_eq_of_lt hsize
  constructor
  · rintro ⟨p, s', hstep⟩
    obtain ⟨⟨rfl, hnext, hroom⟩, -⟩ := hb.step_pointer hstep
    rwa [hnext] at hroom
  · intro hroom
    have hs : Splittable s.heap.mem s.heap.currentAlloc (size % 2 ^ 32) := by
      rw [hmod]
      unfold Splittable
      omega
    obtain ⟨new, hrun, -⟩ := hb.malloc_of_splittable hs 0
    exact ⟨_, _, Step.malloc hsize hrun⟩

theorem Bump.run_pointer :
    ∀ {s : State} {tr : List (Event × State)}, Bump tail lo hi s → Steps Step s tr →
      (final s tr).heap.currentAlloc = s.heap.currentAlloc + takenBy tr
  | _, [], _, _ => rfl
  | s, (e, s') :: tr, hb, hrun => by
      have hrest := Bump.run_pointer (hb.step hrun.1) hrun.2
      rw [final, hrest, (hb.step_pointer hrun.1).2.1, takenBy, takenBy, List.map_cons, List.sum_cons,
        Nat.add_assoc]

end Step

/-- **The heap is a bump pointer**: for every memory map with usable regions, and every run from the heap
`memory_init` leaves. Every step is one of the pointer and safe, the live blocks stay apart in one of the
regions, and another request returns iff there is room for it behind all those made before, whatever
was freed since. -/
theorem heap_refines_pointer {t t' : E820} {h₀ h : Heap} (htotal : h₀.totalMemory = 0)
    (hs : SaneRegions (t.reserveArea 0x7C00 0xB8400).usable)
    (hne : (t.reserveArea 0x7C00 0xB8400).usable ≠ []) (hinit : memoryInit t h₀ = some (t', h)) :
    ∃ d ∈ (t.reserveArea 0x7C00 0xB8400).usable, h.currentAlloc = d.base ∧
      ∀ tr : List (Event × State), Steps Step ⟨h, []⟩ tr →
        Steps (fun s e s' => BumpStep (d.base + d.len) s.heap.currentAlloc e s'.heap.currentAlloc ∧
          SafeStep s e s') ⟨h, []⟩ tr ∧
        (∀ s ∈ states ⟨h, []⟩ tr, Separated d.base d.len s) ∧
        ∀ size, size < 2 ^ 32 → ((∃ p s', Step (final ⟨h, []⟩ tr) (.malloc size p) s') ↔
          takenBy tr + size + 2 * sizeofAlloc ≤ d.len) := by
  obtain ⟨d, hd, tail, hb, hcur, -⟩ := memoryInit_region htotal hs hne hinit
  have keep : ∀ s e s', Bump tail d.base (d.base + d.len) s → Step s e s' →
      Bump tail d.base (d.base + d.len) s' := fun _ _ _ hb hstep => hb.step hstep
  refine ⟨d, hd, hcur, fun tr hrun => ⟨?_, ?_, fun size hsize => ?_⟩⟩
  · exact Steps.forall_step keep
      (fun s e s' hb hstep => ⟨(hb.step_pointer hstep).1, hb.safeStep hstep⟩) hb hrun
  · exact fun s hmem => (Steps.invariant keep hb hrun s hmem).separated
  · rw [(Steps.invariant_final keep hb hrun).returns_iff hsize, hb.run_pointer hrun]
    show h.currentAlloc + takenBy tr + sizeofAlloc + size + sizeofAlloc ≤ _ ↔ _
    rw [hcur]
    omega

/-! ## Memory that is never written -/

section Frame

variable {x : Nat}

theorem placeAt_outside {h : Heap} {b size : Nat} (hb : x < b ∨ b + 20 ≤ x)
    (hcur : h.currentAlloc = 0 ∨ x < h.currentAlloc ∨ h.currentAlloc + 20 ≤ x) :
    (placeAt h b size).mem x = h.mem x := by
  unfold placeAt
  by_cases hzero : h.currentAlloc = 0
  · rw [if_pos hzero]
    show setField (setField (setField h.mem .nextAlloc b 0) .reserved b 0) .size b size x = _
    rw [setField_apply_of_outside _ _ _ hb, setField_apply_of_outside _ _ _ hb,
      setField_apply_of_outside _ _ _ hb]
  · have hout := hcur.resolve_left hzero
    rw [if_neg hzero]
    show setField (setField (setField (setField h.mem .nextAlloc h.currentAlloc b)
      .previousAlloc h.currentAlloc h.currentAlloc) .reserved b 0) .size b size x = _
    rw [setField_apply_of_outside _ _ _ hb, setField_apply_of_outside _ _ _ hb,
      setField_apply_of_outside _ _ _ hout, setField_apply_of_outside _ _ _ hout]

/-- The loop writes the headers of blocks only. -/
theorem foldl_place_outside : ∀ {ds : List Desc} {h : Heap}, SaneRegions ds →
    (∀ d ∈ ds, ¬ d.Covers x) →
    h.currentAlloc = 0 ∨ x < h.currentAlloc ∨ h.currentAlloc + 20 ≤ x →
    (ds.foldl place h).mem x = h.mem x
  | [], _, _, _, _ => rfl
  | d :: ds, h, hs, hx, hcur => by
      have hfit := hs.fits d List.mem_cons_self
      have hlarge := hs.large d List.mem_cons_self
      have hnot := hx d List.mem_cons_self
      simp only [sizeofAlloc] at hlarge
      have hout : x < d.base ∨ d.base + 20 ≤ x := by
        unfold Desc.Covers at hnot
        omega
      have hcur' : (placeAt h d.base d.room).currentAlloc = 0 ∨
          x < (placeAt h d.base d.room).currentAlloc ∨
          (placeAt h d.base d.room).currentAlloc + 20 ≤ x := by
        unfold placeAt
        split
        · exact .inr hout
        · exact hcur
      rw [List.foldl_cons, place_eq hfit hlarge,
        foldl_place_outside hs.tail (fun e he => hx e (List.mem_cons_of_mem d he)) hcur',
        placeAt_outside hout hcur]

end Frame

/-- **What no usable region covers** keeps its value, in `memory_init` and in every run after it. -/
theorem outside_kept {t t' : E820} {h₀ h : Heap} (htotal : h₀.totalMemory = 0)
    (hs : SaneRegions (t.reserveArea 0x7C00 0xB8400).usable)
    (hne : (t.reserveArea 0x7C00 0xB8400).usable ≠ [])
    (hinit : memoryInit t h₀ = some (t', h)) {tr : List (Event × State)}
    (hrun : Steps Step ⟨h, []⟩ tr) {x : Nat}
    (hx : ∀ d ∈ (t.reserveArea 0x7C00 0xB8400).usable, ¬ d.Covers x) :
    ∀ s ∈ states ⟨h, []⟩ tr, s.heap.mem x = h₀.mem x := by
  obtain ⟨d, hd, tail, hb, -⟩ := memoryInit_region htotal hs hne hinit
  have hout : x < d.base ∨ d.base + d.len ≤ x := by
    have hnot := hx d hd
    unfold Desc.Covers at hnot
    omega
  have hstart : h.mem x = h₀.mem x := by
    obtain ⟨new, hrun'⟩ := memoryInit_run t h₀
    obtain ⟨-, rfl⟩ := Prod.mk.inj (Option.some.inj (hrun'.symm.trans hinit))
    exact foldl_place_outside (h := { h₀ with currentAlloc := 0 }) hs hx (.inl rfl)
  have hkept : ∀ s ∈ states ⟨h, []⟩ tr,
      Bump tail d.base (d.base + d.len) s ∧ s.heap.mem x = h₀.mem x :=
    Steps.invariant (fun s e s' h hstep =>
      ⟨h.1.step hstep, ((h.1.step_pointer hstep).2.2 x hout).trans h.2⟩) ⟨hb, hstart⟩ hrun
  exact fun s hmem => (hkept s hmem).2

/-! ### A PC with 128 MiB -/

theorem pcRegions_sane : SaneRegions (pcRegions.reserveArea 0x7C00 0xB8400).usable := by
  rw [pcRegions_usable]
  exact ⟨by decide, by decide, by decide⟩

theorem pcRegions_ne : (pcRegions.reserveArea 0x7C00 0xB8400).usable ≠ [] := by
  rw [pcRegions_usable]
  exact List.cons_ne_nil _ _

theorem pcRegions_boot : ∃ t' h, memoryInit pcRegions ⟨fun _ => 0, 0, 0, []⟩ = some (t', h) := by
  obtain ⟨new, hinit⟩ := memoryInit_run pcRegions ⟨fun _ => 0, 0, 0, []⟩
  exact ⟨_, _, hinit⟩

theorem pcRegions_pointer : ∃ t' h, memoryInit pcRegions ⟨fun _ => 0, 0, 0, []⟩ = some (t', h) ∧
    ∃ d ∈ (pcRegions.reserveArea 0x7C00 0xB8400).usable, h.currentAlloc = d.base ∧
      ∀ tr : List (Event × State), Steps Step ⟨h, []⟩ tr →
        Steps (fun s e s' => BumpStep (d.base + d.len) s.heap.currentAlloc e s'.heap.currentAlloc ∧
          SafeStep s e s') ⟨h, []⟩ tr ∧
        (∀ s ∈ states ⟨h, []⟩ tr, Separated d.base d.len s) ∧
        ∀ size, size < 2 ^ 32 → ((∃ p s', Step (final ⟨h, []⟩ tr) (.malloc size p) s') ↔
          takenBy tr + size + 2 * sizeofAlloc ≤ d.len) := by
  obtain ⟨t', h, hinit⟩ := pcRegions_boot
  exact ⟨t', h, hinit, heap_refines_pointer rfl pcRegions_sane pcRegions_ne hinit⟩

end Neutrino.Memory
