import Neutrino.Lib.Run
import Neutrino.Memory.AllocSpec
import Mathlib.Data.List.Pairwise
import Mathlib.Data.Set.Lattice
import Mathlib.Order.CompletePartialOrder
import Mathlib.Order.Interval.Set.Disjoint

/-!
# Runs of the heap, and why they are safe

A `State` is the heap with the pointers clients hold. Clients call `malloc`, call `free` on a
pointer they hold, or write into a payload they hold.

The blocks of a running heap need not tile its region: `free` lets a block absorb the one
`_currentAlloc` points at and leaves the cursor where it is. What does survive is the *bump*
invariant: the cursor block reaches to the end of the region, and everything handed out lies below
it. Allocation only ever moves forward.
-/

namespace Neutrino.Memory

open Neutrino.Lib

/-! ## States and steps -/

/-- The heap and the live allocations: the pointers handed out and not freed since. -/
structure State where
  heap : Heap
  live : List Nat

/-- What clients do. -/
inductive Event where
  | malloc (size pointer : Nat)
  | free (pointer : Nat)
  | write (pointer offset : Nat) (byte : UInt8)

/-- One client action. A `malloc` is a step only if the call returns. -/
inductive Step : State → Event → State → Prop where
  | malloc {s : State} {size p fuel : Nat} {h : Heap} :
      size < 2 ^ 32 → malloc fuel size s.heap.fresh = some (p, h) →
      Step s (.malloc size p) ⟨h, p :: s.live⟩
  | free {s : State} {p r : Nat} {h : Heap} :
      p ∈ s.live → free p s.heap.fresh = some (r, h) →
      Step s (.free p) ⟨h, s.live.erase p⟩
  | write {s : State} {p i : Nat} {b : UInt8} :
      p ∈ s.live → i < field s.heap.mem .size (header p) →
      Step s (.write p i b)
        ⟨{ s.heap with mem := Function.update s.heap.mem (p + i) b, log := [] }, s.live⟩

/-- The bytes of a live allocation: its header and its payload. -/
def span (m : ByteMemory) (p : Nat) : Set Nat :=
  Set.Ico (header p) (header p + sizeofAlloc + field m .size (header p))

/-! ## The bump invariant -/

/-- A block in use: below the cursor, marked reserved, its `NextAlloc` the address behind it. -/
structure Allocated (m : ByteMemory) (lo current a : Nat) : Prop where
  above : lo ≤ a
  below : a + sizeofAlloc + field m .size a ≤ current
  reserved : field m .reserved a = 1
  next : field m .nextAlloc a = a + sizeofAlloc + field m .size a

/-- **The bump invariant** of a heap on the region from `lo` to `hi` whose last block points at
`tail`: the cursor block is free and reaches to `hi`, `tail` never lets the cursor through, and the
live allocations lie apart from each other below the cursor. -/
structure Bump (tail lo hi : Nat) (s : State) : Prop where
  cursor : lo ≤ s.heap.currentAlloc
  top : hi ≤ 2 ^ 32
  next : field s.heap.mem .nextAlloc s.heap.currentAlloc = tail
  unreserved : field s.heap.mem .reserved s.heap.currentAlloc = 0
  reach : s.heap.currentAlloc + sizeofAlloc + field s.heap.mem .size s.heap.currentAlloc = hi
  barrier : tail = 0 ∨
    field s.heap.mem .reserved tail ≠ 1 ∧ (tail + sizeofAlloc ≤ lo ∨ hi ≤ tail)
  live : ∀ p ∈ s.live, p = header p + sizeofAlloc ∧
    Allocated s.heap.mem lo s.heap.currentAlloc (header p)
  apart : s.live.Pairwise fun p q => Disjoint (span s.heap.mem p) (span s.heap.mem q)

theorem header_add {a : Nat} (h : a < 2 ^ 32) : header (a + sizeofAlloc) = a := by
  unfold header
  omega

theorem mem_span_of_header {m : ByteMemory} {p x : Nat} (hlo : header p ≤ x)
    (hhi : x < header p + sizeofAlloc) : x ∈ span m p :=
  ⟨hlo, by omega⟩

theorem span_congr {m m' : ByteMemory} {p : Nat}
    (h : field m' .size (header p) = field m .size (header p)) : span m' p = span m p := by
  unfold span
  rw [h]

theorem Allocated.congr {m m' : ByteMemory} {lo current current' a : Nat}
    (h : Allocated m lo current a) (hcur : current ≤ current')
    (hmem : ∀ x, a ≤ x → x < a + 20 → m' x = m x) : Allocated m' lo current' a := by
  have hfield : ∀ f, field m' f a = field m f a := fun f => field_congr f hmem
  refine ⟨h.above, ?_, ?_, ?_⟩
  · rw [hfield]
    exact Nat.le_trans h.below hcur
  · rw [hfield]
    exact h.reserved
  · rw [hfield, hfield]
    exact h.next

section Invariant

variable {tail lo hi : Nat} {s : State}

/-- Stores into the region do not reach the barrier. -/
theorem Bump.barrier_frame (hb : Bump tail lo hi s) {m : ByteMemory} {a : Nat} (ha : lo ≤ a)
    (hout : ∀ x, x < a ∨ hi ≤ x → m x = s.heap.mem x) :
    tail = 0 ∨ field m .reserved tail ≠ 1 ∧ (tail + sizeofAlloc ≤ lo ∨ hi ≤ tail) := by
  rcases hb.barrier with hzero | hbarrier
  · exact .inl hzero
  · have hside := hbarrier.2
    have htail : field m .reserved tail = field s.heap.mem .reserved tail := by
      apply field_congr
      intro x hlo hhi
      simp only [sizeofAlloc] at hside
      exact hout x (by omega)
    rw [htail]
    exact .inr hbarrier

/-- Memory that agrees on the cursor's header, on the barrier and on the live headers keeps the
invariant. -/
theorem Bump.frame {m : ByteMemory} {live : List Nat} {log : List Access}
    (hb : Bump tail lo hi s) (hsub : live.Sublist s.live)
    (hcur : ∀ x, s.heap.currentAlloc ≤ x → x < s.heap.currentAlloc + 20 → m x = s.heap.mem x)
    (hout : ∀ x, x < lo ∨ hi ≤ x → m x = s.heap.mem x)
    (hlive : ∀ p ∈ live, ∀ x, header p ≤ x → x < header p + 20 → m x = s.heap.mem x) :
    Bump tail lo hi ⟨{ s.heap with mem := m, log := log }, live⟩ := by
  have hfield : ∀ f, field m f s.heap.currentAlloc = field s.heap.mem f s.heap.currentAlloc :=
    fun f => field_congr f hcur
  refine ⟨hb.cursor, hb.top, ?_, ?_, ?_, ?_, ?_, ?_⟩
  · exact (hfield _).trans hb.next
  · exact (hfield _).trans hb.unreserved
  · rw [← hb.reach]
    exact congrArg _ (hfield _)
  · exact hb.barrier_frame (Nat.le_refl lo) hout
  · intro p hp
    obtain ⟨heq, halloc⟩ := hb.live p (hsub.subset hp)
    exact ⟨heq, halloc.congr (Nat.le_refl _) (hlive p hp)⟩
  · refine (hb.apart.sublist hsub).imp_of_mem fun {p q} hp hq hdis => ?_
    rw [span_congr (m := s.heap.mem) (field_congr _ (hlive p hp)),
      span_congr (m := s.heap.mem) (field_congr _ (hlive q hq))]
    exact hdis

/-- The cursor can never move past the tail. -/
theorem Bump.stuck (hb : Bump tail lo hi s) : Stuck s.heap.mem s.heap.currentAlloc := by
  unfold Stuck
  rw [hb.next]
  exact hb.barrier.imp_right And.left

/-- Splitting the cursor block stays inside the address space. -/
theorem Bump.fits (hb : Bump tail lo hi s) {size : Nat}
    (hs : Splittable s.heap.mem s.heap.currentAlloc size) :
    s.heap.currentAlloc + sizeofAlloc + size + sizeofAlloc ≤ hi := by
  have hreach := hb.reach
  unfold Splittable at hs
  omega

/-- The new header lies inside the address space. -/
theorem Bump.rest_lt (hb : Bump tail lo hi s) {size : Nat}
    (hs : Splittable s.heap.mem s.heap.currentAlloc size) :
    s.heap.currentAlloc + sizeofAlloc + size < 2 ^ 32 := by
  have hroom := hb.fits hs
  have htop := hb.top
  unfold sizeofAlloc at *
  omega

theorem Bump.size_lt (hb : Bump tail lo hi s) :
    field s.heap.mem .size s.heap.currentAlloc < 2 ^ 32 := by
  have hreach := hb.reach
  have htop := hb.top
  unfold sizeofAlloc at hreach
  omega

/-- Splitting the cursor block writes between its header and the end of the region only. -/
theorem Bump.splitMem_outside (hb : Bump tail lo hi s) {size x : Nat}
    (hs : Splittable s.heap.mem s.heap.currentAlloc size) (hx : x < s.heap.currentAlloc ∨ hi ≤ x) :
    splitMem s.heap.mem s.heap.currentAlloc size x = s.heap.mem x := by
  have hroom := hb.fits hs
  simp only [sizeofAlloc] at hroom
  apply splitMem_apply_of_outside (hb.rest_lt hs)
  · omega
  · simp only [sizeofAlloc]
    omega

/-- The headers of the live allocations are in front of the cursor block. -/
theorem Bump.splitMem_live (hb : Bump tail lo hi s) {size q : Nat}
    (hs : Splittable s.heap.mem s.heap.currentAlloc size) (hq : q ∈ s.live) :
    ∀ x, header q ≤ x → x < header q + 20 →
      splitMem s.heap.mem s.heap.currentAlloc size x = s.heap.mem x := by
  intro x _ hhi
  have hbelow := (hb.live q hq).2.below
  simp only [sizeofAlloc] at hbelow
  exact hb.splitMem_outside hs (Or.inl (by omega))

/-- `malloc` on a bump heap hands out the front of the cursor block, if that is large enough. -/
theorem Bump.malloc_of_splittable (hb : Bump tail lo hi s) {size : Nat}
    (hs : Splittable s.heap.mem s.heap.currentAlloc (size % 2 ^ 32)) (fuel : Nat) :
    ∃ new, malloc (fuel + 1) size s.heap.fresh = some (s.heap.currentAlloc + sizeofAlloc,
        { s.heap with
          mem := splitMem s.heap.mem s.heap.currentAlloc (size % 2 ^ 32)
          currentAlloc := s.heap.currentAlloc + sizeofAlloc + size % 2 ^ 32
          log := new }) ∧
      ∀ c ∈ new, c.base = s.heap.currentAlloc ∨
        c.base = s.heap.currentAlloc + sizeofAlloc + size % 2 ^ 32 := by
  have hfit := hb.rest_lt hs
  have hsz := hb.size_lt
  obtain ⟨new, hrun, hnew, -⟩ := Memory.malloc_of_splittable (h := s.heap.fresh) hs fuel
  simp only [Heap.fresh_mem, Heap.fresh_currentAlloc, Heap.fresh_log, List.append_nil] at hrun hnew
  set a := s.heap.currentAlloc with ha
  set n := size % 2 ^ 32 with hn
  have hnext := (field_splitMem_block (m := s.heap.mem) hfit).1
  have hprev := (field_splitMem_rest (m := s.heap.mem) hfit hsz).1
  have hret : (a + sizeofAlloc) % 2 ^ 32 = a + sizeofAlloc := Nat.mod_eq_of_lt (by omega)
  rw [hnext, hprev, hret] at hrun
  refine ⟨new, hrun, fun c hc => ?_⟩
  rcases hnew c hc with hbase | ⟨m, hm, hbase⟩
  · exact Or.inl hbase
  · exact Or.inr (hbase.trans (nextAlloc_splitStores hfit m hm))

/-- A `malloc` that returned on a bump heap found the cursor block large enough. -/
theorem Bump.splittable_of_malloc (hb : Bump tail lo hi s) {fuel size : Nat} {r : Nat × Heap}
    (hrun : malloc fuel size s.heap.fresh = some r) :
    ∃ k, fuel = k + 1 ∧ Splittable s.heap.mem s.heap.currentAlloc (size % 2 ^ 32) := by
  cases fuel with
  | zero => exact absurd hrun (by simp [malloc])
  | succ fuel =>
      refine ⟨fuel, rfl, ?_⟩
      by_contra hs
      rw [malloc_of_stuck _ (h := s.heap.fresh) hs hb.stuck] at hrun
      exact absurd hrun (by simp)

/-- **`malloc` keeps the bump invariant.** -/
theorem Bump.malloc (hb : Bump tail lo hi s) {fuel size p : Nat} {h : Heap}
    (hrun : malloc fuel size s.heap.fresh = some (p, h)) : Bump tail lo hi ⟨h, p :: s.live⟩ := by
  obtain ⟨k, rfl, hs⟩ := hb.splittable_of_malloc hrun
  obtain ⟨new, heq, -⟩ := hb.malloc_of_splittable hs k
  obtain ⟨rfl, rfl⟩ := Prod.mk.inj (Option.some.inj (heq.symm.trans hrun))
  have hreach := hb.reach
  have htop := hb.top
  have hcur := hb.cursor
  have hroom := hb.fits hs
  have hfit := hb.rest_lt hs
  have hsz := hb.size_lt
  set a := s.heap.currentAlloc with ha
  set n := size % 2 ^ 32 with hn
  simp only [sizeofAlloc] at hroom hreach
  have hhead : header (a + sizeofAlloc) = a := header_add (by omega)
  obtain ⟨hnext, hres, hsize, -⟩ := field_splitMem_block (m := s.heap.mem) hfit
  obtain ⟨-, hnext', hres', hsize'⟩ :=
    field_splitMem_rest (m := s.heap.mem) hfit hsz
  have hspan : ∀ q ∈ s.live, span (splitMem s.heap.mem a n) q = span s.heap.mem q :=
    fun q hq => span_congr (field_congr _ (hb.splitMem_live hs hq))
  refine ⟨?_, htop, ?_, ?_, ?_, ?_, ?_, ?_⟩
  · show lo ≤ a + sizeofAlloc + n
    omega
  · exact hnext'.trans hb.next
  · exact hres'
  · show a + sizeofAlloc + n + sizeofAlloc + field _ .size (a + sizeofAlloc + n) = hi
    rw [hsize']
    simp only [sizeofAlloc]
    omega
  · exact hb.barrier_frame hcur fun x hx => hb.splitMem_outside hs hx
  · intro q hq
    rcases List.mem_cons.mp hq with rfl | hq
    · rw [hhead]
      refine ⟨rfl, hcur, ?_, hres, ?_⟩
      · rw [hsize]
      · rw [hsize]
        exact hnext
    · obtain ⟨heq, halloc⟩ := hb.live q hq
      refine ⟨heq, halloc.congr ?_ (hb.splitMem_live hs hq)⟩
      show a ≤ a + sizeofAlloc + n
      omega
  · refine List.pairwise_cons.mpr ⟨fun q hq => ?_, ?_⟩
    · have hbelow := (hb.live q hq).2.below
      rw [hspan q hq, Set.disjoint_left]
      intro x hx hx'
      rw [span, hhead] at hx
      have hle := hx.1
      have hlt := hx'.2
      omega
    · refine hb.apart.imp_of_mem fun {q q'} hq hq' hdis => ?_
      rw [hspan q hq, hspan q' hq']
      exact hdis

theorem Bump.nodup (hb : Bump tail lo hi s) : s.live.Nodup := by
  refine hb.apart.imp fun {p q} hdis heq => ?_
  subst heq
  have hmem : header p ∈ span s.heap.mem p :=
    mem_span_of_header (Nat.le_refl _) (by simp [sizeofAlloc])
  exact Set.disjoint_left.mp hdis hmem hmem

/-- Two different live allocations do not overlap. -/
theorem Bump.disjoint (hb : Bump tail lo hi s) {p q : Nat} (hp : p ∈ s.live) (hq : q ∈ s.live)
    (hne : p ≠ q) : Disjoint (span s.heap.mem p) (span s.heap.mem q) := by
  have hsymm : Std.Symm fun p q => Disjoint (span s.heap.mem p) (span s.heap.mem q) :=
    ⟨fun _ _ h => h.symm⟩
  exact hb.apart.forall hp hq hne

/-- The block behind a live one starts past its header. -/
theorem Bump.next_apart (hb : Bump tail lo hi s) {p : Nat} (hp : p ∈ s.live) :
    header p + 20 ≤ field s.heap.mem .nextAlloc (header p) := by
  rw [(hb.live p hp).2.next]
  simp only [sizeofAlloc]
  omega

/-- **`free` keeps the bump invariant**, whatever it merges: it writes nothing but the header of the
block it is given. -/
theorem Bump.free (hb : Bump tail lo hi s) {p r : Nat} {h : Heap} (hp : p ∈ s.live)
    (hrun : free p s.heap.fresh = some (r, h)) : Bump tail lo hi ⟨h, s.live.erase p⟩ := by
  obtain ⟨-, halloc⟩ := hb.live p hp
  have hbelow := halloc.below
  have habove := halloc.above
  have hreach := hb.reach
  simp only [sizeofAlloc] at hbelow hreach
  obtain ⟨r', m, new, heq, hm, -⟩ := free_run s.heap.fresh p (Or.inr (hb.next_apart hp))
  have hframe : ∀ x, x < header p ∨ header p + 20 ≤ x → m x = s.heap.mem x := fun x hx => by
    rw [hm, freeMem_apply_of_outside _ hx, Heap.fresh_mem]
  obtain ⟨rfl, rfl⟩ := Prod.mk.inj (Option.some.inj (heq.symm.trans hrun))
  refine hb.frame List.erase_sublist ?_ ?_ ?_
  · intro x hlo _
    exact hframe x (by omega)
  · intro x hx
    exact hframe x (by omega)
  · intro q hq x hlo hhi
    obtain ⟨hne, hq⟩ := hb.nodup.mem_erase_iff.mp hq
    apply hframe
    by_contra hin
    have hxp : x ∈ span s.heap.mem p :=
      mem_span_of_header (by omega) (by simp only [sizeofAlloc]; omega)
    have hxq : x ∈ span s.heap.mem q := mem_span_of_header hlo hhi
    exact Set.disjoint_left.mp (hb.disjoint hq hp hne) hxq hxp

/-- A client writing into a payload it holds keeps the bump invariant. -/
theorem Bump.write (hb : Bump tail lo hi s) {p i : Nat} (b : UInt8) (hp : p ∈ s.live)
    (hi' : i < field s.heap.mem .size (header p)) :
    Bump tail lo hi
      ⟨{ s.heap with mem := Function.update s.heap.mem (p + i) b, log := [] }, s.live⟩ := by
  obtain ⟨heq, halloc⟩ := hb.live p hp
  have hbelow := halloc.below
  have habove := halloc.above
  have hreach := hb.reach
  simp only [sizeofAlloc] at hbelow hreach heq
  have hframe : ∀ x, x ≠ p + i → Function.update s.heap.mem (p + i) b x = s.heap.mem x :=
    fun x hx => Function.update_of_ne hx _ _
  have hspan : p + i ∈ span s.heap.mem p := ⟨by omega, by simp only [sizeofAlloc]; omega⟩
  refine hb.frame (List.Sublist.refl _) ?_ ?_ ?_
  · intro x hlo _
    exact hframe x (by omega)
  · intro x hx
    exact hframe x (by omega)
  · intro q hq x hlo hhi
    apply hframe
    rintro rfl
    by_cases hne : q = p
    · subst hne
      omega
    · exact Set.disjoint_left.mp (hb.disjoint hq hp hne) (mem_span_of_header hlo hhi) hspan

/-- **Every client action keeps the bump invariant.** -/
theorem Bump.step {s' : State} {e : Event} (hb : Bump tail lo hi s) (hstep : Step s e s') :
    Bump tail lo hi s' := by
  cases hstep with
  | malloc _ hrun => exact hb.malloc hrun
  | free hp hrun => exact hb.free hp hrun
  | write hp hi' => exact hb.write _ hp hi'

end Invariant

/-! ## Heap safety -/

/-- The heap `memory_init` leaves for one usable region: one unreserved block over all of it. -/
structure FreshRegion (h : Heap) (base length : Nat) : Prop where
  current : h.currentAlloc = base
  next : field h.mem .nextAlloc base = 0
  reserved : field h.mem .reserved base = 0
  size : field h.mem .size base = length - sizeofAlloc

theorem FreshRegion.bump {h : Heap} {base length : Nat} (hinit : FreshRegion h base length)
    (hlen : sizeofAlloc ≤ length) (htop : base + length ≤ 2 ^ 32) :
    Bump 0 base (base + length) ⟨h, []⟩ := by
  have hreach : base + sizeofAlloc + field h.mem .size base = base + length := by
    rw [hinit.size]
    omega
  refine ⟨?_, htop, ?_, ?_, ?_, Or.inl rfl, ?_, List.Pairwise.nil⟩
  · exact Nat.le_of_eq hinit.current.symm
  · show field h.mem .nextAlloc h.currentAlloc = 0
    rw [hinit.current]
    exact hinit.next
  · show field h.mem .reserved h.currentAlloc = 0
    rw [hinit.current]
    exact hinit.reserved
  · show h.currentAlloc + sizeofAlloc + field h.mem .size h.currentAlloc = base + length
    rw [hinit.current]
    exact hreach
  · intro p hp
    exact absurd hp List.not_mem_nil

/-- The live allocations are pairwise disjoint and inside the region. -/
structure Separated (base length : Nat) (s : State) : Prop where
  apart : s.live.Pairwise fun p q => Disjoint (span s.heap.mem p) (span s.heap.mem q)
  inside : ∀ p ∈ s.live, span s.heap.mem p ⊆ Set.Ico base (base + length)

/-- The call wrote no byte of the live allocation `q`. -/
def Untouched (s s' : State) (q : Nat) : Prop :=
  ∀ c ∈ s'.heap.log, c.write = true → ∀ x, c.Covers x → x ∉ span s.heap.mem q

/-- What every step of a safe heap respects: `malloc` hands out a block that was not reserved and
writes into no live allocation, `free` writes into no other one and passes a block to `merge`. -/
def SafeStep (s : State) : Event → State → Prop
  | .malloc _ p, s' =>
    field s.heap.mem .reserved (header p) = 0 ∧ ∀ q ∈ s.live, Untouched s s' q
  | .free p, s' =>
    field s.heap.mem .nextAlloc (header p) ≠ 0 ∧ ∀ q ∈ s.live, q ≠ p → Untouched s s' q
  | .write _ _ _, _ => True

/-- An access through a pointer whose header lies outside an allocation does not touch it. -/
theorem not_mem_span {m : ByteMemory} {c : Access} {q x : Nat} (hx : c.Covers x)
    (hout : c.base + 20 ≤ header q ∨ header q + sizeofAlloc + field m .size (header q) ≤ c.base) :
    x ∉ span m q := by
  rintro ⟨hlo, hhi⟩
  have hin := hx.mem_header
  omega

section Safety

variable {tail lo hi : Nat} {s s' : State}

theorem Bump.separated {base length : Nat} (hb : Bump tail base (base + length) s) :
    Separated base length s := by
  refine ⟨hb.apart, fun p hp x hx => ?_⟩
  obtain ⟨-, halloc⟩ := hb.live p hp
  have habove := halloc.above
  have hbelow := halloc.below
  have hreach := hb.reach
  obtain ⟨hlo, hhi⟩ := hx
  exact ⟨by omega, by omega⟩

/-- **Every step of a bump heap is safe.** -/
theorem Bump.safeStep {e : Event} (hb : Bump tail lo hi s) (hstep : Step s e s') :
    SafeStep s e s' := by
  have htop := hb.top
  have hreach := hb.reach
  simp only [sizeofAlloc] at hreach
  cases hstep with
  | @malloc size p fuel h _ hrun =>
      obtain ⟨k, rfl, hs⟩ := hb.splittable_of_malloc hrun
      obtain ⟨new, heq, hnew⟩ := hb.malloc_of_splittable hs k
      obtain ⟨rfl, rfl⟩ := Prod.mk.inj (Option.some.inj (heq.symm.trans hrun))
      refine ⟨?_, fun q hq c hc _ x hx => not_mem_span hx (Or.inr ?_)⟩
      · rw [header_add (by omega)]
        exact hb.unreserved
      · have hbelow := (hb.live q hq).2.below
        rcases hnew c hc with hbase | hbase <;> omega
  | @free p r h hp hrun =>
      obtain ⟨r', m, new, heq, -, hnew⟩ := free_run s.heap.fresh p (Or.inr (hb.next_apart hp))
      obtain ⟨rfl, rfl⟩ := Prod.mk.inj (Option.some.inj (heq.symm.trans hrun))
      refine ⟨?_, fun q hq hne c hc hw x hx hxq => ?_⟩
      · have hnext := hb.next_apart hp
        omega
      · have hbase := hnew c (by simpa using hc) hw
        obtain ⟨hlo, hhi⟩ := hx.mem_header
        have hxp : x ∈ span s.heap.mem p :=
          mem_span_of_header (by omega) (by simp only [sizeofAlloc]; omega)
        exact Set.disjoint_left.mp (hb.disjoint hq hp hne) hxq hxp
  | write _ _ => trivial

end Safety

/-- **Heap safety over whole runs.** From the heap of one usable region, in every state of every run
the live allocations are disjoint and inside the region, and every step of it is safe. -/
theorem heap_safe {h : Heap} {base length : Nat} (hlen : sizeofAlloc ≤ length)
    (htop : base + length ≤ 2 ^ 32) (hinit : FreshRegion h base length) {tr : List (Event × State)}
    (hrun : Steps Step ⟨h, []⟩ tr) :
    (∀ s ∈ states ⟨h, []⟩ tr, Separated base length s) ∧ Steps SafeStep ⟨h, []⟩ tr := by
  have hb : Bump 0 base (base + length) ⟨h, []⟩ := hinit.bump hlen htop
  have keep : ∀ s e s', Bump 0 base (base + length) s → Step s e s' →
      Bump 0 base (base + length) s' := fun _ _ _ hb hstep => hb.step hstep
  constructor
  · intro s hs
    exact (Steps.invariant keep hb hrun s hs).separated
  · exact Steps.forall_step keep (fun _ _ _ hb hstep => hb.safeStep hstep) hb hrun

theorem oneBlock_fresh : FreshRegion (Heap.oneBlock 0x100000 0xFEC) 0x100000 0x1000 :=
  ⟨rfl, by decide, by decide, by decide⟩

/-- One allocation on a fresh region, and its release. -/
theorem oneBlock_run : ∃ s s', Step ⟨Heap.oneBlock 0x100000 0xFEC, []⟩ (.malloc 16 0x100014) s ∧
    Step s (.free 0x100014) s' ∧
    field s.heap.mem .nextAlloc (header 0x100014) = s.heap.currentAlloc := by
  have hb : Bump 0 0x100000 (0x100000 + 0x1000) ⟨Heap.oneBlock 0x100000 0xFEC, []⟩ :=
    oneBlock_fresh.bump (by decide) (by decide)
  obtain ⟨new, hmalloc, -⟩ := @Bump.malloc_of_splittable _ _ _ _ hb 16 (by decide) 0
  have hnext : field (splitMem (Heap.oneBlock 0x100000 0xFEC).mem 0x100000 16) .nextAlloc
      (header 0x100014) = 0x100024 := by decide
  obtain ⟨s, hstep, hlive, hcursor⟩ : ∃ s,
      Step ⟨Heap.oneBlock 0x100000 0xFEC, []⟩ (.malloc 16 0x100014) s ∧ s.live = [0x100014] ∧
      field s.heap.mem .nextAlloc (header 0x100014) = s.heap.currentAlloc :=
    ⟨_, Step.malloc (by decide) hmalloc, rfl, hnext⟩
  have hmem : 0x100014 ∈ s.live := by
    rw [hlive]
    exact List.mem_singleton_self _
  obtain ⟨r, m, new', hfree, -⟩ := free_run s.heap.fresh 0x100014
    (Or.inr ((hb.step hstep).next_apart hmem))
  exact ⟨s, _, hstep, Step.free hmem hfree, hcursor⟩

/-- Two blocks, both in use, and the release of the first. -/
theorem oneBlock_two : ∃ s s' s'', Step ⟨Heap.oneBlock 0x100000 0xFEC, []⟩ (.malloc 16 0x100014) s ∧
    Step s (.malloc 8 0x100038) s' ∧ s'.live = [0x100038, 0x100014] ∧ Step s' (.free 0x100014) s'' := by
  have hb : Bump 0 0x100000 (0x100000 + 0x1000) ⟨Heap.oneBlock 0x100000 0xFEC, []⟩ :=
    oneBlock_fresh.bump (by decide) (by decide)
  obtain ⟨new, hfirst, -⟩ := @Bump.malloc_of_splittable _ _ _ _ hb 16 (by decide) 0
  obtain ⟨s, hstep, hlive, hcursor⟩ : ∃ s,
      Step ⟨Heap.oneBlock 0x100000 0xFEC, []⟩ (.malloc 16 0x100014) s ∧ s.live = [0x100014] ∧
      s.heap.currentAlloc = 0x100024 :=
    ⟨_, Step.malloc (by decide) hfirst, rfl, rfl⟩
  have hb₁ := hb.step hstep
  have hroom : Splittable s.heap.mem s.heap.currentAlloc (8 % 2 ^ 32) := by
    have hreach := hb₁.reach
    rw [hcursor] at hreach ⊢
    show 8 + sizeofAlloc ≤ field s.heap.mem .size 0x100024
    simp only [sizeofAlloc] at hreach ⊢
    omega
  obtain ⟨new₁, hsecond, -⟩ := hb₁.malloc_of_splittable hroom 0
  rw [hcursor] at hsecond
  obtain ⟨s', hstep', hlive'⟩ : ∃ s', Step s (.malloc 8 0x100038) s' ∧
      s'.live = [0x100038, 0x100014] :=
    ⟨_, Step.malloc (by decide) hsecond, by rw [← hlive]⟩
  have hmem : 0x100014 ∈ s'.live := by
    rw [hlive']
    exact .tail _ (.head _)
  obtain ⟨r, m, new', hfree, -⟩ := free_run s'.heap.fresh 0x100014
    (Or.inr ((hb₁.step hstep').next_apart hmem))
  exact ⟨s, s', _, hstep, hstep', hlive', Step.free hmem hfree⟩

theorem oneBlock_safe : ∃ tr : List (Event × State),
    tr.map Prod.fst = [.malloc 16 0x100014, .malloc 8 0x100038, .free 0x100014] ∧
      (∃ s ∈ states ⟨Heap.oneBlock 0x100000 0xFEC, []⟩ tr, s.live = [0x100038, 0x100014]) ∧
      Steps Step ⟨Heap.oneBlock 0x100000 0xFEC, []⟩ tr ∧
      (∀ s ∈ states ⟨Heap.oneBlock 0x100000 0xFEC, []⟩ tr, Separated 0x100000 0x1000 s) ∧
      Steps SafeStep ⟨Heap.oneBlock 0x100000 0xFEC, []⟩ tr := by
  obtain ⟨s, s', s'', hfirst, hsecond, hlive, hfree⟩ := oneBlock_two
  have hrun : Steps Step ⟨Heap.oneBlock 0x100000 0xFEC, []⟩
      [(.malloc 16 0x100014, s), (.malloc 8 0x100038, s'), (.free 0x100014, s'')] :=
    ⟨hfirst, hsecond, hfree, trivial⟩
  have hboth : s' ∈ states ⟨Heap.oneBlock 0x100000 0xFEC, []⟩
      [(Event.malloc 16 0x100014, s), (Event.malloc 8 0x100038, s'), (Event.free 0x100014, s'')] :=
    List.mem_of_mem_tail (.tail _ (.head _))
  exact ⟨_, rfl, ⟨s', hboth, hlive⟩, hrun, heap_safe (by decide) (by decide) oneBlock_fresh hrun⟩

end Neutrino.Memory
