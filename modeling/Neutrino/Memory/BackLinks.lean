import Neutrino.Memory.Tiling
import Mathlib.Logic.Relation

/-!
# Back links

`split` makes the block it cuts off point back at the rest of the old one, and `merge` lets a block
absorb the next. Neither touches the block behind, so what that one points back at may be gone.

`malloc` only ever splits the last block of the list, which has none behind. `free` is not so lucky:
`backLinks_iff` says that the links stay inverse to each other exactly as long as no block is freed in
front of a free one that is not the last.
-/

namespace Neutrino.Memory

open Neutrino.Lib

/-! ## The list from the first block -/

/-- A client action, with requests of any size. -/
inductive AnyStep : State → Event → State → Prop where
  | malloc {s : State} {size p fuel : Nat} {h : Heap} :
      malloc fuel size s.heap.fresh = some (p, h) →
      AnyStep s (.malloc size p) ⟨h, p :: s.live⟩
  | other {s : State} {e : Event} {s' : State} : Step s e s' → AnyStep s e s'

/-- The blocks reached by following `NextAlloc`. -/
def Reached (m : ByteMemory) (first : Nat) : Nat → Prop :=
  Relation.ReflTransGen (fun b c => field m .nextAlloc b = c ∧ c ≠ 0) first

/-- On the list from `first`, back links are inverse to forward links. -/
def BackLinked (first : Nat) (s : State) : Prop :=
  ∀ b, Reached s.heap.mem first b → field s.heap.mem .nextAlloc b ≠ 0 →
    field s.heap.mem .previousAlloc (field s.heap.mem .nextAlloc b) = b

/-- The steps after which they still are: if the block behind a freed one is free too, it is the last. -/
def KeepsBackLinks (first : Nat) (s : State) : Event → State → Prop
  | .free p, _ => Reached s.heap.mem first (header p) →
      field s.heap.mem .reserved (field s.heap.mem .nextAlloc (header p)) = 0 →
        field s.heap.mem .nextAlloc (field s.heap.mem .nextAlloc (header p)) = 0
  | _, _ => True

namespace Segment

variable {m : ByteMemory} {lo hi b : Nat} {bs : List Nat}

theorem start_mem : ∀ {lo : Nat} {bs : List Nat}, Segment m lo bs hi → lo ∈ bs ++ [hi]
  | _, [], h => List.mem_singleton.mpr h
  | _, _ :: _, ⟨heq, _, _⟩ => by
      rw [heq]
      exact List.mem_cons_self

theorem next_mem : ∀ {lo : Nat} {bs : List Nat}, Segment m lo bs hi → b ∈ bs →
    field m .nextAlloc b ∈ bs ++ [hi]
  | _, c :: bs, ⟨_, hnext, hrest⟩, hb => by
      rcases List.mem_cons.mp hb with rfl | hb
      · rw [hnext]
        exact List.mem_cons_of_mem _ hrest.start_mem
      · exact List.mem_cons_of_mem _ (next_mem hrest hb)

theorem next_eq : ∀ {lo : Nat} {bs : List Nat}, Segment m lo bs hi → b ∈ bs →
    field m .nextAlloc b = b + sizeofAlloc + field m .size b
  | _, c :: bs, ⟨_, hnext, hrest⟩, hb => by
      rcases List.mem_cons.mp hb with rfl | hb
      · exact hnext
      · exact next_eq hrest hb

theorem next_ne_zero (hseg : Segment m lo bs hi) (hb : b ∈ bs) : field m .nextAlloc b ≠ 0 := by
  rw [hseg.next_eq hb, sizeofAlloc]
  omega

theorem reached : ∀ {lo : Nat} {bs : List Nat}, Segment m lo bs hi → b ∈ bs ++ [hi] →
    Reached m lo b
  | _, [], h, hb => by
      obtain rfl := List.mem_singleton.mp hb
      rw [Segment] at h
      subst h
      exact Relation.ReflTransGen.refl
  | lo, c :: bs, hseg, hb => by
      have hne := hseg.next_ne_zero List.mem_cons_self
      obtain ⟨rfl, hnext, hrest⟩ := hseg
      rcases List.mem_cons.mp hb with rfl | hb
      · exact Relation.ReflTransGen.refl
      · exact Relation.ReflTransGen.head ⟨hnext, hnext ▸ hne⟩ (reached hrest hb)

end Segment

/-- The list from `lo`: a segment of blocks, each of them what the next one points back at, and a last
block. -/
structure Listed (m : ByteMemory) (lo : Nat) (pre : List Nat) (last : Nat) : Prop where
  segment : Segment m lo pre last
  stop : field m .nextAlloc last = 0
  back : ∀ b ∈ pre, field m .previousAlloc (field m .nextAlloc b) = b

namespace Listed

variable {m m' : ByteMemory} {lo last a b n : Nat} {pre : List Nat}

theorem reached_iff (hl : Listed m lo pre last) : Reached m lo b ↔ b ∈ pre ++ [last] := by
  refine ⟨fun hreach => ?_, hl.segment.reached⟩
  induction hreach with
  | refl => exact hl.segment.start_mem
  | @tail b c _ hstep ih =>
      obtain ⟨rfl, hne⟩ := hstep
      rcases List.mem_append.mp ih with hb | hb
      · exact hl.segment.next_mem hb
      · obtain rfl := List.mem_singleton.mp hb
        exact absurd hl.stop hne

theorem mem_of_next (hl : Listed m lo pre last) (hb : b ∈ pre ++ [last])
    (hne : field m .nextAlloc b ≠ 0) : b ∈ pre := by
  rcases List.mem_append.mp hb with hb | hb
  · exact hb
  · obtain rfl := List.mem_singleton.mp hb
    exact absurd hl.stop hne

/-- A listed block ends in front of the last one, or is it. -/
theorem le_last (hl : Listed m lo pre last) (hb : b ∈ pre ++ [last]) :
    b = last ∨ b + sizeofAlloc + field m .size b ≤ last := by
  rcases List.mem_append.mp hb with hb | hb
  · exact Or.inr (hl.segment.bounds hb).2
  · exact Or.inl (List.mem_singleton.mp hb)

/-- The list only depends on the headers of its blocks, and there not on `Reserved`. -/
theorem frame (hl : Listed m lo pre last)
    (hsame : ∀ b ∈ pre ++ [last], ∀ f, f ≠ .reserved → field m' f b = field m f b) :
    Listed m' lo pre last := by
  refine ⟨hl.segment.congr fun b hb => ?_, ?_, fun b hb => ?_⟩
  · have hb' := List.mem_append_left [last] hb
    exact ⟨hsame b hb' _ (by decide), hsame b hb' _ (by decide)⟩
  · rw [hsame last (by simp) _ (by decide)]
    exact hl.stop
  · rw [hsame b (List.mem_append_left _ hb) _ (by decide),
      hsame _ (hl.segment.next_mem hb) _ (by decide)]
    exact hl.back b hb

/-- The headers of two listed blocks do not overlap. -/
theorem apart (hl : Listed m lo pre last) (ha : a ∈ pre ++ [last]) (hb : b ∈ pre ++ [last])
    (hne : a ≠ b) : a + 20 ≤ b ∨ b + 20 ≤ a := by
  have hale := hl.le_last ha
  have hble := hl.le_last hb
  simp only [sizeofAlloc] at hale hble
  rcases List.mem_append.mp ha with ha | ha
  · rcases List.mem_append.mp hb with hb | hb
    · have hapart := hl.segment.apart ha hb hne
      simp only [sizeofAlloc] at hapart
      omega
    · obtain rfl := List.mem_singleton.mp hb
      omega
  · obtain rfl := List.mem_singleton.mp ha
    omega

theorem unreserve (hl : Listed m lo pre last) (ha : a ∈ pre ++ [last]) :
    Listed (setField m .reserved a 0) lo pre last := by
  refine hl.frame fun b hb f hf => ?_
  by_cases heq : b = a
  · rw [heq, field_setField_ne _ _ _ hf]
  · exact field_setField_apart _ _ _ _ (hl.apart hb ha heq)

/-- The block behind a listed one is the last if it has none behind. -/
theorem second_last (hl : Listed m lo pre last) (ha : a ∈ pre)
    (hstop : field m .nextAlloc (field m .nextAlloc a) = 0) :
    field m .nextAlloc a = last ∧ ∃ before, pre = before ++ [a] := by
  have hlast : field m .nextAlloc a = last := by
    rcases List.mem_append.mp (hl.segment.next_mem ha) with hmem | hmem
    · exact absurd hstop (hl.segment.next_ne_zero hmem)
    · exact List.mem_singleton.mp hmem
  refine ⟨hlast, ?_⟩
  obtain ⟨before, after, rfl⟩ := List.append_of_mem ha
  obtain ⟨-, -, hnext, hafter⟩ := hl.segment.split
  rw [← hnext, hlast] at hafter
  obtain rfl := hafter.eq_nil
  exact ⟨before, rfl⟩

/-- Splitting the last block. -/
theorem split_last (hl : Listed m lo pre last) (hfit : last + sizeofAlloc + n < 2 ^ 32)
    (hsize : field m .size last < 2 ^ 32) :
    Listed (splitMem m last n) lo (pre ++ [last]) (last + sizeofAlloc + n) := by
  obtain ⟨hnext, -, hsize', hprev⟩ := field_splitMem_block (m := m) hfit
  obtain ⟨hback, hstop, -⟩ := field_splitMem_rest (m := m) hfit hsize
  have hold : ∀ b ∈ pre, ∀ f, field (splitMem m last n) f b = field m f b := by
    intro b hb f
    have hbelow := (hl.segment.bounds hb).2
    simp only [sizeofAlloc] at hbelow
    exact field_splitMem_below hfit (by omega) f
  refine ⟨?_, hstop.trans hl.stop, ?_⟩
  · have hseg : Segment (splitMem m last n) lo pre last :=
      hl.segment.congr fun b hb => ⟨hold b hb _, hold b hb _⟩
    refine hseg.append ⟨rfl, ?_, ?_⟩
    · rw [hnext, hsize']
    · rw [hsize']
      rfl
  · intro b hb
    rcases List.mem_append.mp hb with hb | hb
    · rw [hold b hb]
      -- the block behind may be the one that is split, which keeps its back link
      rcases List.mem_append.mp (hl.segment.next_mem hb) with hmem | hmem
      · rw [hold _ hmem]
        exact hl.back b hb
      · have heq := List.mem_singleton.mp hmem
        rw [heq, hprev, ← heq]
        exact hl.back b hb
    · obtain rfl := List.mem_singleton.mp hb
      rw [hnext, hback]

/-- Merging the last two blocks. -/
theorem merge_last (hl : Listed m lo (pre ++ [a]) last) : Listed (mergeMem m a last) lo pre a := by
  obtain ⟨hseg, -⟩ := hl.segment.split
  have hnext : field (mergeMem m a last) .nextAlloc a = field m .nextAlloc last := by
    rw [mergeMem, field_setField_self]
    exact Nat.mod_eq_of_lt (field_lt m .nextAlloc last)
  have hold : ∀ b ∈ pre, ∀ f, field (mergeMem m a last) f b = field m f b := by
    intro b hb f
    have hbelow := (hseg.bounds hb).2
    simp only [sizeofAlloc] at hbelow
    exact field_mergeMem_apart m (by omega) f
  have hprev : field (mergeMem m a last) .previousAlloc a = field m .previousAlloc a := by
    rw [mergeMem, field_setField_ne _ _ _ (by decide), field_setField_ne _ _ _ (by decide)]
  refine ⟨hseg.congr fun b hb => ⟨hold b hb _, hold b hb _⟩, hnext.trans hl.stop, fun b hb => ?_⟩
  rw [hold b hb]
  have hback := hl.back b (List.mem_append_left _ hb)
  rcases List.mem_append.mp (hseg.next_mem hb) with hmem | hmem
  · rw [hold _ hmem]
    exact hback
  · have heq := List.mem_singleton.mp hmem
    rw [heq, hprev, ← heq]
    exact hback

end Listed

/-! ## The invariant -/

/-- The bump invariant, and a list from the first block that ends at the cursor or in front of it. The
live allocations are on the list or behind it. -/
structure Chained (lo hi : Nat) (s : State) : Prop where
  bump : Bump 0 lo hi s
  list : ∃ pre last, Listed s.heap.mem lo pre last ∧
    (last = s.heap.currentAlloc ∨ last + sizeofAlloc ≤ s.heap.currentAlloc) ∧
    ∀ p ∈ s.live, header p ∈ pre ∨ last + sizeofAlloc ≤ header p

/-- Whether `free` merges a live block only depends on the block behind it. -/
theorem Bump.mergeable_iff {tail lo hi p : Nat} {s : State} (hb : Bump tail lo hi s) (hp : p ∈ s.live) :
    Mergeable (setField s.heap.mem .reserved (header p) 0) (header p)
        (field s.heap.mem .nextAlloc (header p)) ↔
      field s.heap.mem .reserved (field s.heap.mem .nextAlloc (header p)) = 0 := by
  obtain ⟨-, halloc⟩ := hb.live p hp
  have hnext := halloc.next
  have hbelow := halloc.below
  have hreach := hb.reach
  have htop := hb.top
  have hother : field (setField s.heap.mem .reserved (header p) 0) .reserved
      (field s.heap.mem .nextAlloc (header p)) =
        field s.heap.mem .reserved (field s.heap.mem .nextAlloc (header p)) :=
    field_setField_apart _ _ _ _ (Or.inr (hb.next_apart hp))
  have hsize : field (setField s.heap.mem .reserved (header p) 0) .size (header p) =
      field s.heap.mem .size (header p) := field_setField_ne _ _ _ (by decide)
  have hself : field (setField s.heap.mem .reserved (header p) 0) .reserved (header p) = 0 :=
    field_setField_self _ _ _ _
  unfold Mergeable
  rw [hother, hsize, hself, hnext]
  simp only [sizeofAlloc] at hbelow hreach ⊢
  rw [Nat.mod_eq_of_lt (by omega)]
  exact ⟨fun h => h.2.1, fun h => ⟨trivial, h, by omega⟩⟩

section Chained

variable {lo hi : Nat} {s s' : State}

theorem Chained.backLinked (hc : Chained lo hi s) : BackLinked lo s := by
  obtain ⟨pre, last, hl, -⟩ := hc.list
  intro b hreach hne
  exact hl.back b (hl.mem_of_next (hl.reached_iff.mp hreach) hne)

/-- A `malloc` splits the last block of the list, or one behind the list. -/
theorem Chained.malloc (hc : Chained lo hi s) {fuel size p : Nat} {h : Heap}
    (hrun : malloc fuel size s.heap.fresh = some (p, h)) : Chained lo hi ⟨h, p :: s.live⟩ := by
  obtain ⟨pre, last, hl, hlast, hlive⟩ := hc.list
  obtain ⟨k, rfl, hs⟩ := hc.bump.splittable_of_malloc hrun
  obtain ⟨new, heq, -⟩ := hc.bump.malloc_of_splittable hs k
  refine ⟨hc.bump.malloc hrun, ?_⟩
  obtain ⟨rfl, rfl⟩ := Prod.mk.inj (Option.some.inj (heq.symm.trans hrun))
  have hfit := hc.bump.rest_lt hs
  have hsz := hc.bump.size_lt
  have hbelow : ∀ q ∈ s.live, header q + sizeofAlloc ≤ s.heap.currentAlloc := fun q hq => by
    have hbound := (hc.bump.live q hq).2.below
    omega
  set a := s.heap.currentAlloc with ha
  set n := size % 2 ^ 32 with hn
  have hhead : header (a + sizeofAlloc) = a := header_add (by omega)
  rcases hlast with hlast | hlast
  · rw [hlast] at hl hlive
    refine ⟨pre ++ [a], a + sizeofAlloc + n, hl.split_last hfit hsz, Or.inl rfl, ?_⟩
    intro q hq
    left
    rcases List.mem_cons.mp hq with rfl | hq
    · rw [hhead]
      simp
    · have hend := hbelow q hq
      refine List.mem_append_left _ ((hlive q hq).resolve_right fun hle => ?_)
      simp only [sizeofAlloc] at hend hle
      omega
  · refine ⟨pre, last, hl.frame fun b hb f _ => ?_, Or.inr ?_, ?_⟩
    · have hle := hl.le_last hb
      simp only [sizeofAlloc] at hlast hle
      exact field_splitMem_below hfit (by omega) f
    · show last + sizeofAlloc ≤ a + sizeofAlloc + n
      omega
    · intro q hq
      rcases List.mem_cons.mp hq with rfl | hq
      · rw [hhead]
        exact Or.inr hlast
      · exact hlive q hq

/-- Stores into a live block keep the list if it is not on it, or if only `Reserved` or the payload are
stored to. -/
theorem Chained.frame (hc : Chained lo hi s) {p : Nat} {s' : State} (hp : p ∈ s.live)
    (hbump : Bump 0 lo hi s') (hcur : s'.heap.currentAlloc = s.heap.currentAlloc)
    (hsub : ∀ q ∈ s'.live, q ∈ s.live)
    (hout : ∀ x, x < header p ∨ header p + sizeofAlloc + field s.heap.mem .size (header p) ≤ x →
      s'.heap.mem x = s.heap.mem x)
    (hself : Reached s.heap.mem lo (header p) → ∀ f, f ≠ .reserved →
      field s'.heap.mem f (header p) = field s.heap.mem f (header p)) : Chained lo hi s' := by
  obtain ⟨pre, last, hl, hlast, hlive⟩ := hc.list
  refine ⟨hbump, pre, last, hl.frame fun b hb f hf => ?_, hcur ▸ hlast,
    fun q hq => hlive q (hsub q hq)⟩
  by_cases heq : b = header p
  · rw [heq] at hb ⊢
    exact hself (hl.reached_iff.mpr hb) f hf
  refine field_congr f fun x hlo hhi => hout x ?_
  have hle := hl.le_last hb
  rcases hlive p hp with hmem | hbehind
  · rcases List.mem_append.mp hb with hb | hb
    · have hapart := hl.segment.apart hb hmem heq
      simp only [sizeofAlloc] at hapart ⊢
      omega
    · obtain rfl := List.mem_singleton.mp hb
      have hbounds := (hl.segment.bounds hmem).2
      simp only [sizeofAlloc] at hbounds ⊢
      omega
  · simp only [sizeofAlloc] at hle hbehind ⊢
    omega

/-- A `free` that merges the last two blocks of the list. -/
theorem Chained.free_last (hc : Chained lo hi s) {p : Nat} (hp : p ∈ s.live)
    (hreach : Reached s.heap.mem lo (header p))
    (hfree : field s.heap.mem .reserved (field s.heap.mem .nextAlloc (header p)) = 0)
    (hstop : field s.heap.mem .nextAlloc (field s.heap.mem .nextAlloc (header p)) = 0)
    (hbump : Bump 0 lo hi s') (hcur : s'.heap.currentAlloc = s.heap.currentAlloc)
    (hlive' : s'.live = s.live.erase p) (hmem : s'.heap.mem = freeMem s.heap.mem p) :
    Chained lo hi s' := by
  obtain ⟨pre, last, hl, hlast, hlive⟩ := hc.list
  have hapart := hc.bump.next_apart hp
  have hlisted := hl.reached_iff.mp hreach
  have hpre : header p ∈ pre := hl.mem_of_next hlisted (by omega)
  obtain ⟨hbehind, before, rfl⟩ := hl.second_last hpre hstop
  have hend := (hl.segment.bounds hpre).2
  have hmerged := (hl.unreserve hlisted).merge_last
  rw [freeMem, if_pos ((hc.bump.mergeable_iff hp).mpr hfree), hbehind] at hmem
  rw [← hmem] at hmerged
  simp only [sizeofAlloc] at hlast hend
  refine ⟨hbump, before, header p, hmerged, Or.inr ?_, fun q hq => ?_⟩
  · rw [hcur, sizeofAlloc]
    omega
  · rw [hlive'] at hq
    obtain ⟨hne, hq⟩ := hc.bump.nodup.mem_erase_iff.mp hq
    rcases hlive q hq with hlisted' | hoff
    · rcases List.mem_append.mp hlisted' with hlisted' | hself
      · exact Or.inl hlisted'
      · -- only `p` itself has its header there
        have hp' := (hc.bump.live p hp).1
        have hq' := (hc.bump.live q hq).1
        rw [List.mem_singleton.mp hself] at hq'
        exact absurd (hq'.trans hp'.symm) hne
    · right
      simp only [sizeofAlloc] at hoff ⊢
      omega

/-- **A `free` keeps the links** if the block behind is in use, or free and the last. -/
theorem Chained.free (hc : Chained lo hi s) {p r : Nat} {h : Heap} (hp : p ∈ s.live)
    (hrun : Memory.free p s.heap.fresh = some (r, h)) (hkeep : KeepsBackLinks lo s (.free p) s') :
    Chained lo hi ⟨h, s.live.erase p⟩ := by
  have hbump := hc.bump.free hp hrun
  obtain ⟨r', m, new, heq, hmem, -⟩ := free_run s.heap.fresh p (Or.inr (hc.bump.next_apart hp))
  obtain ⟨rfl, rfl⟩ := Prod.mk.inj (Option.some.inj (heq.symm.trans hrun))
  rw [Heap.fresh_mem] at hmem
  have hout : ∀ x, x < header p ∨ header p + sizeofAlloc + field s.heap.mem .size (header p) ≤ x →
      m x = s.heap.mem x := fun x hx => by
    simp only [sizeofAlloc] at hx
    rw [hmem, freeMem_apply_of_outside _ (by omega)]
  have hframe := hc.frame hp hbump rfl (fun q hq => List.mem_of_mem_erase hq) hout
  by_cases hfree : field s.heap.mem .reserved (field s.heap.mem .nextAlloc (header p)) = 0
  · by_cases hreach : Reached s.heap.mem lo (header p)
    · exact hc.free_last hp hreach hfree (hkeep hreach hfree) hbump rfl rfl hmem
    · exact hframe fun hreach' => absurd hreach' hreach
  · rw [freeMem, if_neg (fun hm => hfree ((hc.bump.mergeable_iff hp).mp hm))] at hmem
    refine hframe fun _ f hf => ?_
    show field m f (header p) = _
    rw [hmem, field_setField_ne _ _ _ hf]

/-- **Any other `free` breaks them**: the block behind the one absorbed still points back at that. -/
theorem Chained.free_broken (hc : Chained lo hi s) {p r : Nat} {h : Heap} (hp : p ∈ s.live)
    (hrun : Memory.free p s.heap.fresh = some (r, h)) (hbad : ¬ KeepsBackLinks lo s (.free p) s') :
    ¬ BackLinked lo ⟨h, s.live.erase p⟩ := by
  obtain ⟨hreach, hfree, hne⟩ : Reached s.heap.mem lo (header p) ∧
      field s.heap.mem .reserved (field s.heap.mem .nextAlloc (header p)) = 0 ∧
        field s.heap.mem .nextAlloc (field s.heap.mem .nextAlloc (header p)) ≠ 0 := by
    simpa only [KeepsBackLinks, Classical.not_imp] using hbad
  obtain ⟨pre, last, hl, -⟩ := hc.list
  have hapart := hc.bump.next_apart hp
  have hpre : header p ∈ pre := hl.mem_of_next (hl.reached_iff.mp hreach) (by omega)
  obtain ⟨r', m, new, heq, hmem, -⟩ := free_run s.heap.fresh p (Or.inr hapart)
  obtain ⟨rfl, rfl⟩ := Prod.mk.inj (Option.some.inj (heq.symm.trans hrun))
  have hout : ∀ b, b + 20 ≤ header p ∨ header p + 20 ≤ b →
      ∀ f, field m f b = field s.heap.mem f b := by
    intro b hb f
    rw [hmem, field_freeMem_apart _ hb, Heap.fresh_mem]
  rw [Heap.fresh_mem, freeMem, if_pos ((hc.bump.mergeable_iff hp).mpr hfree)] at hmem
  set q := field s.heap.mem .nextAlloc (header p) with hq
  have hqpre : q ∈ pre := hl.mem_of_next (hl.segment.next_mem hpre) hne
  have hnext : field m .nextAlloc (header p) = field s.heap.mem .nextAlloc q := by
    rw [hmem, mergeMem, field_setField_self, field_setField_apart _ _ _ _ (Or.inr hapart)]
    exact Nat.mod_eq_of_lt (field_lt s.heap.mem .nextAlloc q)
  have hreach' : Reached m lo (header p) := by
    obtain ⟨before, after, rfl⟩ := List.append_of_mem hpre
    obtain ⟨hbefore, -⟩ := hl.segment.split
    have hseg : Segment m lo before (header p) := by
      refine hbefore.congr fun b hb => ?_
      have hbelow := (hbefore.bounds hb).2
      simp only [sizeofAlloc] at hbelow
      exact ⟨hout b (by omega) _, hout b (by omega) _⟩
    exact hseg.reached (by simp)
  intro hback
  have hprev : field m .previousAlloc (field s.heap.mem .nextAlloc q) = header p := by
    have hlink := hback (header p) hreach'
    rw [hnext] at hlink
    exact hlink hne
  have hnextq := hl.segment.next_eq hqpre
  rw [hout _ (Or.inr (by rw [hnextq, sizeofAlloc]; omega)), hl.back q hqpre] at hprev
  omega

/-- A client writing into a payload it holds keeps the links. -/
theorem Chained.write (hc : Chained lo hi s) {p i : Nat} (b : UInt8) (hp : p ∈ s.live)
    (hi' : i < field s.heap.mem .size (header p)) :
    Chained lo hi
      ⟨{ s.heap with mem := Function.update s.heap.mem (p + i) b, log := [] }, s.live⟩ := by
  have heq := (hc.bump.live p hp).1
  simp only [sizeofAlloc] at heq
  refine hc.frame hp (hc.bump.write b hp hi') rfl (fun _ hq => hq) (fun x hx => ?_) fun _ f _ => ?_
  · simp only [sizeofAlloc] at hx
    exact Function.update_of_ne (by omega) _ _
  · exact field_congr f fun x hlo hhi => Function.update_of_ne (by omega) _ _

theorem Chained.step {e : Event} (hc : Chained lo hi s) (hstep : AnyStep s e s')
    (hkeep : KeepsBackLinks lo s e s') : Chained lo hi s' := by
  cases hstep with
  | malloc hrun => exact hc.malloc hrun
  | other hstep =>
      cases hstep with
      | malloc _ hrun => exact hc.malloc hrun
      | free hp hrun => exact hc.free hp hrun hkeep
      | write hp hi' => exact hc.write _ hp hi'

theorem Chained.broken {e : Event} (hc : Chained lo hi s) (hstep : AnyStep s e s')
    (hbad : ¬ KeepsBackLinks lo s e s') : ¬ BackLinked lo s' := by
  cases hstep with
  | malloc _ => exact absurd trivial hbad
  | other hstep =>
      cases hstep with
      | malloc _ _ => exact absurd trivial hbad
      | free hp hrun => exact hc.free_broken hp hrun hbad
      | write _ _ => exact absurd trivial hbad

end Chained

theorem FreshRegion.chained {h : Heap} {base length : Nat} (hinit : FreshRegion h base length)
    (hlen : sizeofAlloc ≤ length) (htop : base + length ≤ 2 ^ 32) :
    Chained base (base + length) ⟨h, []⟩ :=
  ⟨hinit.bump hlen htop, [], base,
    ⟨rfl, hinit.next, fun _ hb => absurd hb List.not_mem_nil⟩, Or.inl hinit.current.symm,
    fun _ hp => absurd hp List.not_mem_nil⟩

/-! ## The exact condition -/

/-- **When back links stay inverse to forward links.** In a run from the heap of one usable region, they
are in all states precisely when no block on the list is freed in front of a free one that is not the
last. -/
theorem backLinks_iff {h : Heap} {base length : Nat} (hlen : sizeofAlloc ≤ length)
    (htop : base + length ≤ 2 ^ 32) (hinit : FreshRegion h base length)
    {tr : List (Event × State)} (hrun : Steps AnyStep ⟨h, []⟩ tr) :
    (∀ s ∈ states ⟨h, []⟩ tr, BackLinked base s) ↔ Steps (KeepsBackLinks base) ⟨h, []⟩ tr :=
  Steps.forall_states_iff (fun _ hc => hc.backLinked) (fun _ _ _ hc hstep hok => hc.step hstep hok)
    (fun _ _ _ hc hstep hbad => hc.broken hstep hbad) (hinit.chained hlen htop) hrun

theorem oneBlock_backLinks : ∃ tr : List (Event × State),
    tr.map Prod.fst = [.malloc 16 0x100014, .free 0x100014] ∧
      Steps AnyStep ⟨Heap.oneBlock 0x100000 0xFEC, []⟩ tr ∧
      ((∀ s ∈ states ⟨Heap.oneBlock 0x100000 0xFEC, []⟩ tr, BackLinked 0x100000 s) ↔
        Steps (KeepsBackLinks 0x100000) ⟨Heap.oneBlock 0x100000 0xFEC, []⟩ tr) := by
  obtain ⟨s, s', hmalloc, hfree, -⟩ := oneBlock_run
  have hrun : Steps AnyStep ⟨Heap.oneBlock 0x100000 0xFEC, []⟩
      [(.malloc 16 0x100014, s), (.free 0x100014, s')] := ⟨.other hmalloc, .other hfree, trivial⟩
  exact ⟨_, rfl, hrun, backLinks_iff (by decide) (by decide) oneBlock_fresh hrun⟩

section Calls

variable {tail lo hi : Nat} {s : State}

theorem Bump.malloc_step (hb : Bump tail lo hi s) (size : Nat)
    (hs : Splittable s.heap.mem s.heap.currentAlloc (size % 2 ^ 32)) :
    ∃ log, AnyStep s (.malloc size (s.heap.currentAlloc + sizeofAlloc))
      ⟨⟨splitMem s.heap.mem s.heap.currentAlloc (size % 2 ^ 32),
        s.heap.currentAlloc + sizeofAlloc + size % 2 ^ 32, s.heap.totalMemory, log⟩,
        (s.heap.currentAlloc + sizeofAlloc) :: s.live⟩ := by
  obtain ⟨new, hrun, -⟩ := hb.malloc_of_splittable hs 0
  exact ⟨new, .malloc hrun⟩

theorem Bump.free_step (hb : Bump tail lo hi s) {p : Nat} (hp : p ∈ s.live) :
    ∃ log, AnyStep s (.free p)
      ⟨⟨freeMem s.heap.mem p, s.heap.currentAlloc, s.heap.totalMemory, log⟩, s.live.erase p⟩ := by
  obtain ⟨r, m, new, hrun, hm, -⟩ := free_run s.heap.fresh p (Or.inr (hb.next_apart hp))
  rw [hm, Heap.fresh_mem] at hrun
  have hstep := Step.free hp hrun
  exact ⟨_, .other hstep⟩

end Calls

/-- Three allocations; the second is freed, then the first. The third still points back at the second. -/
theorem oneBlock_backLink_lost : ∃ tr : List (Event × State),
    tr.map Prod.fst = [.malloc 16 0x100014, .malloc 16 0x100038, .malloc 16 0x10005C,
      .free 0x100038, .free 0x100014] ∧
      Steps AnyStep ⟨Heap.oneBlock 0x100000 0xFEC, []⟩ tr ∧
      ¬ ∀ s ∈ states ⟨Heap.oneBlock 0x100000 0xFEC, []⟩ tr, BackLinked 0x100000 s := by
  have hc : Chained 0x100000 (0x100000 + 0x1000) ⟨Heap.oneBlock 0x100000 0xFEC, []⟩ :=
    oneBlock_fresh.chained (by decide) (by decide)
  obtain ⟨log₁, hstep₁⟩ := hc.bump.malloc_step 16 (by decide +kernel)
  have hc₁ := hc.step hstep₁ trivial
  obtain ⟨log₂, hstep₂⟩ := hc₁.bump.malloc_step 16 (by dsimp only; decide +kernel)
  have hc₂ := hc₁.step hstep₂ trivial
  obtain ⟨log₃, hstep₃⟩ := hc₂.bump.malloc_step 16 (by dsimp only; decide +kernel)
  have hc₃ := hc₂.step hstep₃ trivial
  obtain ⟨log₄, hstep₄⟩ := @Bump.free_step _ _ _ _ hc₃.bump 0x100038 (by dsimp only; decide +kernel)
  have hc₄ := hc₃.step hstep₄ fun _ hfree => by
    revert hfree
    dsimp only
    decide +kernel
  obtain ⟨log₅, hstep₅⟩ := @Bump.free_step _ _ _ _ hc₄.bump 0x100014 (by dsimp only; decide +kernel)
  refine ⟨[(_, _), (_, _), (_, _), (_, _), (_, _)], rfl,
    ⟨hstep₁, hstep₂, hstep₃, hstep₄, hstep₅, trivial⟩, fun hall => ?_⟩
  refine hc₄.broken hstep₅ (fun hkeep => ?_) (hall _ (by simp))
  have hlast := hkeep Relation.ReflTransGen.refl
  revert hlast
  dsimp only
  decide +kernel

end Neutrino.Memory
