import Neutrino.Memory.BlockList
import Neutrino.Memory.HeapRun

/-!
# Does the list tile the region?

`HeapRep` is what the allocator's data structure looks like it is meant to be: the list read off the
headers fills the region block by block, the cursor is on it, and so is every live allocation.

`malloc` keeps it. `free` keeps it unless the block it is given lies directly in front of the cursor
block: that one is always free, so `merge` absorbs it, and the cursor is left on a header that is no
longer on the list. `tiles_iff` says that nothing else goes wrong.
-/

namespace Neutrino.Memory

open Neutrino.Lib

/-! ## Tilings and segments -/

/-- The blocks `bs` fill the memory from `lo` to `hi`, each starting where the one before ends. -/
def Tiles (m : ByteMemory) : Nat → List Nat → Nat → Prop
  | lo, [], hi => lo = hi
  | lo, b :: bs, hi => lo = b ∧ Tiles m (b + sizeofAlloc + field m .size b) bs hi

/-- The blocks `bs` fill the memory from `lo` to `hi`, and each one's `NextAlloc` is where it ends. -/
def Segment (m : ByteMemory) : Nat → List Nat → Nat → Prop
  | lo, [], hi => lo = hi
  | lo, b :: bs, hi => lo = b ∧ field m .nextAlloc b = b + sizeofAlloc + field m .size b ∧
      Segment m (b + sizeofAlloc + field m .size b) bs hi

/-- What clients and the allocator rely on: the list from `lo` tiles the region up to `hi`, and the
cursor and the live allocations are on it. -/
def HeapRep (lo hi : Nat) (s : State) : Prop :=
  ∃ bs, Path s.heap.mem lo bs 0 ∧ Tiles s.heap.mem lo bs hi ∧ s.heap.currentAlloc ∈ bs ∧
    ∀ p ∈ s.live, header p ∈ bs ∧ field s.heap.mem .reserved (header p) = 1

theorem Tiles.append {m : ByteMemory} {mid hi : Nat} {ys : List Nat} :
    ∀ {lo : Nat} {xs : List Nat}, Tiles m lo xs mid → Tiles m mid ys hi → Tiles m lo (xs ++ ys) hi
  | _, [], hxs, hys => by
      rw [Tiles] at hxs
      exact hxs ▸ hys
  | _, _ :: _, ⟨heq, hxs⟩, hys => ⟨heq, append hxs hys⟩

namespace Segment

variable {m m' : ByteMemory} {lo mid hi a b : Nat} {xs ys bs : List Nat}

theorem append : ∀ {lo : Nat} {xs : List Nat}, Segment m lo xs mid → Segment m mid ys hi →
    Segment m lo (xs ++ ys) hi
  | _, [], hxs, hys => by
      rw [Segment] at hxs
      exact hxs ▸ hys
  | _, _ :: _, ⟨heq, hnext, hxs⟩, hys => ⟨heq, hnext, append hxs hys⟩

/-- A segment splits at each of its blocks. -/
theorem split : ∀ {lo : Nat} {xs : List Nat}, Segment m lo (xs ++ b :: ys) hi →
    Segment m lo xs b ∧ Segment m b (b :: ys) hi
  | _, [], ⟨heq, hnext, hys⟩ => ⟨heq, rfl, hnext, hys⟩
  | _, _ :: _, ⟨heq, hnext, hrest⟩ =>
      let ⟨hxs, hys⟩ := split hrest
      ⟨⟨heq, hnext, hxs⟩, hys⟩

theorem le : ∀ {lo : Nat} {bs : List Nat}, Segment m lo bs hi → lo ≤ hi
  | _, [], h => Nat.le_of_eq h
  | _, _ :: _, ⟨heq, _, hrest⟩ => by
      have hle := le hrest
      omega

theorem bounds : ∀ {lo : Nat} {bs : List Nat}, Segment m lo bs hi → b ∈ bs →
    lo ≤ b ∧ b + sizeofAlloc + field m .size b ≤ hi
  | _, c :: bs, ⟨heq, _, hrest⟩, hb => by
      rcases List.mem_cons.mp hb with rfl | hb
      · exact ⟨Nat.le_of_eq heq, hrest.le⟩
      · obtain ⟨hlo, hhi⟩ := bounds hrest hb
        exact ⟨by omega, hhi⟩

/-- Two blocks of a segment do not overlap. -/
theorem apart : ∀ {lo : Nat} {bs : List Nat}, Segment m lo bs hi → a ∈ bs → b ∈ bs → a ≠ b →
    a + sizeofAlloc + field m .size a ≤ b ∨ b + sizeofAlloc + field m .size b ≤ a
  | _, c :: bs, ⟨_, _, hrest⟩, ha, hb, hne => by
      rcases List.mem_cons.mp ha with rfl | ha'
      · have hb' := (List.mem_cons.mp hb).resolve_left (Ne.symm hne)
        exact Or.inl (hrest.bounds hb').1
      · rcases List.mem_cons.mp hb with rfl | hb'
        · exact Or.inr (hrest.bounds ha').1
        · exact apart hrest ha' hb' hne

/-- A segment only depends on `NextAlloc` and `Size`. -/
theorem congr : ∀ {lo : Nat} {bs : List Nat},
    (∀ b ∈ bs, field m' .nextAlloc b = field m .nextAlloc b ∧ field m' .size b = field m .size b) →
      Segment m lo bs hi → Segment m' lo bs hi
  | _, [], _, h => h
  | _, b :: bs, hsame, ⟨heq, hnext, hrest⟩ => by
      obtain ⟨hnext', hsize'⟩ := hsame b List.mem_cons_self
      refine ⟨heq, ?_, ?_⟩
      · rw [hnext', hsize']
        exact hnext
      · rw [hsize']
        exact congr (fun c hc => hsame c (List.mem_cons_of_mem _ hc)) hrest

theorem path : ∀ {lo : Nat} {bs : List Nat}, lo ≠ 0 → Segment m lo bs hi → Path m lo bs hi
  | _, [], _, h => h
  | _, b :: bs, hlo, ⟨heq, hnext, hrest⟩ => by
      refine ⟨heq, heq ▸ hlo, ?_⟩
      rw [hnext]
      exact path (by omega) hrest

theorem tiles : ∀ {lo : Nat} {bs : List Nat}, Segment m lo bs hi → Tiles m lo bs hi
  | _, [], h => h
  | _, _ :: _, ⟨heq, _, hrest⟩ => ⟨heq, tiles hrest⟩

end Segment

/-! ## The invariant -/

/-- The bump invariant, and a segment of blocks from the first one up to the cursor that contains the
live ones. -/
structure Tidy (lo hi : Nat) (s : State) : Prop where
  bump : Bump 0 lo hi s
  pos : 0 < lo
  segment : ∃ pre, Segment s.heap.mem lo pre s.heap.currentAlloc ∧ ∀ p ∈ s.live, header p ∈ pre

/-- The steps after which the cursor is still on the list: every `free` is of a block that does not
lie directly in front of the cursor block. -/
def KeepsCursor (s : State) : Event → State → Prop
  | .free p, _ => field s.heap.mem .nextAlloc (header p) ≠ s.heap.currentAlloc
  | _, _ => True

section Tidy

variable {lo hi : Nat} {s s' : State}

/-- A segment up to a cursor whose `NextAlloc` is `NULL` is a whole list. -/
theorem Segment.path_cursor {m : ByteMemory} {lo a : Nat} {pre : List Nat} (hlo : lo ≠ 0)
    (hseg : Segment m lo pre a) (hnext : field m .nextAlloc a = 0) : Path m lo (pre ++ [a]) 0 := by
  have hle := hseg.le
  exact (hseg.path hlo).append ⟨rfl, by omega, hnext⟩

theorem Tidy.heapRep (ht : Tidy lo hi s) : HeapRep lo hi s := by
  obtain ⟨pre, hseg, hlive⟩ := ht.segment
  have hlo : lo ≠ 0 := Nat.ne_of_gt ht.pos
  refine ⟨pre ++ [s.heap.currentAlloc], hseg.path_cursor hlo ht.bump.next, ?_, by simp, ?_⟩
  · exact hseg.tiles.append ⟨rfl, ht.bump.reach⟩
  · intro p hp
    exact ⟨List.mem_append_left _ (hlive p hp), (ht.bump.live p hp).2.reserved⟩

/-- `malloc` cuts the block it hands out off the cursor block, behind all others. -/
theorem Tidy.malloc (ht : Tidy lo hi s) {fuel size p : Nat} {h : Heap}
    (hrun : malloc fuel size s.heap.fresh = some (p, h)) : Tidy lo hi ⟨h, p :: s.live⟩ := by
  obtain ⟨pre, hseg, hlive⟩ := ht.segment
  obtain ⟨k, rfl, hs⟩ := ht.bump.splittable_of_malloc hrun
  obtain ⟨new, heq, -⟩ := ht.bump.malloc_of_splittable hs k
  refine ⟨ht.bump.malloc hrun, ht.pos, ?_⟩
  obtain ⟨rfl, rfl⟩ := Prod.mk.inj (Option.some.inj (heq.symm.trans hrun))
  have hfit := ht.bump.rest_lt hs
  set a := s.heap.currentAlloc with ha
  set n := size % 2 ^ 32 with hn
  obtain ⟨hnext, -, hsize, -⟩ := field_splitMem_block (m := s.heap.mem) hfit
  refine ⟨pre ++ [a], ?_, ?_⟩
  · have hold : Segment (splitMem s.heap.mem a n) lo pre a := by
      refine hseg.congr fun b hb => ?_
      have hbelow := (hseg.bounds hb).2
      simp only [sizeofAlloc] at hbelow
      exact ⟨field_splitMem_below hfit (by omega) _, field_splitMem_below hfit (by omega) _⟩
    refine hold.append ⟨rfl, ?_, ?_⟩
    · rw [hsize]
      exact hnext
    · rw [hsize]
      rfl
  · intro q hq
    rcases List.mem_cons.mp hq with rfl | hq
    · rw [header_add (by omega)]
      simp
    · exact List.mem_append_left _ (hlive q hq)

/-- Writes inside the payload of a block, or to its `Reserved` flag, keep a segment. -/
theorem Segment.frame {m m' : ByteMemory} {lo hi b : Nat} {bs : List Nat} (hseg : Segment m lo bs hi)
    (hb : b ∈ bs)
    (hout : ∀ x, x < b ∨ b + sizeofAlloc + field m .size b ≤ x → m' x = m x)
    (hnext : field m' .nextAlloc b = field m .nextAlloc b)
    (hsize : field m' .size b = field m .size b) : Segment m' lo bs hi := by
  refine hseg.congr fun c hc => ?_
  by_cases heq : c = b
  · subst heq
    exact ⟨hnext, hsize⟩
  · have hapart := hseg.apart hc hb heq
    simp only [sizeofAlloc] at hapart hout
    have hsame : ∀ f, field m' f c = field m f c := fun f =>
      field_congr f fun x hlo hhi => hout x (by omega)
    exact ⟨hsame _, hsame _⟩

/-- The block behind the last one of a segment is where the segment ends. -/
theorem Segment.eq_nil {m : ByteMemory} {a : Nat} {bs : List Nat} (hseg : Segment m a bs a) :
    bs = [] := by
  rcases bs with _ | ⟨b, bs⟩
  · rfl
  · have hbounds := hseg.bounds List.mem_cons_self
    simp only [sizeofAlloc] at hbounds
    omega

section Merge

variable {m : ByteMemory} {a b lo hi : Nat} {pre post : List Nat}

/-- What `merge` makes of the headers. -/
theorem field_mergeMem (hadd : field m .size a + field m .size b + sizeofAlloc < 2 ^ 64) :
    field (mergeMem m a b) .nextAlloc a = field m .nextAlloc b ∧
    field (mergeMem m a b) .size a = field m .size a + (field m .size b + sizeofAlloc) := by
  have hnext : field m .nextAlloc b < 256 ^ Field.nextAlloc.width := field_lt m .nextAlloc b
  have hsum : (field m .size a + (field m .size b + sizeofAlloc) % 2 ^ 64) % 2 ^ 64 =
      field m .size a + (field m .size b + sizeofAlloc) := by
    rw [Nat.mod_eq_of_lt (show field m .size b + sizeofAlloc < 2 ^ 64 by omega),
      Nat.mod_eq_of_lt (by omega)]
  constructor
  · rw [mergeMem, field_setField_self, Nat.mod_eq_of_lt hnext]
  · rw [mergeMem, field_setField_ne _ _ _ (by decide), field_setField_self, hsum]
    exact Nat.mod_eq_of_lt (by simp only [Field.width, Nat.reducePow]; omega)

/-- Merging two neighbours of a segment leaves a segment with one block less. -/
theorem Segment.merge (hseg : Segment m lo (pre ++ a :: b :: post) hi) (hhi : hi ≤ 2 ^ 32) :
    Segment (mergeMem m a b) lo (pre ++ a :: post) hi := by
  obtain ⟨hpre, -, hnext, hb, hnextb, hpost⟩ := hseg.split
  have hend := hpost.le
  simp only [sizeofAlloc] at hb hnextb hpost hend
  have hadd : field m .size a + field m .size b + sizeofAlloc < 2 ^ 64 := by
    simp only [sizeofAlloc]
    omega
  obtain ⟨hnext', hsize'⟩ := field_mergeMem hadd
  simp only [sizeofAlloc] at hsize'
  have hpre' : Segment (mergeMem m a b) lo pre a := by
    refine hpre.congr fun c hc => ?_
    have hbelow := (hpre.bounds hc).2
    simp only [sizeofAlloc] at hbelow
    exact ⟨field_mergeMem_apart m (by omega) _, field_mergeMem_apart m (by omega) _⟩
  refine hpre'.append ⟨rfl, ?_, ?_⟩
  · rw [hnext', hsize', hnextb]
    simp only [sizeofAlloc]
    omega
  · rw [hsize']
    have hmid : a + sizeofAlloc + (field m .size a + (field m .size b + 20)) =
        b + 20 + field m .size b := by
      simp only [sizeofAlloc]
      omega
    rw [hmid]
    refine hpost.congr fun c hc => ?_
    have habove := (hpost.bounds hc).1
    exact ⟨field_mergeMem_apart m (by omega) _, field_mergeMem_apart m (by omega) _⟩

end Merge

/-- Clearing `Reserved` keeps a segment. -/
theorem Segment.unreserve {m : ByteMemory} {lo hi b : Nat} {bs : List Nat}
    (hseg : Segment m lo bs hi) (hb : b ∈ bs) : Segment (setField m .reserved b 0) lo bs hi := by
  refine hseg.frame hb (fun x hx => ?_) (field_setField_ne _ _ _ (by decide))
    (field_setField_ne _ _ _ (by decide))
  simp only [sizeofAlloc] at hx
  exact setField_apply_of_outside _ _ _ (by omega)

/-- **A `free` away from the cursor keeps the list tidy**, whether it merges or not. -/
theorem Tidy.free (ht : Tidy lo hi s) {p r : Nat} {h : Heap} (hp : p ∈ s.live)
    (hrun : free p s.heap.fresh = some (r, h))
    (hkeep : field s.heap.mem .nextAlloc (header p) ≠ s.heap.currentAlloc) :
    Tidy lo hi ⟨h, s.live.erase p⟩ := by
  refine ⟨ht.bump.free hp hrun, ht.pos, ?_⟩
  obtain ⟨pre, hseg, hlive⟩ := ht.segment
  have hnextp := (ht.bump.live p hp).2.next
  obtain ⟨before, after, rfl⟩ := List.append_of_mem (hlive p hp)
  have hclear := hseg.unreserve (hlive p hp)
  obtain ⟨-, -, -, hafter⟩ := hseg.split
  -- the cursor block is not the one behind, so there is another
  obtain ⟨q, after, rfl⟩ : ∃ q after', after = q :: after' := by
    rcases after with _ | ⟨q, after⟩
    · exact absurd (hnextp.trans hafter) hkeep
    · exact ⟨q, after, rfl⟩
  have hq : q = field s.heap.mem .nextAlloc (header p) := hafter.1.symm.trans hnextp.symm
  have hapart : header p + 20 ≤ q := by
    rw [hq]
    exact ht.bump.next_apart hp
  obtain ⟨r', m, new, heq, hmem, -⟩ := free_run s.heap.fresh p (Or.inr (ht.bump.next_apart hp))
  obtain ⟨rfl, rfl⟩ := Prod.mk.inj (Option.some.inj (heq.symm.trans hrun))
  rw [Heap.fresh_mem, freeMem, ← hq] at hmem
  by_cases hm : Mergeable (setField s.heap.mem .reserved (header p) 0) (header p) q
  · have hqfree : field s.heap.mem .reserved q = 0 := by
      rw [← field_setField_apart s.heap.mem .reserved .reserved 0 (Or.inr hapart)]
      exact hm.2.1
    rw [if_pos hm] at hmem
    refine ⟨before ++ header p :: after, ?_, ?_⟩
    · have hcursor := (hseg.bounds (hlive p hp)).2
      have hreach := ht.bump.reach
      have htop := ht.bump.top
      show Segment m lo _ s.heap.currentAlloc
      rw [hmem]
      exact hclear.merge (by omega)
    · intro p' hp'
      have hp'' := List.mem_of_mem_erase hp'
      have hne : header p' ≠ q := by
        intro heq
        have hres := (ht.bump.live p' hp'').2.reserved
        rw [heq, hqfree] at hres
        exact absurd hres (by decide)
      rcases List.mem_append.mp (hlive p' hp'') with hbefore | hafter
      · exact List.mem_append_left _ hbefore
      · refine List.mem_append_right _ ?_
        rcases List.mem_cons.mp hafter with hself | hbehind
        · exact List.mem_cons.mpr (Or.inl hself)
        · exact List.mem_cons_of_mem _ ((List.mem_cons.mp hbehind).resolve_left hne)
  · rw [if_neg hm] at hmem
    refine ⟨before ++ header p :: q :: after, ?_, ?_⟩
    · show Segment m lo _ s.heap.currentAlloc
      rw [hmem]
      exact hclear
    · exact fun p' hp' => hlive p' (List.mem_of_mem_erase hp')

/-- **A `free` in front of the cursor** takes the cursor block off the list. -/
theorem Tidy.free_broken (ht : Tidy lo hi s) {p r : Nat} {h : Heap} (hp : p ∈ s.live)
    (hrun : Memory.free p s.heap.fresh = some (r, h))
    (hcursor : field s.heap.mem .nextAlloc (header p) = s.heap.currentAlloc) :
    ¬ HeapRep lo hi ⟨h, s.live.erase p⟩ := by
  obtain ⟨pre, hseg, hlive⟩ := ht.segment
  obtain ⟨-, halloc⟩ := ht.bump.live p hp
  have hnext := halloc.next
  have hapart := ht.bump.next_apart hp
  have hreach := ht.bump.reach
  have htop := ht.bump.top
  have hlo : lo ≠ 0 := Nat.ne_of_gt ht.pos
  obtain ⟨before, after, rfl⟩ := List.append_of_mem (hlive p hp)
  obtain ⟨hbefore, -, -, hafter⟩ := hseg.split
  have hnil : after = [] := by
    rw [← hnext, hcursor] at hafter
    exact hafter.eq_nil
  subst hnil
  set a := s.heap.currentAlloc with ha
  simp only [sizeofAlloc] at hreach hnext
  have hm : Mergeable (setField s.heap.mem .reserved (header p) 0) (header p)
      (field s.heap.mem .nextAlloc (header p)) := by
    refine ⟨field_setField_self _ _ _ _, ?_, ?_⟩
    · rw [field_setField_apart _ _ _ _ (Or.inr hapart), hcursor]
      exact ht.bump.unreserved
    · rw [field_setField_ne _ _ _ (by decide), hnext]
      simp only [sizeofAlloc]
      rw [Nat.mod_eq_of_lt (by omega)]
      omega
  obtain ⟨r', m, new, heq, hmem, -⟩ := free_run s.heap.fresh p (Or.inr hapart)
  obtain ⟨rfl, rfl⟩ := Prod.mk.inj (Option.some.inj (heq.symm.trans hrun))
  rintro ⟨bs, hpath, -, hcur, -⟩
  -- the list now ends with the block that was freed
  have hpath' : Path m lo (before ++ [header p]) 0 := by
    refine Segment.path_cursor hlo (hbefore.congr fun c hc => ?_) ?_
    · have hbelow := (hbefore.bounds hc).2
      simp only [sizeofAlloc] at hbelow
      have hsame : ∀ f, field m f c = field s.heap.mem f c := fun f => by
        rw [hmem, field_freeMem_apart _ (by omega), Heap.fresh_mem]
      exact ⟨hsame _, hsame _⟩
    · rw [Heap.fresh_mem, freeMem, if_pos hm] at hmem
      rw [hmem, mergeMem, field_setField_self, field_setField_apart _ _ _ _ (Or.inr hapart), hcursor,
        ht.bump.next]
      rfl
  have hbs : bs = before ++ [header p] := hpath.unique hpath'
  have hbelow : ∀ c ∈ before ++ [header p], c + 20 ≤ a := fun c hc => by
    have hbound := (hseg.bounds hc).2
    simp only [sizeofAlloc] at hbound
    omega
  have hself := hbelow a (hbs ▸ hcur)
  omega

/-- A client writing into a payload it holds touches no header. -/
theorem Tidy.write (ht : Tidy lo hi s) {p i : Nat} (b : UInt8) (hp : p ∈ s.live)
    (hi' : i < field s.heap.mem .size (header p)) :
    Tidy lo hi
      ⟨{ s.heap with mem := Function.update s.heap.mem (p + i) b, log := [] }, s.live⟩ := by
  refine ⟨ht.bump.write b hp hi', ht.pos, ?_⟩
  obtain ⟨pre, hseg, hlive⟩ := ht.segment
  obtain ⟨heq, -⟩ := ht.bump.live p hp
  simp only [sizeofAlloc] at heq
  have hframe : ∀ x, x ≠ p + i → Function.update s.heap.mem (p + i) b x = s.heap.mem x :=
    fun x hx => Function.update_of_ne hx _ _
  have hhead : ∀ f, field (Function.update s.heap.mem (p + i) b) f (header p) =
      field s.heap.mem f (header p) := fun f =>
    field_congr f fun x hlo hhi => hframe x (by omega)
  refine ⟨pre, hseg.frame (hlive p hp) (fun x hx => ?_) (hhead _) (hhead _), hlive⟩
  simp only [sizeofAlloc] at hx
  exact hframe x (by omega)

theorem Tidy.step {e : Event} (ht : Tidy lo hi s) (hstep : Step s e s')
    (hkeep : KeepsCursor s e s') : Tidy lo hi s' := by
  cases hstep with
  | malloc _ hrun => exact ht.malloc hrun
  | free hp hrun => exact ht.free hp hrun hkeep
  | write hp hi' => exact ht.write _ hp hi'

theorem Tidy.broken {e : Event} (ht : Tidy lo hi s) (hstep : Step s e s')
    (hbad : ¬ KeepsCursor s e s') : ¬ HeapRep lo hi s' := by
  cases hstep with
  | malloc _ _ => exact absurd trivial hbad
  | free hp hrun => exact ht.free_broken hp hrun (not_not.mp hbad)
  | write _ _ => exact absurd trivial hbad

end Tidy

theorem FreshRegion.tidy {h : Heap} {base length : Nat} (hinit : FreshRegion h base length)
    (hbase : 0 < base) (hlen : sizeofAlloc ≤ length) (htop : base + length ≤ 2 ^ 32) :
    Tidy base (base + length) ⟨h, []⟩ :=
  ⟨hinit.bump hlen htop, hbase, [], hinit.current.symm, fun _ hp => absurd hp List.not_mem_nil⟩

/-! ## The exact condition -/

/-- **When the list stays a tiling.** In a run from the heap of one usable region, the list tiles the
region, with the cursor and every live allocation on it, in all states precisely when no `free` is
of the block directly in front of the cursor block. -/
theorem tiles_iff {h : Heap} {base length : Nat} (hbase : 0 < base) (hlen : sizeofAlloc ≤ length)
    (htop : base + length ≤ 2 ^ 32) (hinit : FreshRegion h base length)
    {tr : List (Event × State)} (hrun : Steps Step ⟨h, []⟩ tr) :
    (∀ s ∈ states ⟨h, []⟩ tr, HeapRep base (base + length) s) ↔ Steps KeepsCursor ⟨h, []⟩ tr :=
  Steps.forall_states_iff (fun _ ht => ht.heapRep) (fun _ _ _ ht hstep hok => ht.step hstep hok)
    (fun _ _ _ ht hstep hbad => ht.broken hstep hbad) (hinit.tidy hbase hlen htop) hrun

theorem oneBlock_tiles : ∃ tr : List (Event × State),
    tr.map Prod.fst = [.malloc 16 0x100014, .free 0x100014] ∧
      Steps Step ⟨Heap.oneBlock 0x100000 0xFEC, []⟩ tr ∧
      ((∀ s ∈ states ⟨Heap.oneBlock 0x100000 0xFEC, []⟩ tr, HeapRep 0x100000 0x101000 s) ↔
        Steps KeepsCursor ⟨Heap.oneBlock 0x100000 0xFEC, []⟩ tr) := by
  obtain ⟨s, s', hmalloc, hfree, -⟩ := oneBlock_run
  have hrun : Steps Step ⟨Heap.oneBlock 0x100000 0xFEC, []⟩
      [(.malloc 16 0x100014, s), (.free 0x100014, s')] := ⟨hmalloc, hfree, trivial⟩
  exact ⟨_, rfl, hrun, tiles_iff (by decide) (by decide) (by decide) oneBlock_fresh hrun⟩

/-- Allocating and freeing one block takes the cursor off the list. -/
theorem oneBlock_cursor_lost : ∃ tr : List (Event × State),
    tr.map Prod.fst = [.malloc 16 0x100014, .free 0x100014] ∧
      Steps Step ⟨Heap.oneBlock 0x100000 0xFEC, []⟩ tr ∧
      ¬ ∀ s ∈ states ⟨Heap.oneBlock 0x100000 0xFEC, []⟩ tr, HeapRep 0x100000 0x101000 s := by
  obtain ⟨s, s', hmalloc, hfree, hcursor⟩ := oneBlock_run
  have ht : Tidy 0x100000 (0x100000 + 0x1000) ⟨Heap.oneBlock 0x100000 0xFEC, []⟩ :=
    oneBlock_fresh.tidy (by decide) (by decide) (by decide)
  refine ⟨[(.malloc 16 0x100014, s), (.free 0x100014, s')], rfl, ⟨hmalloc, hfree, trivial⟩, ?_⟩
  intro hall
  have hbad : ¬ KeepsCursor s (.free 0x100014) s' := not_not.mpr hcursor
  exact (ht.step hmalloc trivial).broken hfree hbad (hall s' (by simp))

end Neutrino.Memory
