import Neutrino.Memory.AllocSpec

/-!
# Block lists, and which requests `malloc` serves

`Path m p bs q` reads the list of blocks off the headers: starting at `p`, `NextAlloc` leads through
the blocks `bs` to `q`. A well-formed heap is a path to `NULL`.

`malloc` walks such a list, but not far. If the cursor block is too small, its loop moves the cursor
over the reserved blocks directly behind it, and there it stays: another free block is never looked
at, and neither is the end of the list. The results below say exactly which requests come back.
-/

namespace Neutrino.Memory

open Neutrino.Lib

/-! ## Paths -/

/-- `NextAlloc` leads from `p` through the blocks `bs` to `q`. -/
def Path (m : ByteMemory) : Nat → List Nat → Nat → Prop
  | p, [], q => p = q
  | p, b :: bs, q => p = b ∧ b ≠ 0 ∧ Path m (field m .nextAlloc b) bs q

instance Path.decidable (m : ByteMemory) : ∀ (p : Nat) (bs : List Nat) (q : Nat),
    Decidable (Path m p bs q)
  | p, [], q => inferInstanceAs (Decidable (p = q))
  | _, b :: bs, q =>
    have := Path.decidable m (field m .nextAlloc b) bs q
    inferInstanceAs (Decidable (_ ∧ _ ∧ _))

namespace Path

variable {m m' : ByteMemory} {p q r b : Nat} {xs ys bs : List Nat}

theorem append : ∀ {p : Nat} {xs : List Nat}, Path m p xs q → Path m q ys r →
    Path m p (xs ++ ys) r
  | _, [], hxs, hys => by
      rw [Path] at hxs
      exact hxs ▸ hys
  | _, _ :: _, ⟨heq, hne, hxs⟩, hys => ⟨heq, hne, append hxs hys⟩

/-- What lies behind a block of a path. -/
theorem tail_of_append : ∀ {p : Nat} {xs : List Nat}, Path m p (xs ++ b :: ys) r →
    Path m (field m .nextAlloc b) ys r
  | _, [], ⟨_, _, hys⟩ => hys
  | _, _ :: _, ⟨_, _, hrest⟩ => tail_of_append hrest

theorem ne_zero : ∀ {p : Nat} {bs : List Nat}, Path m p bs r → b ∈ bs → b ≠ 0
  | _, c :: bs, ⟨_, hne, hrest⟩, hb => by
      rcases List.mem_cons.mp hb with rfl | hb
      · exact hne
      · exact ne_zero hrest hb

/-- A path only depends on the `NextAlloc`s of its blocks. -/
theorem congr : ∀ {p : Nat} {bs : List Nat},
    (∀ b ∈ bs, field m' .nextAlloc b = field m .nextAlloc b) → Path m p bs r → Path m' p bs r
  | _, [], _, h => h
  | _, b :: bs, hnext, ⟨heq, hne, hrest⟩ => by
      refine ⟨heq, hne, ?_⟩
      rw [hnext b List.mem_cons_self]
      exact congr (fun c hc => hnext c (List.mem_cons_of_mem _ hc)) hrest

/-- The list read off the headers is unique. -/
theorem unique : ∀ {p : Nat} {xs ys : List Nat}, Path m p xs 0 → Path m p ys 0 → xs = ys
  | _, [], [], _, _ => rfl
  | _, [], _ :: _, hxs, ⟨heq, hne, _⟩ => by
      rw [Path] at hxs
      exact absurd (heq.symm.trans hxs) hne
  | _, _ :: _, [], ⟨heq, hne, _⟩, hys => by
      rw [Path] at hys
      exact absurd (heq.symm.trans hys) hne
  | _, _ :: _, _ :: _, ⟨rfl, _, hxs⟩, ⟨rfl, _, hys⟩ => by
      rw [unique hxs hys]

end Path

/-! ## Where the loop of `malloc` stops -/

/-- The last of the reserved blocks that follow the cursor directly; the cursor block itself if there
is none. -/
def landing (m : ByteMemory) (cur : Nat) (after : List Nat) : Nat :=
  (after.takeWhile fun b => field m .reserved b = 1).getLastD cur

section Landing

variable {m : ByteMemory} {cur b : Nat} {after : List Nat}

theorem landing_cons_of_reserved (h : field m .reserved b = 1) :
    landing m cur (b :: after) = landing m b after := by
  rw [landing, landing, List.takeWhile_cons, if_pos (decide_eq_true h), List.getLastD_cons]

theorem landing_cons_of_not_reserved (h : field m .reserved b ≠ 1) :
    landing m cur (b :: after) = cur := by
  simp [landing, h]

/-- Where the loop stops, the cursor is stuck. -/
theorem stuck_landing : ∀ {cur : Nat} {after : List Nat},
    Path m (field m .nextAlloc cur) after 0 → Stuck m (landing m cur after)
  | cur, [], hpath => Or.inl hpath
  | cur, b :: after, ⟨heq, hne, hrest⟩ => by
      by_cases hres : field m .reserved b = 1
      · rw [landing_cons_of_reserved hres]
        exact stuck_landing hrest
      · rw [landing_cons_of_not_reserved hres]
        refine Or.inr ?_
        rw [heq]
        exact hres

end Landing

/-- **The loop of `malloc`** with `after` behind the cursor. It ends within one round more than there
are blocks left, at `landing`, and it dereferences `NULL` exactly when all of them are reserved. -/
theorem advance_lands : ∀ {after : List Nat} {h : Heap} (fuel : Nat),
    Path h.mem (field h.mem .nextAlloc h.currentAlloc) after 0 → h.currentAlloc ≠ 0 →
    (fuel ≤ after.length ∧ advance fuel h = none) ∨
      ∃ new, advance fuel h = some ((), { h with
          currentAlloc := landing h.mem h.currentAlloc after, log := new ++ h.log }) ∧
        ((∃ c ∈ new, c.base = 0) ↔ ∀ b ∈ after, field h.mem .reserved b = 1)
  | _, _, 0, _, _ => Or.inl ⟨Nat.zero_le _, rfl⟩
  | [], h, fuel + 1, hpath, _ => by
      have hnull : field h.mem .nextAlloc h.currentAlloc = 0 := hpath
      obtain ⟨new, hrun, -, c, hc, hbase⟩ := advance_of_stuck (Or.inl hnull) fuel
      exact Or.inr ⟨new, hrun, fun _ b hb => absurd hb List.not_mem_nil,
        fun _ => ⟨c, hc, hbase.trans hnull⟩⟩
  | b :: after, h, fuel + 1, ⟨heq, hne, hrest⟩, hcur => by
      by_cases hres : field h.mem .reserved b = 1
      · obtain ⟨new, hrun, hnew⟩ := advance_of_reserved heq hne hres fuel
        -- the rest of the loop runs from `b` on
        rcases advance_lands fuel (h := { h with currentAlloc := b, log := new ++ h.log })
          hrest hne with ⟨hfuel, hnone⟩ | ⟨new', hrun', hnull⟩
        · left
          refine ⟨?_, hrun.trans hnone⟩
          rw [List.length_cons]
          omega
        · right
          refine ⟨new' ++ new, ?_, ?_⟩
          · rw [hrun, hrun', landing_cons_of_reserved hres, List.append_assoc]
          · rw [List.forall_mem_cons, and_iff_right hres, ← hnull]
            constructor
            · rintro ⟨c, hc, hbase⟩
              rcases List.mem_append.mp hc with hc | hc
              · exact ⟨c, hc, hbase⟩
              · rcases hnew c hc with h' | h'
                · exact absurd (h'.symm.trans hbase) hcur
                · exact absurd (h'.symm.trans hbase) hne
            · rintro ⟨c, hc, hbase⟩
              exact ⟨c, List.mem_append_left _ hc, hbase⟩
      · have hstuck : Stuck h.mem h.currentAlloc := by
          refine Or.inr ?_
          rw [heq]
          exact hres
        obtain ⟨new, hrun, hnew, -⟩ := advance_of_stuck hstuck fuel
        right
        refine ⟨new, ?_, ?_⟩
        · rw [hrun, landing_cons_of_not_reserved hres]
        · constructor
          · rintro ⟨c, hc, hbase⟩
            rcases hnew c hc with h' | h'
            · exact absurd (h'.symm.trans hbase) hcur
            · exact absurd ((h'.trans heq).symm.trans hbase) hne
          · intro hall
            exact absurd (hall b List.mem_cons_self) hres

/-! ## When `malloc` returns -/

/-- `malloc size` returns, and no access it makes goes through `NULL`. -/
def Returns (h : Heap) (size : Nat) : Prop :=
  ∃ fuel p h', malloc fuel size h.fresh = some (p, h') ∧ ∀ c ∈ h'.log, c.base ≠ 0

/-- The block at `a` is large enough, and no store of the split puts `NULL` into its `NextAlloc`. The
latter needs a block that reaches past 4 GiB (`serves_of_fits`). -/
def Serves (m : ByteMemory) (a size : Nat) : Prop :=
  Splittable m a size ∧ ∀ m' ∈ splitStores m a size, field m' .nextAlloc a ≠ 0

theorem serves_of_fits {m : ByteMemory} {a size : Nat} (hs : Splittable m a size)
    (hfit : a + sizeofAlloc + field m .size a ≤ 2 ^ 32) : Serves m a size := by
  refine ⟨hs, fun m' hm' => ?_⟩
  unfold Splittable at hs
  simp only [sizeofAlloc] at hs hfit
  rw [nextAlloc_splitStores (by simp only [sizeofAlloc]; omega) m' hm', sizeofAlloc]
  omega

/-- The requests that come back: the cursor block is split, or it is too small, there is a block
behind it that is not reserved, and the block in front of the first such one is split. -/
def Served (m : ByteMemory) (cur : Nat) (after : List Nat) (size : Nat) : Prop :=
  Serves m cur size ∨
    ¬ Splittable m cur size ∧ (∃ b ∈ after, field m .reserved b ≠ 1) ∧
      Serves m (landing m cur after) size

section Returns

variable {h : Heap} {size : Nat}

/-- On a splittable cursor block, only the links of the split can be `NULL`. -/
theorem returns_iff_of_splittable (hcur : h.currentAlloc ≠ 0)
    (hs : Splittable h.mem h.currentAlloc (size % 2 ^ 32)) (fuel : Nat) :
    ∃ p h', malloc (fuel + 1) size h = some (p, h') ∧
      ((∀ c ∈ h'.log, c.base ≠ 0) ↔ (∀ c ∈ h.log, c.base ≠ 0) ∧
        Serves h.mem h.currentAlloc (size % 2 ^ 32)) := by
  obtain ⟨new, hrun, hbases, hlinks⟩ := malloc_of_splittable hs fuel
  refine ⟨_, _, hrun, ?_⟩
  simp only [List.forall_mem_append]
  constructor
  · rintro ⟨hnew, hlog⟩
    refine ⟨hlog, hs, fun m' hm' => ?_⟩
    obtain ⟨c, hc, hbase⟩ := hlinks m' hm'
    rw [← hbase]
    exact hnew c hc
  · rintro ⟨hlog, -, hnonzero⟩
    refine ⟨fun c hc => ?_, hlog⟩
    rcases hbases c hc with hbase | ⟨m', hm', hbase⟩
    · rw [hbase]
      exact hcur
    · rw [hbase]
      exact hnonzero m' hm'

theorem landing_ne_zero : ∀ {m : ByteMemory} {cur p : Nat} {after : List Nat},
    cur ≠ 0 → Path m p after 0 → landing m cur after ≠ 0
  | _, _, _, [], hcur, _ => hcur
  | m, _, _, b :: after, hcur, ⟨_, hne, hrest⟩ => by
      by_cases hres : field m .reserved b = 1
      · rw [landing_cons_of_reserved hres]
        exact landing_ne_zero hne hrest
      · rw [landing_cons_of_not_reserved hres]
        exact hcur

/-- A call on a block that is too small goes through the loop once and then calls `malloc` on the
block it stopped at. -/
theorem malloc_lands {after : List Nat}
    (hrest : Path h.mem (field h.mem .nextAlloc h.currentAlloc) after 0) (hcur : h.currentAlloc ≠ 0)
    (hs : ¬ Splittable h.mem h.currentAlloc (size % 2 ^ 32)) (fuel : Nat) :
    malloc (fuel + 1) size h.fresh = none ∧ fuel ≤ after.length ∨
      ∃ h', malloc (fuel + 1) size h.fresh = malloc fuel size h' ∧ h'.mem = h.mem ∧
        h'.currentAlloc = landing h.mem h.currentAlloc after ∧
        ((∀ c ∈ h'.log, c.base ≠ 0) ↔ ∃ b ∈ after, field h.mem .reserved b ≠ 1) := by
  obtain ⟨new, hrun, hnew⟩ := malloc_of_not_splittable (h := h.fresh) hs fuel
  rcases advance_lands fuel (h := { h.fresh with log := new ++ h.fresh.log }) hrest hcur with
    ⟨hfuel, hnone⟩ | ⟨new', hrun', hnull⟩
  · left
    rw [hrun, hnone]
    exact ⟨rfl, hfuel⟩
  · right
    refine ⟨{ h.fresh with
      currentAlloc := landing h.mem h.currentAlloc after
      log := new' ++ (new ++ []) }, ?_, rfl, rfl, ?_⟩
    · rw [hrun, hrun', Option.bind_some]
      rfl
    · have hnonzero : ∀ c ∈ new, c.base ≠ 0 := by
        intro c hc
        rw [hnew c hc]
        exact hcur
      have hnull' := not_congr hnull
      push Not at hnull'
      rw [List.append_nil, List.forall_mem_append, and_iff_left hnonzero]
      exact hnull'

end Returns

/-- Three blocks: the cursor on one of 16 bytes, behind it a reserved one of 256 and a free one. -/
def threeBlocks : Heap :=
  let m := setField (fun _ => 0) .size 0x100000 0x10
  let m := setField m .nextAlloc 0x100000 0x200000
  let m := setField m .reserved 0x200000 1
  let m := setField m .size 0x200000 0x100
  let m := setField m .nextAlloc 0x200000 0x300000
  ⟨m, 0x100000, 0, []⟩

end Neutrino.Memory
