import Neutrino.Memory.BlockList
import Neutrino.Memory.HeapRun
import Mathlib.Data.List.Chain

/-!
# What `memory_init` builds

The loop of `memory_init` goes through the usable regions of the table. The first one becomes the
block `_currentAlloc` points at; every later one is made the `NextAlloc` of that same block, because
the cursor is put back on the first block after each entry. So the list has two blocks at most, and
what the second one points at is whatever its memory held before.

`place` is one round of the loop as a function on heaps, and `memoryInit_run` says that the loop is
a fold of it.
-/

namespace Neutrino.Memory

open Neutrino.Lib

/-! ## The loop as a fold -/

/-- The heap after the loop put a block of `size` bytes at `b`. -/
def placeAt (h : Heap) (b size : Nat) : Heap :=
  if h.currentAlloc = 0 then
    { h with
      mem := setField (setField (setField h.mem .nextAlloc b 0) .reserved b 0) .size b size
      currentAlloc := b
      totalMemory := (h.totalMemory + size) % 2 ^ 64 }
  else
    { h with
      mem := setField (setField (setField (setField h.mem .nextAlloc h.currentAlloc b)
        .previousAlloc h.currentAlloc h.currentAlloc) .reserved b 0) .size b size
      totalMemory := (h.totalMemory + size) % 2 ^ 64 }

/-- The heap after the loop saw the usable region `d`. -/
def place (h : Heap) (d : Desc) : Heap :=
  placeAt h (d.base % 2 ^ 32) ((d.len + 2 ^ 64 - sizeofAlloc) % 2 ^ 64)

section Loop

variable {t : E820} {n i : Nat} {h : Heap}

theorem place_log (h : Heap) (d : Desc) (log : List Access) :
    place { h with log := log } d = { place h d with log := log } := by
  unfold place placeAt
  by_cases hcur : h.currentAlloc = 0
  · rw [if_pos hcur, if_pos hcur]
  · rw [if_neg hcur, if_neg hcur]

theorem foldl_place_log (ds : List Desc) : ∀ (h : Heap) (log : List Access),
    ds.foldl place { h with log := log } = { ds.foldl place h with log := log } := by
  induction ds with
  | nil => intro h log; rfl
  | cons d ds ih =>
      intro h log
      rw [List.foldl_cons, List.foldl_cons, place_log, ih]

/-- A usable region. The cursor is left on its block; the loop puts it back on `first`. -/
theorem initRegion_run (d : Desc) (h : Heap) :
    ∃ cur new, initRegion d h.currentAlloc h = some ((place h d).currentAlloc,
      { place h d with
        currentAlloc := cur
        log := new ++ h.log }) := by
  obtain ⟨m, first, total, log⟩ := h
  rw [initRegion, place]
  -- from here on only the widths of the address and the size matter
  have hb : d.base % 2 ^ 32 < 256 ^ Field.nextAlloc.width := Nat.mod_lt _ (by decide)
  have hsize : (d.len + 2 ^ 64 - sizeofAlloc) % 2 ^ 64 < 256 ^ Field.size.width :=
    Nat.mod_lt _ (by decide)
  generalize d.base % 2 ^ 32 = b at hb ⊢
  generalize (d.len + 2 ^ 64 - sizeofAlloc) % 2 ^ 64 = size at hsize ⊢
  rw [getCurrent_bind, placeAt]
  by_cases hcur : first = 0
  · simp only [if_pos hcur, setCurrent_bind, getCurrent_bind, get_bind, set_bind, addTotal_bind,
      field_setField_self, pure_run]
    rw [Nat.mod_eq_of_lt hsize]
    exact ⟨b, [_, _, _, _], rfl⟩
  · have hnext : field (setField (setField m .nextAlloc first b) .previousAlloc first first)
        .nextAlloc first = b := by
      rw [field_setField_ne _ _ _ (by decide), field_setField_self, Nat.mod_eq_of_lt hb]
    simp only [if_neg hcur, setCurrent_bind, getCurrent_bind, get_bind, set_bind, addTotal_bind,
      hnext, field_setField_self, pure_run, pure_bind]
    rw [Nat.mod_eq_of_lt hsize]
    exact ⟨b, [_, _, _, _, _, _], rfl⟩

/-- One round of the loop, on an entry of usable memory. -/
theorem initLoop_usable (htype : (t.map i).type = 1) :
    ∃ new, initLoop t (n + 1) i h.currentAlloc h =
      initLoop t n (i + 1) (place h (t.map i)).currentAlloc
        { place h (t.map i) with log := new ++ h.log } := by
  obtain ⟨cur, new, hrun⟩ := initRegion_run (t.map i) h
  refine ⟨new, ?_⟩
  rw [initLoop, if_pos htype, bind_run, hrun, Option.bind_some]
  generalize place h (t.map i) = h'
  exact setCurrent_bind _ _ _

/-- One round of the loop, on any other entry. -/
theorem initLoop_other (htype : (t.map i).type ≠ 1) :
    initLoop t (n + 1) i h.currentAlloc h = initLoop t n (i + 1) h.currentAlloc h := by
  rw [initLoop, if_neg htype, pure_bind]
  exact setCurrent_bind _ _ _

/-- **The loop is a fold** of `place` over the usable regions. -/
theorem initLoop_run (n : Nat) : ∀ (i : Nat) (h : Heap), ∃ new,
    initLoop t n i h.currentAlloc h = some ((),
      { (((List.range' i n).map t.map).filter fun d => d.type = 1).foldl place h with
        log := new ++ h.log }) := by
  induction n with
  | zero => exact fun i h => ⟨[], rfl⟩
  | succ n ih =>
      intro i h
      rw [List.range'_succ, List.map_cons]
      by_cases htype : (t.map i).type = 1
      · obtain ⟨new, hround⟩ := initLoop_usable (t := t) (n := n) (i := i) (h := h) htype
        obtain ⟨new', hrest⟩ := ih (i + 1) { place h (t.map i) with log := new ++ h.log }
        refine ⟨new' ++ new, ?_⟩
        rw [hround, hrest, foldl_place_log, List.filter_cons, if_pos (decide_eq_true htype),
          List.foldl_cons, List.append_assoc]
      · obtain ⟨new, hrest⟩ := ih (i + 1) h
        refine ⟨new, ?_⟩
        rw [initLoop_other htype, hrest, List.filter_cons, if_neg (by simpa using htype)]

end Loop

/-- **`memory_init` always returns**, with a heap that is the fold of `place` over the usable regions
that are left once the loader's memory is reserved. -/
theorem memoryInit_run (t : E820) (h : Heap) : ∃ new,
    memoryInit t h = some (t.reserveArea 0x7C00 0xB8400,
      { (t.reserveArea 0x7C00 0xB8400).usable.foldl place { h with currentAlloc := 0 } with
        log := new ++ h.log }) := by
  obtain ⟨new, hrun⟩ := initLoop_run (t := t.reserveArea 0x7C00 0xB8400)
    (t.reserveArea 0x7C00 0xB8400).size 0 { h with currentAlloc := 0 }
  refine ⟨new, ?_⟩
  rw [memoryInit, setCurrent_bind, bind_run]
  rw [← List.range_eq_range'] at hrun
  exact congrArg (Option.bind · _) hrun

/-! ## Regions that can hold blocks -/

/-- What `memory_init` is given: usable regions below 4 GiB, in order, apart from each other, and
each with room for a header. -/
structure SaneRegions (ds : List Desc) : Prop where
  fits : ∀ d ∈ ds, d.base + d.len ≤ 2 ^ 32
  large : ∀ d ∈ ds, sizeofAlloc ≤ d.len
  sorted : ds.Pairwise fun a b => a.base + a.len ≤ b.base

/-- The `Size` of the block that fills a region. -/
def Desc.room (d : Desc) : Nat := d.len - sizeofAlloc

section Place

variable {h h' : Heap} {d e : Desc} {ds es : List Desc}

theorem SaneRegions.tail (hs : SaneRegions (d :: ds)) : SaneRegions ds :=
  ⟨fun e he => hs.fits e (List.mem_cons_of_mem _ he),
    fun e he => hs.large e (List.mem_cons_of_mem _ he), (List.pairwise_cons.mp hs.sorted).2⟩

/-- The later regions start behind the first one. -/
theorem SaneRegions.behind (hs : SaneRegions (d :: ds)) (he : e ∈ ds) :
    d.base + 20 ≤ e.base ∧ d.base + d.len ≤ e.base := by
  have hlarge := hs.large d List.mem_cons_self
  have hle := (List.pairwise_cons.mp hs.sorted).1 e he
  simp only [sizeofAlloc] at hlarge
  exact ⟨by omega, hle⟩

/-- All blocks together fit below 4 GiB. -/
theorem SaneRegions.sum_room_le : ∀ {ds : List Desc} {lo : Nat}, SaneRegions ds →
    (∀ d ∈ ds, lo ≤ d.base) → lo ≤ 2 ^ 32 → lo + (ds.map Desc.room).sum ≤ 2 ^ 32
  | [], _, _, _, hle => by simpa using hle
  | d :: ds, lo, hs, hlo, _ => by
      have hfit := hs.fits d List.mem_cons_self
      have hbase := hlo d List.mem_cons_self
      have hrest := sum_room_le hs.tail (fun e he => (hs.behind he).2) hfit
      rw [List.map_cons, List.sum_cons, Desc.room]
      omega

theorem place_eq (hfit : d.base + d.len ≤ 2 ^ 32) (hlarge : sizeofAlloc ≤ d.len) :
    place h d = placeAt h d.base d.room := by
  simp only [sizeofAlloc] at hlarge
  have hbase : d.base % 2 ^ 32 = d.base := Nat.mod_eq_of_lt (by omega)
  have hsize : (d.len + 2 ^ 64 - sizeofAlloc) % 2 ^ 64 = d.room := by
    simp only [Desc.room, sizeofAlloc]
    omega
  rw [place, hbase, hsize]

/-- The first block: it is free, fills its region and ends the list. -/
theorem placeAt_first {b size : Nat} (hcur : h.currentAlloc = 0) (hsize : size < 2 ^ 64) :
    (placeAt h b size).currentAlloc = b ∧
    field (placeAt h b size).mem .nextAlloc b = 0 ∧
    field (placeAt h b size).mem .reserved b = 0 ∧
    field (placeAt h b size).mem .size b = size ∧
    (placeAt h b size).totalMemory = (h.totalMemory + size) % 2 ^ 64 ∧
    ∀ a g, a + 20 ≤ b ∨ b + 20 ≤ a → field (placeAt h b size).mem g a = field h.mem g a := by
  have hmod : size % 256 ^ Field.size.width = size := Nat.mod_eq_of_lt hsize
  rw [placeAt, if_pos hcur]
  refine ⟨rfl, ?_, ?_, ?_, rfl, ?_⟩
  · rw [field_setField_ne _ _ _ (by decide), field_setField_ne _ _ _ (by decide),
      field_setField_self, Nat.zero_mod]
  · rw [field_setField_ne _ _ _ (by decide), field_setField_self, Nat.zero_mod]
  · rw [field_setField_self, hmod]
  · intro a g hapart
    rw [field_setField_apart _ _ _ _ hapart, field_setField_apart _ _ _ _ hapart,
      field_setField_apart _ _ _ _ hapart]

/-- What further blocks at `es` do to a heap: the cursor stays on the first block, whose `NextAlloc`
ends up at the last of them; they are marked free and given their size, but not linked. -/
structure Extended (h : Heap) (es : List Desc) (h' : Heap) : Prop where
  current : h'.currentAlloc = h.currentAlloc
  next : field h'.mem .nextAlloc h.currentAlloc =
    (es.map Desc.base).getLastD (field h.mem .nextAlloc h.currentAlloc)
  reserved : field h'.mem .reserved h.currentAlloc = field h.mem .reserved h.currentAlloc
  size : field h'.mem .size h.currentAlloc = field h.mem .size h.currentAlloc
  total : h'.totalMemory = h.totalMemory + (es.map Desc.room).sum
  frame : ∀ a g, h.currentAlloc + 20 ≤ a → (∀ e ∈ es, a + 20 ≤ e.base ∨ e.base + 20 ≤ a) →
    field h'.mem g a = field h.mem g a
  blocks : ∀ e ∈ es, field h'.mem .reserved e.base = 0 ∧ field h'.mem .size e.base = e.room ∧
    field h'.mem .nextAlloc e.base = field h.mem .nextAlloc e.base ∧
    field h'.mem .previousAlloc e.base = field h.mem .previousAlloc e.base

/-- A further block, behind the first one. -/
theorem placeAt_later {b size : Nat} (hcur : h.currentAlloc ≠ 0)
    (hb : h.currentAlloc + 20 ≤ b) (hlt : b < 2 ^ 32) (hsize : size < 2 ^ 64) :
    (placeAt h b size).currentAlloc = h.currentAlloc ∧
    field (placeAt h b size).mem .nextAlloc h.currentAlloc = b ∧
    field (placeAt h b size).mem .reserved h.currentAlloc = field h.mem .reserved h.currentAlloc ∧
    field (placeAt h b size).mem .size h.currentAlloc = field h.mem .size h.currentAlloc ∧
    (placeAt h b size).totalMemory = (h.totalMemory + size) % 2 ^ 64 ∧
    (∀ a g, h.currentAlloc + 20 ≤ a → a + 20 ≤ b ∨ b + 20 ≤ a →
      field (placeAt h b size).mem g a = field h.mem g a) ∧
    field (placeAt h b size).mem .reserved b = 0 ∧ field (placeAt h b size).mem .size b = size ∧
    field (placeAt h b size).mem .nextAlloc b = field h.mem .nextAlloc b ∧
    field (placeAt h b size).mem .previousAlloc b = field h.mem .previousAlloc b := by
  have hmod : b % 256 ^ Field.nextAlloc.width = b := Nat.mod_eq_of_lt hlt
  have hmod' : size % 256 ^ Field.size.width = size := Nat.mod_eq_of_lt hsize
  rw [placeAt, if_neg hcur]
  generalize h.currentAlloc = f at hb
  refine ⟨rfl, ?_, ?_, ?_, rfl, ?_, ?_, ?_, ?_, ?_⟩
  · simp (disch := first | decide | omega) only [field_setField_self, field_setField_ne,
      field_setField_apart, hmod]
  · simp (disch := first | decide | omega) only [field_setField_ne, field_setField_apart]
  · simp (disch := first | decide | omega) only [field_setField_ne, field_setField_apart]
  · intro a g ha hapart
    simp (disch := omega) only [field_setField_apart]
  · simp (disch := decide) only [field_setField_self, field_setField_ne, Nat.zero_mod]
  · rw [field_setField_self, hmod']
  · simp (disch := first | decide | omega) only [field_setField_ne, field_setField_apart]
  · simp (disch := first | decide | omega) only [field_setField_ne, field_setField_apart]

/-- **The later rounds of the loop.** -/
theorem foldl_place_extended : ∀ {es : List Desc} {h : Heap}, SaneRegions es →
    h.currentAlloc ≠ 0 → (∀ e ∈ es, h.currentAlloc + 20 ≤ e.base) →
    h.totalMemory + (es.map Desc.room).sum < 2 ^ 64 → Extended h es (es.foldl place h)
  | [], h, _, _, _, _ =>
      ⟨rfl, rfl, rfl, rfl, rfl, fun _ _ _ _ => rfl, fun _ he => absurd he List.not_mem_nil⟩
  | e :: es, h, hs, hcur, hbehind, htotal => by
      have hfit := hs.fits e List.mem_cons_self
      have hlarge := hs.large e List.mem_cons_self
      have hb := hbehind e List.mem_cons_self
      rw [List.map_cons, List.sum_cons] at htotal
      have hroom : e.room < 2 ^ 64 := by omega
      have hlt : e.base < 2 ^ 32 := by
        simp only [sizeofAlloc] at hlarge
        omega
      rw [List.foldl_cons, place_eq hfit hlarge]
      obtain ⟨hcur₁, hnext₁, hres₁, hsize₁, htotal₁, hframe₁, hres, hsize, hnext, hprev⟩ :=
        @placeAt_later h e.base e.room hcur hb hlt hroom
      generalize placeAt h e.base e.room = h₁ at *
      rw [Nat.mod_eq_of_lt (show h.totalMemory + e.room < 2 ^ 64 by omega)] at htotal₁
      have hrest : Extended h₁ es (es.foldl place h₁) := by
        apply foldl_place_extended hs.tail
        · rw [hcur₁]
          exact hcur
        · intro d hd
          rw [hcur₁]
          exact hbehind d (List.mem_cons_of_mem _ hd)
        · rw [htotal₁]
          omega
      obtain ⟨hcur₂, hnext₂, hres₂, hsize₂, htotal₂, hframe₂, hblocks₂⟩ := hrest
      rw [hcur₁] at hcur₂ hnext₂ hres₂ hsize₂ hframe₂
      have hfirst : ∀ d ∈ es, e.base + 20 ≤ d.base := fun d hd => (hs.behind hd).1
      refine ⟨hcur₂, ?_, hres₂.trans hres₁, hsize₂.trans hsize₁, ?_, ?_, ?_⟩
      · rw [hnext₂, hnext₁, List.map_cons, List.getLastD_cons]
      · rw [htotal₂, htotal₁, List.map_cons, List.sum_cons, Nat.add_assoc]
      · intro a g ha hapart
        rw [hframe₂ a g ha fun d hd => hapart d (List.mem_cons_of_mem _ hd)]
        exact hframe₁ a g ha (hapart e List.mem_cons_self)
      · intro d hd
        rcases List.mem_cons.mp hd with rfl | hd
        · -- later rounds leave the block alone
          have hsame : ∀ g, field (es.foldl place h₁).mem g d.base = field h₁.mem g d.base :=
            fun g => hframe₂ d.base g hb fun e he => Or.inl (hfirst e he)
          rw [hsame, hsame, hsame, hsame]
          exact ⟨hres, hsize, hnext, hprev⟩
        · obtain ⟨hres', hsize', hnext', hprev'⟩ := hblocks₂ d hd
          have hsame : ∀ g, field h₁.mem g d.base = field h.mem g d.base := fun g =>
            hframe₁ d.base g (hbehind d (List.mem_cons_of_mem _ hd)) (Or.inr (hfirst d hd))
          exact ⟨hres', hsize', hnext'.trans (hsame _), hprev'.trans (hsame _)⟩

/-- The whole loop: the first region that does not start at `NULL` gets the cursor. -/
theorem foldl_place_first (hs : SaneRegions (d :: es)) (hcur : h.currentAlloc = 0)
    (htotal : h.totalMemory + ((d :: es).map Desc.room).sum < 2 ^ 64) (hbase : d.base ≠ 0) :
    ∃ h₁, Extended h₁ es ((d :: es).foldl place h) ∧ h₁.currentAlloc = d.base ∧
      field h₁.mem .nextAlloc d.base = 0 ∧ field h₁.mem .reserved d.base = 0 ∧
      field h₁.mem .size d.base = d.room ∧ h₁.totalMemory = h.totalMemory + d.room ∧
      ∀ e ∈ es, ∀ g, field h₁.mem g e.base = field h.mem g e.base := by
  have hfit := hs.fits d List.mem_cons_self
  have hlarge := hs.large d List.mem_cons_self
  rw [List.map_cons, List.sum_cons] at htotal
  obtain ⟨hcur₁, hnext₁, hres₁, hsize₁, htotal₁, hframe₁⟩ :=
    @placeAt_first h d.base d.room hcur (by omega)
  rw [Nat.mod_eq_of_lt (by omega)] at htotal₁
  refine ⟨placeAt h d.base d.room, ?_, hcur₁, hnext₁, hres₁, hsize₁, htotal₁, ?_⟩
  · rw [List.foldl_cons, place_eq hfit hlarge]
    apply foldl_place_extended hs.tail
    · rw [hcur₁]
      exact hbase
    · intro e he
      rw [hcur₁]
      exact (hs.behind he).1
    · rw [htotal₁]
      omega
  · exact fun e he g => hframe₁ e.base g (Or.inr (hs.behind he).1)

end Place

/-! ## Is the list what it should be? -/

/-- The list read from `_currentAlloc` has one free block for each region, in order, each as large as
its region and pointing back at its predecessor, and `totalMemory` is what they hold together. -/
structure BuildsList (h : Heap) (ds : List Desc) : Prop where
  path : Path h.mem h.currentAlloc (ds.map Desc.base) 0
  blocks : ∀ d ∈ ds, field h.mem .reserved d.base = 0 ∧ field h.mem .size d.base = d.room
  previous : (ds.map Desc.base).IsChain fun a b => field h.mem .previousAlloc b = a
  total : h.totalMemory = (ds.map Desc.room).sum

/-- The tables for which the list comes out right in memory `m`: no region, one region, or two with
the second's header already holding its links. None may start at `NULL`. -/
def Built (m : ByteMemory) : List Desc → Prop
  | [] => True
  | [d] => d.base ≠ 0
  | [d, e] => d.base ≠ 0 ∧ field m .nextAlloc e.base = 0 ∧ field m .previousAlloc e.base = d.base
  | _ :: _ :: _ :: _ => False

section Builds

variable {h : Heap} {ds : List Desc}

theorem buildsList_log {log : List Access} :
    BuildsList { h with log := log } ds ↔ BuildsList h ds :=
  ⟨fun ⟨hp, hb, hc, ht⟩ => ⟨hp, hb, hc, ht⟩, fun ⟨hp, hb, hc, ht⟩ => ⟨hp, hb, hc, ht⟩⟩

/-- A list cannot start at `NULL`. -/
theorem not_buildsList_of_base {d : Desc} (hbase : d.base = 0) : ¬ BuildsList h (d :: ds) := by
  rintro ⟨⟨-, hne, -⟩, -, -, -⟩
  exact hne hbase

theorem buildsList_foldl_iff (hs : SaneRegions ds) (hcur : h.currentAlloc = 0)
    (htotal : h.totalMemory = 0) : BuildsList (ds.foldl place h) ds ↔ Built h.mem ds := by
  rcases ds with _ | ⟨d, es⟩
  · refine iff_of_true ⟨hcur, ?_, List.isChain_nil, htotal⟩ trivial
    exact fun d hd => absurd hd List.not_mem_nil
  by_cases hbase : d.base = 0
  · refine iff_of_false (not_buildsList_of_base hbase) ?_
    rcases es with _ | ⟨e, _ | ⟨e', es⟩⟩
    · exact fun hne => hne hbase
    · exact fun hne => hne.1 hbase
    · exact id
  have hsum := hs.sum_room_le (fun e _ => Nat.zero_le e.base) (Nat.zero_le _)
  obtain ⟨h₁, hext, hcur₁, hnext₁, hres₁, hsize₁, htotal₁, hraw⟩ :=
    foldl_place_first hs hcur (by omega) hbase
  generalize (d :: es).foldl place h = h₂ at hext ⊢
  obtain ⟨hcur₂, hnext₂, hres₂, hsize₂, htotal₂, -, hblocks₂⟩ := hext
  rw [hcur₁] at hcur₂ hnext₂ hres₂ hsize₂
  rw [hnext₁] at hnext₂
  have hblocks : ∀ e ∈ d :: es, field h₂.mem .reserved e.base = 0 ∧
      field h₂.mem .size e.base = e.room := by
    intro e he
    rcases List.mem_cons.mp he with rfl | he
    · exact ⟨hres₂.trans hres₁, hsize₂.trans hsize₁⟩
    · exact ⟨(hblocks₂ e he).1, (hblocks₂ e he).2.1⟩
  have htotal' : h₂.totalMemory = ((d :: es).map Desc.room).sum := by
    rw [htotal₂, htotal₁, htotal, Nat.zero_add, List.map_cons, List.sum_cons]
  rcases es with _ | ⟨e, _ | ⟨e', es⟩⟩
  · -- one region: the list ends behind it
    exact iff_of_true ⟨⟨hcur₂, hbase, hnext₂⟩, hblocks, List.isChain_singleton _, htotal'⟩ hbase
  · -- two regions: the second block's links are what its memory held
    have hlinks := (hblocks₂ e List.mem_cons_self).2.2
    rw [hraw e List.mem_cons_self, hraw e List.mem_cons_self] at hlinks
    have hne : e.base ≠ 0 := by
      have hbehind := (hs.behind (e := e) List.mem_cons_self).1
      omega
    constructor
    · rintro ⟨⟨-, -, -, -, hend⟩, -, hback, -⟩
      refine ⟨hbase, hlinks.1.symm.trans hend, hlinks.2.symm.trans ?_⟩
      exact (List.isChain_cons_cons.mp hback).1
    · rintro ⟨-, hend, hback⟩
      refine ⟨⟨hcur₂, hbase, hnext₂, hne, hlinks.1.trans hend⟩, hblocks, ?_, htotal'⟩
      exact List.isChain_pair.mpr (hlinks.2.trans hback)
  · -- more: the first block points at the last one, past the second
    refine iff_of_false ?_ id
    rintro ⟨⟨-, -, hsecond, -⟩, -, -, -⟩
    rw [hnext₂, List.map_cons, List.getLastD_cons, List.map_cons, List.getLastD_cons] at hsecond
    have hlast : (es.map Desc.base).getLastD e'.base ∈ (e' :: es).map Desc.base :=
      List.getLastD_mem_cons
    obtain ⟨f, hf, heq⟩ := List.mem_map.mp hlast
    have hbehind := (hs.tail.behind hf).1
    omega

end Builds

/-- **When `memory_init` builds the whole list.** For tables whose usable regions are in order,
apart, below 4 GiB and large enough, and whatever their memory holds: precisely when there is no
region, a single one, or two of which the second's header already holds the right links, and the
first does not start at address 0. -/
theorem memoryInit_builds_iff (t : E820) {h : Heap} (htotal : h.totalMemory = 0)
    (hs : SaneRegions (t.reserveArea 0x7C00 0xB8400).usable) :
    ∃ t' h', memoryInit t h = some (t', h') ∧ t' = t.reserveArea 0x7C00 0xB8400 ∧
      (BuildsList h' t'.usable ↔ Built h.mem t'.usable) := by
  obtain ⟨new, hrun⟩ := memoryInit_run t h
  exact ⟨_, _, hrun, rfl, buildsList_log.trans (buildsList_foldl_iff hs rfl htotal)⟩

/-- A table with usable memory around the loader only. -/
def oneRegion : E820 := .ofList [⟨0x1000, 0x9F000, 1⟩, ⟨0xF0000, 0x10000, 2⟩]

theorem oneRegion_usable :
    (oneRegion.reserveArea 0x7C00 0xB8400).usable = [⟨0x1000, 0x6C00, 1⟩] := by decide

theorem pcRegions_usable : (pcRegions.reserveArea 0x7C00 0xB8400).usable =
    [⟨0, 0x7C00, 1⟩, ⟨0x100000, 0x7EE0000, 1⟩] := by decide

theorem oneRegion_sane : SaneRegions (oneRegion.reserveArea 0x7C00 0xB8400).usable := by
  rw [oneRegion_usable]
  exact ⟨by decide, by decide, by decide⟩

theorem oneRegion_builds : ∃ t' h',
    memoryInit oneRegion ⟨fun _ => 0xFF, 0, 0, []⟩ = some (t', h') ∧ BuildsList h' t'.usable := by
  obtain ⟨t', h', hrun, rfl, hiff⟩ :=
    @memoryInit_builds_iff oneRegion ⟨fun _ => 0xFF, 0, 0, []⟩ rfl oneRegion_sane
  refine ⟨_, h', hrun, hiff.mpr ?_⟩
  rw [oneRegion_usable]
  show Desc.base ⟨0x1000, 0x6C00, 1⟩ ≠ 0
  decide

/-- On a PC the first usable region starts at address 0, and `memory_init` takes the block it makes
there for no block at all. -/
theorem pcRegions_not_built : SaneRegions (pcRegions.reserveArea 0x7C00 0xB8400).usable ∧
    ∃ t' h', memoryInit pcRegions ⟨fun _ => 0, 0, 0, []⟩ = some (t', h') ∧
      ¬ BuildsList h' t'.usable := by
  obtain ⟨new, hrun⟩ := memoryInit_run pcRegions ⟨fun _ => 0, 0, 0, []⟩
  refine ⟨?_, _, _, hrun, ?_⟩
  · rw [pcRegions_usable]
    exact ⟨by decide, by decide, by decide⟩
  · rw [pcRegions_usable]
    exact not_buildsList_of_base rfl

/-! ## The heaps allocation starts from

With one usable region `memory_init` leaves the heap the safety results start from. With more, the
cursor block is that of the first region that does not start at `NULL`; it satisfies the bump
invariant too, because the block its `NextAlloc` leads to is free and lies outside. -/

section Start

variable {h : Heap} {d : Desc} {ds : List Desc}

theorem foldl_place_fresh (hs : SaneRegions [d]) (hcur : h.currentAlloc = 0) :
    FreshRegion ([d].foldl place h) d.base d.len := by
  have hfit := hs.fits d List.mem_cons_self
  have hlarge := hs.large d List.mem_cons_self
  have hroom : d.room < 2 ^ 64 := by
    unfold Desc.room
    omega
  obtain ⟨hcur₁, hnext₁, hres₁, hsize₁, -, -⟩ := @placeAt_first h d.base d.room hcur hroom
  rw [List.foldl_cons, List.foldl_nil, place_eq hfit hlarge]
  exact ⟨hcur₁, hnext₁, hres₁, hsize₁⟩

theorem foldl_place_bump : ∀ {ds : List Desc} {h : Heap}, SaneRegions ds → ds ≠ [] →
    h.currentAlloc = 0 → h.totalMemory + (ds.map Desc.room).sum < 2 ^ 64 →
    ∃ d ∈ ds, ∃ tail, Bump tail d.base (d.base + d.len) ⟨ds.foldl place h, []⟩ ∧
      (ds.foldl place h).currentAlloc = d.base ∧ (d.base = 0 → ds = [d])
  | [], _, _, hne, _, _ => absurd rfl hne
  | [d], h, hs, _, hcur, _ =>
      ⟨d, List.mem_cons_self, _, (foldl_place_fresh hs hcur).bump (hs.large d List.mem_cons_self)
        (hs.fits d List.mem_cons_self), (foldl_place_fresh hs hcur).current, fun _ => rfl⟩
  | d :: e :: es, h, hs, _, hcur, htotal => by
      have hfit := hs.fits d List.mem_cons_self
      have hlarge := hs.large d List.mem_cons_self
      by_cases hbase : d.base = 0
      · -- the block at `NULL` is forgotten, and the next region is the first one
        rw [List.map_cons, List.sum_cons] at htotal
        have hroom : d.room < 2 ^ 64 := by omega
        obtain ⟨hcur₁, -, -, -, htotal₁, -⟩ := @placeAt_first h d.base d.room hcur hroom
        rw [List.foldl_cons, place_eq hfit hlarge]
        obtain ⟨f, hf, tail, hb, hstart, -⟩ := foldl_place_bump (h := placeAt h d.base d.room) hs.tail
          (List.cons_ne_nil e es) (by rw [hcur₁, hbase])
          (by
            rw [htotal₁, Nat.mod_eq_of_lt (by omega)]
            omega)
        have hbehind := hs.behind hf
        simp only [sizeofAlloc] at hlarge
        exact ⟨f, List.mem_cons_of_mem d hf, tail, hb, hstart, fun hnull => absurd hnull (by omega)⟩
      · obtain ⟨h₁, hext, hcur₁, -, hres₁, hsize₁, -, -⟩ := foldl_place_first hs hcur htotal hbase
        generalize (d :: e :: es).foldl place h = h₂ at hext ⊢
        obtain ⟨hcur₂, hnext₂, hres₂, hsize₂, -, -, hblocks₂⟩ := hext
        rw [hcur₁] at hcur₂ hnext₂ hres₂ hsize₂
        obtain ⟨f, hf, hlast⟩ : ∃ f ∈ e :: es, f.base = (es.map Desc.base).getLastD e.base := by
          have hmem : (es.map Desc.base).getLastD e.base ∈ (e :: es).map Desc.base :=
            List.getLastD_mem_cons
          exact List.mem_map.mp hmem
        have hbehind := (hs.behind hf).2
        rw [List.map_cons, List.getLastD_cons, ← hlast] at hnext₂
        refine ⟨d, List.mem_cons_self, f.base,
          ⟨?_, hfit, ?_, ?_, ?_, ?_, ?_, List.Pairwise.nil⟩, hcur₂, fun hnull => absurd hnull hbase⟩
        · exact Nat.le_of_eq hcur₂.symm
        · show field h₂.mem .nextAlloc h₂.currentAlloc = f.base
          rw [hcur₂, hnext₂]
        · show field h₂.mem .reserved h₂.currentAlloc = 0
          rw [hcur₂, hres₂, hres₁]
        · show h₂.currentAlloc + sizeofAlloc + field h₂.mem .size h₂.currentAlloc = d.base + d.len
          rw [hcur₂, hsize₂, hsize₁, Desc.room]
          omega
        · have hres : field h₂.mem .reserved f.base = 0 := (hblocks₂ f hf).1
          refine Or.inr ⟨?_, Or.inr hbehind⟩
          show field h₂.mem .reserved f.base ≠ 1
          rw [hres]
          exact Nat.zero_ne_one
        · exact fun p hp => absurd hp List.not_mem_nil

/-- **With one usable region** `memory_init` leaves one free block over all of it. -/
theorem memoryInit_fresh {t t' : E820} {h' : Heap}
    (hs : SaneRegions (t.reserveArea 0x7C00 0xB8400).usable)
    (hone : (t.reserveArea 0x7C00 0xB8400).usable = [d]) (hrun : memoryInit t h = some (t', h')) :
    FreshRegion h' d.base d.len := by
  obtain ⟨new, hrun'⟩ := memoryInit_run t h
  obtain ⟨-, rfl⟩ := Prod.mk.inj (Option.some.inj (hrun'.symm.trans hrun))
  rw [hone] at hs ⊢
  obtain ⟨hcur, hnext, hres, hsize⟩ := foldl_place_fresh (h := { h with currentAlloc := 0 }) hs rfl
  exact ⟨hcur, hnext, hres, hsize⟩

/-- **With any number of them** it leaves a bump heap on one of them. -/
theorem memoryInit_region {t t' : E820} {h' : Heap} (htotal : h.totalMemory = 0)
    (hs : SaneRegions (t.reserveArea 0x7C00 0xB8400).usable)
    (hne : (t.reserveArea 0x7C00 0xB8400).usable ≠ []) (hrun : memoryInit t h = some (t', h')) :
    ∃ d ∈ (t.reserveArea 0x7C00 0xB8400).usable, ∃ tail,
      Bump tail d.base (d.base + d.len) ⟨h', []⟩ ∧ h'.currentAlloc = d.base ∧
        (d.base = 0 → (t.reserveArea 0x7C00 0xB8400).usable = [d]) := by
  obtain ⟨new, hrun'⟩ := memoryInit_run t h
  obtain ⟨-, rfl⟩ := Prod.mk.inj (Option.some.inj (hrun'.symm.trans hrun))
  have hsum := hs.sum_room_le (fun e _ => Nat.zero_le e.base) (Nat.zero_le _)
  obtain ⟨d, hd, tail, hb, hcur, honly⟩ := foldl_place_bump (h := { h with currentAlloc := 0 }) hs hne rfl (by
    show h.totalMemory + _ < 2 ^ 64
    omega)
  obtain ⟨h1, h2, h3, h4, h5, h6, h7, h8⟩ := hb
  exact ⟨d, hd, tail, ⟨h1, h2, h3, h4, h5, h6, h7, h8⟩, hcur, honly⟩

theorem memoryInit_bump {t t' : E820} {h' : Heap} (htotal : h.totalMemory = 0)
    (hs : SaneRegions (t.reserveArea 0x7C00 0xB8400).usable)
    (hne : (t.reserveArea 0x7C00 0xB8400).usable ≠ []) (hrun : memoryInit t h = some (t', h')) :
    ∃ tail lo hi, Bump tail lo hi ⟨h', []⟩ := by
  obtain ⟨d, -, tail, hb, -⟩ := memoryInit_region htotal hs hne hrun
  exact ⟨tail, d.base, d.base + d.len, hb⟩

/-- With usable memory above `NULL` the heap has the room of one of the regions there. -/
theorem memoryInit_room {t t' : E820} {h' : Heap} (htotal : h.totalMemory = 0)
    (hs : SaneRegions (t.reserveArea 0x7C00 0xB8400).usable)
    (hsome : ∃ d ∈ (t.reserveArea 0x7C00 0xB8400).usable, d.base ≠ 0)
    (hrun : memoryInit t h = some (t', h')) :
    ∃ d ∈ (t.reserveArea 0x7C00 0xB8400).usable, d.base ≠ 0 ∧ h'.currentAlloc = d.base ∧
      h'.Room d.room := by
  obtain ⟨e, he, hbase⟩ := hsome
  obtain ⟨d, hd, tail, hb, hcur, honly⟩ := memoryInit_region htotal hs (List.ne_nil_of_mem he) hrun
  have hreach := hb.reach
  have htop := hb.top
  refine ⟨d, hd, fun hnull => ?_, hcur, ⟨hreach.trans_le htop, ?_⟩⟩
  · rw [honly hnull, List.mem_singleton] at he
    exact hbase (he ▸ hnull)
  · have hcur' : (State.mk h' []).heap.currentAlloc = d.base := hcur
    rw [hcur'] at hreach
    rw [hcur, Desc.room]
    show d.len - sizeofAlloc ≤ field h'.mem .size d.base
    have : d.base + sizeofAlloc + field h'.mem .size d.base = d.base + d.len := hreach
    omega

end Start

end Neutrino.Memory
