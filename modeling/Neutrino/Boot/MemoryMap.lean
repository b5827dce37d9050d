import Neutrino.Boot.Loader

/-!
# Recording the memory map

The BIOS hands out the descriptors of the memory map one per call, with a continuation value in `ebx` for
the next call. It ends either with a continuation of 0 beside the last descriptor, or with the carry flag
on the call after it. The loop counts a descriptor only when it has seen that there is a next one, and so
counts the last one iff the end is signalled by carry (`recordsMap_iff`).
-/

namespace Neutrino.Boot

open Neutrino.Lib RealMode

/-! ## The BIOS -/

/-- The bytes of a descriptor, of which there are 20. -/
abbrev Descriptor := Nat → UInt8

inductive Ending where
  | zero
  | carry
  deriving DecidableEq, Repr

/-- The registers of a call. -/
structure Asks (cont : UInt32) (c : Cpu) : Prop where
  eax : c.gpr .eax = 0xE820
  ebx : c.gpr .ebx = cont
  ecx : c.gpr .ecx = 20
  edx : c.gpr .edx = 0x534D4150

/-- A call that returns the descriptor `d`: it is stored at `di`, and nothing else in the data changes. -/
structure Returns (l : Layout) (d : Descriptor) (cont : UInt32) (c c' : Cpu) : Prop where
  cf : c'.cf = false
  ebx : c'.gpr .ebx = cont
  di : c'.read (.word .edi) = c.read (.word .edi)
  stored : ∀ b < 20, c'.mem ((c.read (.word .edi)).toNat + b) = d b
  frame : ∀ a, l.Holds a → a < (c.read (.word .edi)).toNat ∨ (c.read (.word .edi)).toNat + 20 ≤ a →
    c'.mem a = c.mem a

/-- A BIOS that returns the descriptors `ds`, the `i`-th one for the continuation value `cont i`. -/
structure ReportsMap (l : Layout) (int15 : Cpu → Cpu) (ds : List Descriptor) (ending : Ending)
    (cont : Nat → UInt32) : Prop where
  first : cont 0 = 0
  chained : ∀ i, 0 < i → i < ds.length → cont i ≠ 0
  last : cont ds.length = 0 ↔ ending = .zero
  entry : ∀ i d c, ds[i]? = some d → Asks (cont i) c → Returns l d (cont (i + 1)) c (int15 c)
  exhausted : ending = .carry → ∀ c, Asks (cont ds.length) c →
    (int15 c).cf = true ∧ SameData l c (int15 c)

/-! ## The table -/

/-- The first `n` descriptors are in the table, 20 bytes each. -/
def Stored (l : Layout) (ds : List Descriptor) (n : Nat) (c : Cpu) : Prop :=
  ∀ i d, i < n → ds[i]? = some d → ∀ b < 20, c.mem (l.e820Data + 20 * i + b) = d b

/-- The loop ends with the whole memory map in the table. -/
def RecordsMap (l : Layout) (bios : UInt8 → Cpu → Cpu) (ds : List Descriptor) (c : Cpu) : Prop :=
  ∃ fuel c', e820Loop l bios fuel c = some c' ∧ c'.load l.e820Size = UInt32.ofNat ds.length ∧
    Stored l ds ds.length c'

/-- The data as it is in the image. -/
structure Fresh (l : Layout) (c : Cpu) : Prop where
  size : c.load l.e820Size = 0
  cont : c.load l.tempCont = 0

/-! ## One round -/

section Rounds

variable {l : Layout} {bios : UInt8 → Cpu → Cpu} {ds : List Descriptor} {ending : Ending}
  {cont : Nat → UInt32}

/-- The registers at the `int` of a round. -/
def asking (l : Layout) (c : Cpu) : Cpu :=
  ((((c.write 0xE820 (.full .eax)).setGpr .ebx (c.load l.tempCont)).write 20 (.full .ecx)).write
    0x534D4150 (.full .edx))

theorem asks_asking (c : Cpu) : Asks (c.load l.tempCont) (asking l c) where
  eax := rfl
  ebx := rfl
  ecx := rfl
  edx := rfl

theorem e820Query_run (c : Cpu) :
    run bios (e820Query l) c =
      (bios 0x15 (asking l c)).store l.tempCont ((bios 0x15 (asking l c)).gpr .ebx) := (rfl)

theorem e820Test_run (bios : UInt8 → Cpu → Cpu) (c : Cpu) :
    (run bios e820Test c).zf = (c.gpr .ebx == 0) ∧ (run bios e820Test c).mem = c.mem ∧
      (run bios e820Test c).read (.word .edi) = c.read (.word .edi) := by
  refine ⟨?_, rfl, rfl⟩
  show ((c.gpr .ebx ||| c.gpr .ebx) == 0) = _
  rw [UInt32.or_self]

theorem e820Count_mem (c : Cpu) :
    (run bios (e820Count l) c).mem = (c.store l.e820Size (c.load l.e820Size + 1)).mem := (rfl)

theorem moved_word (c : Cpu) (r r' : Gpr) :
    ((exec bios c (.mov (.word r) (.word r'))).read (.word r)).toNat =
      (c.read (.word r')).toNat % 2 ^ 16 :=
  read_write c _ (.word r)

theorem added_word (c : Cpu) (r : Gpr) (imm : UInt32) :
    ((exec bios c (.addImm (.word r) imm)).read (.word r)).toNat =
      (c.read (.word r) + imm).toNat % 2 ^ 16 :=
  read_write c _ (.word r)

/-- `di` goes on by 20, by way of `ax`. -/
theorem e820Count_di (c : Cpu) :
    ((run bios (e820Count l) c).read (.word .edi)).toNat =
      ((c.read (.word .edi)).toNat + 20) % 2 ^ 16 := by
  have hcounted : (run bios [.load .eax l.e820Size, .inc (.full .eax), .store l.e820Size .eax]
      c).read (.word .edi) = c.read (.word .edi) := rfl
  have hrun : run bios (e820Count l) c =
      exec bios (exec bios (exec bios
        (run bios [.load .eax l.e820Size, .inc (.full .eax), .store l.e820Size .eax] c)
        (.mov (.word .eax) (.word .edi))) (.addImm (.word .eax) 20))
        (.mov (.word .edi) (.word .eax)) := rfl
  have htwenty : (20 : UInt32).toNat = 20 := rfl
  rw [hrun, moved_word, added_word, UInt32.toNat_add, moved_word, hcounted, htwenty]
  omega

/-- After `i` rounds. -/
structure Recording (l : Layout) (ds : List Descriptor) (cont : Nat → UInt32) (i : Nat) (c : Cpu) :
    Prop where
  tempCont : c.load l.tempCont = cont i
  di : (c.read (.word .edi)).toNat = l.e820Data + 20 * i
  size : c.load l.e820Size = UInt32.ofNat i
  stored : Stored l ds i c

variable {i : Nat} {c : Cpu}

theorem recording_start (h : ReportsMap l (bios 0x15) ds ending cont) (hfresh : Fresh l c) :
    Recording l ds cont 0 (run bios (getE820 l) c) where
  tempCont := by
    show (c.store l.tempPointer 0).load l.tempCont = _
    have hbefore : l.tempPointer + 4 ≤ l.tempCont := Nat.le_refl _
    rw [load_store_of_disjoint (.inr hbefore), hfresh.cont, h.first]
  di := by
    have hdi : ((run bios (getE820 l) c).read (.word .edi)).toNat =
        (UInt32.ofNat l.e820Data).toNat % 2 ^ 16 :=
      read_write (c.store l.tempPointer 0) _ (.word .edi)
    have hfits := l.fits
    have hdata : l.e820Data = l.base + 12 := rfl
    rw [hdi, UInt32.toNat_ofNat_of_lt' (show l.e820Data < 2 ^ 32 by omega)]
    omega
  size := by
    show (c.store l.tempPointer 0).load l.e820Size = _
    have hbefore : l.tempPointer + 4 ≤ l.e820Size := Nat.add_le_add_left (by decide) l.base
    rw [load_store_of_disjoint (.inr hbefore), hfresh.size]
    rfl
  stored := by
    intro j d hj
    omega

/-- The variables lie before the table. -/
theorem stored_store {n a : Nat} {v : UInt32} (ha : a + 4 ≤ l.e820Data) (h : Stored l ds n c) :
    Stored l ds n (c.store a v) := by
  intro j d hj hd b hb
  rw [← h j d hj hd b hb]
  exact ByteMemory.store_apply_of_outside (by omega)

theorem tempCont_before : l.tempCont + 4 ≤ l.e820Data :=
  Nat.add_le_add_left (show 8 ≤ 12 by decide) l.base

theorem e820Size_before : l.e820Size + 4 ≤ l.e820Data := Nat.le_refl _

theorem tempCont_before_size : l.tempCont + 4 ≤ l.e820Size := Nat.le_refl _

/-- The query of a round for which there is a descriptor. -/
theorem query_entry (h : ReportsMap l (bios 0x15) ds ending cont) (hlength : ds.length ≤ 16)
    (hi : i < ds.length) (hc : Recording l ds cont i c) :
    (run bios (e820Query l) c).cf = false ∧
      (run bios (e820Query l) c).gpr .ebx = cont (i + 1) ∧
      (run bios (e820Query l) c).load l.tempCont = cont (i + 1) ∧
      ((run bios (e820Query l) c).read (.word .edi)).toNat = l.e820Data + 20 * i ∧
      (run bios (e820Query l) c).load l.e820Size = UInt32.ofNat i ∧
      Stored l ds (i + 1) (run bios (e820Query l) c) := by
  have hasks : Asks (cont i) (asking l c) := hc.tempCont ▸ asks_asking c
  have hreturns := h.entry i _ _ (List.getElem?_eq_getElem hi) hasks
  have hdi : ((asking l c).read (.word .edi)).toNat = l.e820Data + 20 * i := hc.di
  have hdata : l.e820Data = l.base + 12 := rfl
  rw [e820Query_run]
  refine ⟨hreturns.cf, hreturns.ebx, ?_, ?_, ?_, stored_store tempCont_before ?_⟩
  · rw [load_store, hreturns.ebx]
  · rw [← hdi, ← hreturns.di]
    rfl
  · have hsize : l.e820Size = l.base + 8 := rfl
    rw [load_store_of_disjoint (.inr tempCont_before_size), ← hc.size]
    apply load_congr (c := asking l c)
    intro x hlo hhi
    exact hreturns.frame x ⟨by omega, by omega⟩ (.inl (by omega))
  · intro j d hj hd b hb
    rcases Nat.lt_or_ge j i with hlt | hge
    · rw [hreturns.frame _ ⟨by omega, by omega⟩ (.inl (by omega))]
      exact hc.stored j d hlt hd b hb
    · obtain rfl : j = i := by omega
      rw [List.getElem?_eq_getElem hi] at hd
      obtain rfl := Option.some.inj hd
      rw [← hdi]
      exact hreturns.stored b hb

/-- Counting the descriptor and going on to the next place. -/
theorem recording_count (hi : i < 16) (htempCont : c.load l.tempCont = cont (i + 1))
    (hdi : (c.read (.word .edi)).toNat = l.e820Data + 20 * i)
    (hsize : c.load l.e820Size = UInt32.ofNat i) (hstored : Stored l ds (i + 1) c) :
    Recording l ds cont (i + 1) (run bios (e820Count l) c) where
  tempCont := by
    rw [load_eq_of_mem (e820Count_mem c), load_store_of_disjoint (.inl tempCont_before_size),
      htempCont]
  di := by
    have hfits := l.fits
    have hdata : l.e820Data = l.base + 12 := rfl
    rw [e820Count_di, hdi]
    omega
  size := by
    rw [load_eq_of_mem (e820Count_mem c), load_store, hsize, UInt32.ofNat_add]
    rfl
  stored := by
    intro j d hj hd b hb
    rw [e820Count_mem]
    exact stored_store e820Size_before hstored j d hj hd b hb

/-- A round that returned a descriptor and a continuation value. -/
theorem e820Round_again (h : ReportsMap l (bios 0x15) ds ending cont) (hlength : ds.length ≤ 16)
    (hi : i < ds.length) (hcont : cont (i + 1) ≠ 0) (hc : Recording l ds cont i c) :
    ∃ c', e820Round l bios c = .again c' ∧ Recording l ds cont (i + 1) c' := by
  obtain ⟨hcf, hebx, htempCont, hdi, hsize, hstored⟩ := query_entry h hlength hi hc
  obtain ⟨hzf, hmem, hdi'⟩ := e820Test_run bios (run bios (e820Query l) c)
  rw [hebx, beq_eq_false_iff_ne.mpr hcont] at hzf
  refine ⟨run bios (e820Count l) (run bios e820Test (run bios (e820Query l) c)), ?_, ?_⟩
  · unfold e820Round
    simp only [hcf, hzf, Bool.false_eq_true, if_false]
  · apply recording_count (Nat.lt_of_lt_of_le hi hlength)
    · rw [load_eq_of_mem hmem, htempCont]
    · rw [hdi', hdi]
    · rw [load_eq_of_mem hmem, hsize]
    · intro j d hj hd b hb
      rw [hmem]
      exact hstored j d hj hd b hb

/-- A round that returned the last descriptor, and said so: it is not counted. -/
theorem e820Round_zero (h : ReportsMap l (bios 0x15) ds ending cont) (hlength : ds.length ≤ 16)
    (hi : i < ds.length) (hcont : cont (i + 1) = 0) (hc : Recording l ds cont i c) :
    ∃ c', e820Round l bios c = .leave c' ∧ c'.load l.e820Size = UInt32.ofNat i ∧
      Stored l ds i c' := by
  obtain ⟨hcf, hebx, -, -, hsize, hstored⟩ := query_entry h hlength hi hc
  obtain ⟨hzf, hmem, -⟩ := e820Test_run bios (run bios (e820Query l) c)
  rw [hebx, beq_iff_eq.mpr hcont] at hzf
  refine ⟨run bios e820Test (run bios (e820Query l) c), ?_, ?_, ?_⟩
  · unfold e820Round
    simp only [hcf, hzf, Bool.false_eq_true, if_false, if_true]
  · rw [load_eq_of_mem hmem, hsize]
  · intro j d hj hd b hb
    rw [hmem]
    exact hstored j d (Nat.lt_succ_of_lt hj) hd b hb

/-- The round after the last descriptor. -/
theorem e820Round_carry (h : ReportsMap l (bios 0x15) ds .carry cont) (hlength : ds.length ≤ 16)
    (hc : Recording l ds cont ds.length c) :
    ∃ c', e820Round l bios c = .leave c' ∧ c'.load l.e820Size = UInt32.ofNat ds.length ∧
      Stored l ds ds.length c' := by
  have hasks : Asks (cont ds.length) (asking l c) := hc.tempCont ▸ asks_asking c
  obtain ⟨hcf, hsame⟩ := h.exhausted rfl _ hasks
  have hdata : l.e820Data = l.base + 12 := rfl
  refine ⟨run bios (e820Query l) c, ?_, ?_, ?_⟩
  · unfold e820Round
    have hquery : (run bios (e820Query l) c).cf = true := hcf
    simp only [hquery, if_true]
  · rw [e820Query_run, load_store_of_disjoint (.inr tempCont_before_size), ← hc.size]
    apply load_congr (c := asking l c)
    intro x hlo hhi
    have hsize : l.e820Size = l.base + 8 := rfl
    exact hsame x ⟨by omega, by omega⟩
  · rw [e820Query_run]
    apply stored_store tempCont_before
    intro j d hj hd b hb
    rw [hsame _ ⟨by omega, by omega⟩]
    exact hc.stored j d hj hd b hb

end Rounds

/-! ## The loop -/

section Loop

variable {l : Layout} {bios : UInt8 → Cpu → Cpu} {ds : List Descriptor} {cont : Nat → UInt32}
  {c : Cpu}

/-- With the end signalled by carry, every descriptor is counted. -/
theorem e820Loop_carry (h : ReportsMap l (bios 0x15) ds .carry cont) (hlength : ds.length ≤ 16)
    (hfresh : Fresh l c) : RecordsMap l bios ds c := by
  have hnonzero : ∀ i, i < ds.length → cont (i + 1) ≠ 0 := by
    intro i hi
    rcases Nat.lt_or_ge (i + 1) ds.length with hlt | hge
    · exact h.chained (i + 1) (Nat.succ_pos i) hlt
    · have hend : i + 1 = ds.length := by omega
      intro hzero
      rw [hend] at hzero
      exact absurd (h.last.mp hzero) (by decide)
  obtain ⟨c', hloop, hc'⟩ := loop_of_rounds ds.length (recording_start h hfresh)
    (fun i c _ hi hc => e820Round_again h hlength (by omega) (hnonzero i (by omega)) hc)
    (fun c hc => e820Round_carry h hlength (by rwa [Nat.zero_add] at hc))
  exact ⟨_, c', hloop, hc'⟩

/-- With the end signalled by a continuation of 0, the last one is not. -/
theorem e820Loop_zero (h : ReportsMap l (bios 0x15) ds .zero cont) (hpos : 0 < ds.length)
    (hlength : ds.length ≤ 16) (hfresh : Fresh l c) :
    ∃ fuel c', e820Loop l bios fuel c = some c' ∧
      c'.load l.e820Size = UInt32.ofNat (ds.length - 1) ∧ Stored l ds (ds.length - 1) c' := by
  have hlast : cont ds.length = 0 := h.last.mpr rfl
  obtain ⟨c', hloop, hc'⟩ := loop_of_rounds (ds.length - 1) (recording_start h hfresh)
    (fun i c _ hi hc => e820Round_again h hlength (by omega)
      (h.chained (i + 1) (Nat.succ_pos i) (by omega)) hc)
    (fun c hc => e820Round_zero h hlength (show 0 + (ds.length - 1) < ds.length by omega)
      (by rwa [show 0 + (ds.length - 1) + 1 = ds.length by omega]) hc)
  exact ⟨_, c', hloop, by rwa [Nat.zero_add] at hc'⟩

theorem not_recordsMap_zero (h : ReportsMap l (bios 0x15) ds .zero cont) (hpos : 0 < ds.length)
    (hlength : ds.length ≤ 16) (hfresh : Fresh l c) : ¬RecordsMap l bios ds c := by
  rintro ⟨fuel, c', hloop, hsize, -⟩
  obtain ⟨fuel', c'', hloop', hsize', -⟩ := e820Loop_zero h hpos hlength hfresh
  obtain rfl := loop_unique hloop hloop'
  rw [hsize] at hsize'
  have hnat := congrArg UInt32.toNat hsize'
  rw [UInt32.toNat_ofNat_of_lt' (show ds.length < 2 ^ 32 by omega),
    UInt32.toNat_ofNat_of_lt' (show ds.length - 1 < 2 ^ 32 by omega)] at hnat
  omega

/-- **The loader records the whole memory map iff the BIOS signals its end by carry.** -/
theorem recordsMap_iff {ending : Ending} (h : ReportsMap l (bios 0x15) ds ending cont)
    (hpos : 0 < ds.length) (hlength : ds.length ≤ 16) (hfresh : Fresh l c) :
    RecordsMap l bios ds c ↔ ending = .carry := by
  constructor
  case mp =>
    intro hrecords
    cases ending with
    | carry => rfl
    | zero => exact absurd hrecords (not_recordsMap_zero h hpos hlength hfresh)
  case mpr =>
    rintro rfl
    exact e820Loop_carry h hlength hfresh

end Loop

/-! ## A BIOS with one descriptor -/

/-- Returns `d` for the continuation value 0, and `next` beside it. -/
def oneEntryBios (d : Descriptor) (next : UInt32) (_ : UInt8) (c : Cpu) : Cpu :=
  let di := (c.read (.word .edi)).toNat
  if c.gpr .ebx = 0 then
    { c.setGpr .ebx next with
      cf := false
      mem := fun a => if di ≤ a ∧ a < di + 20 then d (a - di) else c.mem a }
  else { c with cf := true }

theorem reportsMap_oneEntry (l : Layout) (d : Descriptor) (next : UInt32) :
    ReportsMap l (oneEntryBios d next 0x15) [d] (if next = 0 then .zero else .carry)
      fun i => if i = 0 then 0 else next where
  first := rfl
  chained := by
    intro i hpos hi
    rw [List.length_singleton] at hi
    omega
  last := by
    show next = 0 ↔ _
    by_cases hnext : next = 0
    · simp only [hnext, if_true]
    · simp only [hnext, if_false, reduceCtorEq]
  entry := by
    intro i d' c hd hasks
    obtain ⟨hi, rfl⟩ := List.getElem?_eq_some_iff.mp hd
    obtain rfl : i = 0 := Nat.lt_one_iff.mp hi
    have hrun : oneEntryBios d next 0x15 c = _ := if_pos hasks.ebx
    rw [hrun]
    refine ⟨rfl, rfl, rfl, ?_, ?_⟩
    · intro b hb
      refine (if_pos ⟨Nat.le_add_right _ _, Nat.add_lt_add_left hb _⟩).trans ?_
      rw [Nat.add_sub_cancel_left]
      rfl
    · intro a _ ha
      exact if_neg (by omega)
  exhausted := by
    intro hending c hasks
    have hnext : next ≠ 0 := by
      rintro rfl
      exact absurd hending (by decide)
    have hrun : oneEntryBios d next 0x15 c = { c with cf := true } :=
      if_neg (fun hzero => hnext (hasks.ebx.symm.trans hzero))
    rw [hrun]
    exact ⟨rfl, fun _ _ => rfl⟩

theorem fresh_image : Fresh imageLayout imageCpu where
  size := rfl
  cont := rfl

/-- The end is signalled on the next call. -/
theorem recordsMap_oneEntry :
    RecordsMap imageLayout (oneEntryBios (fun _ => 1) 1) [fun _ => 1] imageCpu :=
  (recordsMap_iff (reportsMap_oneEntry imageLayout (fun _ => 1) 1) (by decide) (by decide)
    fresh_image).mpr rfl

/-- The end is signalled beside the descriptor. -/
theorem not_recordsMap_oneEntry :
    ReportsMap imageLayout (oneEntryBios (fun _ => 1) 0 0x15) [fun _ => 1] .zero (fun _ => 0) ∧
      Fresh imageLayout imageCpu ∧
      ¬RecordsMap imageLayout (oneEntryBios (fun _ => 1) 0) [fun _ => 1] imageCpu := by
  have hreports : ReportsMap imageLayout (oneEntryBios (fun _ => 1) 0 0x15) [fun _ => 1] .zero
      fun i => if i = 0 then 0 else 0 := reportsMap_oneEntry imageLayout (fun _ => 1) 0
  simp only [ite_self] at hreports
  exact ⟨hreports, fresh_image, not_recordsMap_zero hreports (by decide) (by decide) fresh_image⟩

end Neutrino.Boot
