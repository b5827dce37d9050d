import Neutrino.Lib.Run
import Neutrino.Memory.HeapRun

/-!
# The task table in memory

`create_task_manager` gets its memory from `malloc` and sets two words of it, the counters. The 256
slots in front of them are left as they were, and `add_task` starts its search for a free one at an index
it never sets. Here the manager is what it is to the machine, words from an address on; the slots and
whatever lies behind them are read and written alike, and the address of `tasks[i]` wraps.
-/

namespace Neutrino.System.InMemory

open Neutrino.Lib
open Neutrino.Memory (Heap malloc Bump Splittable splitMem sizeofAlloc)

/-! ## The manager -/

/-- `sizeof(task_manager)` -/
def sizeofTaskManager : Nat := 1032

/-- `sizeof(task)` -/
def sizeofTask : Nat := 20

/-- The address of `manager->tasks[i]`. -/
def slotAddr (tm i : Nat) : Nat := (tm + 4 * i) % 2 ^ 32

/-- `manager->tasks[i]` -/
def word (m : ByteMemory) (tm i : Nat) : Nat := m.load (slotAddr tm i) 4

/-- `manager->tasks[i] = v` -/
def setWord (m : ByteMemory) (tm i v : Nat) : ByteMemory := m.store (slotAddr tm i) 4 v

/-- `manager->num_tasks`, the word behind the slots. -/
def numTasks (m : ByteMemory) (tm : Nat) : Nat := word m tm 256

/-- `t->pid` -/
def pidAt (m : ByteMemory) (t : Nat) : Nat := m.load ((t + 4) % 2 ^ 32) 4

/-- `t->state = READY` -/
def setReady (m : ByteMemory) (t : Nat) : ByteMemory := m.store ((t + 8) % 2 ^ 32) 4 1

def createTaskManager (fuel : Nat) (h : Heap) : Option (Nat × Heap) := do
  let (tm, h) ← malloc fuel sizeofTaskManager h
  return (tm, { h with mem := setWord (setWord h.mem tm 256 0) tm 257 0xFF })

def managerFull (m : ByteMemory) (tm : Nat) : Bool := numTasks m tm = 256

/-- `while (manager->tasks[i] != 0) i++;` -/
def slotSearch (m : ByteMemory) (tm : Nat) : Nat → UInt32 → Option UInt32
  | 0, _ => none
  | fuel + 1, i => if word m tm i.toNat ≠ 0 then slotSearch m tm fuel (i + 1) else some i

/-- `add_task`, with what `i` holds at first. Returns the memory and `rem_tasks`. -/
def addTask (fuel : Nat) (start : UInt32) (tm t : Nat) (m : ByteMemory) (remTasks : UInt32) :
    Option (ByteMemory × UInt32) :=
  if managerFull m tm then
    some (m, remTasks)
  else do
    let i ← slotSearch m tm fuel start
    let m := setWord m tm i.toNat t
    let m := setWord m tm 256 (numTasks m tm + 1)
    let m := setWord m tm 257 (pidAt m (word m tm i.toNat))
    let m := setReady m t
    return (m, remTasks + 1)

def removeTask (m : ByteMemory) (tm : Nat) (index : UInt32) : ByteMemory := setWord m tm index.toNat 0

def taskManagerBinarySearch (m : ByteMemory) (tm : Nat) :
    Nat → UInt32 → UInt32 → UInt32 → Option UInt32
  | 0, _, _, _ => none
  | fuel + 1, start, stop, pid =>
      if start ≤ stop then
        let middle := start + (stop - 1) / 2
        if pidAt m (word m tm middle.toNat) = pid.toNat then some middle
        else if pidAt m (word m tm middle.toNat) < pid.toNat then
          taskManagerBinarySearch m tm fuel (middle + 1) stop pid
        else taskManagerBinarySearch m tm fuel start (middle - 1) pid
      else
        some 0xFF

/-- `remove_task_by_pid`. Returns the index found, too. -/
def removeTaskByPid (fuel : Nat) (m : ByteMemory) (tm : Nat) (pid : UInt32) :
    Option (UInt32 × ByteMemory) := do
  let rm ← taskManagerBinarySearch m tm fuel 0 (UInt32.ofNat (numTasks m tm)) pid
  if rm = 0xFF then
    return (rm, m)
  else
    return (rm, setWord m tm rm.toNat 0)

/-! ## Words of memory -/

section Words

variable {m : ByteMemory} {tm t i j v : Nat}

theorem word_setWord_self : word (setWord m tm i v) tm i = v % 2 ^ 32 :=
  ByteMemory.load_store_self m (slotAddr tm i) 4 v

/-- Indices that differ by `2 ^ 30` are the same word. -/
theorem slotAddr_congr (h : i % 2 ^ 30 = j % 2 ^ 30) : slotAddr tm i = slotAddr tm j := by
  unfold slotAddr
  omega

theorem word_setWord_ne (h : i % 2 ^ 30 ≠ j % 2 ^ 30) : word (setWord m tm j v) tm i = word m tm i := by
  unfold word setWord
  apply ByteMemory.load_store_disjoint
  unfold slotAddr
  omega

end Words

/-! ## The search -/

section Search

variable {m : ByteMemory} {tm fuel fuel' n : Nat} {start r r' : UInt32}

/-- From `start` on the search passes `n` words and comes to `r`. -/
def Passes (m : ByteMemory) (tm : Nat) (start : UInt32) (n : Nat) (r : UInt32) : Prop :=
  r.toNat = (start.toNat + n) % 2 ^ 32 ∧
    ∀ k < n, word m tm ((start.toNat + k) % 2 ^ 32) ≠ 0

theorem slotSearch_of_passes (hr : word m tm r.toNat = 0) :
    ∀ {n : Nat} {start : UInt32}, Passes m tm start n r → slotSearch m tm (n + 1) start = some r
  | 0, start, ⟨heq, _⟩ => by
      rw [Nat.add_zero, Nat.mod_eq_of_lt start.toNat_lt] at heq
      obtain rfl := UInt32.toNat.inj heq
      rw [slotSearch, if_neg (not_not.mpr hr)]
  | n + 1, start, ⟨heq, hpass⟩ => by
      have hfirst := hpass 0 (Nat.succ_pos n)
      rw [Nat.add_zero, Nat.mod_eq_of_lt start.toNat_lt] at hfirst
      have hnext : (start + 1).toNat = (start.toNat + 1) % 2 ^ 32 := UInt32.toNat_add _ _
      rw [slotSearch, if_pos hfirst]
      refine slotSearch_of_passes hr ⟨?_, fun k hk => ?_⟩
      · rw [heq, hnext, Nat.mod_add_mod, Nat.add_right_comm, Nat.add_assoc]
      · rw [hnext, Nat.mod_add_mod, Nat.add_assoc, Nat.add_comm 1 k]
        exact hpass (k + 1) (Nat.succ_lt_succ hk)

theorem slotSearch_some (h : slotSearch m tm fuel start = some r) :
    word m tm r.toNat = 0 ∧ ∃ n, Passes m tm start n r := by
  induction fuel generalizing start with
  | zero => cases h
  | succ fuel ih =>
      rw [slotSearch] at h
      by_cases hfirst : word m tm start.toNat ≠ 0
      · rw [if_pos hfirst] at h
        obtain ⟨hr, n, heq, hpass⟩ := ih h
        have hnext : (start + 1).toNat = (start.toNat + 1) % 2 ^ 32 := UInt32.toNat_add _ _
        rw [hnext, Nat.mod_add_mod] at heq
        refine ⟨hr, n + 1, ?_, fun k hk => ?_⟩
        · rw [heq, Nat.add_right_comm, Nat.add_assoc]
        · cases k with
          | zero =>
              rw [Nat.add_zero, Nat.mod_eq_of_lt start.toNat_lt]
              exact hfirst
          | succ k =>
              have hk' := hpass k (Nat.lt_of_succ_lt_succ hk)
              rwa [hnext, Nat.mod_add_mod, Nat.add_assoc, Nat.add_comm 1 k] at hk'
      · rw [if_neg hfirst] at h
        cases h
        refine ⟨not_not.mp hfirst, 0, ?_, fun k hk => absurd hk (Nat.not_lt_zero k)⟩
        rw [Nat.add_zero, Nat.mod_eq_of_lt r.toNat_lt]

/-- Two searches from one index end at the same. -/
theorem slotSearch_unique (h : slotSearch m tm fuel start = some r)
    (h' : slotSearch m tm fuel' start = some r') : r = r' := by
  obtain ⟨hr, n, heq, hpass⟩ := slotSearch_some h
  obtain ⟨hr', n', heq', hpass'⟩ := slotSearch_some h'
  have hn : n = n' := by
    rcases Nat.lt_trichotomy n n' with hlt | hn | hgt
    · exact absurd (heq ▸ hr) (hpass' n hlt)
    · exact hn
    · exact absurd (heq' ▸ hr') (hpass n' hgt)
  subst hn
  exact UInt32.toNat.inj (heq.trans heq'.symm)

/-- A free slot the search gets to: one at or behind `start`; or any, if `start` lies behind the table
and none of the words from there to the last index is zero. -/
def FreeAhead (m : ByteMemory) (tm : Nat) (start : UInt32) : Prop :=
  (∃ k, start.toNat ≤ k ∧ k < 256 ∧ word m tm k = 0) ∨
    256 ≤ start.toNat ∧ (∀ k, start.toNat ≤ k → k < 2 ^ 32 → word m tm k ≠ 0) ∧
      ∃ k < 256, word m tm k = 0

theorem freeAhead_of_slotSearch (h : slotSearch m tm fuel start = some r) (hlt : r.toNat < 256) :
    FreeAhead m tm start := by
  obtain ⟨hr, n, heq, hpass⟩ := slotSearch_some h
  have hstart := start.toNat_lt
  have hn : n < 2 ^ 32 := by
    by_contra hge
    have hround := hpass (n - 2 ^ 32) (by omega)
    have hsame : (start.toNat + (n - 2 ^ 32)) % 2 ^ 32 = r.toNat := by omega
    rw [hsame] at hround
    exact hround hr
  by_cases hwrap : start.toNat + n < 2 ^ 32
  · rw [Nat.mod_eq_of_lt hwrap] at heq
    exact Or.inl ⟨r.toNat, by omega, hlt, hr⟩
  · have hrest : ∀ k, start.toNat ≤ k → k < 2 ^ 32 → word m tm k ≠ 0 := by
      intro k hk hlast
      have hword := hpass (k - start.toNat) (by omega)
      rwa [Nat.add_sub_cancel' hk, Nat.mod_eq_of_lt hlast] at hword
    refine Or.inr ⟨?_, hrest, r.toNat, hlt, hr⟩
    -- a search from inside the table would have seen the same word `2 ^ 30` indices later
    by_contra hinside
    have halias := hrest (2 ^ 30 + r.toNat) (by omega) (by omega)
    have hsame : word m tm (2 ^ 30 + r.toNat) = word m tm r.toNat := by
      unfold word
      rw [slotAddr_congr (show (2 ^ 30 + r.toNat) % 2 ^ 30 = r.toNat % 2 ^ 30 by omega)]
    exact halias (hsame.trans hr)

/-- A zero word the search comes to, the index being that of a slot. -/
theorem slotSearch_at {k : Nat} (hlt : k < 256) (hzero : word m tm k = 0)
    (heq : k = (start.toNat + n) % 2 ^ 32)
    (hpass : ∀ j < n, word m tm ((start.toNat + j) % 2 ^ 32) ≠ 0) :
    slotSearch m tm (n + 1) start = some (UInt32.ofNat k) ∧ (UInt32.ofNat k).toNat = k := by
  have hk : (UInt32.ofNat k).toNat = k :=
    UInt32.toNat_ofNat_of_lt' (Nat.lt_of_lt_of_le hlt (by decide))
  exact ⟨slotSearch_of_passes (by rw [hk, hzero]) ⟨hk.trans heq, hpass⟩, hk⟩

theorem slotSearch_of_freeAhead (h : FreeAhead m tm start) :
    ∃ fuel r, slotSearch m tm fuel start = some r ∧ r.toNat < 256 := by
  -- it ends at the first zero word, from `start` on or from the first slot on
  rcases h with ⟨k, hk, hlt, hzero⟩ | ⟨hstart, hrest, k, hlt, hzero⟩
  · have hex : ∃ j, start.toNat ≤ j ∧ word m tm j = 0 := ⟨k, hk, hzero⟩
    obtain ⟨hle, hfirst⟩ := Nat.find_spec hex
    have hmin := Nat.find_min' hex ⟨hk, hzero⟩
    have hinside : Nat.find hex < 256 := Nat.lt_of_le_of_lt hmin hlt
    obtain ⟨hsearch, hindex⟩ := @slotSearch_at m tm (Nat.find hex - start.toNat) start _ hinside
      hfirst (by rw [Nat.add_sub_cancel' hle, Nat.mod_eq_of_lt (by omega)]) (by
        intro j hj hz
        rw [Nat.mod_eq_of_lt (by omega)] at hz
        exact Nat.find_min hex (by omega) ⟨Nat.le_add_right _ _, hz⟩)
    exact ⟨_, _, hsearch, by rw [hindex]; exact hinside⟩
  · have hex : ∃ j, word m tm j = 0 := ⟨k, hzero⟩
    have hmin := Nat.find_min' hex hzero
    have hsize := start.toNat_lt
    have hinside : Nat.find hex < 256 := Nat.lt_of_le_of_lt hmin hlt
    obtain ⟨hsearch, hindex⟩ := @slotSearch_at m tm (2 ^ 32 - start.toNat + Nat.find hex) start _
      hinside (Nat.find_spec hex) (by omega) (by
        intro j hj hz
        by_cases hwrap : start.toNat + j < 2 ^ 32
        · rw [Nat.mod_eq_of_lt hwrap] at hz
          exact hrest _ (Nat.le_add_right _ _) hwrap hz
        · exact Nat.find_min hex (by omega) hz)
    exact ⟨_, _, hsearch, by rw [hindex]; exact hinside⟩

/-- **When the search ends inside the table.** -/
theorem slotSearch_inside_iff :
    (∃ fuel r, slotSearch m tm fuel start = some r ∧ r.toNat < 256) ↔ FreeAhead m tm start := by
  refine ⟨?_, slotSearch_of_freeAhead⟩
  rintro ⟨fuel, r, h, hlt⟩
  exact freeAhead_of_slotSearch h hlt

end Search

/-! ## Additions and removals -/

/-- The memory, `rem_tasks`, and the slots that tasks were stored in and not removed from since. -/
structure State where
  mem : ByteMemory
  remTasks : UInt32
  stored : List Nat

inductive Request where
  | add (start : UInt32) (t : Nat)
  | remove (index : UInt32)
  | removeByPid (pid : UInt32)

/-- A `task` lies at `t`, apart from the manager. -/
structure IsTask (tm t : Nat) : Prop where
  ne_null : t ≠ 0
  fits : t + sizeofTask ≤ 2 ^ 32
  apart : t + sizeofTask ≤ tm ∨ tm + sizeofTaskManager ≤ t

/-- The manager is the same. Between two calls other code runs, and the rest of memory is its own. -/
def SameManager (tm : Nat) (m m' : ByteMemory) : Prop := ∀ i < 258, word m' tm i = word m tm i

/-- One call on the manager at `tm`. A search that never ends leaves no new state. Removals are from
slots of the table. -/
inductive Call (tm : Nat) : State → Request → State → Prop where
  | refused {s : State} {start : UInt32} {t : Nat} {m : ByteMemory} :
      IsTask tm t → managerFull s.mem tm → SameManager tm s.mem m →
      Call tm s (.add start t) ⟨m, s.remTasks, s.stored⟩
  | added {s : State} {start i rem : UInt32} {t fuel : Nat} {m m' : ByteMemory} :
      IsTask tm t → ¬ managerFull s.mem tm → slotSearch s.mem tm fuel start = some i →
      addTask fuel start tm t s.mem s.remTasks = some (m, rem) → SameManager tm m m' →
      Call tm s (.add start t) ⟨m', rem, i.toNat :: s.stored⟩
  | stuck {s : State} {start : UInt32} {t : Nat} :
      IsTask tm t → (∀ fuel, addTask fuel start tm t s.mem s.remTasks = none) →
      Call tm s (.add start t) s
  | remove {s : State} {index : UInt32} {m : ByteMemory} :
      index.toNat < 256 → SameManager tm (removeTask s.mem tm index) m →
      Call tm s (.remove index) ⟨m, s.remTasks, s.stored.filter (· ≠ index.toNat)⟩
  | removeByPid {s : State} {pid rm : UInt32} {fuel : Nat} {m m' : ByteMemory} :
      removeTaskByPid fuel s.mem tm pid = some (rm, m) → rm.toNat < 256 → SameManager tm m m' →
      Call tm s (.removeByPid pid)
        ⟨m', s.remTasks, if rm = 0xFF then s.stored else s.stored.filter (· ≠ rm.toNat)⟩

/-- `add_task` ends its search at a slot of the table that holds no task, stores the new one there and
changes no other slot. -/
structure StoresAt (tm : Nat) (s : State) (start : UInt32) (t fuel : Nat) (i : UInt32) : Prop where
  found : slotSearch s.mem tm fuel start = some i
  inside : i.toNat < 256
  free : i.toNat ∉ s.stored
  returns : ∃ m rem, addTask fuel start tm t s.mem s.remTasks = some (m, rem) ∧
    word m tm i.toNat = t ∧ ∀ k < 256, k ≠ i.toNat → word m tm k = word s.mem tm k

/-- What every addition does while fewer than 256 tasks are stored. -/
def UsesFreeSlot (tm : Nat) (s : State) : Request → State → Prop
  | .add start t, _ => s.stored.length < 256 → ∃ fuel i, StoresAt tm s start t fuel i
  | _, _ => True

/-- Additions that do: fewer than 256 were made before, and there is a free slot ahead. -/
def FindsFreeSlot (tm : Nat) (s : State) : Request → State → Prop
  | .add start _, _ => s.stored.length < 256 →
      numTasks s.mem tm ≠ 256 ∧ FreeAhead s.mem tm start
  | _, _ => True

/-- The slots of stored tasks are not null, and `num_tasks` is no smaller than their number. -/
structure Clean (tm : Nat) (s : State) : Prop where
  used : ∀ k ∈ s.stored, k < 256 ∧ word s.mem tm k ≠ 0
  count : s.stored.length ≤ numTasks s.mem tm
  bound : numTasks s.mem tm ≤ 256

/-! ### The memory after an addition -/

section Added

variable {m : ByteMemory} {tm t i k fuel : Nat}

/-- The memory after `add_task` stored `t` in slot `i`. -/
def addedMem (m : ByteMemory) (tm i t : Nat) : ByteMemory :=
  let m₁ := setWord m tm i t
  let m₂ := setWord m₁ tm 256 (numTasks m₁ tm + 1)
  let m₃ := setWord m₂ tm 257 (pidAt m₂ (word m₂ tm i))
  setReady m₃ t

theorem addTask_run {start r rem : UInt32} (hfull : ¬ managerFull m tm)
    (h : slotSearch m tm fuel start = some r) :
    addTask fuel start tm t m rem = some (addedMem m tm r.toNat t, rem + 1) := by
  rw [addTask, if_neg hfull, h]
  rfl

theorem addTask_full {start rem : UInt32} (hfull : managerFull m tm) :
    addTask fuel start tm t m rem = some (m, rem) := by
  rw [addTask, if_pos hfull]

theorem slotAddr_eq (hfit : tm + sizeofTaskManager ≤ 2 ^ 32) (hk : k < 258) :
    slotAddr tm k = tm + 4 * k := by
  unfold sizeofTaskManager at hfit
  exact Nat.mod_eq_of_lt (by omega)

/-- The state of a task is none of the manager's words. -/
theorem word_setReady (hfit : tm + sizeofTaskManager ≤ 2 ^ 32) (ht : IsTask tm t) (hk : k < 258) :
    word (setReady m t) tm k = word m tm k := by
  obtain ⟨-, hin, hapart⟩ := ht
  have haddr := slotAddr_eq hfit hk
  unfold sizeofTaskManager sizeofTask at hapart
  unfold sizeofTask at hin
  apply ByteMemory.load_store_disjoint
  rw [haddr, Nat.mod_eq_of_lt (by omega)]
  omega

section Fits

variable (hfit : tm + sizeofTaskManager ≤ 2 ^ 32) (ht : IsTask tm t) (hi : i < 256)

include hfit ht hi

theorem word_addedMem_self : word (addedMem m tm i t) tm i = t := by
  have hlt : t < 2 ^ 32 := Nat.lt_of_lt_of_le (Nat.lt_add_of_pos_right (by decide)) ht.fits
  unfold addedMem
  rw [word_setReady hfit ht (by omega), word_setWord_ne (by omega), word_setWord_ne (by omega),
    word_setWord_self, Nat.mod_eq_of_lt hlt]

theorem word_addedMem_ne (hk : k < 256) (hne : k ≠ i) :
    word (addedMem m tm i t) tm k = word m tm k := by
  unfold addedMem
  rw [word_setReady hfit ht (by omega), word_setWord_ne (by omega), word_setWord_ne (by omega),
    word_setWord_ne (by omega)]

theorem numTasks_addedMem :
    numTasks (addedMem m tm i t) tm = (numTasks m tm + 1) % 2 ^ 32 := by
  have hsame : numTasks (setWord m tm i t) tm = numTasks m tm := word_setWord_ne (by omega)
  unfold addedMem
  rw [numTasks, word_setReady hfit ht (by omega), word_setWord_ne (by omega), hsame,
    word_setWord_self]

end Fits

end Added

/-! ### Exactly when a free slot is used -/

section Exact

variable {tm t : Nat} {s s' : State} {start : UInt32}

theorem managerFull_iff {m : ByteMemory} : managerFull m tm ↔ numTasks m tm = 256 := by
  unfold managerFull
  exact decide_eq_true_iff

theorem storesAt_iff (hfit : tm + sizeofTaskManager ≤ 2 ^ 32) (hc : Clean tm s) (ht : IsTask tm t) :
    (∃ fuel i, StoresAt tm s start t fuel i) ↔
      numTasks s.mem tm ≠ 256 ∧ FreeAhead s.mem tm start := by
  constructor
  · rintro ⟨fuel, i, hfound, hinside, -, m, rem, hrun, hstored, -⟩
    refine ⟨fun hfull => ?_, slotSearch_inside_iff.mp ⟨fuel, i, hfound, hinside⟩⟩
    -- a manager that says it is full stores nothing
    rw [addTask_full (managerFull_iff.mpr hfull)] at hrun
    obtain ⟨rfl, -⟩ := Prod.mk.inj (Option.some.inj hrun)
    exact ht.ne_null (hstored.symm.trans (slotSearch_some hfound).1)
  · rintro ⟨hroom, hahead⟩
    obtain ⟨fuel, i, hfound, hinside⟩ := slotSearch_inside_iff.mpr hahead
    refine ⟨fuel, i, hfound, hinside, fun hmem => ?_, _, _,
      addTask_run (fun hfull => hroom (managerFull_iff.mp hfull)) hfound,
      word_addedMem_self hfit ht hinside, fun k hk hne => word_addedMem_ne hfit ht hinside hk hne⟩
    exact (hc.used _ hmem).2 (slotSearch_some hfound).1

theorem Clean.congr {stored : List Nat} {m : ByteMemory} {rem : UInt32} (hc : Clean tm s)
    (hsub : stored.Sublist s.stored) (hnum : numTasks m tm = numTasks s.mem tm)
    (hsame : ∀ k ∈ stored, word m tm k = word s.mem tm k) : Clean tm ⟨m, rem, stored⟩ := by
  refine ⟨fun k hk => ?_, ?_, ?_⟩
  · show k < 256 ∧ word m tm k ≠ 0
    rw [hsame k hk]
    exact hc.used k (hsub.subset hk)
  · show stored.length ≤ numTasks m tm
    rw [hnum]
    exact hsub.length_le.trans hc.count
  · show numTasks m tm ≤ 256
    rw [hnum]
    exact hc.bound

/-- Emptying a slot of the table. -/
theorem Clean.removed {m : ByteMemory} {index : Nat} {rem : UInt32} (hc : Clean tm s)
    (hi : index < 256) (hsame : SameManager tm (setWord s.mem tm index 0) m) :
    Clean tm ⟨m, rem, s.stored.filter (· ≠ index)⟩ := by
  refine hc.congr List.filter_sublist ?_ fun k hk => ?_
  · exact (hsame 256 (by decide)).trans (word_setWord_ne (by omega))
  · obtain ⟨hmem, hne⟩ := List.mem_filter.mp hk
    have hlt := (hc.used k hmem).1
    have hne' : k ≠ index := of_decide_eq_true hne
    exact (hsame k (by omega)).trans (word_setWord_ne (by omega))

/-- A task in a free slot of the table. -/
theorem Clean.added {i : Nat} {m : ByteMemory} {rem : UInt32}
    (hfit : tm + sizeofTaskManager ≤ 2 ^ 32) (hc : Clean tm s) (ht : IsTask tm t) (hi : i < 256)
    (hroom : numTasks s.mem tm ≠ 256) (hsame : SameManager tm (addedMem s.mem tm i t) m) :
    Clean tm ⟨m, rem, i :: s.stored⟩ := by
  have hcount := hc.count
  have hbound := hc.bound
  have hnum : numTasks m tm = (numTasks s.mem tm + 1) % 2 ^ 32 :=
    (hsame 256 (by decide)).trans (numTasks_addedMem hfit ht hi)
  refine ⟨fun k hk => ?_, ?_, ?_⟩
  · show k < 256 ∧ word m tm k ≠ 0
    by_cases heq : k = i
    · rw [heq, hsame i (by omega), word_addedMem_self hfit ht hi]
      exact ⟨hi, ht.ne_null⟩
    · obtain ⟨hlt, hused⟩ := hc.used k ((List.mem_cons.mp hk).resolve_left heq)
      rw [hsame k (by omega), word_addedMem_ne hfit ht hi hlt heq]
      exact ⟨hlt, hused⟩
  · show s.stored.length + 1 ≤ numTasks m tm
    omega
  · show numTasks m tm ≤ 256
    omega

/-- The memory is the manager's old one. -/
theorem Clean.same {m : ByteMemory} {rem : UInt32} (hc : Clean tm s)
    (hsame : SameManager tm s.mem m) : Clean tm ⟨m, rem, s.stored⟩ := by
  refine hc.congr (List.Sublist.refl _) (hsame 256 (by decide)) fun k hk => ?_
  have hlt := (hc.used k hk).1
  exact hsame k (by omega)

theorem removeTaskByPid_some {fuel : Nat} {pid rm : UInt32} {m m' : ByteMemory}
    (hrun : removeTaskByPid fuel m tm pid = some (rm, m')) :
    m' = if rm = 0xFF then m else setWord m tm rm.toNat 0 := by
  unfold removeTaskByPid at hrun
  obtain ⟨found, -, hfound⟩ := Option.bind_eq_some_iff.mp hrun
  by_cases hnone : found = 0xFF
  · rw [if_pos hnone] at hfound
    cases hfound
    rw [if_pos hnone]
  · rw [if_neg hnone] at hfound
    cases hfound
    rw [if_neg hnone]

theorem Clean.step (hfit : tm + sizeofTaskManager ≤ 2 ^ 32) (hc : Clean tm s) {e : Request}
    (hcall : Call tm s e s') (hok : FindsFreeSlot tm s e s') : Clean tm s' := by
  cases hcall with
  | refused ht hfull hsame => exact hc.same hsame
  | stuck ht hnone => exact hc
  | @added start i rem t fuel m m' ht hfull hsearch hrun hsame =>
      rw [addTask_run hfull hsearch] at hrun
      obtain ⟨rfl, -⟩ := Prod.mk.inj (Option.some.inj hrun)
      have hroom : numTasks s.mem tm ≠ 256 := fun heq => hfull (managerFull_iff.mpr heq)
      have hfew : s.stored.length < 256 :=
        Nat.lt_of_le_of_lt hc.count (Nat.lt_of_le_of_ne hc.bound hroom)
      -- so it did find a slot of the table
      obtain ⟨fuel', i', hsearch', hi⟩ := slotSearch_inside_iff.mpr (hok hfew).2
      obtain rfl := slotSearch_unique hsearch hsearch'
      exact hc.added hfit ht hi hroom hsame
  | remove hi hsame => exact hc.removed hi hsame
  | @removeByPid pid rm fuel m m' hrun hi hsame =>
      rw [removeTaskByPid_some hrun] at hsame
      by_cases hnone : rm = 0xFF
      · rw [if_pos hnone] at hsame ⊢
        exact hc.same hsame
      · rw [if_neg hnone] at hsame ⊢
        exact hc.removed hi hsame

/-- What an addition does and when it does so, for every call. -/
theorem Clean.usesFreeSlot_iff (hfit : tm + sizeofTaskManager ≤ 2 ^ 32) (hc : Clean tm s) {e : Request}
    (hcall : Call tm s e s') : UsesFreeSlot tm s e s' ↔ FindsFreeSlot tm s e s' := by
  cases hcall with
  | refused ht _ _ => exact forall_congr' fun _ => storesAt_iff hfit hc ht
  | added ht _ _ _ _ => exact forall_congr' fun _ => storesAt_iff hfit hc ht
  | stuck ht _ => exact forall_congr' fun _ => storesAt_iff hfit hc ht
  | remove _ _ => exact Iff.rfl
  | removeByPid _ _ _ => exact Iff.rfl

end Exact

/-- The memory is what `malloc` returned, with two words set. -/
theorem createTaskManager_some {fuel tm : Nat} {h h' : Heap}
    (hcreate : createTaskManager fuel h = some (tm, h')) :
    ∃ h₁, malloc fuel sizeofTaskManager h = some (tm, h₁) ∧
      h'.mem = setWord (setWord h₁.mem tm 256 0) tm 257 0xFF := by
  unfold createTaskManager at hcreate
  cases hmalloc : malloc fuel sizeofTaskManager h with
  | none =>
      rw [hmalloc] at hcreate
      cases hcreate
  | some r =>
      rw [hmalloc] at hcreate
      cases hcreate
      refine ⟨_, rfl, ?_⟩
      dsimp only

/-- A new manager counts no task. -/
theorem createTaskManager_counters {fuel tm : Nat} {h h' : Heap}
    (hcreate : createTaskManager fuel h = some (tm, h')) :
    numTasks h'.mem tm = 0 ∧ word h'.mem tm 257 = 0xFF := by
  obtain ⟨h₁, -, hmem⟩ := createTaskManager_some hcreate
  rw [hmem, numTasks, word_setWord_ne (by decide), word_setWord_self, word_setWord_self]
  exact ⟨rfl, rfl⟩

/-- **`add_task` uses a free slot of the table** throughout a run exactly if every addition made while
fewer than 256 tasks are stored finds `num_tasks` below 256 and a free slot ahead. The manager is any
that `create_task_manager` returns, whatever was in its memory before. -/
theorem addTask_inside_iff {fuel tm : Nat} {h h' : Heap}
    (hcreate : createTaskManager fuel h = some (tm, h')) (hfit : tm + sizeofTaskManager ≤ 2 ^ 32)
    (remTasks : UInt32) {tr : List (Request × State)}
    (hrun : Steps (Call tm) ⟨h'.mem, remTasks, []⟩ tr) :
    Steps (UsesFreeSlot tm) ⟨h'.mem, remTasks, []⟩ tr ↔
      Steps (FindsFreeSlot tm) ⟨h'.mem, remTasks, []⟩ tr := by
  have hnum := (createTaskManager_counters hcreate).1
  have hc : Clean tm ⟨h'.mem, remTasks, []⟩ :=
    ⟨fun k hk => absurd hk List.not_mem_nil, Nat.zero_le _, hnum.trans_le (Nat.zero_le _)⟩
  exact Steps.forall_step_iff (fun _ _ _ hc hcall hok => hc.step hfit hcall hok)
    (fun _ _ _ hc hcall => hc.usesFreeSlot_iff hfit hcall) hc hrun

/-! ## Managers on the kernel heap -/

section OnHeap

variable {tail lo hi : Nat} {s : Memory.State}

/-- What `create_task_manager` leaves on a heap that has room. -/
theorem createTaskManager_run (hb : Bump tail lo hi s)
    (hs : Splittable s.heap.mem s.heap.currentAlloc (sizeofTaskManager % 2 ^ 32)) :
    ∃ h', createTaskManager 1 s.heap.fresh = some (s.heap.currentAlloc + sizeofAlloc, h') ∧
      h'.mem = setWord (setWord (splitMem s.heap.mem s.heap.currentAlloc (sizeofTaskManager % 2 ^ 32))
        (s.heap.currentAlloc + sizeofAlloc) 256 0) (s.heap.currentAlloc + sizeofAlloc) 257 0xFF := by
  obtain ⟨new, hrun, -⟩ := hb.malloc_of_splittable hs 0
  rw [createTaskManager, hrun, Option.bind_eq_bind, Option.bind_some]
  refine ⟨_, rfl, ?_⟩
  dsimp only

/-- The manager lies inside the address space. -/
theorem createTaskManager_fits (hb : Bump tail lo hi s) {fuel tm : Nat} {h' : Heap}
    (hcreate : createTaskManager fuel s.heap.fresh = some (tm, h')) :
    tm + sizeofTaskManager ≤ 2 ^ 32 := by
  obtain ⟨h₁, hmalloc, -⟩ := createTaskManager_some hcreate
  obtain ⟨k, rfl, hs⟩ := hb.splittable_of_malloc hmalloc
  obtain ⟨new, hrun, -⟩ := hb.malloc_of_splittable hs k
  obtain ⟨rfl, -⟩ := Prod.mk.inj (Option.some.inj (hrun.symm.trans hmalloc))
  have hroom := hb.fits hs
  have htop := hb.top
  unfold sizeofTaskManager sizeofAlloc at *
  omega

end OnHeap

/-- A free block of 8 KiB, in memory that holds one byte everywhere else. -/
def filledHeap (byte : UInt8) : Heap :=
  let m := Memory.setField (fun _ => byte) .nextAlloc 0x100000 0
  let m := Memory.setField m .reserved 0x100000 0
  ⟨Memory.setField m .size 0x100000 0x1FEC, 0x100000, 0, []⟩

theorem filledHeap_bump (byte : UInt8) :
    Bump 0 0x100000 (0x100000 + 0x2000) ⟨filledHeap byte, []⟩ := by
  have hfresh : Memory.FreshRegion (filledHeap byte) 0x100000 0x2000 := by
    refine ⟨rfl, ?_, ?_, ?_⟩
    · show Memory.field (filledHeap byte).mem .nextAlloc 0x100000 = 0
      unfold filledHeap
      rw [Memory.field_setField_ne _ _ _ (by decide), Memory.field_setField_ne _ _ _ (by decide),
        Memory.field_setField_self]
      rfl
    · show Memory.field (filledHeap byte).mem .reserved 0x100000 = 0
      unfold filledHeap
      rw [Memory.field_setField_ne _ _ _ (by decide), Memory.field_setField_self]
      rfl
    · show Memory.field (filledHeap byte).mem .size 0x100000 = 0x2000 - sizeofAlloc
      unfold filledHeap
      rw [Memory.field_setField_self]
      rfl
  exact hfresh.bump (by decide) (by decide)

/-- The manager that is made there. -/
theorem filledHeap_manager (byte : UInt8) : ∃ h',
    createTaskManager 1 (filledHeap byte).fresh = some (0x100014, h') ∧
      h'.mem = setWord (setWord (splitMem (filledHeap byte).mem 0x100000 (sizeofTaskManager % 2 ^ 32))
        0x100014 256 0) 0x100014 257 0xFF := by
  have hsize : Memory.field (filledHeap byte).mem .size 0x100000 = 0x1FEC := by
    unfold filledHeap
    rw [Memory.field_setField_self]
    rfl
  have hs : Splittable (filledHeap byte).mem 0x100000 (sizeofTaskManager % 2 ^ 32) := by
    rw [Splittable, hsize]
    decide
  have hcur : (filledHeap byte).currentAlloc = 0x100000 := rfl
  have hrun := createTaskManager_run (filledHeap_bump byte) hs
  dsimp only at hrun
  rwa [hcur, sizeofAlloc] at hrun

/-- An addition that ends its search at `i`. -/
theorem Call.of_search {tm t fuel : Nat} {s : State} {start i : UInt32} (ht : IsTask tm t)
    (hroom : numTasks s.mem tm ≠ 256) (hsearch : slotSearch s.mem tm fuel start = some i) :
    Call tm s (.add start t) ⟨addedMem s.mem tm i.toNat t, s.remTasks + 1, i.toNat :: s.stored⟩ := by
  have hfull : ¬ managerFull s.mem tm := fun hfull => hroom (managerFull_iff.mp hfull)
  exact .added ht hfull hsearch (addTask_run hfull hsearch) fun _ _ => rfl

theorem zeroedHeap_inside : ∃ h' s', createTaskManager 1 (filledHeap 0).fresh = some (0x100014, h') ∧
    Steps (Call 0x100014) ⟨h'.mem, 0, []⟩ [(.add 0 0x200000, s')] ∧
    (Steps (UsesFreeSlot 0x100014) ⟨h'.mem, 0, []⟩ [(.add 0 0x200000, s')] ↔
      Steps (FindsFreeSlot 0x100014) ⟨h'.mem, 0, []⟩ [(.add 0 0x200000, s')]) := by
  obtain ⟨h', hcreate, hmem⟩ := filledHeap_manager 0
  have hsearch : slotSearch h'.mem 0x100014 1 0 = some 0 := by
    rw [hmem]
    decide +kernel
  have hroom : numTasks h'.mem 0x100014 ≠ 256 := by
    rw [(createTaskManager_counters hcreate).1]
    decide
  have hrun : Steps (Call 0x100014) ⟨h'.mem, 0, []⟩ [(.add 0 0x200000, _)] :=
    ⟨@Call.of_search 0x100014 0x200000 1 ⟨h'.mem, 0, []⟩ 0 0 ⟨by decide, by decide, by decide⟩ hroom
      hsearch, trivial⟩
  have hfit := createTaskManager_fits (filledHeap_bump 0) hcreate
  exact ⟨h', _, hcreate, hrun, addTask_inside_iff hcreate hfit 0 hrun⟩

/-- A manager in memory that was not zero: the search passes all slots and finds the counter. -/
theorem garbageHeap_outside : ∃ h' s', createTaskManager 1 (filledHeap 0xFF).fresh = some (0x100014, h') ∧
    Steps (Call 0x100014) ⟨h'.mem, 0, []⟩ [(.add 0 0x200000, s')] ∧
    ¬ Steps (UsesFreeSlot 0x100014) ⟨h'.mem, 0, []⟩ [(.add 0 0x200000, s')] := by
  obtain ⟨h', hcreate, hmem⟩ := filledHeap_manager 0xFF
  have hnum := (createTaskManager_counters hcreate).1
  have hslots : ∀ k < 256, word h'.mem 0x100014 k ≠ 0 := by
    rw [hmem]
    decide +kernel
  have hsearch : slotSearch h'.mem 0x100014 257 0 = some 256 := by
    have hcounter : word h'.mem 0x100014 (256 : UInt32).toNat = 0 := hnum
    refine slotSearch_of_passes hcounter ⟨rfl, fun k hk => ?_⟩
    have hindex : ((0 : UInt32).toNat + k) % 2 ^ 32 = k := by
      rw [UInt32.toNat_zero, Nat.zero_add, Nat.mod_eq_of_lt (by omega)]
    rw [hindex]
    exact hslots k hk
  have hroom : numTasks h'.mem 0x100014 ≠ 256 := by
    rw [hnum]
    decide
  refine ⟨h', _, hcreate, ⟨@Call.of_search 0x100014 0x200000 257 ⟨h'.mem, 0, []⟩ 0 256
    ⟨by decide, by decide, by decide⟩ hroom hsearch, trivial⟩, fun hall => ?_⟩
  obtain ⟨fuel, i, hstores⟩ := hall.1 (Nat.zero_lt_succ _)
  have heq := slotSearch_unique hstores.found hsearch
  have hinside := hstores.inside
  rw [heq] at hinside
  exact absurd hinside (by decide)

end Neutrino.System.InMemory
