import Neutrino.System.TaskLookup
import Neutrino.System.SlotSearch

/-!
# The table in memory and the table of tasks

The scheduler and the lookup are modelled on a table whose slots are empty or hold a task. In memory such
a table is a manager each of whose words is `NULL` or points to a `task`. On these, `add_task` in memory
does what it does on the table, and so do the removals (`addTask_represents`, `removeTask_represents`,
`removeTaskByPid_represents`).
-/

namespace Neutrino.System.InMemory

open Neutrino.Lib

/-! ## What a manager in memory stands for -/

/-- The values of `enum status`. -/
def statusCode : Status → Nat
  | .new => 0
  | .ready => 1
  | .running => 2
  | .waiting => 3

/-- The fields of the `task` at `p`. -/
structure HoldsTask (m : ByteMemory) (p : Nat) (t : Task) : Prop where
  currIns : m.load p 4 = t.currIns.toNat
  pid : m.load (p + 4) 4 = t.pid.toNat
  state : m.load (p + 8) 4 = statusCode t.state
  priority : m.load (p + 12) 4 = t.priority.toNat
  taskStack : m.load (p + 16) 4 = t.taskStack.toNat

/-- The word of a slot: `NULL`, or a pointer to the task. -/
def SlotHolds (m : ByteMemory) (tm w : Nat) : Option Task → Prop
  | none => w = 0
  | some t => IsTask tm w ∧ HoldsTask m w t

/-- The manager at `tm` has the slots and the counters of `manager`. -/
structure Represents (m : ByteMemory) (tm : Nat) (manager : TaskManager) : Prop where
  slots : ∀ k < 256, SlotHolds m tm (word m tm k) (manager.tasks.slot k)
  numTasks : numTasks m tm = manager.numTasks.toNat
  currentTask : word m tm 257 = manager.currentTask.toNat

/-- A new manager in memory that was zero. -/
theorem createTaskManager_represents {fuel tm : Nat} {h h' : Memory.Heap}
    (hcreate : createTaskManager fuel h = some (tm, h')) (hzero : ∀ k < 256, word h'.mem tm k = 0) :
    Represents h'.mem tm System.createTaskManager := by
  obtain ⟨hnum, hcurrent⟩ := createTaskManager_counters hcreate
  refine ⟨fun k hk => ?_, hnum, hcurrent⟩
  rw [hzero k hk, System.createTaskManager, SlotTable.slot_empty]
  rfl

section Frame

variable {m m' : ByteMemory} {tm p w k : Nat} {t : Task}

theorem HoldsTask.congr (h : HoldsTask m p t)
    (hsame : ∀ x, p ≤ x → x < p + sizeofTask → m' x = m x) : HoldsTask m' p t := by
  have hload : ∀ i, i + 4 ≤ sizeofTask → m'.load (p + i) 4 = m.load (p + i) 4 := fun i hi =>
    ByteMemory.load_congr fun x hlo hhi => hsame x (by omega) (by omega)
  refine ⟨?_, ?_, ?_, ?_, ?_⟩
  · exact (hload 0 (by decide)).trans h.currIns
  · rw [hload 4 (by decide), h.pid]
  · rw [hload 8 (by decide), h.state]
  · rw [hload 12 (by decide), h.priority]
  · rw [hload 16 (by decide), h.taskStack]

theorem SlotHolds.congr {x : Option Task} (h : SlotHolds m tm w x)
    (hsame : IsTask tm w → ∀ y, w ≤ y → y < w + sizeofTask → m' y = m y) : SlotHolds m' tm w x := by
  cases x with
  | none => exact h
  | some t => exact ⟨h.1, h.2.congr (hsame h.1)⟩

/-- Writing a word of the manager leaves everything behind and in front of it. -/
theorem setWord_apply_of_outside {v x : Nat} (hfit : tm + sizeofTaskManager ≤ 2 ^ 32) (hk : k < 258)
    (hx : x < tm ∨ tm + sizeofTaskManager ≤ x) : setWord m tm k v x = m x := by
  unfold setWord
  rw [slotAddr_eq hfit hk]
  apply ByteMemory.store_apply_of_outside
  unfold sizeofTaskManager at hx
  omega

/-- A task lies outside the manager. -/
theorem IsTask.outside {x : Nat} (h : IsTask tm p) (hlo : p ≤ x) (hhi : x < p + sizeofTask) :
    x < tm ∨ tm + sizeofTaskManager ≤ x := by
  have hapart := h.apart
  omega

end Frame

/-! ## Removals -/

section Operations

variable {m : ByteMemory} {tm p k : Nat} {manager : TaskManager}

/-- Emptying a slot in memory empties it in the table. -/
theorem Represents.clear (hfit : tm + sizeofTaskManager ≤ 2 ^ 32) (hrep : Represents m tm manager)
    (hk : k < 256) :
    Represents (setWord m tm k 0) tm { manager with tasks := manager.tasks.put k none } := by
  have hword : ∀ j < 258, j ≠ k → word (setWord m tm k 0) tm j = word m tm j :=
    fun j hj hne => word_setWord_ne (by omega)
  refine ⟨fun j hj => ?_, ?_, ?_⟩
  · by_cases heq : j = k
    · rw [heq, SlotTable.slot_put_none, word_setWord_self]
      rfl
    · rw [SlotTable.slot_put_ne _ (Ne.symm heq), hword j (by omega) heq]
      exact (hrep.slots j hj).congr fun ht x hlo hhi =>
        setWord_apply_of_outside hfit (by omega) (ht.outside hlo hhi)
  · exact (hword 256 (by decide) (by omega)).trans hrep.numTasks
  · exact (hword 257 (by decide) (by omega)).trans hrep.currentTask

theorem removeTask_represents (hfit : tm + sizeofTaskManager ≤ 2 ^ 32) (hrep : Represents m tm manager)
    {index : UInt32} {manager' : TaskManager} (hremove : System.removeTask manager index = some manager') :
    Represents (removeTask m tm index) tm manager' := by
  unfold System.removeTask at hremove
  split at hremove
  · next hlt =>
    cases hremove
    exact hrep.clear hfit hlt
  · cases hremove

/-- What the binary search finds in the table it finds in memory. -/
theorem search_represents (hrep : Represents m tm manager) {fuel : Nat} {start stop pid r : UInt32}
    (hsearch : System.taskManagerBinarySearch manager fuel start stop pid = .ok r) :
    taskManagerBinarySearch m tm fuel start stop pid = some r := by
  induction fuel generalizing start stop with
  | zero => cases hsearch
  | succ fuel ih =>
      rw [taskManagerBinarySearch]
      by_cases hle : start ≤ stop
      · rw [if_pos hle]
        dsimp only
        cases ht : manager.task (start + (stop - 1) / 2) with
        | none =>
            rw [search_fault hle ht] at hsearch
            cases hsearch
        | some t =>
            have hpid : pidAt m (word m tm (start + (stop - 1) / 2).toNat) = t.pid.toNat := by
              have hslot := hrep.slots _ (TaskManager.lt_of_task ht)
              rw [show manager.tasks.slot (start + (stop - 1) / 2).toNat = some t from ht] at hslot
              obtain ⟨hp, hheld⟩ := hslot
              have hin := hp.fits
              unfold sizeofTask at hin
              rw [pidAt, Nat.mod_eq_of_lt (by omega), hheld.pid]
            rw [search_compare hle ht] at hsearch
            rw [hpid]
            by_cases heq : t.pid = pid
            · rw [if_pos heq] at hsearch
              rw [if_pos (congrArg UInt32.toNat heq)]
              cases hsearch
              rfl
            · rw [if_neg heq] at hsearch
              rw [if_neg fun h => heq (UInt32.toNat.inj h)]
              by_cases hlt : t.pid < pid
              · rw [if_pos hlt] at hsearch
                rw [if_pos (UInt32.lt_iff_toNat_lt.mp hlt)]
                exact ih hsearch
              · rw [if_neg hlt] at hsearch
                rw [if_neg fun h => hlt (UInt32.lt_iff_toNat_lt.mpr h)]
                exact ih hsearch
      · rw [search_exit hle] at hsearch
        cases hsearch
        rw [if_neg hle]

/-- **`remove_task_by_pid` in memory** removes what it removes from the table. -/
theorem removeTaskByPid_represents (hfit : tm + sizeofTaskManager ≤ 2 ^ 32)
    (hrep : Represents m tm manager) {fuel : Nat} {pid : UInt32} {manager' : TaskManager}
    (hremove : System.removeTaskByPid fuel manager pid = .ok manager') :
    ∃ rm m', removeTaskByPid fuel m tm pid = some (rm, m') ∧ Represents m' tm manager' := by
  obtain ⟨rm, hsearch, rfl⟩ := removeTaskByPid_ok hremove
  have hfound := search_represents hrep hsearch
  rw [removeTaskByPid, hrep.numTasks, UInt32.ofNat_toNat, hfound, Option.bind_eq_bind, Option.bind_some]
  by_cases hnone : rm = 0xFF
  · rw [if_pos hnone, if_pos hnone]
    exact ⟨rm, m, rfl, hrep⟩
  · rw [if_neg hnone, if_neg hnone]
    obtain ⟨t, ht, -⟩ := (search_ok hsearch).resolve_left hnone
    exact ⟨rm, _, rfl, hrep.clear hfit (TaskManager.lt_of_task ht)⟩

/-! ## Additions -/

/-- The free slot of the table is where the search in memory ends. -/
theorem slotSearch_of_firstFree (hrep : Represents m tm manager) {start : UInt32}
    (hfirst : manager.tasks.firstFree start.toNat = some k) :
    k < 256 ∧ ∃ fuel, slotSearch m tm fuel start = some (UInt32.ofNat k) := by
  obtain ⟨hlt, hfree, hused⟩ := SlotTable.firstFree_spec hfirst
  have hle := SlotTable.le_of_freeFrom hfirst
  have hzero : word m tm k = 0 := by
    have hslot := hrep.slots k hlt
    rwa [hfree] at hslot
  refine ⟨hlt, _, (slotSearch_at hlt hzero
    (n := k - start.toNat) (by rw [Nat.add_sub_cancel' hle, Nat.mod_eq_of_lt (by omega)])
    fun j hj => ?_).1⟩
  rw [Nat.mod_eq_of_lt (by omega)]
  obtain ⟨t, ht⟩ := Option.isSome_iff_exists.mp (hused (start.toNat + j) (by omega) (by omega))
  have hslot := hrep.slots (start.toNat + j) (by omega)
  rw [ht] at hslot
  exact hslot.1.ne_null

/-- An addition stores into the manager and into the `state` of the task. -/
theorem addedMem_apply_of_outside (hfit : tm + sizeofTaskManager ≤ 2 ^ 32) (hp : IsTask tm p)
    (hk : k < 256) {x : Nat} (hmanager : x < tm ∨ tm + sizeofTaskManager ≤ x)
    (hstate : x < p + 8 ∨ p + 12 ≤ x) : addedMem m tm k p x = m x := by
  have hin := hp.fits
  unfold sizeofTask at hin
  unfold addedMem setReady
  rw [ByteMemory.store_apply_of_outside (by rw [Nat.mod_eq_of_lt (by omega)]; exact hstate),
    setWord_apply_of_outside hfit (by decide) hmanager,
    setWord_apply_of_outside hfit (by decide) hmanager,
    setWord_apply_of_outside hfit (by omega) hmanager]

/-- The task that was added is ready. -/
theorem holdsTask_addedMem (hfit : tm + sizeofTaskManager ≤ 2 ^ 32) (hp : IsTask tm p) (hk : k < 256)
    {t : Task} (ht : HoldsTask m p t) :
    HoldsTask (addedMem m tm k p) p { t with state := .ready } := by
  have hload : ∀ i, i + 4 ≤ sizeofTask → (i + 4 ≤ 8 ∨ 12 ≤ i) →
      (addedMem m tm k p).load (p + i) 4 = m.load (p + i) 4 := fun i hi hside =>
    ByteMemory.load_congr fun x hlo hhi =>
      addedMem_apply_of_outside hfit hp hk (hp.outside (by omega) (by omega)) (by omega)
  have hin := hp.fits
  unfold sizeofTask at hin
  refine ⟨?_, ?_, ?_, ?_, ?_⟩
  · exact (hload 0 (by decide) (by decide)).trans ht.currIns
  · rw [hload 4 (by decide) (by decide), ht.pid]
  · unfold addedMem setReady
    rw [Nat.mod_eq_of_lt (show p + 8 < 2 ^ 32 by omega), ByteMemory.load_store_self]
    rfl
  · rw [hload 12 (by decide) (by decide), ht.priority]
  · rw [hload 16 (by decide) (by decide), ht.taskStack]

/-- The scheduler's index is the PID of the task that was added. -/
theorem currentTask_addedMem (hfit : tm + sizeofTaskManager ≤ 2 ^ 32) (hp : IsTask tm p) (hk : k < 256)
    {t : Task} (ht : HoldsTask m p t) : word (addedMem m tm k p) tm 257 = t.pid.toNat := by
  have hin := hp.fits
  unfold sizeofTask at hin
  have hself : word (setWord m tm k p) tm k = p := by
    rw [word_setWord_self, Nat.mod_eq_of_lt (by omega)]
  have hpid : ∀ v, pidAt (setWord (setWord m tm k p) tm 256 v) p = t.pid.toNat := by
    intro v
    unfold pidAt
    rw [Nat.mod_eq_of_lt (by omega), ← ht.pid]
    refine ByteMemory.load_congr fun x hlo hhi => ?_
    have hout := hp.outside (show p ≤ x by omega) (by unfold sizeofTask; omega)
    rw [setWord_apply_of_outside hfit (by decide) hout,
      setWord_apply_of_outside hfit (by omega) hout]
  unfold addedMem
  rw [word_setReady hfit hp (by decide), word_setWord_self, word_setWord_ne (by omega), hself, hpid,
    Nat.mod_eq_of_lt t.pid.toNat_lt]

end Operations

/-- **`add_task` in memory does what it does on the table**, if the task added is none of those in it. -/
theorem addTask_represents {m : ByteMemory} {tm p : Nat} {s s' : Threads} {start : UInt32} {t : Task}
    (hfit : tm + sizeofTaskManager ≤ 2 ^ 32) (hrep : Represents m tm s.manager) (hp : IsTask tm p)
    (ht : HoldsTask m p t)
    (hother : ∀ k < 256, word m tm k ≠ 0 →
      word m tm k + sizeofTask ≤ p ∨ p + sizeofTask ≤ word m tm k)
    (hadd : System.addTask start s t = some s') :
    ∃ fuel m', addTask fuel start tm p m s.remTasks = some (m', s'.remTasks) ∧
      Represents m' tm s'.manager := by
  by_cases hfull : s.manager.numTasks = 256
  · rw [System.addTask_full hfull] at hadd
    cases hadd
    refine ⟨0, m, addTask_full (managerFull_iff.mpr ?_), hrep⟩
    rw [hrep.numTasks, hfull]
    rfl
  · obtain ⟨k, hfirst, rfl⟩ := addTask_spec hfull hadd
    obtain ⟨hk, fuel, hsearch⟩ := slotSearch_of_firstFree hrep hfirst
    have hindex : (UInt32.ofNat k).toNat = k :=
      UInt32.toNat_ofNat_of_lt' (Nat.lt_of_lt_of_le hk (by decide))
    have hroom : ¬ managerFull m tm := by
      rw [managerFull_iff, hrep.numTasks]
      exact fun heq => hfull (UInt32.toNat.inj heq)
    have hrun := @addTask_run m tm p fuel start _ s.remTasks hroom hsearch
    rw [hindex] at hrun
    refine ⟨fuel, _, hrun, fun j hj => ?_, ?_, ?_⟩
    · by_cases heq : j = k
      · rw [heq, SlotTable.slot_put_self _ hk, word_addedMem_self hfit hp hk]
        exact ⟨hp, holdsTask_addedMem hfit hp hk ht⟩
      · rw [SlotTable.slot_put_ne _ (Ne.symm heq), word_addedMem_ne hfit hp hk hj heq]
        refine (hrep.slots j hj).congr fun hw x hlo hhi => ?_
        have hapart := hother j hj hw.ne_null
        unfold sizeofTask at hapart hhi
        exact addedMem_apply_of_outside hfit hp hk (hw.outside hlo hhi) (by omega)
    · rw [numTasks_addedMem hfit hp hk, hrep.numTasks]
      show _ = (s.manager.numTasks + 1).toNat
      rw [UInt32.toNat_add, UInt32.toNat_one]
    · exact currentTask_addedMem hfit hp hk ht

end Neutrino.System.InMemory
