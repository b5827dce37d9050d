import Neutrino.Lib.SlotTable

/-!
# Tasks, the task manager and the scheduler

A manager has 256 slots for tasks, a counter `num_tasks` and the slot to run next; the number of
tasks left to run, `rem_tasks`, is a global. `add_task` takes the first free slot from an index it
never initialises: that index is a parameter here. The lookup by PID is a binary search for which
nothing keeps the table sorted.

A slot that is empty or outside the table leads to no task. Reading through such a slot stops the
run (`none`, or `SearchStop.fault`). A *store* through it need not: there is no paging, and the
address it hits may hold nothing the kernel needs. What happens then is a parameter too
(`StrayStore`).

That such a table stands for a `task_manager` in memory, and these functions for what the code does to its
bytes, is proved with the table in memory (`InMemory.addTask_represents` and its siblings).
-/

namespace Neutrino.System

open Neutrino.Lib

/-! ## Tasks and managers -/

inductive Status where
  | new
  | ready
  | running
  | waiting
  deriving DecidableEq, Repr

/-- `struct task`. The function and the stack are addresses. -/
structure Task where
  currIns : UInt32
  pid : UInt32
  state : Status
  priority : UInt32
  taskStack : UInt32
  deriving DecidableEq, Repr

/-- `struct task_manager`. A slot holds the task its pointer leads to. -/
structure TaskManager where
  tasks : SlotTable Task 256
  numTasks : UInt32
  currentTask : UInt32

/-- The task at `tasks[index]`, if there is one. -/
def TaskManager.task (m : TaskManager) (index : UInt32) : Option Task := m.tasks.slot index.toNat

/-- A manager whose memory was zero when `create_task_manager` got it. -/
def createTaskManager : TaskManager := ⟨SlotTable.empty Task 256, 0, 0xFF⟩

def taskCreate (pid priority functionPtr taskStack : UInt32) : Task :=
  ⟨functionPtr, pid, .new, priority, taskStack⟩

/-- The two tasks of `add_tests`, at some addresses. -/
def testA : Task := taskCreate 0 0 0x1000 0x2000
def testB : Task := taskCreate 1 1 0x1100 0x3000

/-- The manager, `rem_tasks`, and the calls made so far of task functions, each with the PID of its
task. -/
structure Threads where
  manager : TaskManager
  remTasks : UInt32
  called : List (UInt32 × UInt32)

def Threads.boot : Threads := ⟨createTaskManager, 0, []⟩

def Task.call (t : Task) : UInt32 × UInt32 := (t.pid, t.currIns)

/-! ## The table -/

def managerFull (m : TaskManager) : Bool := m.numTasks = 256

def managerEmpty (m : TaskManager) : Bool := m.numTasks = 0

/-- `start` is what the uninitialised `i` holds. -/
def addTask (start : UInt32) (s : Threads) (t : Task) : Option Threads :=
  if managerFull s.manager then
    some s
  else do
    let i ← s.manager.tasks.firstFree start.toNat
    return { s with
      manager := {
        tasks := s.manager.tasks.put i (some { t with state := .ready })
        numTasks := s.manager.numTasks + 1
        currentTask := t.pid }
      remTasks := s.remTasks + 1 }

def removeTask (m : TaskManager) (index : UInt32) : Option TaskManager :=
  if index.toNat < 256 then
    some { m with tasks := m.tasks.put index.toNat none }
  else
    none

/-- Why a lookup did not return. -/
inductive SearchStop where
  | fault
  | outOfFuel
  deriving DecidableEq, Repr

def taskManagerBinarySearch (m : TaskManager) :
    Nat → UInt32 → UInt32 → UInt32 → Except SearchStop UInt32
  | 0, _, _, _ => .error .outOfFuel
  | fuel + 1, start, stop, pid =>
      if start ≤ stop then
        let middle := start + (stop - 1) / 2
        match m.task middle with
        | none => .error .fault
        | some t =>
            if t.pid = pid then .ok middle
            else if t.pid < pid then taskManagerBinarySearch m fuel (middle + 1) stop pid
            else taskManagerBinarySearch m fuel start (middle - 1) pid
      else
        .ok 0xFF

def removeTaskByPid (fuel : Nat) (m : TaskManager) (pid : UInt32) :
    Except SearchStop TaskManager := do
  let rm ← taskManagerBinarySearch m fuel 0 m.numTasks pid
  if rm = 0xFF then
    return m
  else
    -- the search has read this slot, so it is one of the table
    return { m with tasks := m.tasks.put rm.toNat none }

def getTask (fuel : Nat) (m : TaskManager) (pid : UInt32) : Except SearchStop (Option Task) := do
  let result ← taskManagerBinarySearch m fuel 0 m.numTasks pid
  if result = 0xFF then
    return none
  else
    return m.task result

def clearManager (m : TaskManager) : TaskManager :=
  if managerEmpty m then m else ⟨SlotTable.empty Task 256, 0, 0⟩

/-! ## The scheduler -/

/-- What a store through a slot that leads to no task does: it stops the machine, or hits memory
that holds nothing of the tasks. -/
inductive StrayStore where
  | faults
  | harmless
  deriving DecidableEq, Repr

/-- `manager->tasks[index]->state = state`. -/
def setState (stray : StrayStore) (m : TaskManager) (index : UInt32) (state : Status) :
    Option TaskManager :=
  match m.task index, stray with
  | some t, _ => some { m with tasks := m.tasks.put index.toNat (some { t with state := state }) }
  | none, .harmless => some m
  | none, .faults => none

/-- The `if` after the task has run. -/
def markStates (stray : StrayStore) (m : TaskManager) : Option TaskManager :=
  if m.currentTask = 0 then
    setState stray m m.currentTask .running
  else do
    let m ← setState stray m (m.currentTask - 1) .waiting
    setState stray m m.currentTask .running

/-- `if (++manager->current_task >= manager->num_tasks) …`. -/
def advance (stray : StrayStore) (m : TaskManager) : Option TaskManager :=
  let next := m.currentTask + 1
  if m.numTasks ≤ next then
    setState stray { m with currentTask := next % m.numTasks } m.numTasks .waiting
  else
    some { m with currentTask := next }

def scheduler (stray : StrayStore) (s : Threads) : Option Threads :=
  if s.manager.numTasks = 0 then
    some s
  else do
    let t ← s.manager.task s.manager.currentTask
    let m ← markStates stray s.manager
    let m ← removeTask m m.currentTask
    let m ← advance stray m
    return ⟨m, s.remTasks - 1, s.called ++ [t.call]⟩

/-! ## Reading the table -/

namespace TaskManager

variable {m : TaskManager} {i j : UInt32} {t : Task}

theorem lt_of_task (h : m.task i = some t) : i.toNat < 256 := SlotTable.lt_of_slot h

end TaskManager

/-- Counters are compared by their values. -/
theorem ne_of_toNat {x y : UInt32} {n : Nat} (hx : x.toNat = n) (hne : n ≠ y.toNat) : x ≠ y := by
  intro heq
  rw [← heq] at hne
  exact hne hx.symm

/-! ## What one operation does -/

section Operations

variable {stray : StrayStore} {m m' : TaskManager} {s s' : Threads} {i : UInt32} {t : Task}

theorem addTask_full {start : UInt32} (h : s.manager.numTasks = 256) : addTask start s t = some s := by
  unfold addTask
  rw [if_pos]
  exact decide_eq_true h

/-- **An addition that is not refused** takes a free slot, and the scheduler's index is the new
PID. -/
theorem addTask_spec {start : UInt32} (hroom : s.manager.numTasks ≠ 256)
    (h : addTask start s t = some s') :
    ∃ k, s.manager.tasks.firstFree start.toNat = some k ∧
      s' = ⟨⟨s.manager.tasks.put k (some { t with state := .ready }), s.manager.numTasks + 1, t.pid⟩,
        s.remTasks + 1, s.called⟩ := by
  unfold addTask at h
  rw [if_neg (by simpa [managerFull] using hroom)] at h
  cases hk : s.manager.tasks.firstFree start.toNat with
  | none =>
      rw [hk] at h
      cases h
  | some k =>
      rw [hk] at h
      cases h
      exact ⟨k, rfl, rfl⟩

theorem addTask_run {start : UInt32} {k : Nat} (hroom : s.manager.numTasks ≠ 256)
    (h : s.manager.tasks.firstFree start.toNat = some k) :
    addTask start s t =
      some ⟨⟨s.manager.tasks.put k (some { t with state := .ready }), s.manager.numTasks + 1, t.pid⟩,
        s.remTasks + 1, s.called⟩ := by
  unfold addTask
  rw [if_neg (by simpa [managerFull] using hroom), h]
  rfl

theorem setState_some {state : Status} (h : m.task i = some t) :
    setState stray m i state =
      some { m with tasks := m.tasks.put i.toNat (some { t with state := state }) } := by
  unfold setState
  rw [h]

theorem setState_harmless {state : Status} (h : m.task i = none) :
    setState .harmless m i state = some m := by
  unfold setState
  rw [h]

theorem setState_faults {state : Status} (h : m.task i = none) :
    setState .faults m i state = none := by
  unfold setState
  rw [h]

/-- The same slots are in use, for calls of the same functions: only states differ. -/
structure SameCalls (m m' : TaskManager) : Prop where
  call : ∀ k, (m'.tasks.slot k).map Task.call = (m.tasks.slot k).map Task.call
  numTasks : m'.numTasks = m.numTasks
  currentTask : m'.currentTask = m.currentTask

theorem SameCalls.refl (m : TaskManager) : SameCalls m m := ⟨fun _ => rfl, rfl, rfl⟩

theorem SameCalls.trans {m'' : TaskManager} (h : SameCalls m m') (h' : SameCalls m' m'') :
    SameCalls m m'' :=
  ⟨fun k => (h'.call k).trans (h.call k), h'.numTasks.trans h.numTasks,
    h'.currentTask.trans h.currentTask⟩

/-- One slot emptied in both. -/
theorem SameCalls.put_none (h : SameCalls m m') (k : Nat) (currentTask : UInt32) :
    SameCalls ⟨m.tasks.put k none, m'.numTasks, currentTask⟩
      ⟨m'.tasks.put k none, m'.numTasks, currentTask⟩ := by
  refine ⟨fun j => ?_, rfl, rfl⟩
  by_cases hj : k = j
  · subst hj
    rw [SlotTable.slot_put_none, SlotTable.slot_put_none]
  · rw [SlotTable.slot_put_ne _ hj, SlotTable.slot_put_ne _ hj, h.call]

theorem setState_sameCalls {state : Status} (h : setState stray m i state = some m') :
    SameCalls m m' := by
  cases ht : m.task i with
  | none =>
      cases stray with
      | faults =>
          rw [setState_faults ht] at h
          cases h
      | harmless =>
          rw [setState_harmless ht] at h
          cases h
          exact SameCalls.refl m
  | some t =>
      rw [setState_some ht] at h
      cases h
      refine ⟨fun k => ?_, rfl, rfl⟩
      by_cases hk : i.toNat = k
      · subst hk
        have hslot : m.tasks.slot i.toNat = some t := ht
        rw [SlotTable.slot_put_self _ (TaskManager.lt_of_task ht), hslot]
        rfl
      · rw [SlotTable.slot_put_ne _ hk]

theorem markStates_sameCalls (h : markStates stray m = some m') : SameCalls m m' := by
  unfold markStates at h
  split at h
  · exact setState_sameCalls h
  · obtain ⟨m₁, hfirst, hsecond⟩ := Option.bind_eq_some_iff.mp h
    exact (setState_sameCalls hfirst).trans (setState_sameCalls hsecond)

theorem advance_spec (h : advance stray m = some m') :
    SameCalls { m with
      currentTask := if m.numTasks ≤ m.currentTask + 1 then (m.currentTask + 1) % m.numTasks
        else m.currentTask + 1 } m' := by
  unfold advance at h
  by_cases hwrap : m.numTasks ≤ m.currentTask + 1
  · rw [if_pos hwrap]
    rw [if_pos hwrap] at h
    exact setState_sameCalls h
  · rw [if_neg hwrap]
    rw [if_neg hwrap] at h
    cases h
    exact SameCalls.refl _

theorem scheduler_idle (h : s.manager.numTasks = 0) : scheduler stray s = some s := by
  unfold scheduler
  rw [if_pos h]

/-- **A tick that returns**: the task at the scheduler's index ran and is gone, the index moved on,
and the other slots are as they were but for the states. `num_tasks` is not touched. -/
theorem scheduler_spec (hn : s.manager.numTasks ≠ 0) (h : scheduler stray s = some s') :
    ∃ t, s.manager.task s.manager.currentTask = some t ∧
      s'.called = s.called ++ [t.call] ∧ s'.remTasks = s.remTasks - 1 ∧
      SameCalls ⟨s.manager.tasks.put s.manager.currentTask.toNat none, s.manager.numTasks,
        if s.manager.numTasks ≤ s.manager.currentTask + 1
        then (s.manager.currentTask + 1) % s.manager.numTasks
        else s.manager.currentTask + 1⟩ s'.manager := by
  unfold scheduler at h
  rw [if_neg hn] at h
  obtain ⟨t, ht, hrest⟩ := Option.bind_eq_some_iff.mp h
  obtain ⟨m₁, hmark, hrest⟩ := Option.bind_eq_some_iff.mp hrest
  obtain ⟨m₂, hremove, hrest⟩ := Option.bind_eq_some_iff.mp hrest
  obtain ⟨m₃, hadv, hrest⟩ := Option.bind_eq_some_iff.mp hrest
  cases hrest
  have hsame := markStates_sameCalls hmark
  have hlt : m₁.currentTask.toNat < 256 := by
    rw [hsame.currentTask]
    exact TaskManager.lt_of_task ht
  rw [removeTask, if_pos hlt] at hremove
  cases hremove
  refine ⟨t, ht, rfl, rfl, ?_⟩
  apply SameCalls.trans _ (advance_spec hadv)
  rw [← hsame.currentTask, ← hsame.numTasks]
  exact hsame.put_none _ _

end Operations

end Neutrino.System
