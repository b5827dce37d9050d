import Neutrino.System.Multithreading
import Mathlib.Data.List.TakeWhile

/-!
# Which slots the scheduler goes through

The scheduler reads the function of the current task, marks the slot in front of it, and on reaching
the end of the table marks the slot at `num_tasks`. Nothing keeps these slots occupied: the index comes
from a PID, a slot that ran is emptied, and `num_tasks` only grows.

`Follows history s` describes every state a history of safe calls can lead to. It decides each
scheduler call: `scheduler_safe_iff` says which histories never go through a slot without a task.
-/

namespace Neutrino.System

open Neutrino.Lib

/-! ## Safe calls -/

/-- What the scheduler finds in the slots it goes through, in the order in which it does. -/
def TaskManager.dereferenced (m : TaskManager) : List (Option Task) :=
  [m.task m.currentTask]
    ++ (if m.currentTask = 0 then [m.task m.currentTask]
      else [m.task (m.currentTask - 1), m.task m.currentTask])
    ++ (if m.numTasks ≤ m.currentTask + 1 then
        -- the current slot is empty by then
        [TaskManager.task { m with tasks := m.tasks.put m.currentTask.toNat none } m.numTasks]
      else [])

/-- A scheduler call goes through slots with a task only. -/
def SafeTick (m : TaskManager) : Prop := m.numTasks ≠ 0 → ∀ x ∈ m.dereferenced, x.isSome

/-- The three slots, one by one. -/
theorem safeTick_slots {m : TaskManager} (hn : m.numTasks ≠ 0) :
    SafeTick m ↔ (m.task m.currentTask).isSome ∧
      (m.currentTask ≠ 0 → (m.task (m.currentTask - 1)).isSome) ∧
      (m.numTasks ≤ m.currentTask + 1 →
        (TaskManager.task { m with tasks := m.tasks.put m.currentTask.toNat none }
          m.numTasks).isSome) := by
  rw [SafeTick, forall_prop_of_true hn, TaskManager.dereferenced, List.forall_mem_append,
    List.forall_mem_append, List.forall_mem_singleton, and_assoc]
  refine and_congr_right fun hcurrent => and_congr ?_ ?_
  · by_cases hzero : m.currentTask = 0
    · rw [if_pos hzero, List.forall_mem_singleton]
      exact ⟨fun _ hne => absurd hzero hne, fun _ => hcurrent⟩
    · rw [if_neg hzero, List.forall_mem_cons, List.forall_mem_singleton]
      exact ⟨fun h _ => h.1, fun h => ⟨h hzero, hcurrent⟩⟩
  · by_cases hwrap : m.numTasks ≤ m.currentTask + 1
    · rw [if_pos hwrap, List.forall_mem_singleton, forall_prop_of_true hwrap]
    · rw [if_neg hwrap]
      exact ⟨fun _ h => absurd h hwrap, fun _ x hx => absurd hx List.not_mem_nil⟩

inductive Op where
  | add (t : Task)
  | tick
  deriving DecidableEq, Repr

/-! ### `dereferenced` is what the code goes through -/

theorem SameCalls.task_isSome {m m' : TaskManager} (h : SameCalls m m') (i : UInt32) :
    (m'.task i).isSome = (m.task i).isSome := by
  have hcall := congrArg Option.isSome (h.call i.toNat)
  rwa [Option.isSome_map, Option.isSome_map] at hcall

theorem SameCalls.clear {m m' : TaskManager} (h : SameCalls m m') (r : Nat) :
    SameCalls { m with tasks := m.tasks.put r none } { m' with tasks := m'.tasks.put r none } := by
  refine ⟨fun k => ?_, h.numTasks, h.currentTask⟩
  by_cases hk : r = k
  · subst hk
    rw [SlotTable.slot_put_none, SlotTable.slot_put_none]
  · dsimp only
    rw [SlotTable.slot_put_ne _ hk, SlotTable.slot_put_ne _ hk, h.call]

theorem setState_faults_isSome (m : TaskManager) (i : UInt32) (state : Status) :
    (setState .faults m i state).isSome = (m.task i).isSome := by
  cases ht : m.task i with
  | none =>
      rw [setState_faults ht]
      rfl
  | some t =>
      rw [setState_some ht]
      rfl

theorem markStates_faults_isSome (m : TaskManager) :
    (markStates .faults m).isSome ↔
      ∀ x ∈ (if m.currentTask = 0 then [m.task m.currentTask]
        else [m.task (m.currentTask - 1), m.task m.currentTask]), x.isSome := by
  unfold markStates
  by_cases hzero : m.currentTask = 0
  · rw [if_pos hzero, if_pos hzero, setState_faults_isSome, List.forall_mem_singleton]
  · rw [if_neg hzero, if_neg hzero, List.forall_mem_cons, List.forall_mem_singleton,
      ← setState_faults_isSome m (m.currentTask - 1) .waiting]
    cases hfirst : setState .faults m (m.currentTask - 1) .waiting with
    | none => simp
    | some m₁ =>
        have hsame := setState_sameCalls hfirst
        rw [Option.bind_eq_bind, Option.bind_some, setState_faults_isSome, hsame.task_isSome,
          hsame.currentTask]
        exact ⟨fun h => ⟨rfl, h⟩, fun h => h.2⟩

theorem advance_faults_isSome (m : TaskManager) :
    (advance .faults m).isSome ↔
      ∀ x ∈ (if m.numTasks ≤ m.currentTask + 1 then [m.task m.numTasks] else []), x.isSome := by
  unfold advance
  by_cases hwrap : m.numTasks ≤ m.currentTask + 1
  · rw [if_pos hwrap, if_pos hwrap, setState_faults_isSome, List.forall_mem_singleton]
    rfl
  · rw [if_neg hwrap, if_neg hwrap]
    exact ⟨fun _ x hx => absurd hx List.not_mem_nil, fun _ => rfl⟩

theorem SameCalls.advance_isSome {m m' : TaskManager} (h : SameCalls m m') :
    (advance .faults m').isSome = (advance .faults m).isSome := by
  unfold advance
  rw [h.numTasks, h.currentTask]
  by_cases hwrap : m.numTasks ≤ m.currentTask + 1
  · rw [if_pos hwrap, if_pos hwrap, setState_faults_isSome, setState_faults_isSome]
    exact h.task_isSome m.numTasks
  · rw [if_neg hwrap, if_neg hwrap]
    rfl

/-- A scheduler call for which a stray store faults returns precisely when it is safe. -/
theorem scheduler_faults_isSome (s : Threads) :
    (scheduler .faults s).isSome ↔ SafeTick s.manager := by
  by_cases hn : s.manager.numTasks = 0
  · rw [scheduler_idle hn]
    exact ⟨fun _ hne => absurd hn hne, fun _ => rfl⟩
  rw [SafeTick, forall_prop_of_true hn, TaskManager.dereferenced, List.forall_mem_append,
    List.forall_mem_append, ← markStates_faults_isSome, List.forall_mem_singleton]
  unfold scheduler
  rw [if_neg hn]
  cases ht : s.manager.task s.manager.currentTask with
  | none => simp
  | some t =>
      cases hmark : markStates .faults s.manager with
      | none => simp
      | some m₁ =>
          have hsame := markStates_sameCalls hmark
          have hlt : m₁.currentTask.toNat < 256 := by
            rw [hsame.currentTask]
            exact TaskManager.lt_of_task ht
          have hrest : ∀ x : Option TaskManager, (x.bind fun m =>
              some (⟨m, s.remTasks - 1, s.called ++ [t.call]⟩ : Threads)).isSome = x.isSome := by
            intro x
            cases x with
            | none => rfl
            | some m => rfl
          have hadv := (hsame.clear s.manager.currentTask.toNat).advance_isSome
          simp only [Option.bind_eq_bind, Option.bind_some, removeTask, if_pos hlt, Option.pure_def]
          rw [hrest, hsame.currentTask]
          rw [hsame.currentTask] at hadv
          rw [hadv, advance_faults_isSome]
          exact ⟨fun h => ⟨⟨rfl, rfl⟩, h⟩, fun h => h.2⟩

/-- In a sequence of calls every scheduler call is safe. -/
def SafeRun : Threads → List Op → Prop
  | _, [] => True
  | s, .add t :: ops => ∃ s', addTask 0 s t = some s' ∧ SafeRun s' ops
  | s, .tick :: ops =>
      SafeTick s.manager ∧ ∃ s', scheduler .faults s = some s' ∧ SafeRun s' ops

/-! ## Histories -/

def Op.isTick : Op → Bool
  | .add _ => false
  | .tick => true

/-- How many tasks were added. -/
def adds (history : List Op) : Nat := history.countP fun op => !op.isTick

/-- How many scheduler calls came after the first addition. -/
def lateTicks (history : List Op) : Nat := (history.dropWhile Op.isTick).countP Op.isTick

/-- A scheduler call after this history is safe: no task was added yet; or the last call added one,
and its PID, taken as an index, is that of a slot still in use and not the last one of the table. -/
def TickAllowed (history : List Op) : Prop :=
  adds history = 0 ∨ ∃ earlier t, history = earlier ++ [.add t] ∧
    t.pid.toNat + 1 < adds history ∧ t.pid.toNat + lateTicks history < adds history

/-- Every scheduler call of the history is allowed where it stands. -/
def Admissible (ops : List Op) : Prop :=
  ∀ before after, ops = before ++ .tick :: after → TickAllowed before

theorem adds_snoc_add (history : List Op) (t : Task) :
    adds (history ++ [.add t]) = adds history + 1 := by
  unfold adds
  rw [List.countP_append]
  rfl

theorem adds_snoc_tick (history : List Op) : adds (history ++ [.tick]) = adds history := by
  unfold adds
  rw [List.countP_append]
  rfl

theorem adds_map_add (ts : List Task) : adds (ts.map .add) = ts.length := by
  unfold adds
  rw [List.countP_map]
  exact List.countP_eq_length.mpr fun _ _ => rfl

theorem lateTicks_snoc_add (history : List Op) (t : Task) :
    lateTicks (history ++ [.add t]) = lateTicks history := by
  unfold lateTicks
  rw [List.dropWhile_append]
  split
  · next h =>
    rw [List.isEmpty_iff.mp h]
    rfl
  · rw [List.countP_append]
    rfl

theorem lateTicks_snoc_tick {history : List Op} (h : adds history ≠ 0) :
    lateTicks (history ++ [.tick]) = lateTicks history + 1 := by
  unfold lateTicks
  rw [List.dropWhile_append, if_neg, List.countP_append]
  · rfl
  · intro hempty
    apply h
    unfold adds
    rw [List.countP_eq_zero]
    intro op hop
    rw [List.isEmpty_iff, List.dropWhile_eq_nil_iff] at hempty
    rw [hempty op hop]
    exact Bool.false_ne_true

theorem lateTicks_eq_zero {history : List Op} (h : adds history = 0) : lateTicks history = 0 := by
  unfold lateTicks
  unfold adds at h
  rw [List.countP_eq_zero] at h
  rw [List.dropWhile_eq_nil_iff.mpr]
  · rfl
  · intro op hop
    simpa using h op hop

/-! ## The states safe calls lead to -/

/-- The slots in use are those that `P` holds of. -/
def InUse (m : TaskManager) (P : Nat → Prop) : Prop := ∀ k, (m.tasks.slot k).isSome ↔ P k

/-- `s` is the state after `history`. As long as every scheduler call is safe, the slots in use are
the first ones of the table, but for the one that has just been run. -/
inductive Follows (history : List Op) (s : Threads) : Prop where
  | idle (hadds : adds history = 0) (hnum : s.manager.numTasks = 0)
      (hslots : InUse s.manager fun _ => False)
  | added (earlier : List Op) (t : Task) (hlast : history = earlier ++ [.add t])
      (hnum : s.manager.numTasks.toNat = adds history) (hcur : s.manager.currentTask = t.pid)
      (hlate : lateTicks history < adds history)
      (hslots : InUse s.manager fun k => k + lateTicks history < adds history)
  | ticked (earlier : List Op) (p : Nat) (hlast : history = earlier ++ [.tick])
      (hnum : s.manager.numTasks.toNat = adds history) (hcur : s.manager.currentTask.toNat = p + 1)
      (hp : p + 1 < adds history) (hlate : p + lateTicks history ≤ adds history)
      (hslots : InUse s.manager fun k => k ≠ p ∧ k + lateTicks history ≤ adds history)

theorem InUse.slot_none {m : TaskManager} {P : Nat → Prop} (h : InUse m P) {k : Nat} (hk : ¬ P k) :
    m.tasks.slot k = none := by
  rw [← Option.not_isSome_iff_eq_none]
  exact fun hsome => hk ((h k).mp hsome)

theorem InUse.fill {m : TaskManager} {P : Nat → Prop} (h : InUse m P) {r : Nat} (hr : r < 256)
    (t : Task) (num cur : UInt32) :
    InUse ⟨m.tasks.put r (some t), num, cur⟩ fun k => k = r ∨ P k := by
  intro k
  by_cases hk : r = k
  · subst hk
    rw [SlotTable.slot_put_self _ hr]
    exact ⟨fun _ => Or.inl rfl, fun _ => rfl⟩
  · rw [SlotTable.slot_put_ne _ hk, h k]
    exact ⟨Or.inr, fun hor => hor.resolve_left (Ne.symm hk)⟩

theorem InUse.congr {m : TaskManager} {P Q : Nat → Prop} (h : InUse m P)
    (hPQ : ∀ k, P k ↔ Q k) : InUse m Q := fun k => (h k).trans (hPQ k)

theorem InUse.sameCalls {m m' : TaskManager} {P : Nat → Prop} (h : InUse m P)
    (hsame : SameCalls m m') : InUse m' P := by
  intro k
  rw [← h k, ← Option.isSome_map (f := Task.call), hsame.call, Option.isSome_map]

theorem InUse.clear {m : TaskManager} {P : Nat → Prop} (h : InUse m P) (r : Nat)
    (num cur : UInt32) : InUse ⟨m.tasks.put r none, num, cur⟩ fun k => k ≠ r ∧ P k := by
  intro k
  by_cases hk : r = k
  · subst hk
    rw [SlotTable.slot_put_none]
    exact ⟨fun hf => (Bool.false_ne_true hf).elim, fun hne => (hne.1 rfl).elim⟩
  · rw [SlotTable.slot_put_ne _ hk, h k]
    exact ⟨fun hP => ⟨Ne.symm hk, hP⟩, fun hP => hP.2⟩

theorem Follows.boot : Follows [] Threads.boot := by
  apply Follows.idle
  · rfl
  · rfl
  · intro k
    unfold Threads.boot createTaskManager
    rw [SlotTable.slot_empty]
    exact ⟨fun hf => Bool.false_ne_true hf, False.elim⟩

/-- The addition takes slot `r`, the first one that is free. -/
theorem addTask_of_inUse {s : Threads} {t : Task} {P : Nat → Prop} (h : InUse s.manager P) {r : Nat}
    (hr : r < 256) (hfree : ¬ P r) (hused : ∀ k, k < r → P k) (hroom : s.manager.numTasks ≠ 256) :
    ∃ s', addTask 0 s t = some s' ∧ s'.manager.numTasks = s.manager.numTasks + 1 ∧
      s'.manager.currentTask = t.pid ∧ InUse s'.manager fun k => k = r ∨ P k := by
  have hfirst : s.manager.tasks.firstFree 0 = some r :=
    SlotTable.firstFree_zero hr (h.slot_none hfree) (fun k hk => (h k).mpr (hused k hk))
  exact ⟨_, addTask_run hroom hfirst, rfl, rfl, h.fill hr _ _ _⟩

/-- `num_tasks` counts all additions. -/
theorem Follows.numTasks {history : List Op} {s : Threads} (h : Follows history s) :
    s.manager.numTasks.toNat = adds history := by
  cases h with
  | idle hadds hnum _ => rw [hnum, hadds, UInt32.toNat_zero]
  | added _ _ _ hnum => exact hnum
  | ticked _ _ _ hnum => exact hnum

theorem Follows.add {history : List Op} {s : Threads} (h : Follows history s)
    (hroom : adds history < 256) (t : Task) :
    ∃ s', addTask 0 s t = some s' ∧ Follows (history ++ [.add t]) s' := by
  have hnum := h.numTasks
  have hne : s.manager.numTasks ≠ 256 := ne_of_toNat hnum (Nat.ne_of_lt hroom)
  -- whatever the last call was, one slot is filled and the slots in use are the first ones again
  have hfill : ∀ {P : Nat → Prop} {r : Nat}, InUse s.manager P → r < 256 → ¬ P r →
      (∀ k, k < r → P k) → lateTicks history < adds history + 1 →
      (∀ k, (k = r ∨ P k) ↔ k + lateTicks history < adds history + 1) →
      ∃ s', addTask 0 s t = some s' ∧ Follows (history ++ [.add t]) s' := by
    intro P r hslots hr hfree hused hlate hall
    obtain ⟨s', hadd, hnum', hcur, hslots'⟩ := addTask_of_inUse hslots hr hfree hused hne
    refine ⟨s', hadd, Follows.added history t rfl ?_ hcur ?_ ?_⟩
    · rw [hnum', adds_snoc_add, UInt32.toNat_add, hnum, UInt32.toNat_one]
      omega
    · rwa [adds_snoc_add, lateTicks_snoc_add]
    · rw [adds_snoc_add, lateTicks_snoc_add]
      exact hslots'.congr hall
  cases h with
  | idle hadds _ hslots =>
      have hlate := lateTicks_eq_zero hadds
      apply hfill hslots (r := 0) (Nat.zero_lt_succ _) not_false
      · exact fun k hk => absurd hk (Nat.not_lt_zero k)
      · omega
      · intro k
        rw [or_false]
        omega
  | added _ _ _ _ _ hlate hslots =>
      apply hfill hslots (r := adds history - lateTicks history)
      · omega
      · omega
      · intro k hk
        omega
      · omega
      · intro k
        omega
  | ticked _ p _ _ _ hp hlate hslots =>
      apply hfill hslots (r := p)
      · omega
      · exact fun hp' => hp'.1 rfl
      · intro k hk
        exact ⟨Nat.ne_of_lt hk, by omega⟩
      · omega
      · intro k
        omega

/-! ## Scheduler calls -/

theorem tickAllowed_snoc_add {earlier : List Op} {t : Task} :
    TickAllowed (earlier ++ [.add t]) ↔
      t.pid.toNat + 1 < adds (earlier ++ [.add t]) ∧
        t.pid.toNat + lateTicks (earlier ++ [.add t]) < adds (earlier ++ [.add t]) := by
  constructor
  · intro h
    cases h with
    | inl hzero =>
        rw [adds_snoc_add] at hzero
        exact absurd hzero (Nat.succ_ne_zero _)
    | inr hlast =>
        obtain ⟨earlier', t', heq, hlt⟩ := hlast
        obtain ⟨-, hop⟩ := List.append_inj' heq rfl
        cases hop
        exact hlt
  · intro h
    exact Or.inr ⟨earlier, t, rfl, h⟩

theorem tickAllowed_snoc_tick {earlier : List Op} :
    TickAllowed (earlier ++ [.tick]) ↔ adds (earlier ++ [.tick]) = 0 := by
  constructor
  · intro h
    apply h.resolve_right
    intro hlast
    obtain ⟨earlier', t', heq, -⟩ := hlast
    obtain ⟨-, hop⟩ := List.append_inj' heq rfl
    cases hop
  · exact Or.inl

/-- **The history decides the scheduler call.** -/
theorem Follows.safeTick_iff {history : List Op} {s : Threads} (h : Follows history s)
    (hroom : adds history ≤ 256) : SafeTick s.manager ↔ TickAllowed history := by
  cases h with
  | idle hadds hnum _ => exact ⟨fun _ => Or.inl hadds, fun _ hne => absurd hnum hne⟩
  | added earlier t hlast hnum hcur hlate hslots =>
      have hne : s.manager.numTasks ≠ 0 := ne_of_toNat hnum (Nat.ne_zero_of_lt hlate)
      have hcur' : (s.manager.task s.manager.currentTask).isSome ↔
          t.pid.toNat + lateTicks history < adds history := by
        rw [← hcur]
        exact hslots s.manager.currentTask.toNat
      -- below the number of tasks the increment of `current_task` is the one of the naturals
      have hwrap (hp : t.pid.toNat + lateTicks history < adds history) :
          s.manager.numTasks ≤ s.manager.currentTask + 1 ↔ adds history ≤ t.pid.toNat + 1 := by
        rw [UInt32.le_iff_toNat_le, hnum, UInt32.toNat_add, hcur, UInt32.toNat_one]
        omega
      rw [show TickAllowed history ↔ _ from hlast ▸ tickAllowed_snoc_add, safeTick_slots hne, hcur']
      constructor
      · rintro ⟨hp, -, hend⟩
        refine ⟨?_, hp⟩
        by_contra hlt
        -- the slot at `num_tasks` is behind all those in use
        have hused := ((hslots.clear s.manager.currentTask.toNat _ _) s.manager.numTasks.toNat).mp
          (hend ((hwrap hp).mpr (Nat.le_of_not_lt hlt)))
        omega
      · rintro ⟨hlt, hp⟩
        refine ⟨hp, fun hzero => (hslots _).mpr ?_, fun hend =>
          absurd ((hwrap hp).mp hend) (Nat.not_le_of_lt hlt)⟩
        have hpos : 1 ≤ s.manager.currentTask := by
          rw [UInt32.le_iff_toNat_le, UInt32.toNat_one]
          exact Nat.one_le_iff_ne_zero.mpr fun hz => hzero (UInt32.toNat.inj hz)
        rw [UInt32.toNat_sub_of_le _ _ hpos, hcur]
        omega
  | ticked earlier p hlast hnum hcur hp hlate hslots =>
      have hne : s.manager.numTasks ≠ 0 := ne_of_toNat hnum (Nat.ne_zero_of_lt hp)
      have hzero : s.manager.currentTask ≠ 0 := ne_of_toNat hcur (Nat.succ_ne_zero p)
      have hpos : 1 ≤ s.manager.currentTask := by
        rw [UInt32.le_iff_toNat_le, UInt32.toNat_one, hcur]
        exact Nat.le_add_left 1 p
      rw [show TickAllowed history ↔ _ from hlast ▸ tickAllowed_snoc_tick]
      constructor
      · intro hsafe
        have hprev := ((safeTick_slots hne).mp hsafe).2.1 hzero
        -- the slot in front is the one that ran last
        have hused := (hslots _).mp hprev
        rw [UInt32.toNat_sub_of_le _ _ hpos, hcur, UInt32.toNat_one] at hused
        exact absurd rfl hused.1
      · intro hadds
        omega

theorem Follows.tick {history : List Op} {s s' : Threads} (h : Follows history s)
    (hroom : adds history ≤ 256) (hallowed : TickAllowed history)
    (hs : scheduler .faults s = some s') : Follows (history ++ [.tick]) s' := by
  cases h with
  | idle hadds hnum hslots =>
      rw [scheduler_idle hnum] at hs
      cases hs
      exact Follows.idle ((adds_snoc_tick history).trans hadds) hnum hslots
  | added earlier t hlast hnum hcur hlate hslots =>
      have hne : s.manager.numTasks ≠ 0 := ne_of_toNat hnum (Nat.ne_zero_of_lt hlate)
      have hp : t.pid.toNat + 1 < adds history ∧ t.pid.toNat + lateTicks history < adds history := by
        rw [hlast] at hallowed ⊢
        exact tickAllowed_snoc_add.mp hallowed
      have hnext : (s.manager.currentTask + 1).toNat = t.pid.toNat + 1 := by
        rw [UInt32.toNat_add, hcur, UInt32.toNat_one]
        omega
      have hnowrap : ¬ s.manager.numTasks ≤ s.manager.currentTask + 1 := by
        rw [UInt32.le_iff_toNat_le, hnum, hnext]
        omega
      obtain ⟨-, -, -, -, hsame⟩ := scheduler_spec hne hs
      rw [if_neg hnowrap] at hsame
      have hlate' : lateTicks (history ++ [.tick]) = lateTicks history + 1 :=
        lateTicks_snoc_tick (by omega)
      apply Follows.ticked history t.pid.toNat rfl
      · rw [hsame.numTasks, adds_snoc_tick, hnum]
      · rw [hsame.currentTask, hnext]
      · rw [adds_snoc_tick]
        exact hp.1
      · rw [adds_snoc_tick, hlate']
        omega
      · apply ((hslots.clear s.manager.currentTask.toNat _ _).sameCalls hsame).congr
        intro k
        rw [adds_snoc_tick, hlate', hcur]
        omega
  | ticked earlier p hlast hnum hcur hp hlate hslots =>
      rw [hlast] at hallowed hp
      rw [tickAllowed_snoc_tick.mp hallowed] at hp
      exact absurd hp (Nat.not_lt_zero _)

/-- The scheduler calls of a sequence: its first call, if it is one, and those behind. -/
theorem forall_tick_cons {P : List Op → Prop} {history ops : List Op} {op : Op} :
    (∀ before after, op :: ops = before ++ .tick :: after → P (history ++ before)) ↔
      (op = .tick → P history) ∧
        ∀ before after, ops = before ++ .tick :: after → P (history ++ [op] ++ before) := by
  constructor
  · intro hall
    refine ⟨fun hop => ?_, fun before after heq => ?_⟩
    · have hfirst := hall [] ops (by rw [hop]; rfl)
      rwa [List.append_nil] at hfirst
    · rw [List.append_assoc, List.singleton_append]
      exact hall (op :: before) after (by rw [heq]; rfl)
  · intro hall before after heq
    cases before with
    | nil =>
        rw [List.append_nil]
        exact hall.1 (List.cons.inj heq).1
    | cons first before =>
        obtain ⟨rfl, htail⟩ := List.cons.inj heq
        have hlater := hall.2 before after htail
        rwa [List.append_assoc, List.singleton_append] at hlater

/-- From a state that a history led to: the calls that come are safe precisely when each scheduler
call among them is allowed after all the calls before it. -/
theorem Follows.safeRun_iff {s : Threads} {history ops : List Op} (h : Follows history s)
    (hroom : adds (history ++ ops) ≤ 256) :
    SafeRun s ops ↔
      ∀ before after, ops = before ++ .tick :: after → TickAllowed (history ++ before) := by
  induction ops generalizing s history with
  | nil =>
      refine ⟨fun _ before after heq => ?_, fun _ => trivial⟩
      exact absurd heq.symm (List.append_ne_nil_of_right_ne_nil _ (List.cons_ne_nil _ _))
  | cons op ops ih =>
      have hsnoc : history ++ op :: ops = history ++ [op] ++ ops := by
        rw [List.append_assoc, List.singleton_append]
      rw [hsnoc] at hroom
      have hroom' : adds (history ++ [op]) ≤ 256 := by
        unfold adds at hroom ⊢
        rw [List.countP_append] at hroom
        exact Nat.le_of_add_right_le hroom
      rw [forall_tick_cons]
      cases op with
      | add t =>
          rw [adds_snoc_add] at hroom'
          obtain ⟨s', hadd, h'⟩ := h.add hroom' t
          have hstep : SafeRun s (.add t :: ops) ↔ SafeRun s' ops := by
            constructor
            · intro hrun
              obtain ⟨s'', hadd', hsafe⟩ := hrun
              rw [hadd] at hadd'
              cases hadd'
              exact hsafe
            · exact fun hsafe => ⟨s', hadd, hsafe⟩
          rw [hstep, ih h' hroom]
          exact ⟨fun hall => ⟨fun hop => (Op.noConfusion hop), hall⟩, fun hall => hall.2⟩
      | tick =>
          rw [adds_snoc_tick] at hroom'
          have hsafe := h.safeTick_iff hroom'
          constructor
          · intro hrun
            obtain ⟨hnow, s', hs, hlater⟩ := hrun
            have hallowed := hsafe.mp hnow
            exact ⟨fun _ => hallowed, (ih (h.tick hroom' hallowed hs) hroom).mp hlater⟩
          · intro hall
            have hallowed := hall.1 rfl
            have hnow := hsafe.mpr hallowed
            obtain ⟨s', hs⟩ := Option.isSome_iff_exists.mp ((scheduler_faults_isSome s).mpr hnow)
            exact ⟨hnow, s', hs, (ih (h.tick hroom' hallowed hs) hroom).mpr hall.2⟩

/-- **The scheduler goes through slots with a task only** in the histories in which every scheduler
call comes before any task was added, or right behind the addition of a task whose PID is the index of
a slot in use other than the last. -/
theorem scheduler_safe_iff (ops : List Op) (hadds : adds ops ≤ 256) :
    SafeRun Threads.boot ops ↔ Admissible ops :=
  Follows.boot.safeRun_iff hadds

/-- With the two tasks of `add_tests` the other way round the first call is allowed. -/
theorem turned_admissible : Admissible [.add testB, .add testA, .tick] := by
  intro before after heq
  rcases before with _ | ⟨op, _ | ⟨op', _ | ⟨op'', rest⟩⟩⟩
  · cases heq
  · cases heq
  · cases heq
    exact (@tickAllowed_snoc_add [.add testB] testA).mpr (by decide)
  · simp at heq

theorem turned_safe : SafeRun Threads.boot [.add testB, .add testA, .tick] :=
  (scheduler_safe_iff [.add testB, .add testA, .tick] (by decide)).mpr turned_admissible

/-- The first scheduler call after `add_tests` marks the slot behind the two tasks. -/
theorem add_tests_unsafe : ¬ SafeRun Threads.boot [.add testA, .add testB, .tick] := by
  rw [Follows.boot.safeRun_iff (by decide)]
  intro hall
  have hlast : TickAllowed ([.add testA] ++ [.add testB]) :=
    hall [.add testA, .add testB] [] rfl
  exact absurd (tickAllowed_snoc_add.mp hlast).1 (by decide)

end Neutrino.System
