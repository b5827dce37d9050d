import Neutrino.Drivers.Timer
import Neutrino.System.SchedulerSafety
import Mathlib.Data.List.Rotate
import Mathlib.Data.Nat.ModEq

/-!
# Does every task run once?

The timer walks the table from the slot that the last PID names, wraps at `num_tasks`, and empties
each slot as it goes. If that PID *is* a slot in use and stray stores do no harm, the calls are the
tasks rotated by it (`Rotating`), so each runs once. If it is not, the first call goes through a slot
without a task; and if stray stores fault, the second call does at the latest, which
`SchedulerSafety` has shown already.
-/

namespace Neutrino.System

open Neutrino.Lib Neutrino.Drivers

/-! ## The table after the additions -/

def addTasks (s : Threads) (ts : List Task) : Option Threads := ts.foldlM (addTask 0) s

/-- Each task has run once when the timer has called the scheduler as often as there are tasks, none
is left then, and no later interrupt calls one. -/
structure RunsOnce (stray : StrayStore) (start : Clock) (ts : List Task) : Prop where
  fires : ∃ n c, timerRun stray n start = some c ∧ c.fired = ts.length
  once : ∀ n c, timerRun stray n start = some c → c.fired = ts.length →
    (∀ t ∈ ts, c.threads.called.count t.call = 1) ∧ c.threads.called.length = ts.length ∧
    c.threads.remTasks = 0 ∧
    ∀ k, ∃ c', timerRun stray k c = some c' ∧ c'.threads.called = c.threads.called

/-- `ts` lie in the first slots, in the order in which they were added, and none has run. -/
structure Loaded (ts : List Task) (s : Threads) : Prop where
  num : s.manager.numTasks.toNat = ts.length
  rem : s.remTasks.toNat = ts.length
  called : s.called = []
  cur : ∀ t, ts.getLast? = some t → s.manager.currentTask = t.pid
  slots : ∀ k, (s.manager.tasks.slot k).map Task.call = ts[k]?.map Task.call

theorem Loaded.boot : Loaded [] Threads.boot where
  num := rfl
  rem := rfl
  called := rfl
  cur := by
    intro t h
    cases h
  slots := by
    intro k
    unfold Threads.boot createTaskManager
    rw [SlotTable.slot_empty]
    rfl

theorem Loaded.slot_isSome {ts : List Task} {s : Threads} (h : Loaded ts s) (k : Nat) :
    (s.manager.tasks.slot k).isSome ↔ k < ts.length := by
  rw [← Option.isSome_map (f := Task.call), h.slots, Option.isSome_map, isSome_getElem?]

theorem Loaded.add {ts : List Task} {s : Threads} (h : Loaded ts s) (hroom : ts.length < 256)
    (t : Task) : ∃ s', addTask 0 s t = some s' ∧ Loaded (ts ++ [t]) s' := by
  have hne : s.manager.numTasks ≠ 256 := ne_of_toNat h.num (Nat.ne_of_lt hroom)
  have hfree : s.manager.tasks.slot ts.length = none := by
    rw [← Option.not_isSome_iff_eq_none, h.slot_isSome]
    exact Nat.lt_irrefl _
  have hfirst : s.manager.tasks.firstFree 0 = some ts.length :=
    SlotTable.firstFree_zero hroom hfree (fun k hk => (h.slot_isSome k).mpr hk)
  refine ⟨_, addTask_run hne hfirst, ?_, ?_, h.called, ?_, ?_⟩
  · rw [List.length_append, UInt32.toNat_add, h.num, UInt32.toNat_one, List.length_singleton]
    omega
  · rw [List.length_append, UInt32.toNat_add, h.rem, UInt32.toNat_one, List.length_singleton]
    omega
  · intro t' ht'
    rw [List.getLast?_concat] at ht'
    cases ht'
    rfl
  · intro k
    by_cases hk : ts.length = k
    · subst hk
      rw [SlotTable.slot_put_self _ hroom, List.getElem?_concat_length]
      rfl
    · rw [SlotTable.slot_put_ne _ hk, h.slots]
      rcases Nat.lt_or_gt_of_ne hk with hlt | hgt
      · rw [List.getElem?_eq_none (Nat.le_of_lt hlt), List.getElem?_eq_none]
        rw [List.length_append]
        exact hlt
      · rw [List.getElem?_append_left hgt]

theorem load (ts : List Task) (hlen : ts.length ≤ 256) :
    ∃ s, addTasks Threads.boot ts = some s ∧ Loaded ts s ∧ Follows (ts.map .add) s := by
  induction ts using List.reverseRecOn with
  | nil => exact ⟨Threads.boot, rfl, Loaded.boot, Follows.boot⟩
  | append_singleton ts t ih =>
      rw [List.length_append, List.length_singleton] at hlen
      obtain ⟨s, hrun, hloaded, hfollows⟩ := ih (Nat.le_of_succ_le hlen)
      obtain ⟨s', hadd, hloaded'⟩ := hloaded.add hlen t
      obtain ⟨s'', hadd', hfollows'⟩ := hfollows.add ((adds_map_add ts).trans_lt hlen) t
      rw [hadd] at hadd'
      cases hadd'
      refine ⟨s', ?_, hloaded', ?_⟩
      · unfold addTasks at hrun ⊢
        rw [List.foldlM_append, hrun, Option.bind_eq_bind, Option.bind_some, List.foldlM_cons, hadd]
        rfl
      · rw [List.map_append]
        exact hfollows'

/-! ## Where stray stores do no harm -/

theorem setState_harmless_isSome (m : TaskManager) (i : UInt32) (state : Status) :
    ∃ m', setState .harmless m i state = some m' := by
  cases ht : m.task i with
  | none => exact ⟨m, setState_harmless ht⟩
  | some t => exact ⟨_, setState_some ht⟩

theorem markStates_harmless_isSome (m : TaskManager) :
    ∃ m', markStates .harmless m = some m' := by
  unfold markStates
  split
  · exact setState_harmless_isSome m _ _
  · obtain ⟨m₁, h₁⟩ := setState_harmless_isSome m (m.currentTask - 1) .waiting
    obtain ⟨m₂, h₂⟩ := setState_harmless_isSome m₁ m₁.currentTask .running
    refine ⟨m₂, ?_⟩
    rw [h₁]
    exact h₂

theorem advance_harmless_isSome (m : TaskManager) : ∃ m', advance .harmless m = some m' := by
  unfold advance
  dsimp only
  split
  · exact setState_harmless_isSome _ _ _
  · exact ⟨_, rfl⟩

/-- Only the call of the task itself can then go wrong. -/
theorem scheduler_harmless {s : Threads} {t : Task}
    (ht : s.manager.task s.manager.currentTask = some t) :
    ∃ s', scheduler .harmless s = some s' := by
  unfold scheduler
  split
  · exact ⟨s, rfl⟩
  · obtain ⟨m₁, h₁⟩ := markStates_harmless_isSome s.manager
    have hlt : m₁.currentTask.toNat < 256 := by
      rw [(markStates_sameCalls h₁).currentTask]
      exact TaskManager.lt_of_task ht
    obtain ⟨m₂, h₂⟩ := advance_harmless_isSome
      { m₁ with tasks := m₁.tasks.put m₁.currentTask.toNat none }
    refine ⟨⟨m₂, s.remTasks - 1, s.called ++ [t.call]⟩, ?_⟩
    rw [ht, h₁]
    simp only [Option.bind_eq_bind, Option.bind_some, removeTask, if_pos hlt]
    rw [h₂]
    rfl

/-! ## Rotation -/

/-- After `j` calls: the first `j` tasks of the list rotated by `p` have run, and their slots are
empty. -/
structure Rotating (ts : List Task) (p j : Nat) (s : Threads) : Prop where
  num : s.manager.numTasks.toNat = ts.length
  rem : s.remTasks.toNat + j = ts.length
  called : s.called = ((ts.map Task.call).rotate p).take j
  cur : s.manager.currentTask.toNat = (j + p) % ts.length
  slots : ∀ k, (s.manager.tasks.slot k).map Task.call =
    if ∃ i, i < j ∧ (i + p) % ts.length = k then none else ts[k]?.map Task.call

theorem Loaded.rotating {ts : List Task} {s : Threads} (h : Loaded ts s) {t : Task}
    (hlast : ts.getLast? = some t) (hp : t.pid.toNat < ts.length) : Rotating ts t.pid.toNat 0 s where
  num := h.num
  rem := h.rem
  called := h.called
  cur := by rw [h.cur t hlast, Nat.zero_add, Nat.mod_eq_of_lt hp]
  slots := by
    intro k
    rw [h.slots, if_neg]
    intro hrun
    obtain ⟨i, hi, -⟩ := hrun
    exact Nat.not_lt_zero i hi

theorem rotate_index_ne {n p i j : Nat} (hij : i < j) (hj : j < n) : (i + p) % n ≠ (j + p) % n := by
  intro heq
  have hmod : Nat.ModEq n i j := Nat.ModEq.add_right_cancel' p heq
  exact Nat.ne_of_lt hij (Nat.ModEq.eq_of_lt_of_lt hmod (Nat.lt_trans hij hj) hj)

/-- The slot visited next. -/
theorem visited_succ_iff {n p j k : Nat} (hk : (j + p) % n ≠ k) :
    (∃ i, i < j ∧ (i + p) % n = k) ↔ ∃ i, i < j + 1 ∧ (i + p) % n = k := by
  constructor
  · rintro ⟨i, hi, heq⟩
    exact ⟨i, Nat.lt_succ_of_lt hi, heq⟩
  · rintro ⟨i, hi, heq⟩
    refine ⟨i, Nat.lt_of_le_of_ne (Nat.le_of_lt_succ hi) ?_, heq⟩
    rintro rfl
    exact hk heq

/-- **One call** runs the next task of the rotated list. -/
theorem Rotating.step {ts : List Task} {p j : Nat} {s : Threads} (h : Rotating ts p j s)
    (hlen : ts.length ≤ 256) (hj : j < ts.length) :
    ∃ s', scheduler .harmless s = some s' ∧ Rotating ts p (j + 1) s' := by
  have hpos : 0 < ts.length := Nat.lt_of_le_of_lt (Nat.zero_le j) hj
  have hcurlt : (j + p) % ts.length < ts.length := Nat.mod_lt _ hpos
  have hne : s.manager.numTasks ≠ 0 := ne_of_toNat h.num (Nat.ne_of_gt hpos)
  -- the slot at the scheduler's index has not been visited
  have hslot : (s.manager.task s.manager.currentTask).map Task.call =
      some (ts[(j + p) % ts.length].call) := by
    unfold TaskManager.task
    rw [h.cur, h.slots, if_neg, List.getElem?_eq_getElem hcurlt]
    · rfl
    · intro hrun
      obtain ⟨i, hi, heq⟩ := hrun
      exact rotate_index_ne hi hj heq
  obtain ⟨t, ht, hcall⟩ := Option.map_eq_some_iff.mp hslot
  obtain ⟨s', hs⟩ := scheduler_harmless ht
  obtain ⟨t', ht', hcalled, hrem, hsame⟩ := scheduler_spec hne hs
  rw [ht] at ht'
  cases ht'
  refine ⟨s', hs, ?_, ?_, ?_, ?_, ?_⟩
  · rw [hsame.numTasks]
    exact h.num
  · have hrem' := h.rem
    have hle : (1 : UInt32) ≤ s.remTasks := by
      rw [UInt32.le_iff_toNat_le, UInt32.toNat_one]
      omega
    rw [hrem, UInt32.toNat_sub_of_le _ _ hle, UInt32.toNat_one]
    omega
  · have hjlt : j < ((ts.map Task.call).rotate p).length := by
      rw [List.length_rotate, List.length_map]
      exact hj
    rw [hcalled, h.called, hcall, ← List.take_concat_get' _ _ hjlt, List.getElem_rotate,
      List.getElem_map]
    simp only [List.length_map]
  · have hnext : (s.manager.currentTask + 1).toNat = (j + p) % ts.length + 1 := by
      rw [UInt32.toNat_add, h.cur, UInt32.toNat_one]
      omega
    have hmod : ((j + p) % ts.length + 1) % ts.length = (j + 1 + p) % ts.length := by
      rw [Nat.mod_add_mod, Nat.add_right_comm]
    rw [hsame.currentTask, ← hmod]
    dsimp only
    by_cases hwrap : s.manager.numTasks ≤ s.manager.currentTask + 1
    · rw [if_pos hwrap, UInt32.toNat_mod, hnext, h.num]
    · rw [if_neg hwrap, hnext]
      rw [UInt32.le_iff_toNat_le, hnext, h.num] at hwrap
      exact (Nat.mod_eq_of_lt (Nat.lt_of_not_le hwrap)).symm
  · intro k
    rw [hsame.call]
    dsimp only
    by_cases hk : (j + p) % ts.length = k
    · rw [if_pos ⟨j, Nat.lt_succ_self j, hk⟩, h.cur, hk, SlotTable.slot_put_none]
      rfl
    · rw [h.cur, SlotTable.slot_put_ne _ hk, h.slots]
      rw [if_congr (visited_succ_iff hk) rfl rfl]

/-- **All calls**, one after the other. -/
theorem Rotating.run {ts : List Task} {p : Nat} {s : Threads} (h : Rotating ts p 0 s)
    (hlen : ts.length ≤ 256) {j : Nat} (hj : j ≤ ts.length) :
    ∃ s', schedulerRun .harmless j s = some s' ∧ Rotating ts p j s' := by
  induction j with
  | zero => exact ⟨s, rfl, h⟩
  | succ j ih =>
      obtain ⟨s₁, hrun, h₁⟩ := ih (Nat.le_of_succ_le hj)
      obtain ⟨s₂, hs, h₂⟩ := h₁.step hlen hj
      exact ⟨s₂, schedulerRun_succ_of hrun hs, h₂⟩

/-- The timer makes all those calls. -/
theorem Rotating.fires {ts : List Task} {p : Nat} {start : Clock}
    (h : Rotating ts p 0 start.threads) (hstart : start.fired = 0) (hlen : ts.length ≤ 256) {j : Nat}
    (hj : j ≤ ts.length) :
    ∃ n c, timerRun .harmless n start = some c ∧ c.fired = j ∧ Rotating ts p j c.threads := by
  induction j with
  | zero => exact ⟨0, start, rfl, hstart, h⟩
  | succ j ih =>
      obtain ⟨n, c, hrun, hfired, h₁⟩ := ih (Nat.le_of_succ_le hj)
      obtain ⟨s₂, hs, h₂⟩ := h₁.step hlen hj
      have hrem : 0 < c.threads.remTasks := by
        rw [UInt32.lt_iff_toNat_lt, UInt32.toNat_zero]
        have := h₁.rem
        omega
      obtain ⟨n', c', hrun', hsame, hfired'⟩ := timerRun_fires hrem hs
      refine ⟨n + n', c', ?_, ?_, ?_⟩
      · rw [timerRun_add hrun, hrun']
      · rw [hfired', hfired]
      · rw [hsame]
        exact h₂

/-- When all have run. -/
theorem Rotating.all_called {ts : List Task} {p : Nat} {s : Threads} (h : Rotating ts p ts.length s)
    (hpids : (ts.map Task.pid).Nodup) :
    (∀ t ∈ ts, s.called.count t.call = 1) ∧ s.called.length = ts.length ∧ s.remTasks = 0 := by
  have hcalled : s.called = (ts.map Task.call).rotate p := by
    rw [h.called, List.take_of_length_le]
    rw [List.length_rotate, List.length_map]
  have hnodup : (ts.map Task.call).Nodup := by
    apply List.Nodup.of_map Prod.fst
    rw [List.map_map]
    exact hpids
  refine ⟨fun t ht => ?_, ?_, ?_⟩
  · rw [hcalled, (List.rotate_perm _ p).count_eq]
    exact List.count_eq_one_of_mem hnodup (List.mem_map_of_mem ht)
  · rw [hcalled, List.length_rotate, List.length_map]
  · have hrem := h.rem
    apply UInt32.toNat.inj
    rw [UInt32.toNat_zero]
    omega

/-! ## Exactly when -/

/-- The first call through a slot without a task stops the run. -/
theorem Loaded.stuck {stray : StrayStore} {ts : List Task} {s : Threads} (h : Loaded ts s) {t : Task}
    (hlast : ts.getLast? = some t) (hp : ts.length ≤ t.pid.toNat) : scheduler stray s = none := by
  have hne : s.manager.numTasks ≠ 0 :=
    ne_of_toNat h.num (Nat.ne_of_gt (List.length_pos_of_mem (List.mem_of_getLast? hlast)))
  cases hs : scheduler stray s with
  | none => rfl
  | some s' =>
      obtain ⟨t', ht', -⟩ := scheduler_spec hne hs
      have hused := (h.slot_isSome s.manager.currentTask.toNat).mp (Option.isSome_of_eq_some ht')
      rw [h.cur t hlast] at hused
      omega

/-- Where stray stores fault, two calls in a row never return. -/
theorem Follows.no_second_tick {history : List Op} {s s₁ : Threads} (h : Follows history s)
    (hroom : adds history ≤ 256) (hne : adds history ≠ 0) (h₁ : scheduler .faults s = some s₁) :
    scheduler .faults s₁ = none := by
  have hsafe : SafeTick s.manager := (scheduler_faults_isSome s).mp (Option.isSome_of_eq_some h₁)
  have hfollows := h.tick hroom ((h.safeTick_iff hroom).mp hsafe) h₁
  cases h₂ : scheduler .faults s₁ with
  | none => rfl
  | some s₂ =>
      have hsafe₁ : SafeTick s₁.manager :=
        (scheduler_faults_isSome s₁).mp (Option.isSome_of_eq_some h₂)
      have hroom₁ : adds (history ++ [.tick]) ≤ 256 := by
        rw [adds_snoc_tick]
        exact hroom
      have hzero := tickAllowed_snoc_tick.mp ((hfollows.safeTick_iff hroom₁).mp hsafe₁)
      rw [adds_snoc_tick] at hzero
      exact absurd hzero hne

/-- So where stray stores fault, the tasks added never all run. -/
theorem Follows.run_faults {history : List Op} {s : Threads} (h : Follows history s)
    (hroom : adds history ≤ 256) (hne : adds history ≠ 0) :
    schedulerRun .faults (adds history) s = none := by
  cases hrun : schedulerRun .faults (adds history) s with
  | none => rfl
  | some s' =>
      obtain ⟨m, hm⟩ := Nat.exists_eq_succ_of_ne_zero hne
      rw [hm, schedulerRun_succ] at hrun
      obtain ⟨s₁, h₁, hrest⟩ := Option.bind_eq_some_iff.mp hrun
      have hsafe : SafeTick s.manager := (scheduler_faults_isSome s).mp (Option.isSome_of_eq_some h₁)
      cases (h.safeTick_iff hroom).mp hsafe with
      | inl hzero => exact absurd hzero hne
      | inr hlast =>
          obtain ⟨earlier, t, -, hp, -⟩ := hlast
          -- a first call that returns leaves at least one more to come
          obtain ⟨k, hk⟩ := Nat.exists_eq_succ_of_ne_zero (show m ≠ 0 by omega)
          rw [hk, schedulerRun_succ, h.no_second_tick hroom hne h₁] at hrest
          cases hrest

theorem Rotating.runsOnce {ts : List Task} {p : Nat} {start : Clock}
    (h : Rotating ts p 0 start.threads) (hstart : start.fired = 0) (hlen : ts.length ≤ 256)
    (hpids : (ts.map Task.pid).Nodup) : RunsOnce .harmless start ts where
  fires := by
    obtain ⟨n, c, hrun, hfired, -⟩ := h.fires hstart hlen (Nat.le_refl ts.length)
    exact ⟨n, c, hrun, hfired⟩
  once := by
    intro n c hrun hfired
    obtain ⟨s', hcalls, hs'⟩ := h.run hlen (Nat.le_refl ts.length)
    have hthreads : schedulerRun .harmless c.fired start.threads = some c.threads := by
      apply timerRun_threads _ hrun
      rw [hstart]
      rfl
    rw [hfired, hcalls] at hthreads
    cases hthreads
    obtain ⟨hcount, hlength, hrem⟩ := hs'.all_called hpids
    refine ⟨hcount, hlength, hrem, fun k => ?_⟩
    obtain ⟨c', hrun', hsame⟩ := timerRun_idle hrem k
    exact ⟨c', hrun', by rw [hsame]⟩

theorem runsOnce_nil (stray : StrayStore) (ticks : Int32) :
    RunsOnce stray ⟨ticks, Threads.boot, 0⟩ [] where
  fires := ⟨0, _, rfl, rfl⟩
  once := by
    intro n c hrun _
    obtain ⟨c', hrun', hsame⟩ := timerRun_idle (c := ⟨ticks, Threads.boot, 0⟩) rfl n
    rw [hrun] at hrun'
    cases hrun'
    rw [hsame]
    refine ⟨fun t ht => absurd ht List.not_mem_nil, rfl, rfl, fun k => ?_⟩
    obtain ⟨c', hrun', hsame'⟩ := timerRun_idle (c := c) (by rw [hsame]; rfl) k
    exact ⟨c', hrun', by rw [hsame', hsame]⟩

/-- **Every task runs exactly once** when there is none; or when stray stores do no harm and the PID
added last, taken as an index, is that of a slot in use. -/
theorem runsOnce_iff (stray : StrayStore) (ticks : Int32) (ts : List Task) (hlen : ts.length ≤ 256)
    (hpids : (ts.map Task.pid).Nodup) :
    (∃ s, addTasks Threads.boot ts = some s ∧ RunsOnce stray ⟨ticks, s, 0⟩ ts) ↔
      ts = [] ∨ stray = .harmless ∧ ∃ t, ts.getLast? = some t ∧ t.pid.toNat < ts.length := by
  obtain ⟨s, hadd, hloaded, hfollows⟩ := load ts hlen
  cases hlast : ts.getLast? with
  | none =>
      rw [List.getLast?_eq_none_iff] at hlast
      subst hlast
      cases hadd
      exact ⟨fun _ => Or.inl rfl, fun _ => ⟨_, rfl, runsOnce_nil stray ticks⟩⟩
  | some t =>
      have hne : ts ≠ [] := by
        intro hnil
        rw [hnil] at hlast
        cases hlast
      have hadds := adds_map_add ts
      constructor
      · intro hruns
        obtain ⟨s', hadd', hruns⟩ := hruns
        rw [hadd] at hadd'
        cases hadd'
        obtain ⟨n, c, hrun, hfired⟩ := hruns.fires
        have hcalls : schedulerRun stray ts.length s = some c.threads := by
          rw [← hfired]
          exact timerRun_threads rfl hrun
        have hp : t.pid.toNat < ts.length := by
          by_contra hge
          obtain ⟨m, hm⟩ := Nat.exists_eq_succ_of_ne_zero (mt List.length_eq_zero_iff.mp hne)
          rw [hm, schedulerRun_succ, hloaded.stuck hlast (Nat.le_of_not_lt hge)] at hcalls
          cases hcalls
        cases stray with
        | harmless => exact Or.inr ⟨rfl, t, rfl, hp⟩
        | faults =>
            have hstuck := hfollows.run_faults (hadds.trans_le hlen)
              (by rw [hadds]; exact mt List.length_eq_zero_iff.mp hne)
            rw [hadds, hcalls] at hstuck
            cases hstuck
      · intro hcond
        obtain ⟨hstray, t', ht', hp⟩ := hcond.resolve_left hne
        cases ht'
        subst hstray
        have hrotating : Rotating ts t.pid.toNat 0 (Clock.threads ⟨ticks, s, 0⟩) :=
          hloaded.rotating hlast hp
        exact ⟨s, hadd, hrotating.runsOnce rfl hlen hpids⟩

theorem add_tests_runsOnce :
    (∃ s, addTasks Threads.boot [testA, testB] = some s ∧
      RunsOnce .harmless ⟨0, s, 0⟩ [testA, testB]) ↔
      [testA, testB] = [] ∨ StrayStore.harmless = .harmless ∧
        ∃ t, [testA, testB].getLast? = some t ∧ t.pid.toNat < [testA, testB].length :=
  runsOnce_iff .harmless 0 [testA, testB] (by decide) (by decide)

/-- One task, with a PID that is not the index of its slot. -/
theorem oneTask_not_runsOnce : ¬ ∃ s, addTasks Threads.boot [testB] = some s ∧
    RunsOnce .harmless ⟨0, s, 0⟩ [testB] := by
  intro hruns
  obtain ⟨s, hadd, hruns⟩ := hruns
  obtain ⟨s', hadd', hloaded, -⟩ := load [testB] (by decide)
  rw [hadd] at hadd'
  cases hadd'
  obtain ⟨n, c, hrun, hfired⟩ := hruns.fires
  have hcalls : schedulerRun .harmless c.fired s = some c.threads := timerRun_threads rfl hrun
  rw [hfired, List.length_singleton, schedulerRun_succ,
    hloaded.stuck (t := testB) rfl (by decide)] at hcalls
  cases hcalls

end Neutrino.System
