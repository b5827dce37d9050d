import Neutrino.Lib.Run
import Neutrino.System.TaskLookup

/-!
# The counters of the task table

`num_tasks` and the global `rem_tasks` are both meant to be the number of slots in use. `add_task`
raises both with it. No other operation moves all three together: `remove_task` and
`remove_task_by_pid` touch no counter, the scheduler lowers `rem_tasks` alone, `clear_manager` resets
`num_tasks` alone; and `add_task`, whose search starts at an index nothing initialises, goes on behind
the table where it meets no free slot. So the counters are right exactly as long as the others change
nothing and `add_task` finds its slot.
-/

namespace Neutrino.System

open Neutrino.Lib

/-- Both counters are the number of slots in use. -/
structure Counted (s : Threads) : Prop where
  num : s.manager.numTasks.toNat = s.manager.tasks.occupied
  rem : s.remTasks.toNat = s.manager.tasks.occupied

inductive TableCall where
  | add (start : UInt32) (t : Task)
  | remove (index : UInt32)
  | removeByPid (pid : UInt32)
  | clear
  | schedule
  deriving DecidableEq, Repr

/-- `tasks[start]`: the address is computed modulo `2 ^ 32`, so the table comes again every `2 ^ 30`
indices. -/
def firstIndex (start : UInt32) : UInt32 := start % 0x40000000

/-- The search of `add_task` meets a free slot before the end of the table. -/
def FindsSlot (s : Threads) (start : UInt32) : Prop :=
  (s.manager.tasks.firstFree (firstIndex start).toNat).isSome

/-- What `add_task` does if its search, from `start` on, leaves the table: it takes the first word
behind it that is zero. `num_tasks` and `current_task` come first, then the rest of memory, which has
zero words (the kernel's own interrupt table has). -/
inductive AddsBehind (start : Nat) (t : Task) (s : Threads) : Threads → Prop where
  /-- The task's address is the new `num_tasks`, and counted up; `tasks[256]->pid` is read there. -/
  | numTasks (addr pid : UInt32) (hstart : start ≤ 256) (hzero : s.manager.numTasks = 0) :
      AddsBehind start t s
        { s with
          manager := ⟨s.manager.tasks, addr + 1, pid⟩
          remTasks := s.remTasks + 1 }
  | currentTask (hstart : start ≤ 257) (hnum : start ≤ 256 → s.manager.numTasks ≠ 0)
      (hzero : s.manager.currentTask = 0) :
      AddsBehind start t s
        { s with
          manager := ⟨s.manager.tasks, s.manager.numTasks + 1, t.pid⟩
          remTasks := s.remTasks + 1 }
  | remTasks (addr : UInt32) (hnum : start ≤ 256 → s.manager.numTasks ≠ 0)
      (hcurrent : start ≤ 257 → s.manager.currentTask ≠ 0) (hzero : s.remTasks = 0) :
      AddsBehind start t s
        { s with
          manager := ⟨s.manager.tasks, s.manager.numTasks + 1, t.pid⟩
          remTasks := addr + 1 }
  /-- The word may be a field of a task, this one's included. -/
  | elsewhere (tasks : SlotTable Task 256) (pid : UInt32)
      (hnum : start ≤ 256 → s.manager.numTasks ≠ 0)
      (hcurrent : start ≤ 257 → s.manager.currentTask ≠ 0)
      (hslots : ∀ k, (tasks.slot k).isSome = (s.manager.tasks.slot k).isSome) :
      AddsBehind start t s
        { s with
          manager := ⟨tasks, s.manager.numTasks + 1, pid⟩
          remTasks := s.remTasks + 1 }

/-- The call returns, and leaves `s'`. `remove_task` is called on slots in use only. -/
def TableStep (stray : StrayStore) (s : Threads) : TableCall → Threads → Prop
  | .add start t, s' => addTask (firstIndex start) s t = some s' ∨
      (s.manager.numTasks ≠ 256 ∧ ¬ FindsSlot s start ∧ AddsBehind (firstIndex start).toNat t s s')
  | .remove index, s' => (s.manager.task index).isSome ∧
      ∃ m, removeTask s.manager index = some m ∧ s' = { s with manager := m }
  | .removeByPid pid, s' => ∃ fuel m, removeTaskByPid fuel s.manager pid = .ok m ∧
      s' = { s with manager := m }
  | .clear, s' => s' = { s with manager := clearManager s.manager }
  | .schedule, s' => scheduler stray s = some s'

/-- The call adds a task to a slot of the table, or finds nothing to do. -/
def Balanced (s : Threads) : TableCall → Threads → Prop
  | .add start _, _ => s.manager.numTasks = 256 ∨ FindsSlot s start
  | .remove _, _ => False
  | .removeByPid pid, _ =>
      ∃ fuel, taskManagerBinarySearch s.manager fuel 0 s.manager.numTasks pid = .ok 0xFF
  | .clear, _ => s.manager.numTasks = 0
  | .schedule, _ => s.manager.numTasks = 0

namespace Counted

variable {s s' : Threads} {stray : StrayStore}

/-! ## What the counters report -/

theorem full_iff (h : Counted s) : managerFull s.manager ↔ s.manager.tasks.occupied = 256 := by
  unfold managerFull
  rw [decide_eq_true_eq, ← h.num, ← UInt32.toNat_inj]
  rfl

theorem empty_iff (h : Counted s) : managerEmpty s.manager ↔ s.manager.tasks.occupied = 0 := by
  unfold managerEmpty
  rw [decide_eq_true_eq, ← h.num, ← UInt32.toNat_inj]
  rfl

/-- The test the timer makes. -/
theorem rem_pos_iff (h : Counted s) : 0 < s.remTasks ↔ 0 < s.manager.tasks.occupied := by
  rw [← h.rem, UInt32.lt_iff_toNat_lt, UInt32.toNat_zero]

/-! ## Calls that keep them right -/

theorem boot : Counted Threads.boot where
  num := SlotTable.occupied_empty.symm
  rem := SlotTable.occupied_empty.symm

theorem add (h : Counted s) {start : UInt32} {t : Task} (hadd : addTask start s t = some s') :
    Counted s' := by
  by_cases hfull : s.manager.numTasks = 256
  · rw [addTask_full hfull] at hadd
    cases hadd
    exact h
  · obtain ⟨k, hk, rfl⟩ := addTask_spec hfull hadd
    obtain ⟨hlt, hfree, -⟩ := SlotTable.firstFree_spec hk
    have hoccupied := SlotTable.occupied_fill s.manager.tasks hlt hfree { t with state := .ready }
    have hle := SlotTable.occupied_le (s.manager.tasks.put k (some { t with state := .ready }))
    have hnum := h.num
    have hrem := h.rem
    refine ⟨?_, ?_⟩
    · dsimp only
      rw [hoccupied, UInt32.toNat_add, hnum, UInt32.toNat_one]
      omega
    · dsimp only
      rw [hoccupied, UInt32.toNat_add, hrem, UInt32.toNat_one]
      omega

theorem balanced (h : Counted s) {e : TableCall} (hstep : TableStep stray s e s')
    (hok : Balanced s e s') : Counted s' := by
  cases e with
  | add start t =>
      rcases hstep with hadd | ⟨hroom, hleaves, -⟩
      · exact h.add hadd
      · exact absurd hok (not_or_intro hroom hleaves)
  | remove index => exact hok.elim
  | removeByPid pid =>
      obtain ⟨fuel, hnone⟩ := hok
      obtain ⟨fuel', m, hremove, rfl⟩ := hstep
      obtain ⟨i, hi, hm⟩ := removeTaskByPid_ok hremove
      have heq := search_unique (ok_ne_outOfFuel _) (ok_ne_outOfFuel _) hnone hi
      cases heq
      rw [if_pos rfl] at hm
      subst hm
      exact h
  | clear =>
      change s.manager.numTasks = 0 at hok
      change s' = _ at hstep
      subst hstep
      unfold clearManager
      rw [if_pos (show managerEmpty s.manager from decide_eq_true hok)]
      exact h
  | schedule =>
      change scheduler stray s = some s' at hstep
      rw [scheduler_idle hok] at hstep
      cases hstep
      exact h

/-! ## Calls that do not -/

/-- A slot is emptied behind the back of `num_tasks`. -/
theorem not_of_clear (h : Counted s) {index : UInt32} {t : Task}
    (ht : s.manager.task index = some t) (hnum : s'.manager.numTasks = s.manager.numTasks)
    (hslots : s'.manager.tasks.occupied = (s.manager.tasks.put index.toNat none).occupied) :
    ¬ Counted s' := by
  intro h'
  have hoccupied : (s.manager.tasks.put index.toNat none).occupied + 1 =
      s.manager.tasks.occupied := SlotTable.occupied_clear ht
  have hnow := h'.num
  rw [hnum, hslots, h.num] at hnow
  omega

/-- A counter is raised without a slot. -/
theorem not_of_raise (h : Counted s)
    (hslots : s'.manager.tasks.occupied = s.manager.tasks.occupied)
    (hraise : s'.manager.numTasks = s.manager.numTasks + 1 ∨ s'.remTasks = s.remTasks + 1) :
    ¬ Counted s' := by
  intro h'
  have hle := SlotTable.occupied_le s.manager.tasks
  rcases hraise with hnum | hrem
  · have hnow := h'.num
    rw [hnum, hslots, UInt32.toNat_add, h.num, UInt32.toNat_one] at hnow
    omega
  · have hnow := h'.rem
    rw [hrem, hslots, UInt32.toNat_add, h.rem, UInt32.toNat_one] at hnow
    omega

theorem not_of_addsBehind (h : Counted s) {start : Nat} {t : Task}
    (hadd : AddsBehind start t s s') : ¬ Counted s' := by
  cases hadd with
  | numTasks addr pid hstart hzero => exact h.not_of_raise rfl (Or.inr rfl)
  | currentTask hstart hnum hzero => exact h.not_of_raise rfl (Or.inl rfl)
  | remTasks addr hnum hcurrent hzero => exact h.not_of_raise rfl (Or.inl rfl)
  | elsewhere tasks pid hnum hcurrent hslots =>
      exact h.not_of_raise (SlotTable.occupied_congr hslots) (Or.inl rfl)

theorem not_of_not_balanced (h : Counted s) {e : TableCall} (hstep : TableStep stray s e s')
    (hbad : ¬ Balanced s e s') : ¬ Counted s' := by
  cases e with
  | add start t =>
      obtain ⟨hroom, hleaves⟩ := not_or.mp hbad
      rcases hstep with hadd | ⟨-, -, hbehind⟩
      · obtain ⟨k, hk, -⟩ := addTask_spec hroom hadd
        exact absurd (Option.isSome_of_eq_some hk) hleaves
      · exact h.not_of_addsBehind hbehind
  | remove index =>
      obtain ⟨hused, m, hremove, rfl⟩ := hstep
      obtain ⟨t, ht⟩ := Option.isSome_iff_exists.mp hused
      unfold removeTask at hremove
      rw [if_pos (TaskManager.lt_of_task ht)] at hremove
      cases hremove
      exact h.not_of_clear ht rfl rfl
  | removeByPid pid =>
      obtain ⟨fuel, m, hremove, rfl⟩ := hstep
      obtain ⟨i, hi, hm⟩ := removeTaskByPid_ok hremove
      have hne : i ≠ 0xFF := by
        intro heq
        rw [heq] at hi
        exact hbad ⟨fuel, hi⟩
      obtain ⟨t, ht, -⟩ := (search_ok hi).resolve_left hne
      rw [if_neg hne] at hm
      subst hm
      exact h.not_of_clear ht rfl rfl
  | clear =>
      change s' = _ at hstep
      change ¬ s.manager.numTasks = 0 at hbad
      subst hstep
      intro h'
      -- the table is empty now, `rem_tasks` is what it was
      have hrem := h'.rem
      unfold clearManager at hrem
      rw [if_neg (by simpa [managerEmpty] using hbad), SlotTable.occupied_empty] at hrem
      dsimp only at hrem
      rw [h.rem, ← h.num] at hrem
      exact hbad (UInt32.toNat.inj hrem)
  | schedule =>
      obtain ⟨t, ht, -, -, hsame⟩ := scheduler_spec hbad hstep
      apply h.not_of_clear ht hsame.numTasks
      apply SlotTable.occupied_congr
      intro k
      have hcall := congrArg Option.isSome (hsame.call k)
      rwa [Option.isSome_map, Option.isSome_map] at hcall

end Counted

/-- A task is added to the empty table. -/
theorem addTask_boot (t : Task) : ∃ s, addTask 0 Threads.boot t = some s ∧
    s.manager.task 0 = some { t with state := .ready } := by
  have hslot : ∀ k, Threads.boot.manager.tasks.slot k = none := SlotTable.slot_empty
  have hfirst : Threads.boot.manager.tasks.firstFree (0 : UInt32).toNat = some 0 :=
    SlotTable.firstFree_zero (Nat.zero_lt_succ _) (hslot 0) fun k hk => absurd hk (Nat.not_lt_zero k)
  exact ⟨_, addTask_run (by decide) hfirst, SlotTable.slot_put_self _ (Nat.zero_lt_succ _) _⟩

/-- A second task is added behind the first. -/
theorem addTask_second {s : Threads} {t u : Task} (hroom : s.manager.numTasks ≠ 256)
    (hfirst : s.manager.task 0 = some t) (hfree : s.manager.task 1 = none) :
    ∃ s', addTask 0 s u = some s' ∧ s'.manager.task 0 = some t ∧
      s'.manager.task 1 = some { u with state := .ready } ∧
      s'.manager.numTasks = s.manager.numTasks + 1 := by
  have hslot : s.manager.tasks.firstFree (0 : UInt32).toNat = some 1 := by
    refine SlotTable.firstFree_zero (by decide) hfree fun k hk => ?_
    have hk0 : k = 0 := by omega
    rw [hk0]
    exact Option.isSome_of_eq_some hfirst
  refine ⟨_, addTask_run hroom hslot, ?_, ?_, rfl⟩
  · exact (SlotTable.slot_put_ne _ (by decide) _).trans hfirst
  · exact SlotTable.slot_put_self _ (by decide) _

end Neutrino.System
