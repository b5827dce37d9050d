import Neutrino.System.Multithreading

/-!
# Looking a task up by its PID

`get_task` and `remove_task_by_pid` share a binary search. It returns an index it has just read
(`search_ok`), so what it finds is right; but it reads its way there through every slot it compares
with. A removal leaves `num_tasks` and the other slots alone, so the next search for the same PID
takes the same way and reads the slot that is now empty (`search_cleared`). And in a table without
tasks the first slot it reads is empty already.
-/

namespace Neutrino.System

open Neutrino.Lib

/-- The manager stores a task with this PID. -/
def Stores (m : TaskManager) (pid : UInt32) (t : Task) : Prop :=
  t.pid = pid ∧ ∃ index, m.task index = some t

/-- For this PID the manager is a map: the lookup returns the task with it if there is one and nothing
otherwise; a removal takes it out, and leaves the lookup of every other PID as it was. -/
structure LookupRight (m : TaskManager) (pid : UInt32) : Prop where
  lookup : ∃ fuel r, getTask fuel m pid = .ok r ∧
    (∀ t, r = some t → Stores m pid t) ∧ (r = none → ∀ t, ¬ Stores m pid t)
  removal : ∃ fuel m', removeTaskByPid fuel m pid = .ok m' ∧
    (∃ fuel, getTask fuel m' pid = .ok none) ∧
    ∀ other, other ≠ pid → ∀ fuel, getTask fuel m' other = getTask fuel m other

/-- Halving the window by comparing with tasks, each time in a slot that has one, leaves it empty. -/
inductive WindowCloses (m : TaskManager) (pid : UInt32) : UInt32 → UInt32 → Prop where
  | closed {start stop : UInt32} (h : ¬ start ≤ stop) : WindowCloses m pid start stop
  | right {start stop : UInt32} {t : Task} (h : start ≤ stop)
      (ht : m.task (start + (stop - 1) / 2) = some t) (hlt : t.pid < pid)
      (hrest : WindowCloses m pid (start + (stop - 1) / 2 + 1) stop) : WindowCloses m pid start stop
  | left {start stop : UInt32} {t : Task} (h : start ≤ stop)
      (ht : m.task (start + (stop - 1) / 2) = some t) (hgt : pid < t.pid)
      (hrest : WindowCloses m pid start (start + (stop - 1) / 2 - 1)) : WindowCloses m pid start stop

section Search

variable {m : TaskManager} {fuel : Nat} {start stop pid r : UInt32}

/-! ## One comparison -/

theorem search_exit (h : ¬ start ≤ stop) :
    taskManagerBinarySearch m (fuel + 1) start stop pid = .ok 0xFF := by
  unfold taskManagerBinarySearch
  rw [if_neg h]

theorem search_fault (h : start ≤ stop) (ht : m.task (start + (stop - 1) / 2) = none) :
    taskManagerBinarySearch m (fuel + 1) start stop pid = .error .fault := by
  unfold taskManagerBinarySearch
  rw [if_pos h]
  dsimp only
  rw [ht]

theorem search_compare {t : Task} (h : start ≤ stop)
    (ht : m.task (start + (stop - 1) / 2) = some t) :
    taskManagerBinarySearch m (fuel + 1) start stop pid =
      if t.pid = pid then .ok (start + (stop - 1) / 2)
      else if t.pid < pid then
        taskManagerBinarySearch m fuel (start + (stop - 1) / 2 + 1) stop pid
      else taskManagerBinarySearch m fuel start (start + (stop - 1) / 2 - 1) pid := by
  conv_lhs => unfold taskManagerBinarySearch
  rw [if_pos h]
  dsimp only
  rw [ht]

/-- **One round of a search that returns.** -/
theorem search_round (h : taskManagerBinarySearch m (fuel + 1) start stop pid = .ok r) :
    (¬ start ≤ stop ∧ r = 0xFF) ∨
    ∃ t, start ≤ stop ∧ m.task (start + (stop - 1) / 2) = some t ∧
      ((t.pid = pid ∧ r = start + (stop - 1) / 2) ∨
        (t.pid < pid ∧
          taskManagerBinarySearch m fuel (start + (stop - 1) / 2 + 1) stop pid = .ok r) ∨
        (pid < t.pid ∧
          taskManagerBinarySearch m fuel start (start + (stop - 1) / 2 - 1) pid = .ok r)) := by
  by_cases hle : start ≤ stop
  · cases ht : m.task (start + (stop - 1) / 2) with
    | none =>
        rw [search_fault hle ht] at h
        cases h
    | some t =>
        refine Or.inr ⟨t, hle, rfl, ?_⟩
        rw [search_compare hle ht] at h
        split at h
        · next heq =>
          cases h
          exact Or.inl ⟨heq, rfl⟩
        · next hne =>
          split at h
          · next hlt => exact Or.inr (Or.inl ⟨hlt, h⟩)
          · next hge =>
            have hgt : pid < t.pid := by
              rw [UInt32.lt_iff_toNat_lt] at hge ⊢
              exact Nat.lt_of_le_of_ne (Nat.le_of_not_lt hge)
                fun heq => hne (UInt32.toNat.inj heq).symm
            exact Or.inr (Or.inr ⟨hgt, h⟩)
  · rw [search_exit hle] at h
    cases h
    exact Or.inl ⟨hle, rfl⟩

/-! ## Whole searches -/

/-- More fuel does not change an answer. -/
theorem search_mono {x : Except SearchStop UInt32} (hx : x ≠ .error .outOfFuel)
    (h : taskManagerBinarySearch m fuel start stop pid = x) (more : Nat) :
    taskManagerBinarySearch m (fuel + more) start stop pid = x := by
  induction fuel generalizing start stop with
  | zero => exact absurd h.symm hx
  | succ fuel ih =>
      rw [Nat.succ_add]
      by_cases hle : start ≤ stop
      · cases ht : m.task (start + (stop - 1) / 2) with
        | none =>
            rw [search_fault hle ht] at h
            rw [search_fault hle ht, h]
        | some t =>
            rw [search_compare hle ht] at h ⊢
            split at h
            · next heq => rw [if_pos heq, h]
            · next hne =>
              rw [if_neg hne]
              split at h
              · next hlt => rw [if_pos hlt, ih h]
              · next hge => rw [if_neg hge, ih h]
      · rw [search_exit hle] at h
        rw [search_exit hle, h]

theorem ok_ne_outOfFuel (r : UInt32) : (.ok r : Except SearchStop UInt32) ≠ .error .outOfFuel := by
  intro h
  cases h

/-- Two runs of one search agree. -/
theorem search_unique {fuel' : Nat} {x y : Except SearchStop UInt32} (hx : x ≠ .error .outOfFuel)
    (hy : y ≠ .error .outOfFuel) (h : taskManagerBinarySearch m fuel start stop pid = x)
    (h' : taskManagerBinarySearch m fuel' start stop pid = y) : x = y := by
  have hlong := search_mono hx h fuel'
  rw [Nat.add_comm, search_mono hy h' fuel] at hlong
  exact hlong.symm

/-- **What is returned was found**, or is the code for nothing found. -/
theorem search_ok (h : taskManagerBinarySearch m fuel start stop pid = .ok r) :
    r = 0xFF ∨ ∃ t, m.task r = some t ∧ t.pid = pid := by
  induction fuel generalizing start stop with
  | zero => cases h
  | succ fuel ih =>
      rcases search_round h with
        ⟨-, hr⟩ | ⟨t, -, ht, ⟨heq, rfl⟩ | ⟨-, hright⟩ | ⟨-, hleft⟩⟩
      · exact Or.inl hr
      · exact Or.inr ⟨t, ht, heq⟩
      · exact ih hright
      · exact ih hleft

/-- A task with another PID than the one found stays when that one's slot is emptied. -/
theorem task_cleared {i : UInt32} {t : Task} (hr : r ≠ 0xFF)
    (h : taskManagerBinarySearch m fuel start stop pid = .ok r) (ht : m.task i = some t)
    (hne : t.pid ≠ pid) :
    TaskManager.task { m with tasks := m.tasks.put r.toNat none } i = some t := by
  obtain ⟨t', ht', hpid'⟩ := (search_ok h).resolve_left hr
  have hindex : r.toNat ≠ i.toNat := by
    intro heq
    rw [UInt32.toNat.inj heq, ht] at ht'
    cases ht'
    exact hne hpid'
  exact (SlotTable.slot_put_ne _ hindex _).trans ht

/-- **The way to an empty slot.** A search that found slot `r` reads the very same slots once `r` has
been emptied, and ends in `r`. -/
theorem search_cleared (hr : r ≠ 0xFF)
    (h : taskManagerBinarySearch m fuel start stop pid = .ok r) :
    taskManagerBinarySearch { m with tasks := m.tasks.put r.toNat none } fuel start stop pid =
      .error .fault := by
  induction fuel generalizing start stop with
  | zero => cases h
  | succ fuel ih =>
      rcases search_round h with
        ⟨-, hexit⟩ | ⟨t, hle, ht, ⟨-, rfl⟩ | ⟨hlt, hright⟩ | ⟨hgt, hleft⟩⟩
      · exact absurd hexit hr
      · exact search_fault hle (SlotTable.slot_put_none _ _)
      · rw [search_compare hle (task_cleared hr hright ht (UInt32.ne_of_lt hlt)),
          if_neg (UInt32.ne_of_lt hlt), if_pos hlt]
        exact ih hright
      · rw [search_compare hle (task_cleared hr hleft ht (UInt32.ne_of_lt hgt).symm),
          if_neg (UInt32.ne_of_lt hgt).symm, if_neg (UInt32.lt_asymm hgt)]
        exact ih hleft

/-- In a table without tasks no search gets past its first slot. -/
theorem search_empty (hempty : ∀ index, m.task index = none) :
    taskManagerBinarySearch m (fuel + 1) 0 stop pid = .error .fault :=
  search_fault (UInt32.le_iff_toNat_le.mpr (Nat.zero_le _)) (hempty _)

end Search

/-! ## `get_task` and `remove_task_by_pid` -/

section Lookup

variable {m m' : TaskManager} {fuel : Nat} {pid : UInt32}

/-- What both do with the result of the search. -/
theorem searched_ok {α : Type} {search : Except SearchStop UInt32} {missing r : α}
    {found : UInt32 → α}
    (h : (do let i ← search; if i = 0xFF then return missing else return found i) = Except.ok r) :
    ∃ i, search = .ok i ∧ r = if i = 0xFF then missing else found i := by
  cases hs : search with
  | error e =>
      rw [hs] at h
      cases h
  | ok i =>
      rw [hs] at h
      refine ⟨i, rfl, ?_⟩
      change (if i = 0xFF then Except.ok missing else Except.ok (found i)) = _ at h
      by_cases hi : i = 0xFF
      · rw [if_pos hi] at h ⊢
        exact (Except.ok.inj h).symm
      · rw [if_neg hi] at h ⊢
        exact (Except.ok.inj h).symm

theorem getTask_ok {r : Option Task} (h : getTask fuel m pid = .ok r) :
    ∃ i, taskManagerBinarySearch m fuel 0 m.numTasks pid = .ok i ∧
      r = if i = 0xFF then none else m.task i := searched_ok h

theorem removeTaskByPid_ok (h : removeTaskByPid fuel m pid = .ok m') :
    ∃ i, taskManagerBinarySearch m fuel 0 m.numTasks pid = .ok i ∧
      m' = if i = 0xFF then m else { m with tasks := m.tasks.put i.toNat none } := searched_ok h

/-- **Found, then removed, then sought**: a PID that `get_task` finds and `remove_task_by_pid` removes
is never looked up successfully again. -/
theorem getTask_after_remove {t : Task} (hget : getTask fuel m pid = .ok (some t)) {fuel' : Nat}
    (hremove : removeTaskByPid fuel' m pid = .ok m') (n : Nat) (r : Option Task) :
    getTask n m' pid ≠ .ok r := by
  intro hagain
  obtain ⟨i, hi, hfound⟩ := getTask_ok hget
  have hne : i ≠ 0xFF := by
    intro heq
    rw [if_pos heq] at hfound
    cases hfound
  obtain ⟨j, hj, hm'⟩ := removeTaskByPid_ok hremove
  have hij := search_unique (ok_ne_outOfFuel i) (ok_ne_outOfFuel j) hi hj
  cases hij
  rw [if_neg hne] at hm'
  subst hm'
  obtain ⟨k, hk, -⟩ := getTask_ok hagain
  have hclash := search_unique (by decide) (ok_ne_outOfFuel k) (search_cleared hne hi) hk
  cases hclash

theorem getTask_of_empty (hempty : ∀ index, m.task index = none) (r : Option Task) :
    getTask fuel m pid ≠ .ok r := by
  intro h
  obtain ⟨i, hi, -⟩ := getTask_ok h
  cases fuel with
  | zero => cases hi
  | succ fuel =>
      rw [search_empty hempty] at hi
      cases hi

end Lookup

/-! ## PIDs that are not stored -/

section Absent

variable {m : TaskManager} {fuel : Nat} {start stop pid : UInt32}

theorem search_of_windowCloses (h : WindowCloses m pid start stop) :
    ∃ fuel, taskManagerBinarySearch m fuel start stop pid = .ok 0xFF := by
  induction h with
  | closed h => exact ⟨1, search_exit h⟩
  | right h ht hlt _ ih =>
      obtain ⟨fuel, hrest⟩ := ih
      refine ⟨fuel + 1, ?_⟩
      rw [search_compare h ht, if_neg (UInt32.ne_of_lt hlt), if_pos hlt, hrest]
  | left h ht hgt _ ih =>
      obtain ⟨fuel, hrest⟩ := ih
      refine ⟨fuel + 1, ?_⟩
      rw [search_compare h ht, if_neg (UInt32.ne_of_lt hgt).symm,
        if_neg (UInt32.lt_asymm hgt), hrest]

theorem windowCloses_of_search (habsent : ∀ t, ¬ Stores m pid t)
    (h : taskManagerBinarySearch m fuel start stop pid = .ok 0xFF) :
    WindowCloses m pid start stop := by
  induction fuel generalizing start stop with
  | zero => cases h
  | succ fuel ih =>
      rcases search_round h with
        ⟨hexit, -⟩ | ⟨t, hle, ht, ⟨heq, -⟩ | ⟨hlt, hright⟩ | ⟨hgt, hleft⟩⟩
      · exact WindowCloses.closed hexit
      · exact absurd ⟨heq, _, ht⟩ (habsent t)
      · exact WindowCloses.right hle ht hlt (ih hright)
      · exact WindowCloses.left hle ht hgt (ih hleft)

theorem search_absent {r : UInt32} (habsent : ∀ t, ¬ Stores m pid t)
    (h : taskManagerBinarySearch m fuel start stop pid = .ok r) : r = 0xFF := by
  apply (search_ok h).resolve_right
  intro hfound
  obtain ⟨t, ht, heq⟩ := hfound
  exact habsent t ⟨heq, _, ht⟩

end Absent

/-- A stored PID cannot both be found and, after its removal, be reported missing. -/
theorem LookupRight.not_stored {m : TaskManager} {pid : UInt32} (h : LookupRight m pid) (t : Task) :
    ¬ Stores m pid t := by
  intro hstored
  obtain ⟨fuel, r, hget, -, hnone⟩ := h.lookup
  cases r with
  | none => exact hnone rfl t hstored
  | some found =>
      obtain ⟨fuel', m', hremove, hgone, -⟩ := h.removal
      obtain ⟨n, hagain⟩ := hgone
      exact getTask_after_remove hget hremove n none hagain

/-- **The lookup is right** for those PIDs only that no task has, and of these for those whose search
reads no empty slot on its way out of the table. In every manager it is wrong for some PID. -/
theorem lookupRight_iff (m : TaskManager) :
    (∀ pid, LookupRight m pid ↔
      (∀ t, ¬ Stores m pid t) ∧ WindowCloses m pid 0 m.numTasks) ∧
    ∃ pid, ¬ LookupRight m pid := by
  refine ⟨fun pid => ⟨fun h => ?_, fun h => ?_⟩, ?_⟩
  · refine ⟨h.not_stored, ?_⟩
    obtain ⟨fuel, r, hget, -⟩ := h.lookup
    obtain ⟨i, hi, -⟩ := getTask_ok hget
    rw [search_absent h.not_stored hi] at hi
    exact windowCloses_of_search h.not_stored hi
  · obtain ⟨habsent, hcloses⟩ := h
    obtain ⟨fuel, hsearch⟩ := search_of_windowCloses hcloses
    have hget : getTask fuel m pid = .ok none := by
      unfold getTask
      rw [hsearch]
      rfl
    have hremove : removeTaskByPid fuel m pid = .ok m := by
      unfold removeTaskByPid
      rw [hsearch]
      rfl
    refine ⟨⟨fuel, none, hget, ?_, fun _ => habsent⟩, ⟨fuel, m, hremove, ⟨fuel, hget⟩, ?_⟩⟩
    · intro t ht
      cases ht
    · exact fun _ _ _ => rfl
  · by_cases hstored : ∃ index t, m.task index = some t
    · obtain ⟨index, t, ht⟩ := hstored
      exact ⟨t.pid, fun h => h.not_stored t ⟨rfl, index, ht⟩⟩
    · have hempty : ∀ index, m.task index = none := by
        intro index
        rw [← Option.not_isSome_iff_eq_none]
        intro hsome
        obtain ⟨t, ht⟩ := Option.isSome_iff_exists.mp hsome
        exact hstored ⟨index, t, ht⟩
      refine ⟨0, fun h => ?_⟩
      obtain ⟨fuel, r, hget, -⟩ := h.lookup
      exact getTask_of_empty hempty r hget

/-- After `add_tests` a lookup of PID 2 reads slot 2. -/
theorem add_tests_lookup : ∃ s₁ s₂, addTask 0 Threads.boot testA = some s₁ ∧
    addTask 0 s₁ testB = some s₂ ∧ ¬ ∀ pid, LookupRight s₂.manager pid := by
  have hrun : ((addTask 0 Threads.boot testA).bind fun s => addTask 0 s testB).map
      (fun s => taskManagerBinarySearch s.manager 3 0 s.manager.numTasks 2) =
        some (.error .fault) := by
    decide +kernel
  obtain ⟨s₂, hadds, hfault⟩ := Option.map_eq_some_iff.mp hrun
  obtain ⟨s₁, h₁, h₂⟩ := Option.bind_eq_some_iff.mp hadds
  refine ⟨s₁, s₂, h₁, h₂, fun h => ?_⟩
  obtain ⟨fuel, r, hget, -⟩ := (h 2).lookup
  obtain ⟨i, hi, -⟩ := getTask_ok hget
  have hclash := search_unique (ok_ne_outOfFuel i) (by decide) hi hfault
  cases hclash

end Neutrino.System
