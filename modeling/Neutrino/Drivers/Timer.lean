import Neutrino.System.Multithreading

/-!
# The timer

`timer_handler` counts ticks and calls the scheduler on every 18th while tasks remain. `timer_ticks`
is an `int` that wraps, so the distance between two calls is not always 18; what the tasks see is the
same: after `k` calls their state is that of `k` scheduler calls in a row (`timerRun_threads`), and as
long as tasks remain the next call comes (`timerRun_fires`).
-/

namespace Neutrino.Drivers

open Neutrino.Lib Neutrino.System

/-- `timer_ticks`, the tasks, and how often the timer has called the scheduler. -/
structure Clock where
  timerTicks : Int32
  threads : Threads
  fired : Nat

def timerHandler (stray : StrayStore) (c : Clock) : Option Clock :=
  if (c.timerTicks + 1) % 18 = 0 then
    if 0 < c.threads.remTasks then do
      let threads ← scheduler stray c.threads
      return ⟨c.timerTicks + 1, threads, c.fired + 1⟩
    else
      some { c with timerTicks := c.timerTicks + 1 }
  else
    some { c with timerTicks := c.timerTicks + 1 }

/-- `n` timer interrupts. -/
def timerRun (stray : StrayStore) : Nat → Clock → Option Clock
  | 0, c => some c
  | n + 1, c => (timerHandler stray c).bind (timerRun stray n)

/-- `n` scheduler calls. -/
def schedulerRun (stray : StrayStore) : Nat → Threads → Option Threads
  | 0, s => some s
  | n + 1, s => (scheduler stray s).bind (schedulerRun stray n)

variable {stray : StrayStore}

/-! ## One interrupt -/

/-- An interrupt that returns counted a tick, and called the scheduler once or left the tasks alone. -/
theorem timerHandler_cases {c c' : Clock} (h : timerHandler stray c = some c') :
    c'.timerTicks = c.timerTicks + 1 ∧
    ((0 < c.threads.remTasks ∧ scheduler stray c.threads = some c'.threads ∧
      c'.fired = c.fired + 1) ∨ (c'.threads = c.threads ∧ c'.fired = c.fired)) := by
  unfold timerHandler at h
  split at h
  · split at h
    · next hrem =>
      obtain ⟨threads, hs, hc'⟩ := Option.bind_eq_some_iff.mp h
      cases hc'
      exact ⟨rfl, Or.inl ⟨hrem, hs, rfl⟩⟩
    · cases h
      exact ⟨rfl, Or.inr ⟨rfl, rfl⟩⟩
  · cases h
    exact ⟨rfl, Or.inr ⟨rfl, rfl⟩⟩

/-- Without tasks to run the timer only counts. -/
theorem timerHandler_idle {c : Clock} (h : c.threads.remTasks = 0) :
    timerHandler stray c = some { c with timerTicks := c.timerTicks + 1 } := by
  unfold timerHandler
  rw [h, if_neg (UInt32.lt_irrefl 0)]
  split
  · rfl
  · rfl

theorem timerHandler_off {c : Clock} (h : (c.timerTicks + 1) % 18 ≠ 0) :
    timerHandler stray c = some { c with timerTicks := c.timerTicks + 1 } := by
  unfold timerHandler
  rw [if_neg h]

theorem timerHandler_fires {c : Clock} {s : Threads} (h : (c.timerTicks + 1) % 18 = 0)
    (hrem : 0 < c.threads.remTasks) (hs : scheduler stray c.threads = some s) :
    timerHandler stray c = some ⟨c.timerTicks + 1, s, c.fired + 1⟩ := by
  unfold timerHandler
  rw [if_pos h, if_pos hrem, hs]
  rfl

/-! ## Runs -/

theorem timerRun_succ (n : Nat) (c : Clock) :
    timerRun stray (n + 1) c = (timerHandler stray c).bind (timerRun stray n) := rfl

theorem schedulerRun_succ (n : Nat) (s : Threads) :
    schedulerRun stray (n + 1) s = (scheduler stray s).bind (schedulerRun stray n) := rfl

theorem timerRun_add {m n : Nat} {c c₁ : Clock} (h : timerRun stray m c = some c₁) :
    timerRun stray (m + n) c = timerRun stray n c₁ := by
  induction m generalizing c with
  | zero =>
      cases h
      rw [Nat.zero_add]
  | succ m ih =>
      rw [timerRun_succ] at h
      obtain ⟨c', hstep, hrest⟩ := Option.bind_eq_some_iff.mp h
      rw [Nat.succ_add, timerRun_succ, hstep]
      exact ih hrest

theorem schedulerRun_succ_of {n : Nat} {s s₁ s₂ : Threads} (h : schedulerRun stray n s = some s₁)
    (hs : scheduler stray s₁ = some s₂) : schedulerRun stray (n + 1) s = some s₂ := by
  induction n generalizing s with
  | zero =>
      cases h
      rw [schedulerRun_succ, hs]
      rfl
  | succ n ih =>
      rw [schedulerRun_succ] at h
      obtain ⟨s', hstep, hrest⟩ := Option.bind_eq_some_iff.mp h
      rw [schedulerRun_succ, hstep]
      exact ih hrest

/-- **What the tasks see of the timer** is the scheduler calls it made. -/
theorem timerRun_threads {s : Threads} {n : Nat} {c c' : Clock}
    (hc : schedulerRun stray c.fired s = some c.threads) (h : timerRun stray n c = some c') :
    schedulerRun stray c'.fired s = some c'.threads := by
  induction n generalizing c with
  | zero =>
      cases h
      exact hc
  | succ n ih =>
      rw [timerRun_succ] at h
      obtain ⟨c₁, hstep, hrest⟩ := Option.bind_eq_some_iff.mp h
      apply ih _ hrest
      cases (timerHandler_cases hstep).2 with
      | inl hfired =>
          rw [hfired.2.2]
          exact schedulerRun_succ_of hc hfired.2.1
      | inr hsame => rw [hsame.1, hsame.2, hc]

/-- Once no task is left, no timer interrupt changes the tasks any more. -/
theorem timerRun_idle {c : Clock} (h : c.threads.remTasks = 0) (n : Nat) :
    ∃ c', timerRun stray n c = some c' ∧ c'.threads = c.threads := by
  induction n generalizing c with
  | zero => exact ⟨c, rfl, rfl⟩
  | succ n ih =>
      obtain ⟨c', hrun, hsame⟩ := @ih { c with timerTicks := c.timerTicks + 1 } h
      refine ⟨c', ?_, hsame⟩
      rw [timerRun_succ, timerHandler_idle h]
      exact hrun

/-- The counter comes round to a multiple of 18. -/
theorem exists_tick (x : Int32) : ∃ d : Nat, (x + Int32.ofNat d) % 18 = 0 := by
  refine ⟨(-x).toUInt32.toNat, ?_⟩
  rw [← UInt32.toInt32_ofNat', UInt32.ofNat_toNat, Int32.toInt32_toUInt32, Int32.add_right_neg]
  rfl

/-- **The timer calls the scheduler again** as long as tasks are left. -/
theorem timerRun_fires {c : Clock} {s : Threads} (hrem : 0 < c.threads.remTasks)
    (hs : scheduler stray c.threads = some s) :
    ∃ n c', timerRun stray n c = some c' ∧ c'.threads = s ∧ c'.fired = c.fired + 1 := by
  obtain ⟨d, hd⟩ := exists_tick (c.timerTicks + 1)
  induction d generalizing c with
  | zero =>
      rw [show Int32.ofNat 0 = 0 from rfl, Int32.add_zero] at hd
      refine ⟨1, ⟨c.timerTicks + 1, s, c.fired + 1⟩, ?_, rfl, rfl⟩
      rw [timerRun_succ, timerHandler_fires hd hrem hs]
      rfl
  | succ d ih =>
      by_cases hnow : (c.timerTicks + 1) % 18 = 0
      · refine ⟨1, ⟨c.timerTicks + 1, s, c.fired + 1⟩, ?_, rfl, rfl⟩
        rw [timerRun_succ, timerHandler_fires hnow hrem hs]
        rfl
      · rw [Nat.add_comm, Int32.ofNat_add, ← Int32.add_assoc] at hd
        obtain ⟨n, c', hrun, hc'⟩ := @ih { c with timerTicks := c.timerTicks + 1 } hrem hs hd
        refine ⟨n + 1, c', ?_, hc'⟩
        rw [timerRun_succ, timerHandler_off hnow]
        exact hrun

end Neutrino.Drivers
