import Neutrino.System.Interleaving
import Neutrino.System.RoundRobin

/-!
# When the tasks run

The timer calls the scheduler on every 18th of its requests. So task `i` of the rotated list runs at timer
request `18 * (i + 1)` after the start, whatever other requests are handled between them (`tasks_on_time`).
The counter wraps, but not before the last task has run. Stores through an empty slot are taken to be
harmless: the scheduler makes one when it has run the last task.
-/

namespace Neutrino.System

open Neutrino.Lib Neutrino.Drivers

/-! ## The counter -/

theorem mod_eighteen_iff {n : Nat} (h : n < 2 ^ 31) : Int32.ofNat n % 18 = 0 ↔ n % 18 = 0 := by
  have hn : (Int32.ofNat n).toInt = n := Int32.toInt_ofNat_of_lt h
  rw [← Int32.toInt_inj, Int32.toInt_mod, hn]
  show (n : Int).tmod 18 = 0 ↔ _
  rw [Int.tmod_eq_emod_of_nonneg (Int.natCast_nonneg n)]
  omega

/-! ## Timer requests -/

section Times

variable {ts : List Task} {p : Nat} {s : Threads}

/-- **One timer request**, the `n + 1`st: the next task runs if 18 goes into it and one is left. -/
theorem Rotating.tick {n : Nat} {c : Clock} (h : Rotating ts p (min (n / 18) ts.length) c.threads)
    (hticks : c.timerTicks = Int32.ofNat n) (hlen : ts.length ≤ 256) :
    ∃ c', timerHandler .harmless c = some c' ∧ c'.timerTicks = Int32.ofNat (n + 1) ∧
      Rotating ts p (min ((n + 1) / 18) ts.length) c'.threads := by
  have hnext : c.timerTicks + 1 = Int32.ofNat (n + 1) := by
    rw [hticks, Int32.ofNat_add]
    rfl
  by_cases hdone : ts.length ≤ n / 18
  · -- no task is left
    rw [Nat.min_eq_right hdone] at h
    have hidle : c.threads.remTasks = 0 := by
      have hrem := h.rem
      apply UInt32.toNat.inj
      rw [UInt32.toNat_zero]
      omega
    refine ⟨_, timerHandler_idle hidle, hnext, ?_⟩
    rwa [Nat.min_eq_right (show ts.length ≤ (n + 1) / 18 by omega)]
  · have hlt : n / 18 < ts.length := Nat.lt_of_not_le hdone
    rw [Nat.min_eq_left (Nat.le_of_lt hlt)] at h
    have hfires : (c.timerTicks + 1) % 18 = 0 ↔ (n + 1) % 18 = 0 := by
      rw [hnext, mod_eighteen_iff (by omega)]
    by_cases hnow : (n + 1) % 18 = 0
    · obtain ⟨s', hs', h'⟩ := h.step hlen hlt
      have hleft : 0 < c.threads.remTasks := by
        have hrem := h.rem
        rw [UInt32.lt_iff_toNat_lt, UInt32.toNat_zero]
        omega
      refine ⟨_, timerHandler_fires (hfires.mpr hnow) hleft hs', hnext, ?_⟩
      rwa [show min ((n + 1) / 18) ts.length = n / 18 + 1 by omega]
    · refine ⟨_, timerHandler_off (mt hfires.mp hnow), hnext, ?_⟩
      rwa [show min ((n + 1) / 18) ts.length = n / 18 by omega]

/-- **After `n` timer requests** as many tasks have run as 18 goes into `n`, or all. -/
theorem Rotating.times (h : Rotating ts p 0 s) (hlen : ts.length ≤ 256) (n : Nat) :
    ∃ c, timerRun .harmless n ⟨0, s, 0⟩ = some c ∧ c.timerTicks = Int32.ofNat n ∧
      Rotating ts p (min (n / 18) ts.length) c.threads := by
  induction n with
  | zero => exact ⟨_, rfl, rfl, by simpa using h⟩
  | succ n ih =>
      obtain ⟨c, hrun, hticks, hc⟩ := ih
      obtain ⟨c', hstep, hticks', hc'⟩ := hc.tick hticks hlen
      refine ⟨c', ?_, hticks', hc'⟩
      rw [timerRun_add hrun, timerRun_succ, hstep]
      rfl

end Times

/-! ## Among other requests -/

/-- **The tasks run on time.** After any sequence of requests the tasks that have run are the first of the
list rotated by the PID added last, one for each 18 timer requests. -/
theorem tasks_on_time (ts : List Task) (hlen : ts.length ≤ 256) (t : Task) (hlast : ts.getLast? = some t)
    (hp : t.pid.toNat < ts.length) (keyboard : Keyboard) (mem : ByteMemory) (scancodes : List UInt8)
    (irqs : List (Fin 16)) :
    ∃ s k, addTasks Threads.boot ts = some s ∧
      handleAll .harmless irqs (Served.start ⟨0, s, 0⟩ keyboard mem scancodes).kernel = some ((), k) ∧
      k.clock.threads.called = ((ts.map Task.call).rotate t.pid.toNat).take (irqs.count 0 / 18) ∧
      k.clock.threads.remTasks.toNat = ts.length - irqs.count 0 / 18 := by
  obtain ⟨s, hadd, hloaded, -⟩ := load ts hlen
  obtain ⟨c, hrun, -, hc⟩ := (hloaded.rotating hlast hp).times hlen (irqs.count 0)
  have hall := @handleAll_apart .harmless irqs
    (Served.start ⟨0, s, 0⟩ keyboard mem scancodes).kernel rfl
  have hclock : timerRun .harmless (irqs.count 0)
      (Served.start ⟨0, s, 0⟩ keyboard mem scancodes).kernel.clock = some c := hrun
  rw [hclock] at hall
  refine ⟨s, _, hadd, hall, ?_, ?_⟩
  · refine hc.called.trans ?_
    rw [List.take_eq_take_iff, List.length_rotate, List.length_map]
    omega
  · have hrem := hc.rem
    show c.threads.remTasks.toNat = _
    omega

/-- The second task of `add_tests` after one second, and a key in between. -/
theorem testB_on_time : ∃ s k, addTasks Threads.boot [testA, testB] = some s ∧
    handleAll .harmless (List.replicate 10 0 ++ 1 :: List.replicate 10 0)
      (Served.start ⟨0, s, 0⟩ Keyboard.boot (fun _ => 0) [0x1E]).kernel = some ((), k) ∧
    k.clock.threads.called = [testB.call] ∧ k.clock.threads.remTasks.toNat = 1 :=
  tasks_on_time [testA, testB] (by decide) testB rfl (by decide) Keyboard.boot (fun _ => 0) [0x1E] _

end Neutrino.System
