import Mathlib.Algebra.Group.Nat.Defs
import Neutrino.Drivers.Timer

/-!
# Waiting for ticks

`timer_wait` computes the value `timer_ticks` is to reach, as an `unsigned long`, and polls until the
counter is there. The sum wraps at 2^32, the comparison does not know of it: if the counter has to pass
from -1 to 0 while it waits, that value is smaller than the counter and the loop ends at once. In all
other cases the wait is exact (`waitsExactly_iff`), sums that pass 2^31 included.
-/

namespace Neutrino.Drivers

open Neutrino.System

/-! ## The code -/

/-- `eticks` -/
def waitTarget (timerTicks ticks : Int32) : UInt32 := (timerTicks + ticks).toUInt32

/-- The condition of the loop. For the comparison the counter is converted to `unsigned long`. -/
def Waiting (timerTicks : Int32) (eticks : UInt32) : Prop := timerTicks.toUInt32 < eticks

instance (timerTicks : Int32) (eticks : UInt32) : Decidable (Waiting timerTicks eticks) :=
  inferInstanceAs (Decidable (timerTicks.toUInt32 < eticks))

/-- The loop, with one interrupt between two evaluations of its condition. -/
def waitLoop (stray : StrayStore) (eticks : UInt32) : Nat → Clock → Option Clock
  | 0, _ => none
  | fuel + 1, c =>
      if Waiting c.timerTicks eticks then (timerHandler stray c).bind (waitLoop stray eticks fuel)
      else some c

def timerWait (stray : StrayStore) (ticks : Int32) (fuel : Nat) (c : Clock) : Option Clock :=
  waitLoop stray (waitTarget c.timerTicks ticks) fuel c

/-! ## The counter -/

/-- `timer_ticks` after `n` increments. -/
def ticksAfter : Nat → Int32 → Int32
  | 0, timerTicks => timerTicks
  | n + 1, timerTicks => ticksAfter n (timerTicks + 1)

/-- The condition holds until the counter has been incremented `ticks` times, and no longer. -/
structure WaitsExactly (timerTicks ticks : Int32) : Prop where
  before : ∀ i < ticks.toNatClampNeg, Waiting (ticksAfter i timerTicks) (waitTarget timerTicks ticks)
  after : ¬Waiting (ticksAfter ticks.toNatClampNeg timerTicks) (waitTarget timerTicks ticks)

/-- Interrupts increment the counter one at a time. -/
theorem timerRun_timerTicks {stray : StrayStore} {n : Nat} {c c' : Clock}
    (h : timerRun stray n c = some c') : c'.timerTicks = ticksAfter n c.timerTicks := by
  induction n generalizing c with
  | zero =>
      cases h
      rfl
  | succ n ih =>
      rw [timerRun_succ] at h
      obtain ⟨c₁, hstep, hrest⟩ := Option.bind_eq_some_iff.mp h
      rw [ih hrest, (timerHandler_cases hstep).1]
      rfl

theorem toNat_ticksAfter (n : Nat) (timerTicks : Int32) :
    (ticksAfter n timerTicks).toUInt32.toNat = (timerTicks.toUInt32.toNat + n) % 2 ^ 32 := by
  induction n generalizing timerTicks with
  | zero => exact (Nat.mod_eq_of_lt timerTicks.toUInt32.toNat_lt).symm
  | succ n ih =>
      have hone : (timerTicks + 1).toUInt32.toNat = (timerTicks.toUInt32.toNat + 1) % 2 ^ 32 := by
        rw [Int32.toUInt32_add, UInt32.toNat_add]
        rfl
      rw [ticksAfter, ih, hone]
      omega

theorem toNat_waitTarget (timerTicks : Int32) {ticks : Int32} (h : 0 ≤ ticks) :
    (waitTarget timerTicks ticks).toNat =
      (timerTicks.toUInt32.toNat + ticks.toNatClampNeg) % 2 ^ 32 := by
  unfold waitTarget
  rw [Int32.toUInt32_add, UInt32.toNat_add, Int32.toNat_toUInt32_of_le h]

/-- The condition after `i` increments. -/
theorem waiting_iff (timerTicks : Int32) {ticks : Int32} (h : 0 ≤ ticks) (i : Nat) :
    Waiting (ticksAfter i timerTicks) (waitTarget timerTicks ticks) ↔
      (timerTicks.toUInt32.toNat + i) % 2 ^ 32 <
        (timerTicks.toUInt32.toNat + ticks.toNatClampNeg) % 2 ^ 32 := by
  unfold Waiting
  rw [UInt32.lt_iff_toNat_lt, toNat_ticksAfter, toNat_waitTarget timerTicks h]

/-- The wait is exact iff the sum does not wrap. -/
theorem waitsExactly_iff_sum (timerTicks : Int32) {ticks : Int32} (h : 0 ≤ ticks) :
    WaitsExactly timerTicks ticks ↔
      timerTicks.toUInt32.toNat + ticks.toNatClampNeg < 2 ^ 32 := by
  have hticks := ticks.toNatClampNeg_lt
  have hcounter := timerTicks.toUInt32.toNat_lt
  constructor
  case mp =>
    intro hexact
    by_contra hwraps
    -- the very first evaluation fails
    have hfirst := (waiting_iff timerTicks h 0).mp (hexact.before 0 (by omega))
    omega
  case mpr =>
    intro hsum
    refine ⟨fun i hi => (waiting_iff timerTicks h i).mpr ?_, fun hlast => ?_⟩
    · rw [Nat.mod_eq_of_lt hsum, Nat.mod_eq_of_lt (by omega)]
      exact Nat.add_lt_add_left hi _
    · exact absurd ((waiting_iff timerTicks h _).mp hlast) (Nat.lt_irrefl _)

/-- **`timer_wait` waits exactly as long as asked iff the counter does not pass from -1 to 0 in that
time.** -/
theorem waitsExactly_iff (timerTicks ticks : Int32) (h : 0 ≤ ticks) :
    WaitsExactly timerTicks ticks ↔
      0 ≤ timerTicks.toInt ∨ timerTicks.toInt + ticks.toInt < 0 := by
  have hticks := ticks.toNatClampNeg_lt
  have hlt := timerTicks.toUInt32.toNat_lt
  have hcounter : timerTicks.toInt =
      if 2 * timerTicks.toUInt32.toNat < 2 ^ 32 then (timerTicks.toUInt32.toNat : Int)
      else timerTicks.toUInt32.toNat - (2 ^ 32 : Nat) :=
    BitVec.toInt_eq_toNat_cond timerTicks.toBitVec
  rw [waitsExactly_iff_sum timerTicks h, Int32.toInt_eq_toNatClampNeg h, hcounter]
  split <;> omega

/-- The sum passes 2^31. -/
theorem waitsExactly_high : WaitsExactly 0x7FFFFFFF 18 :=
  (waitsExactly_iff 0x7FFFFFFF 18 (by decide)).mpr (.inl (by decide))

/-- One tick before the counter comes back to 0. -/
theorem not_waitsExactly : ¬WaitsExactly (-1) 1 := by
  intro hexact
  exact absurd (hexact.before 0 (by decide)) (by decide)

/-! ## The wait -/

section Wait

variable {stray : StrayStore} {c c' : Clock}

theorem waitLoop_run {eticks : UInt32} {n : Nat}
    (hwaiting : ∀ i < n, Waiting (ticksAfter i c.timerTicks) eticks)
    (hdone : ¬Waiting (ticksAfter n c.timerTicks) eticks) (hrun : timerRun stray n c = some c') :
    waitLoop stray eticks (n + 1) c = some c' := by
  induction n generalizing c with
  | zero =>
      cases hrun
      exact if_neg hdone
  | succ n ih =>
      rw [timerRun_succ] at hrun
      obtain ⟨c₁, hstep, hrest⟩ := Option.bind_eq_some_iff.mp hrun
      have htick : c₁.timerTicks = c.timerTicks + 1 := (timerHandler_cases hstep).1
      have hfirst : Waiting c.timerTicks eticks := hwaiting 0 (Nat.succ_pos n)
      rw [waitLoop, if_pos hfirst, hstep]
      apply ih _ _ hrest
      · intro i hi
        rw [htick]
        exact hwaiting (i + 1) (Nat.succ_lt_succ hi)
      · rw [htick]
        exact hdone

/-- An exact wait returns after `ticks` interrupts. -/
theorem timerWait_exact {ticks : Int32} (h : WaitsExactly c.timerTicks ticks)
    (hrun : timerRun stray ticks.toNatClampNeg c = some c') :
    timerWait stray ticks (ticks.toNatClampNeg + 1) c = some c' :=
  waitLoop_run h.before h.after hrun

/-- Any other is no wait at all. -/
theorem timerWait_short {ticks : Int32} (hticks : 0 ≤ ticks) (h : ¬WaitsExactly c.timerTicks ticks)
    (fuel : Nat) : timerWait stray ticks (fuel + 1) c = some c := by
  have hsmall := ticks.toNatClampNeg_lt
  have hcounter := c.timerTicks.toUInt32.toNat_lt
  rw [waitsExactly_iff_sum c.timerTicks hticks] at h
  have hfirst : ¬Waiting c.timerTicks (waitTarget c.timerTicks ticks) := by
    intro hwaiting
    have hlt := (waiting_iff c.timerTicks hticks 0).mp hwaiting
    omega
  unfold timerWait
  rw [waitLoop, if_neg hfirst]

end Wait

end Neutrino.Drivers
