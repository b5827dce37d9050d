import Mathlib.Data.List.Range
import Mathlib.Tactic.Ring

/-!
# Counting loops

`for (i = a; i < bound; i += step) body(i)` with a 32-bit counter is `strideLoop`. Such a loop ends
when the counter cannot jump over `2^32`; the two conditions that say so are arguments. A loop over
`0, …, n - 1` is a fold over `List.range n`.

Each comes with a rule: what holds after `n` rounds, from what one round preserves. For `strideLoop`
the counter has to meet the bound exactly.
-/

namespace Neutrino.Lib

variable {σ : Type}

/-- The counter does not wrap below the bound. -/
theorem toNat_add_step {bound step i : UInt32} (hfit : bound.toNat + step.toNat ≤ 2 ^ 32)
    (hi : i < bound) : (i + step).toNat = i.toNat + step.toNat := by
  have hlt : i.toNat < bound.toNat := UInt32.lt_iff_toNat_lt.mp hi
  rw [UInt32.toNat_add]
  apply Nat.mod_eq_of_lt
  omega

/-- The rest of the loop, from the counter `i` on. -/
def strideLoop (bound step : UInt32) (hpos : 0 < step.toNat)
    (hfit : bound.toNat + step.toNat ≤ 2 ^ 32) (body : UInt32 → σ → σ) (i : UInt32) (s : σ) : σ :=
  if i < bound then strideLoop bound step hpos hfit body (i + step) (body i s) else s
termination_by bound.toNat - i.toNat
decreasing_by
  rename_i hi
  have hnext := toNat_add_step hfit hi
  have hlt : i.toNat < bound.toNat := UInt32.lt_iff_toNat_lt.mp hi
  omega

/-- **The loop rule.** `I k` is what holds after `k` rounds. -/
theorem strideLoop_rule {bound step : UInt32} (hpos : 0 < step.toNat)
    (hfit : bound.toNat + step.toNat ≤ 2 ^ 32) {body : UInt32 → σ → σ} (n : Nat) :
    ∀ {I : Nat → σ → Prop} {i : UInt32} {s : σ}, i.toNat + n * step.toNat = bound.toNat → I 0 s →
      (∀ k (j : UInt32) s, k < n → j.toNat = i.toNat + k * step.toNat → I k s →
        I (k + 1) (body j s)) →
      I n (strideLoop bound step hpos hfit body i s) := by
  induction n with
  | zero =>
      intro I i s hend hs _
      have hi : ¬ i < bound := by
        rw [UInt32.lt_iff_toNat_lt]
        omega
      rw [strideLoop, if_neg hi]
      exact hs
  | succ n ih =>
      intro I i s hend hs hround
      have hi : i < bound := by
        rw [UInt32.lt_iff_toNat_lt]
        rw [Nat.succ_mul] at hend
        omega
      have hnext := toNat_add_step hfit hi
      rw [strideLoop, if_pos hi]
      -- the rounds that are left, numbered from 0 again
      apply ih (I := fun k => I (k + 1))
      · rw [hnext, ← hend]
        ring
      · apply hround 0 i s (Nat.succ_pos n) _ hs
        simp
      · intro k j s hk hj hI
        apply hround (k + 1) j s (by omega) _ hI
        rw [hj, hnext]
        ring

/-- The rule for folds over a range. -/
theorem foldl_range_rule {body : σ → Nat → σ} {I : Nat → σ → Prop} {s : σ} (n : Nat) (hs : I 0 s)
    (hround : ∀ k s, k < n → I k s → I (k + 1) (body s k)) : I n ((List.range n).foldl body s) := by
  induction n with
  | zero => exact hs
  | succ n ih =>
      rw [List.range_succ, List.foldl_append]
      apply hround n _ (Nat.lt_succ_self n)
      apply ih
      exact fun k s hk => hround k s (Nat.lt_succ_of_lt hk)

end Neutrino.Lib
