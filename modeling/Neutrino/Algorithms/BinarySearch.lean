import Mathlib.Algebra.Group.Nat.Defs
import Neutrino.Lib.SortedRank

/-!
# Binary search

`binary_search` halves the right end of its window, `start + (end - 1) / 2`, instead of the window. As
long as the window starts at 0 that is its middle. The windows the search then goes through, from 0 to
`(n + 2) / 2 ^ k - 3`, are known beforehand, and within each of them there are few places where it
gets the answer right; from the others it runs in circles or leaves the array (`correct_iff`).
-/

namespace Neutrino.Algorithms

open Neutrino.Lib

/-- Why a search did not return. -/
inductive SearchFault where
  | outOfArray
  | outOfFuel
  deriving DecidableEq, Repr

/-- `arr[i]`; there is no such entry outside the array. -/
def entry (arr : List UInt32) (i : Int32) : Option UInt32 :=
  if i < 0 then none else arr[i.toNatClampNeg]?

def binarySearch (arr : List UInt32) :
    Nat → UInt32 → UInt32 → UInt32 → Except SearchFault UInt32
  | 0, _, _, _ => .error .outOfFuel
  | fuel + 1, start, stop, val =>
      if start ≤ stop then
        -- declared `int`, unlike the bounds
        let middle := (start + (stop - 1) / 2).toInt32
        match entry arr middle with
        | none => .error .outOfArray
        | some v =>
            if v = val then .ok middle.toUInt32
            else if v < val then binarySearch arr fuel (middle + 1).toUInt32 stop val
            else binarySearch arr fuel start (middle - 1).toUInt32 val
      else
        .ok 0xFF

/-- What a search for `val` should return. -/
def Answers (arr : List UInt32) (val r : UInt32) : Prop :=
  if val ∈ arr then arr[r.toNat]? = some val ∧ r ≠ 0xFF else r = 0xFF

/-- The search in this window ends with the right answer, inside the array all the time. -/
def Correct (arr : List UInt32) (start stop val : UInt32) : Prop :=
  ∃ fuel r, binarySearch arr fuel start stop val = .ok r ∧ Answers arr val r

section Steps

variable {arr : List UInt32} {fuel s e : Nat} {val : UInt32}

/-! ## One comparison -/

theorem entry_ofNat {i : Nat} (hi : i < 2 ^ 32) (hlen : arr.length < 2 ^ 31) :
    entry arr (UInt32.ofNat i).toInt32 = arr[i]? := by
  unfold entry
  rw [UInt32.toInt32_ofNat']
  by_cases hneg : i < 2 ^ 31
  · rw [if_neg, Int32.toNatClampNeg_ofNat_of_lt hneg]
    rw [Int32.lt_iff_toInt_lt, Int32.toInt_ofNat_of_lt hneg]
    exact Int.not_lt.mpr (Int.natCast_nonneg i)
  · -- a negative `int`
    have hbmod : ((i : Nat) : Int).bmod Int32.size < 0 := by
      rw [Int.bmod_def]
      simp only [Int32.size]
      omega
    rw [if_pos, List.getElem?_eq_none (by omega)]
    rw [Int32.lt_iff_toInt_lt, Int32.toInt_ofNat']
    exact hbmod

theorem binarySearch_exit (h : e < s) (hs : s < 2 ^ 32) :
    binarySearch arr (fuel + 1) (UInt32.ofNat s) (UInt32.ofNat e) val = .ok 0xFF := by
  have hle : ¬ UInt32.ofNat s ≤ UInt32.ofNat e := by
    rw [UInt32.le_iff_toNat_le, UInt32.toNat_ofNat_of_lt' hs,
      UInt32.toNat_ofNat_of_lt' (Nat.lt_trans h hs)]
    exact Nat.not_le_of_lt h
  rw [binarySearch, if_neg hle]

/-- A round in a window from `s` to `e`. -/
theorem binarySearch_round (h : s ≤ e) (he : 0 < e) (hlt : s + (e - 1) / 2 < 2 ^ 32)
    (he' : e < 2 ^ 32) (hlen : arr.length < 2 ^ 31) :
    binarySearch arr (fuel + 1) (UInt32.ofNat s) (UInt32.ofNat e) val =
      match arr[s + (e - 1) / 2]? with
      | none => .error .outOfArray
      | some v =>
          if v = val then .ok (UInt32.ofNat (s + (e - 1) / 2))
          else if v < val then
            binarySearch arr fuel (UInt32.ofNat (s + (e - 1) / 2 + 1)) (UInt32.ofNat e) val
          else binarySearch arr fuel (UInt32.ofNat s) (UInt32.ofNat (s + (e - 1) / 2) - 1) val := by
  have hs : s < 2 ^ 32 := Nat.lt_of_le_of_lt h he'
  have hle : UInt32.ofNat s ≤ UInt32.ofNat e := by
    rw [UInt32.le_iff_toNat_le, UInt32.toNat_ofNat_of_lt' hs, UInt32.toNat_ofNat_of_lt' he']
    exact h
  have hmiddle : UInt32.ofNat s + (UInt32.ofNat e - 1) / 2 = UInt32.ofNat (s + (e - 1) / 2) := by
    have hone : (1 : UInt32) ≤ UInt32.ofNat e := by
      rw [UInt32.le_iff_toNat_le, UInt32.toNat_ofNat_of_lt' he']
      exact he
    have htwo : (2 : UInt32).toNat = 2 := rfl
    rw [← UInt32.toNat_inj, UInt32.toNat_add, UInt32.toNat_div, UInt32.toNat_sub_of_le _ _ hone,
      UInt32.toNat_ofNat_of_lt' hs, UInt32.toNat_ofNat_of_lt' he',
      UInt32.toNat_ofNat_of_lt' hlt, UInt32.toNat_one, htwo]
    exact Nat.mod_eq_of_lt hlt
  rw [binarySearch, if_pos hle]
  dsimp only
  rw [hmiddle, entry_ofNat hlt hlen, Int32.toUInt32_add, Int32.toUInt32_sub,
    UInt32.toUInt32_toInt32, UInt32.ofNat_add _ 1]
  rfl

theorem ofNat_pred {i : Nat} (hpos : 0 < i) : UInt32.ofNat i - 1 = UInt32.ofNat (i - 1) := by
  obtain ⟨j, rfl⟩ := Nat.exists_eq_succ_of_ne_zero (Nat.ne_of_gt hpos)
  rw [Nat.succ_sub_one, Nat.succ_eq_add_one, UInt32.ofNat_add]
  exact UInt32.add_sub_cancel _ _

/-! ## What is left to do after a comparison -/

/-- The code for nothing found is right if there is nothing to find. -/
theorem answers_notFound : Answers arr val 0xFF ↔ val ∉ arr := by
  unfold Answers
  by_cases hmem : val ∈ arr
  · rw [if_pos hmem]
    exact iff_of_false (fun h => h.2 rfl) (not_not_intro hmem)
  · rw [if_neg hmem]
    exact iff_of_true rfl hmem

theorem correct_of_returns {start stop r : UInt32}
    (hrun : ∀ fuel, binarySearch arr (fuel + 1) start stop val = .ok r) :
    Correct arr start stop val ↔ Answers arr val r := by
  constructor
  · rintro ⟨fuel, r', hr, hright⟩
    cases fuel with
    | zero => cases hr
    | succ fuel =>
        rw [hrun] at hr
        cases hr
        exact hright
  · exact fun hright => ⟨1, r, hrun 0, hright⟩

/-- A round that goes on in another window. -/
theorem correct_of_goesOn {start stop start' stop' : UInt32}
    (hrun : ∀ fuel, binarySearch arr (fuel + 1) start stop val =
      binarySearch arr fuel start' stop' val) :
    Correct arr start stop val ↔ Correct arr start' stop' val := by
  constructor
  · rintro ⟨fuel, r, hr, hright⟩
    cases fuel with
    | zero => cases hr
    | succ fuel =>
        rw [hrun] at hr
        exact ⟨fuel, r, hr, hright⟩
  · rintro ⟨fuel, r, hr, hright⟩
    exact ⟨fuel + 1, r, (hrun fuel).trans hr, hright⟩

theorem correct_exit (h : e < s) (hs : s < 2 ^ 32) :
    Correct arr (UInt32.ofNat s) (UInt32.ofNat e) val ↔ val ∉ arr := by
  rw [correct_of_returns fun fuel => binarySearch_exit h hs, answers_notFound]

section Rounds

variable (h : s ≤ e) (he : 0 < e) (he' : e < 2 ^ 31) (hlen : arr.length < 2 ^ 31)

include h he he' hlen

theorem binarySearch_entry (hm : s + (e - 1) / 2 < arr.length) :
    binarySearch arr (fuel + 1) (UInt32.ofNat s) (UInt32.ofNat e) val =
      if arr[s + (e - 1) / 2] = val then .ok (UInt32.ofNat (s + (e - 1) / 2))
      else if arr[s + (e - 1) / 2] < val then
        binarySearch arr fuel (UInt32.ofNat (s + (e - 1) / 2 + 1)) (UInt32.ofNat e) val
      else binarySearch arr fuel (UInt32.ofNat s) (UInt32.ofNat (s + (e - 1) / 2) - 1) val := by
  rw [binarySearch_round h he (by omega) (by omega) hlen, List.getElem?_eq_getElem hm]

/-- The round that reads behind the array. -/
theorem binarySearch_outOfArray (hm : arr.length ≤ s + (e - 1) / 2) :
    binarySearch arr (fuel + 1) (UInt32.ofNat s) (UInt32.ofNat e) val = .error .outOfArray := by
  rw [binarySearch_round h he (by omega) (by omega) hlen, List.getElem?_eq_none hm]

variable (hsorted : arr.Pairwise (· ≤ ·))

include hsorted

/-- The search ends here; only the code for nothing found is no answer. -/
theorem correct_found (hlo : rankLt arr val ≤ s + (e - 1) / 2)
    (hhi : s + (e - 1) / 2 < rankLe arr val) :
    Correct arr (UInt32.ofNat s) (UInt32.ofNat e) val ↔ s + (e - 1) / 2 ≠ 255 := by
  have hm : s + (e - 1) / 2 < arr.length := Nat.lt_of_lt_of_le hhi (rankLe_le_length arr val)
  have hval : arr[s + (e - 1) / 2] = val := (getElem_eq_iff hsorted hm).mpr ⟨hlo, hhi⟩
  have hindex : (UInt32.ofNat (s + (e - 1) / 2)).toNat = s + (e - 1) / 2 :=
    UInt32.toNat_ofNat_of_lt' (show s + (e - 1) / 2 < 2 ^ 32 by omega)
  rw [correct_of_returns fun fuel => by rw [binarySearch_entry h he he' hlen hm, if_pos hval]]
  unfold Answers
  rw [if_pos ((mem_iff_rankLt_lt hsorted).mpr (Nat.lt_of_le_of_lt hlo hhi)), hindex,
    List.getElem?_eq_getElem hm, hval, ne_eq, ← UInt32.toNat_inj, hindex]
  exact and_iff_right rfl

theorem correct_right (hm : s + (e - 1) / 2 < rankLt arr val) :
    Correct arr (UInt32.ofNat s) (UInt32.ofNat e) val ↔
      Correct arr (UInt32.ofNat (s + (e - 1) / 2 + 1)) (UInt32.ofNat e) val := by
  have hlt : s + (e - 1) / 2 < arr.length :=
    Nat.lt_of_lt_of_le hm (Nat.le_trans (rankLt_le_rankLe arr val) (rankLe_le_length arr val))
  have hbelow : arr[s + (e - 1) / 2] < val := (getElem_lt_iff hsorted hlt).mpr hm
  have hne : arr[s + (e - 1) / 2] ≠ val := fun heq => UInt32.lt_irrefl val (heq ▸ hbelow)
  apply correct_of_goesOn
  intro fuel
  rw [binarySearch_entry h he he' hlen hlt, if_neg hne, if_pos hbelow]

/-- A round that goes on to the left. At index 0 the new end wraps. -/
theorem binarySearch_left (hm : s + (e - 1) / 2 < arr.length)
    (hle : rankLe arr val ≤ s + (e - 1) / 2) :
    binarySearch arr (fuel + 1) (UInt32.ofNat s) (UInt32.ofNat e) val =
      binarySearch arr fuel (UInt32.ofNat s) (UInt32.ofNat (s + (e - 1) / 2) - 1) val := by
  have hne : arr[s + (e - 1) / 2] ≠ val := fun heq =>
    absurd ((getElem_eq_iff hsorted hm).mp heq).2 (Nat.not_lt_of_le hle)
  have hnlt : ¬ arr[s + (e - 1) / 2] < val := by
    rw [getElem_lt_iff hsorted hm]
    exact Nat.not_lt_of_le (Nat.le_trans (rankLt_le_rankLe arr val) hle)
  rw [binarySearch_entry h he he' hlen hm, if_neg hne, if_neg hnlt]

theorem correct_left (hpos : 0 < s + (e - 1) / 2) (hm : s + (e - 1) / 2 < arr.length)
    (hle : rankLe arr val ≤ s + (e - 1) / 2) :
    Correct arr (UInt32.ofNat s) (UInt32.ofNat e) val ↔
      Correct arr (UInt32.ofNat s) (UInt32.ofNat (s + (e - 1) / 2 - 1)) val := by
  apply correct_of_goesOn
  intro fuel
  rw [binarySearch_left h he he' hlen hsorted hm hle, ofNat_pred hpos]

/-- **In circles.** Where the end of the window does not come down any more, the search goes left
forever or, when the end goes up, leaves the array. -/
theorem not_correct_of_growing (hgrow : e + 1 ≤ s + (e - 1) / 2)
    (hle : rankLe arr val ≤ s + (e - 1) / 2) :
    ¬ Correct arr (UInt32.ofNat s) (UInt32.ofNat e) val := by
  have hnever : ∀ fuel e', e ≤ e' → e' < 2 ^ 31 → ∀ r,
      binarySearch arr fuel (UInt32.ofNat s) (UInt32.ofNat e') val ≠ .ok r := by
    intro fuel
    induction fuel with
    | zero =>
        intro e' _ _ r hr
        cases hr
    | succ fuel ih =>
        intro e' hee' he'lt r
        by_cases hm : s + (e' - 1) / 2 < arr.length
        · rw [binarySearch_left (by omega) (by omega) he'lt hlen hsorted hm (by omega),
            ofNat_pred (by omega)]
          exact ih _ (by omega) (by omega) r
        · rw [binarySearch_outOfArray (by omega) (by omega) he'lt hlen (Nat.not_lt.mp hm)]
          intro hr
          cases hr
  rintro ⟨fuel, r, hr, -⟩
  exact hnever fuel e (Nat.le_refl e) he' r hr

end Rounds

/-- The end of the window has wrapped, or will: the middle is the largest `int`. -/
theorem not_correct_of_wrapped (hlen : arr.length < 2 ^ 31) {stop : UInt32}
    (hhalf : (stop - 1) / 2 = 0x7FFFFFFF) : ¬ Correct arr 0 stop val := by
  have hentry : entry arr (UInt32.toInt32 0x7FFFFFFF) = none := by
    rw [show (0x7FFFFFFF : UInt32) = UInt32.ofNat 2147483647 from rfl, entry_ofNat (by decide) hlen]
    exact List.getElem?_eq_none (Nat.le_of_lt_succ hlen)
  rintro ⟨fuel, r, hr, -⟩
  cases fuel with
  | zero => cases hr
  | succ fuel =>
      rw [binarySearch, if_pos UInt32.zero_le] at hr
      dsimp only at hr
      rw [hhalf, UInt32.zero_add, hentry] at hr
      cases hr

end Steps

/-! ## Windows -/

section Windows

variable {arr : List UInt32} {val : UInt32} {m e : Nat} (hsorted : arr.Pairwise (· ≤ ·))
  (hlen : arr.length < 2 ^ 31)

include hsorted

/-- No entry equals a value whose two ranks agree. -/
theorem correct_exit_of_rank {s : Nat} (h : e < s) (hs : s < 2 ^ 32)
    (hrank : rankLe arr val ≤ rankLt arr val) :
    Correct arr (UInt32.ofNat s) (UInt32.ofNat e) val := by
  rw [correct_exit h hs, mem_iff_rankLt_lt hsorted]
  exact Nat.not_lt_of_le hrank

include hlen

/-- Right of the middle `m` and left of `2 * m + 1`. -/
theorem correct_between (hend : 2 * m + 1 < arr.length) (hlo : m < rankLt arr val)
    (hhi : rankLe arr val ≤ 2 * m + 1) :
    Correct arr (UInt32.ofNat (m + 1)) (UInt32.ofNat (2 * m)) val ↔
      m ≤ 1 ∨ rankLe arr val = 2 * m + 1 := by
  have hrank := rankLt_le_rankLe arr val
  rcases Nat.eq_zero_or_pos m with rfl | hpos
  · refine iff_of_true ?_ (Or.inl (Nat.zero_le 1))
    exact correct_exit_of_rank hsorted (by omega) (by omega) (by omega)
  have hmiddle : m + 1 + (2 * m - 1) / 2 = 2 * m := by omega
  rcases Nat.lt_or_ge (2 * m) (rankLt arr val) with hright | hnright
  · rw [correct_right (by omega) (by omega) (by omega) hlen hsorted (by omega), hmiddle]
    refine iff_of_true ?_ (Or.inr (by omega))
    exact correct_exit_of_rank hsorted (by omega) (by omega) (by omega)
  rcases Nat.lt_or_ge (2 * m) (rankLe arr val) with hfound | hleft
  · rw [correct_found (by omega) (by omega) (by omega) hlen hsorted (by omega) (by omega), hmiddle]
    exact iff_of_true (by omega) (Or.inr (by omega))
  · rw [correct_left (by omega) (by omega) (by omega) hlen hsorted (by omega) (by omega) (by omega),
      hmiddle]
    rcases Nat.lt_or_ge 1 m with hmany | hone
    · -- the end stays at `2 * m - 1`
      refine iff_of_false ?_ (by omega)
      exact not_correct_of_growing (by omega) (by omega) (by omega) hlen hsorted (by omega) (by omega)
    · refine iff_of_true ?_ (Or.inl hone)
      exact correct_exit_of_rank hsorted (by omega) (by omega) (by omega)

/-- Right of `2 * m + 1`, which is the end of the window or one in front of it. -/
theorem correct_behind (he : e = 2 * m + 1 ∨ e = 2 * m + 2) (hend : e < arr.length)
    (hlo : 2 * m + 1 < rankLt arr val) (hhi : rankLe arr val ≤ e + 1) :
    Correct arr (UInt32.ofNat (2 * m + 2)) (UInt32.ofNat e) val ↔ m = 0 ∨ e = 2 * m + 1 := by
  have hrank := rankLt_le_rankLe arr val
  rcases he with rfl | rfl
  · refine iff_of_true ?_ (Or.inr rfl)
    exact correct_exit_of_rank hsorted (by omega) (by omega) (by omega)
  rcases Nat.eq_zero_or_pos m with rfl | hpos
  · refine iff_of_true ?_ (Or.inl rfl)
    rcases Nat.lt_or_ge 2 (rankLt arr val) with hright | hnright
    · rw [correct_right (by omega) (by omega) (by omega) hlen hsorted (by omega)]
      exact correct_exit_of_rank hsorted (by omega) (by omega) (by omega)
    rcases Nat.lt_or_ge 2 (rankLe arr val) with hfound | hleft
    · rw [correct_found (by omega) (by omega) (by omega) hlen hsorted (by omega) (by omega)]
      decide
    · rw [correct_left (by omega) (by omega) (by omega) hlen hsorted (by omega) (by omega) (by omega)]
      exact correct_exit_of_rank hsorted (by omega) (by omega) (by omega)
  · refine iff_of_false ?_ (by omega)
    exact not_correct_of_growing (by omega) (by omega) (by omega) hlen hsorted (by omega) (by omega)

/-- Where the search gets the answer right in the window from 0 to `w - 3`, whose middle is at
`w / 2 - 2`; `below` entries are smaller than the value and `upto` not greater. -/
def Lands (w below upto : Nat) : Prop :=
  if below + 2 ≤ w / 2 then w / 2 ≠ 257
  else if 2 * (w / 2) < below + 3 then w / 2 = 2 ∨ w = 2 * (w / 2)
  else if 2 * (w / 2) < upto + 3 then w / 2 ≠ 129
  else w / 2 ≤ 3 ∨ 2 * (w / 2) = upto + 3

instance (w below upto : Nat) : Decidable (Lands w below upto) := by
  unfold Lands
  infer_instance

/-- A window whose middle is not behind all the entries that are not greater than the value. -/
theorem correct_window (he : e = 2 * m + 1 ∨ e = 2 * m + 2) (hend : e < arr.length)
    (hlo : m < rankLe arr val) (hhi : rankLe arr val ≤ e + 1) :
    Correct arr (UInt32.ofNat 0) (UInt32.ofNat e) val ↔
      Lands (e + 3) (rankLt arr val) (rankLe arr val) := by
  have hhalf : (e + 3) / 2 = m + 2 := by omega
  have hmiddle : 0 + (e - 1) / 2 = m := by omega
  unfold Lands
  rw [hhalf]
  by_cases hfound : rankLt arr val + 2 ≤ m + 2
  · rw [if_pos hfound, correct_found (by omega) (by omega) (by omega) hlen hsorted (by omega)
      (by omega), hmiddle]
    omega
  have hnext : m + 1 + (e - 1) / 2 = 2 * m + 1 := by omega
  rw [if_neg hfound, correct_right (by omega) (by omega) (by omega) hlen hsorted (by omega), hmiddle]
  by_cases hright : 2 * (m + 2) < rankLt arr val + 3
  · rw [if_pos hright, correct_right (by omega) (by omega) (by omega) hlen hsorted (by omega), hnext,
      correct_behind hsorted hlen he hend (by omega) hhi]
    omega
  rw [if_neg hright]
  by_cases hsecond : 2 * (m + 2) < rankLe arr val + 3
  · rw [if_pos hsecond, correct_found (by omega) (by omega) (by omega) hlen hsorted (by omega)
      (by omega), hnext]
    omega
  · rw [if_neg hsecond, correct_left (by omega) (by omega) (by omega) hlen hsorted (by omega)
      (by omega) (by omega), hnext]
    show Correct arr _ (UInt32.ofNat (2 * m)) val ↔ _
    rw [correct_between hsorted hlen (by omega) (by omega) (by omega)]
    omega

/-- The search comes to the `k`-th window, from 0 to `w / 2 ^ k - 3`, goes left no more, and gets the
answer right. -/
def LandsIn (w below upto k : Nat) : Prop :=
  4 ≤ w / 2 ^ k ∧ w / 2 ^ k / 2 ≤ upto + 1 ∧ (∀ j < k, upto + 1 < w / 2 ^ (j + 1)) ∧
    Lands (w / 2 ^ k) below upto

omit hsorted hlen in
theorem landsIn_succ {w below upto k : Nat} (hleft : upto + 1 < w / 2) :
    LandsIn w below upto (k + 1) ↔ LandsIn (w / 2) below upto k := by
  have hhalf : ∀ j, w / 2 ^ (j + 1) = w / 2 / 2 ^ j := by
    intro j
    rw [Nat.div_div_eq_div_mul, Nat.pow_succ']
  unfold LandsIn
  rw [hhalf]
  refine and_congr_right fun _ => and_congr_right fun _ => and_congr_left fun _ => ?_
  constructor
  · intro h j hj
    rw [← hhalf]
    exact h (j + 1) (Nat.succ_lt_succ hj)
  · intro h j hj
    cases j with
    | zero => simpa using hleft
    | succ j =>
        rw [hhalf]
        exact h j (Nat.lt_of_succ_lt_succ hj)

omit hsorted hlen in
theorem exists_landsIn_left {w below upto : Nat} (hleft : upto + 1 < w / 2) :
    (∃ k, LandsIn w below upto k) ↔ ∃ k, LandsIn (w / 2) below upto k := by
  constructor
  · rintro ⟨k, hk⟩
    cases k with
    | zero =>
        have hhere := hk.2.1
        rw [Nat.pow_zero, Nat.div_one] at hhere
        exact absurd hleft (Nat.not_lt_of_le hhere)
    | succ k => exact ⟨k, (landsIn_succ hleft).mp hk⟩
  · rintro ⟨k, hk⟩
    exact ⟨k + 1, (landsIn_succ hleft).mpr hk⟩

omit hsorted hlen in
theorem exists_landsIn_here {w below upto : Nat} (hw : 4 ≤ w) (hhere : w / 2 ≤ upto + 1) :
    (∃ k, LandsIn w below upto k) ↔ Lands w below upto := by
  constructor
  · rintro ⟨k, hk⟩
    cases k with
    | zero =>
        have hlands := hk.2.2.2
        rwa [Nat.pow_zero, Nat.div_one] at hlands
    | succ k =>
        have hfirst := hk.2.2.1 0 (Nat.succ_pos k)
        rw [Nat.zero_add, Nat.pow_one] at hfirst
        exact absurd hhere (Nat.not_le_of_lt hfirst)
  · intro hlands
    refine ⟨0, ?_⟩
    unfold LandsIn
    rw [Nat.pow_zero, Nat.div_one]
    exact ⟨hw, hhere, fun j hj => absurd hj (Nat.not_lt_zero j), hlands⟩

omit hsorted hlen in
/-- The last windows are too small. -/
theorem not_landsIn_of_lt {w below upto : Nat} (hw : w < 4) (k : Nat) : ¬ LandsIn w below upto k :=
  fun hk => absurd (Nat.le_trans hk.1 (Nat.div_le_self w _)) (Nat.not_le_of_lt hw)

/-- **All windows.** -/
theorem correct_iff_landsIn (w : Nat) (hw : 3 ≤ w) (hn : w ≤ arr.length + 2)
    (hupto : rankLe arr val + 2 ≤ w) :
    Correct arr (UInt32.ofNat 0) (UInt32.ofNat (w - 3)) val ↔
      ∃ k, LandsIn w (rankLt arr val) (rankLe arr val) k := by
  induction w using Nat.strong_induction_on with
  | h w ih =>
    rcases Nat.lt_or_ge w 4 with hsmall | hlarge
    · -- one entry: `end - 1` wraps
      obtain rfl : w = 3 := by omega
      refine iff_of_false ?_ fun ⟨k, hk⟩ => not_landsIn_of_lt hsmall k hk
      exact not_correct_of_wrapped hlen (by decide)
    have hmiddle : 0 + (w - 3 - 1) / 2 = w / 2 - 2 := by omega
    rcases Nat.lt_or_ge (rankLe arr val + 1) (w / 2) with hleft | hhere
    · rw [exists_landsIn_left hleft]
      rcases Nat.lt_or_ge (w / 2) 3 with hfirst | hmore
      · -- all entries are greater: `middle - 1` wraps
        refine iff_of_false ?_ fun ⟨k, hk⟩ => not_landsIn_of_lt (by omega) k hk
        rw [correct_of_goesOn fun fuel => binarySearch_left (by omega) (by omega) (by omega) hlen
          hsorted (by omega) (by omega), hmiddle, show w / 2 - 2 = 0 by omega]
        exact not_correct_of_wrapped hlen (by decide)
      · rw [correct_left (by omega) (by omega) (by omega) hlen hsorted (by omega) (by omega) (by omega),
          hmiddle, show w / 2 - 2 - 1 = w / 2 - 3 by omega]
        exact ih (w / 2) (by omega) hmore (by omega) (by omega)
    · rw [exists_landsIn_here hlarge hhere, correct_window (m := w / 2 - 2) hsorted hlen (by omega)
        (by omega) (by omega) (by omega), Nat.sub_add_cancel hw]

end Windows

/-- **The search is right in these windows and places only.** -/
theorem correct_iff (arr : List UInt32) (val : UInt32) (hsorted : arr.Pairwise (· ≤ ·))
    (hpos : 1 ≤ arr.length) (hlen : arr.length < 2 ^ 31) :
    Correct arr 0 (UInt32.ofNat (arr.length - 1)) val ↔
      ∃ k, LandsIn (arr.length + 2) (rankLt arr val) (rankLe arr val) k :=
  correct_iff_landsIn hsorted hlen (arr.length + 2) (by omega) (Nat.le_refl _)
    (Nat.add_le_add_right (rankLe_le_length arr val) 2)

/-- The second of three entries. -/
theorem correct_second : Correct [1, 3, 5] 0 2 3 :=
  (correct_iff [1, 3, 5] 3 (by decide) (by decide) (by decide)).mpr
    ⟨0, by decide, by decide, fun j hj => absurd hj (Nat.not_lt_zero j), by decide⟩

/-- An array with one entry: the first read is at `2 ^ 31 - 1`. -/
theorem not_correct_single : ¬ Correct [7] 0 (UInt32.ofNat ([7].length - 1)) 7 :=
  not_correct_of_wrapped (by decide) (by decide)

end Neutrino.Algorithms
