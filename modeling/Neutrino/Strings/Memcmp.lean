import Neutrino.Lib.FirstDifference
import Mathlib.Algebra.Group.Int.Defs
import Mathlib.Algebra.Group.Nat.Defs
import Mathlib.Data.Int.Order.Basic

/-!
# Comparing memory

`memcmp` and `memcmpw` are one loop over `char`s and over `short`s, which are promoted to `int` before
they are compared. Both types are signed here, so that what the loop computes is the sign of the
lexicographic comparison of signed entries (`compareLoop_lt_iff`). For `memcmp` that is the order of the
bytes as unsigned values iff the first two that differ are on the same side of 0x80
(`unsignedOrder_iff`).
-/

namespace Neutrino.Strings

open Neutrino.Lib

/-! ## The code -/

section Loop

variable {α : Type} (promote : α → Int32)

/-- The two arrays from where `t1` and `t2` point on. There is nothing to read behind their ends. -/
def compareLoop : List α → List α → Nat → Option Int32
  | _, _, 0 => some 0
  | t1 :: ptr1, t2 :: ptr2, num + 1 =>
      if promote t1 ≠ promote t2 then some (promote t1 - promote t2)
      else compareLoop ptr1 ptr2 num
  | _, _, _ + 1 => none

end Loop

/-- A `char`, promoted to `int`. -/
def charInt (c : UInt8) : Int32 := c.toInt8.toInt32

/-- A `short`, promoted to `int`. -/
def shortInt (c : UInt16) : Int32 := c.toInt16.toInt32

def memcmp (ptr1 ptr2 : List UInt8) (num : Nat) : Option Int32 := compareLoop charInt ptr1 ptr2 num

def memcmpw (ptr1 ptr2 : List UInt16) (num : Nat) : Option Int32 := compareLoop shortInt ptr1 ptr2 num

/-! ## The loop -/

/-- Promotions keep entries apart, and their differences are `int`s. -/
structure Promotes {α : Type} (promote : α → Int32) : Prop where
  injective : Function.Injective promote
  bound : ∀ x, -2 ^ 15 ≤ (promote x).toInt ∧ (promote x).toInt < 2 ^ 15

section Spec

variable {α : Type} {promote : α → Int32} {xs ys zs : List α} {n j : Nat} {x y : α} {r r' r'' : Int32}

theorem Promotes.toInt_injective (hp : Promotes promote) :
    Function.Injective fun x => (promote x).toInt :=
  fun _ _ h => hp.injective (Int32.toInt_inj.mp h)

theorem Promotes.toInt_sub (hp : Promotes promote) (x y : α) :
    (promote x - promote y).toInt = (promote x).toInt - (promote y).toInt := by
  obtain ⟨hx, hx'⟩ := hp.bound x
  obtain ⟨hy, hy'⟩ := hp.bound y
  rw [Int32.toInt_sub]
  exact Int.bmod_eq_of_le (by omega) (by omega)

theorem compareLoop_agree (h : xs.take n = ys.take n) (hxs : n ≤ xs.length) (hys : n ≤ ys.length) :
    compareLoop promote xs ys n = some 0 := by
  induction n generalizing xs ys with
  | zero => rw [compareLoop]
  | succ n ih =>
      cases xs with
      | nil => exact absurd hxs (Nat.not_succ_le_zero n)
      | cons x xs =>
          cases ys with
          | nil => exact absurd hys (Nat.not_succ_le_zero n)
          | cons y ys =>
              rw [List.take_succ_cons, List.take_succ_cons] at h
              obtain ⟨rfl, hrest⟩ := List.cons.inj h
              rw [compareLoop, if_neg (not_not_intro rfl)]
              exact ih hrest (Nat.le_of_succ_le_succ hxs) (Nat.le_of_succ_le_succ hys)

theorem compareLoop_append (hp : Promotes promote) (hne : x ≠ y) {as bs cs : List α}
    (h : as.length < n) :
    compareLoop promote (as ++ x :: bs) (as ++ y :: cs) n = some (promote x - promote y) := by
  induction as generalizing n with
  | nil =>
      obtain ⟨m, rfl⟩ := Nat.exists_eq_succ_of_ne_zero (Nat.ne_of_gt h)
      rw [List.nil_append, List.nil_append, compareLoop, if_pos (hp.injective.ne hne)]
  | cons a as ih =>
      obtain ⟨m, rfl⟩ := Nat.exists_eq_succ_of_ne_zero (Nat.ne_of_gt (Nat.zero_lt_of_lt h))
      rw [List.cons_append, List.cons_append, compareLoop, if_neg (not_not_intro rfl)]
      exact ih (Nat.lt_of_succ_lt_succ h)

theorem compareLoop_differs (hp : Promotes promote) (h : DiffersAt xs ys j x y) (hj : j < n) :
    compareLoop promote xs ys n = some (promote x - promote y) := by
  have hne := h.ne
  obtain ⟨as, bs, cs, rfl, rfl, rfl⟩ := h.eq_append
  exact compareLoop_append hp hne hj

/-- What the loop returns. -/
theorem compareLoop_cases (hp : Promotes promote) (hxs : n ≤ xs.length) (hys : n ≤ ys.length) :
    (xs.take n = ys.take n ∧ compareLoop promote xs ys n = some 0) ∨
    ∃ j x y, j < n ∧ DiffersAt xs ys j x y ∧
      compareLoop promote xs ys n = some (promote x - promote y) := by
  cases take_eq_or_differsAt hxs hys with
  | inl hsame => exact .inl ⟨hsame, compareLoop_agree hsame hxs hys⟩
  | inr hdiffers =>
      obtain ⟨j, x, y, hj, h⟩ := hdiffers
      exact .inr ⟨j, x, y, hj, h, compareLoop_differs hp h hj⟩

theorem Promotes.sub_ne_zero (hp : Promotes promote) (h : x ≠ y) : promote x - promote y ≠ 0 := by
  intro hzero
  have hsub := hp.toInt_sub x y
  rw [hzero, Int32.toInt_zero] at hsub
  exact h (hp.toInt_injective (Int.sub_eq_zero.mp hsub.symm))

theorem compareLoop_zero_iff (hp : Promotes promote) (hxs : n ≤ xs.length) (hys : n ≤ ys.length) :
    compareLoop promote xs ys n = some 0 ↔ xs.take n = ys.take n := by
  constructor
  · intro hzero
    rcases compareLoop_cases hp hxs hys with ⟨hsame, -⟩ | ⟨j, x, y, hj, h, hr⟩
    · exact hsame
    · rw [hr] at hzero
      exact absurd (Option.some.inj hzero) (hp.sub_ne_zero h.ne)
  · intro hsame
    exact compareLoop_agree hsame hxs hys

/-- **The result is negative iff the entries are in lexicographic order**, as `int`s. -/
theorem compareLoop_lt_iff (hp : Promotes promote) (hxs : n ≤ xs.length) (hys : n ≤ ys.length)
    (hr : compareLoop promote xs ys n = some r) :
    r.toInt < 0 ↔ (xs.take n).map (fun x => (promote x).toInt) <
      (ys.take n).map (fun x => (promote x).toInt) := by
  rcases compareLoop_cases hp hxs hys with ⟨hsame, hzero⟩ | ⟨j, x, y, hj, h, hdiffers⟩
  · rw [hzero] at hr
    cases hr
    rw [hsame]
    exact iff_of_false (Int.lt_irrefl 0) (lt_irrefl _)
  · rw [hdiffers] at hr
    cases hr
    rw [h.map_take_lt_iff hp.toInt_injective hj, hp.toInt_sub]
    exact ⟨Int.lt_of_sub_neg, Int.sub_neg_of_lt⟩

/-- With the arrays exchanged, the result is the opposite. -/
theorem compareLoop_swap (hp : Promotes promote) (hxs : n ≤ xs.length) (hys : n ≤ ys.length)
    (hr : compareLoop promote xs ys n = some r) (hr' : compareLoop promote ys xs n = some r') :
    r'.toInt = -r.toInt := by
  rcases compareLoop_cases hp hxs hys with ⟨hsame, hzero⟩ | ⟨j, x, y, hj, h, hdiffers⟩
  · rw [compareLoop_agree hsame.symm hys hxs] at hr'
    rw [hzero] at hr
    cases hr
    cases hr'
    rfl
  · rw [compareLoop_differs hp h.symm hj] at hr'
    rw [hdiffers] at hr
    cases hr
    cases hr'
    rw [hp.toInt_sub, hp.toInt_sub, Int.neg_sub]

theorem compareLoop_neg_trans (hp : Promotes promote) (hxs : n ≤ xs.length) (hys : n ≤ ys.length)
    (hzs : n ≤ zs.length) (hr : compareLoop promote xs ys n = some r)
    (hr' : compareLoop promote ys zs n = some r') (hr'' : compareLoop promote xs zs n = some r'')
    (h : r.toInt < 0) (h' : r'.toInt < 0) : r''.toInt < 0 := by
  rw [compareLoop_lt_iff hp hxs hys hr] at h
  rw [compareLoop_lt_iff hp hys hzs hr'] at h'
  exact (compareLoop_lt_iff hp hxs hzs hr'').mpr (lt_trans h h')

theorem compareLoop_isSome (hp : Promotes promote) (hxs : n ≤ xs.length) (hys : n ≤ ys.length) :
    ∃ r, compareLoop promote xs ys n = some r := by
  rcases compareLoop_cases hp hxs hys with ⟨-, hr⟩ | ⟨j, x, y, hj, h, hr⟩
  · exact ⟨0, hr⟩
  · exact ⟨_, hr⟩

/-- **Signs are transitive.** -/
theorem compareLoop_sign_trans (hp : Promotes promote) (hxs : n ≤ xs.length) (hys : n ≤ ys.length)
    (hzs : n ≤ zs.length) (hr : compareLoop promote xs ys n = some r)
    (hr' : compareLoop promote ys zs n = some r') (hr'' : compareLoop promote xs zs n = some r'')
    (h : r.toInt.sign = r'.toInt.sign) : r''.toInt.sign = r.toInt.sign := by
  rcases Int.lt_trichotomy r.toInt 0 with hneg | hzero | hpos
  · have hneg' : r'.toInt < 0 := by
      rwa [← Int.sign_eq_neg_one_iff_neg, ← h, Int.sign_eq_neg_one_iff_neg]
    have hneg'' := compareLoop_neg_trans hp hxs hys hzs hr hr' hr'' hneg hneg'
    rw [Int.sign_eq_neg_one_of_neg hneg, Int.sign_eq_neg_one_of_neg hneg'']
  · have hzero' : r'.toInt = 0 := by
      rw [← Int.sign_eq_zero_iff_zero, ← h, hzero, Int.sign_zero]
    obtain rfl : r = 0 := Int32.toInt_inj.mp hzero
    obtain rfl : r' = 0 := Int32.toInt_inj.mp hzero'
    have hsame := (compareLoop_zero_iff hp hxs hys).mp hr
    have hsame' := (compareLoop_zero_iff hp hys hzs).mp hr'
    rw [compareLoop_agree (hsame.trans hsame') hxs hzs] at hr''
    cases hr''
    rfl
  · have hpos' : 0 < r'.toInt := by
      rwa [← Int.sign_eq_one_iff_pos, ← h, Int.sign_eq_one_iff_pos]
    obtain ⟨s, hs⟩ := compareLoop_isSome hp hys hxs
    obtain ⟨s', hs'⟩ := compareLoop_isSome hp hzs hys
    obtain ⟨s'', hs''⟩ := compareLoop_isSome hp hzs hxs
    have hswap := compareLoop_swap hp hxs hys hr hs
    have hswap' := compareLoop_swap hp hys hzs hr' hs'
    have hswap'' := compareLoop_swap hp hxs hzs hr'' hs''
    have hneg'' := compareLoop_neg_trans hp hzs hys hxs hs' hs hs'' (by omega) (by omega)
    rw [Int.sign_eq_one_of_pos hpos, Int.sign_eq_one_of_pos (show 0 < r''.toInt by omega)]

end Spec

/-- A promotion of a signed type: the values from `half` on are negative. -/
theorem promotes_of_half {α : Type} {promote : α → Int32} {key : α → Nat} {half : Nat}
    (hhalf : half ≤ 2 ^ 15) (hkey : Function.Injective key) (hlt : ∀ x, key x < 2 * half)
    (h : ∀ x, (promote x).toInt =
      if key x < half then (key x : Int) else key x - (2 * half : Nat)) : Promotes promote where
  injective := by
    intro x y hxy
    have hx := hlt x
    have hy := hlt y
    have hint := congrArg Int32.toInt hxy
    rw [h, h] at hint
    apply hkey
    split at hint <;> split at hint <;> omega
  bound := by
    intro x
    have hx := hlt x
    rw [h]
    split <;> omega

/-! ## Bytes -/

theorem toInt_charInt (c : UInt8) :
    (charInt c).toInt = if c.toNat < 128 then (c.toNat : Int) else c.toNat - (256 : Nat) := by
  have hchar : c.toInt8.toInt =
      if 2 * c.toNat < 2 ^ 8 then (c.toNat : Int) else c.toNat - (2 ^ 8 : Nat) :=
    BitVec.toInt_eq_toNat_cond c.toBitVec
  rw [charInt, Int8.toInt_toInt32, hchar]
  split <;> split <;> omega

theorem promotes_charInt : Promotes charInt :=
  promotes_of_half (by decide) (fun _ _ => UInt8.toNat.inj) UInt8.toNat_lt toInt_charInt

/-- `memcmp` compares the first `num` bytes of `a` and `b` as unsigned values. -/
structure UnsignedOrder (a b : List UInt8) (num : Nat) : Prop where
  returns : ∃ r, memcmp a b num = some r
  zero : memcmp a b num = some 0 ↔ a.take num = b.take num
  negative : ∀ j x y r, j < num → DiffersAt a b j x y → memcmp a b num = some r → (r < 0 ↔ x < y)
  antisymmetric : ∀ r r', memcmp a b num = some r → memcmp b a num = some r' →
    r'.toInt.sign = -r.toInt.sign
  transitive : ∀ c r r' r'', num ≤ c.length → memcmp a b num = some r → memcmp b c num = some r' →
    memcmp a c num = some r'' → r.toInt.sign = r'.toInt.sign → r''.toInt.sign = r.toInt.sign

/-- Two bytes that differ are in the same order as `char`s iff both are below 0x80 or neither. -/
theorem charInt_sub_neg_iff {x y : UInt8} (h : x ≠ y) :
    (charInt x - charInt y < 0 ↔ x < y) ↔ (x < 0x80 ↔ y < 0x80) := by
  have hx := x.toNat_lt
  have hy := y.toNat_lt
  have hne : x.toNat ≠ y.toNat := fun heq => h (UInt8.toNat.inj heq)
  have hhalf : (0x80 : UInt8).toNat = 128 := rfl
  rw [Int32.lt_iff_toInt_lt, Int32.toInt_zero, promotes_charInt.toInt_sub, toInt_charInt,
    toInt_charInt, UInt8.lt_iff_toNat_lt, UInt8.lt_iff_toNat_lt, UInt8.lt_iff_toNat_lt, hhalf]
  split <;> split <;> omega

/-- **`memcmp` is the unsigned lexicographic order iff the first bytes that differ, if any, are both
below 0x80 or both not.** -/
theorem unsignedOrder_iff (a b : List UInt8) (num : Nat) (ha : num ≤ a.length)
    (hb : num ≤ b.length) :
    UnsignedOrder a b num ↔
      ∀ j x y, j < num → DiffersAt a b j x y → (x < 0x80 ↔ y < 0x80) := by
  have hp := promotes_charInt
  constructor
  case mp =>
    intro horder j x y hj h
    rw [← charInt_sub_neg_iff h.ne]
    exact horder.negative j x y _ hj h (compareLoop_differs hp h hj)
  case mpr =>
    intro hsides
    refine ⟨compareLoop_isSome hp ha hb, compareLoop_zero_iff hp ha hb, ?_, ?_, ?_⟩
    · intro j x y r hj h hr
      have hdiffers : memcmp a b num = _ := compareLoop_differs hp h hj
      rw [hdiffers] at hr
      cases hr
      exact (charInt_sub_neg_iff h.ne).mpr (hsides j x y hj h)
    · intro r r' hr hr'
      rw [compareLoop_swap hp ha hb hr hr', Int.sign_neg]
    · intro c r r' r'' hc hr hr' hr''
      exact compareLoop_sign_trans hp ha hb hc hr hr' hr''

/-- Both of the bytes that differ are above 0x7F. -/
theorem unsignedOrder_high : UnsignedOrder [0x41, 0xFF] [0x41, 0x80] 2 := by
  apply (unsignedOrder_iff [0x41, 0xFF] [0x41, 0x80] 2 (by decide) (by decide)).mpr
  intro j x y _ h
  have hplace : DiffersAt [0x41, 0xFF] [0x41, (0x80 : UInt8)] 1 0xFF 0x80 :=
    (DiffersAt.head (by decide)).cons
  obtain ⟨-, rfl, rfl⟩ := h.unique hplace
  decide

/-- 0x80 comes after 0, but as a `char` it is -128. -/
theorem not_unsignedOrder : ¬UnsignedOrder [0x80] [0] 1 := by
  intro horder
  have hplace : DiffersAt [0x80] [(0 : UInt8)] 0 0x80 0 := .head (by decide)
  exact absurd (horder.negative 0 0x80 0 (-128) (by decide) hplace (by decide)) (by decide)

end Neutrino.Strings
