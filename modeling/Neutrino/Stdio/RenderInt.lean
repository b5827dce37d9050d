import Neutrino.Stdio.FormatInt
import Mathlib.Data.Nat.Digits.Lemmas

/-!
# What `format_int` writes

`renderInt` says what an integer directive prints, as a list: padding, sign, prefix, numeral. The
result of the module is `formatInt_eq`: `format_int` writes exactly the part of that list which fits,
and returns the length of all of it.

The digits are the delicate part. They are written from right to left, starting from a position that
may lie far beyond the buffer, and the count made beforehand has to match the number of rounds the
loop makes, tick marks included (`digitLoop_holds`).
-/

namespace Neutrino.Stdio

open Neutrino.Lib

/-! ## Output that agrees with a list -/

/-- The output so far is `out`, of which the buffer got what fits into `n` bytes from `q` on. Once
they are full, `s.q` means nothing any more. -/
structure Sink.Agrees (b : Int → UInt8) (q : Int) (n : Nat) (s : Sink) (out : List UInt8) : Prop where
  buffer : s.buffer = written b q n out
  count : s.o = out.length
  pointer : out.length < n → s.q = q + out.length

section Agrees

variable {b : Int → UInt8} {q : Int} {n : Nat} {s : Sink} {out : List UInt8}

theorem Sink.agrees_nil : Sink.Agrees b q n ⟨b, q, 0⟩ [] where
  buffer := (written_nil b q n).symm
  count := rfl
  pointer _ := (Int.add_zero q).symm

theorem Sink.Agrees.emit (c : UInt8) (h : s.Agrees b q n out) (hlen : out.length + 1 < 2 ^ 32) :
    (s.emit n c).Agrees b q n (out ++ [c]) := by
  have hcount : sizeT (s.o + 1) = (out ++ [c]).length := by
    rw [sizeT_of_nonneg (by omega) (by rw [h.count]; omega), h.count, List.length_append,
      List.length_singleton]
    omega
  unfold Sink.emit
  by_cases hroom : s.o < n
  · rw [if_pos hroom]
    have hlt : out.length < n := h.count ▸ hroom
    refine ⟨?_, hcount, fun _ => ?_⟩
    · rw [written_snoc _ _ _ _ _ hlt, h.buffer, h.pointer hlt]
    · show s.q + 1 = _
      rw [h.pointer hlt, List.length_append, List.length_singleton]
      omega
  · rw [if_neg hroom]
    have hfull : n ≤ out.length := by
      rw [← h.count]
      exact Nat.le_of_not_lt hroom
    refine ⟨?_, hcount, fun hlt => ?_⟩
    · rw [written_append_of_full _ _ _ _ _ hfull]
      exact h.buffer
    · rw [List.length_append] at hlt
      omega

theorem Sink.Agrees.repeat (c : UInt8) (k : Nat) (h : s.Agrees b q n out)
    (hlen : out.length + k < 2 ^ 32) :
    Sink.Agrees b q n (k.repeat (Sink.emit n c) s) (out ++ List.replicate k c) := by
  induction k with
  | zero => rwa [List.replicate_zero, List.append_nil]
  | succ k ih =>
      rw [List.replicate_succ', ← List.append_assoc]
      apply (ih (by omega)).emit
      rw [List.length_append, List.length_replicate]
      omega

theorem Sink.Agrees.padWhile (c : UInt8) {width limit : Int} (h : s.Agrees b q n out)
    (hlen : out.length + (width - limit).toNat < 2 ^ 32) :
    (s.padWhile n c width limit).1.Agrees b q n
      (out ++ List.replicate (width - limit).toNat c) :=
  h.repeat c _ hlen

end Agrees

/-! ## The number

`numeral … j` is the numeral of the `j` lowest digits: in front of them stands the digit of weight
`base ^ j`, and a tick mark after it if it completes a group. -/

def numeral (upper : Bool) (base tickskip val : Nat) : Nat → List UInt8
  | 0 => []
  | j + 1 =>
      digit upper (val / base ^ j % base) ::
        ((if 0 < j ∧ j % tickskip = 0 then [byte '_'] else []) ++ numeral upper base tickskip val j)

theorem length_numeral (upper : Bool) (base tickskip val j : Nat) :
    (numeral upper base tickskip val j).length = j + (j - 1) / tickskip := by
  induction j with
  | zero => simp [numeral]
  | succ j ih =>
      rw [numeral, List.length_cons, List.length_append, ih, Nat.add_sub_cancel]
      cases j with
      | zero => simp
      | succ j =>
          rw [Nat.add_sub_cancel, Nat.succ_div]
          by_cases hgroup : tickskip ∣ j + 1
          · rw [if_pos hgroup, if_pos ⟨Nat.succ_pos j, Nat.mod_eq_zero_of_dvd hgroup⟩,
              List.length_singleton]
            omega
          · rw [if_neg hgroup, if_neg (fun h => hgroup (Nat.dvd_of_mod_eq_zero h.2)),
              List.length_nil]
            omega

theorem length_numeral_mono (upper : Bool) (base tickskip val : Nat) {i j : Nat} (h : i ≤ j) :
    (numeral upper base tickskip val i).length ≤ (numeral upper base tickskip val j).length := by
  induction h with
  | refl => exact Nat.le_refl _
  | step _ ih =>
      rw [numeral, List.length_cons, List.length_append]
      omega

/-- `f` has put `tail`, the end of the number. -/
def Fill.Holds (b : Int → UInt8) (n : Nat) (f : Fill) (tail : List UInt8) : Prop :=
  f.buffer = written b f.qq (n - f.oo) tail

theorem Fill.Holds.put {b : Int → UInt8} {n : Nat} {f : Fill} {tail : List UInt8} (c : UInt8)
    (h : f.Holds b n tail) (hoo : 0 < f.oo) (hbound : f.oo < 2 ^ 32) :
    (f.put n c).Holds b n (c :: tail) ∧ (f.put n c).oo = f.oo - 1 := by
  have hstep : sizeT (f.oo - 1) = f.oo - 1 := by
    rw [sizeT_of_nonneg (by omega) (by omega)]
    omega
  refine ⟨?_, hstep⟩
  unfold Fill.Holds Fill.put at *
  simp only [hstep]
  by_cases hroom : f.oo - 1 < n
  · rw [if_pos hroom, written_cons _ _ _ _ _ (by omega), h]
    congr 2
    · omega
    · omega
  · rw [if_neg hroom, h, show n - f.oo = 0 by omega, show n - (f.oo - 1) = 0 by omega,
      written_zero, written_zero]

/-- The value of `b4tick` after `j` digits. -/
def tickCounter (tickskip : Nat) : Nat → Int
  | 0 => tickskip
  | j + 1 => tickskip - 1 - (j % tickskip : Nat)

theorem succ_mod_cases {k : Nat} (hk : 0 < k) (j : Nat) :
    (j % k + 1 < k ∧ (j + 1) % k = j % k + 1) ∨ (j % k + 1 = k ∧ (j + 1) % k = 0) := by
  have hlt := Nat.mod_lt j hk
  have hmod : (j + 1) % k = (j % k + 1) % k := (Nat.mod_add_mod j k 1).symm
  rcases Nat.lt_or_eq_of_le hlt with hlt' | heq
  · exact Or.inl ⟨hlt', by rw [hmod, Nat.mod_eq_of_lt hlt']⟩
  · exact Or.inr ⟨heq, by rw [hmod, show j % k + 1 = k from heq, Nat.mod_self]⟩

theorem tickCounter_eq_zero {tickskip : Nat} (hskip : 0 < tickskip) (j : Nat) :
    tickCounter tickskip j = 0 ↔ 0 < j ∧ j % tickskip = 0 := by
  cases j with
  | zero =>
      rw [tickCounter]
      omega
  | succ j =>
      rw [tickCounter]
      rcases succ_mod_cases hskip j with ⟨hlt, hmod⟩ | ⟨heq, hmod⟩
      · rw [hmod]
        omega
      · rw [hmod]
        omega

theorem tickCounter_succ {tickskip : Nat} (hskip : 0 < tickskip) (j : Nat) :
    (if tickCounter tickskip j = 0 then (tickskip : Int) - 1 else tickCounter tickskip j - 1) =
      tickCounter tickskip (j + 1) := by
  split
  · next hzero =>
    obtain ⟨hpos, hmod⟩ := (tickCounter_eq_zero hskip j).mp hzero
    rw [tickCounter, hmod, Int.natCast_zero, Int.sub_zero]
  · next hpos =>
    cases j with
    | zero =>
        rw [tickCounter, tickCounter, Nat.zero_mod, Int.natCast_zero, Int.sub_zero]
    | succ j =>
        rw [tickCounter] at hpos
        rw [tickCounter, tickCounter]
        rcases succ_mod_cases hskip j with ⟨hlt, hmod⟩ | ⟨heq, hmod⟩
        · omega
        · omega

/-- One round of the digit loop: a tick mark if one is due, and a digit. -/
def Fill.round (n : Nat) (upper : Bool) (base : Nat) (tick : Bool) (val : Nat) (f : Fill) : Fill :=
  (if tick then f.put n (byte '_') else f).put n (digit upper (val % base))

theorem Fill.Holds.round {b : Int → UInt8} {n : Nat} {f : Fill} (upper : Bool)
    (base tickskip val j : Nat) (h : f.Holds b n (numeral upper base tickskip val j)) {k : Nat}
    (hk : (numeral upper base tickskip val (j + 1)).length =
      (numeral upper base tickskip val j).length + k)
    (hoo : k ≤ f.oo) (hbound : f.oo < 2 ^ 32) :
    let f' := f.round n upper base (decide (0 < j ∧ j % tickskip = 0)) (val / base ^ j)
    f'.Holds b n (numeral upper base tickskip val (j + 1)) ∧ f'.qq = f.qq - k ∧
      f'.oo = f.oo - k ∧ f'.ndigits = f.ndigits - k := by
  intro f'
  by_cases htick : 0 < j ∧ j % tickskip = 0
  · rw [numeral, if_pos htick, List.length_cons, List.length_append, List.length_singleton] at hk
    obtain ⟨hmark, hoo'⟩ := h.put (byte '_') (by omega) hbound
    obtain ⟨hdigit, hoo''⟩ := hmark.put (digit upper (val / base ^ j % base)) (by omega) (by omega)
    have hf' : f' = (f.put n (byte '_')).put n (digit upper (val / base ^ j % base)) := by
      simp only [f', Fill.round, htick, decide_true, if_true, and_self]
    rw [hf', numeral, if_pos htick]
    refine ⟨hdigit, ?_, by omega, ?_⟩
    · show f.qq - 1 - 1 = _
      omega
    · show f.ndigits - 1 - 1 = _
      omega
  · rw [numeral, if_neg htick, List.length_cons, List.nil_append] at hk
    obtain ⟨hdigit, hoo'⟩ := h.put (digit upper (val / base ^ j % base)) (by omega) hbound
    have hf' : f' = f.put n (digit upper (val / base ^ j % base)) := by
      simp only [f', Fill.round, htick, decide_false, Bool.false_eq_true, if_false]
    rw [hf', numeral, if_neg htick]
    refine ⟨hdigit, ?_, by omega, ?_⟩
    · show f.qq - 1 = _
      omega
    · show f.ndigits - 1 = _
      omega

/-- **The digit loop writes the number**, from the state in which its `j` lowest digits are there. -/
theorem digitLoop_holds (n : Nat) (upper : Bool) (base val : Nat) {tickskip : Nat}
    (hskip : 0 < tickskip) {b : Int → UInt8} (r : Nat) :
    ∀ (j rounds k : Nat) (f : Fill), f.Holds b n (numeral upper base tickskip val j) →
      (numeral upper base tickskip val (j + r)).length =
        (numeral upper base tickskip val j).length + k →
      f.ndigits = k → k ≤ rounds → k ≤ f.oo → f.oo < 2 ^ 32 →
      let f' := digitLoop n upper base tickskip rounds f (tickCounter tickskip j) (val / base ^ j)
      f'.Holds b n (numeral upper base tickskip val (j + r)) ∧ f'.qq = f.qq - k ∧
        f'.oo = f.oo - k := by
  induction r with
  | zero =>
      intro j rounds k f hholds hk hleft _ _ _
      have hzero : k = 0 := by
        rw [Nat.add_zero] at hk
        omega
      have hstop : digitLoop n upper base tickskip rounds f (tickCounter tickskip j)
          (val / base ^ j) = f := by
        cases rounds with
        | zero => rfl
        | succ rounds => exact if_neg (by omega)
      simp only [hstop, hzero, Int.natCast_zero, Int.sub_zero, Nat.sub_zero, and_true, Nat.add_zero]
      exact hholds
  | succ r ih =>
      intro j rounds k f hholds hk hleft hrounds hoo hbound
      -- `i` characters in this round, the rest in the rounds after it
      have hone : 0 < (numeral upper base tickskip val (j + 1)).length -
          (numeral upper base tickskip val j).length := by
        rw [numeral, List.length_cons, List.length_append]
        omega
      have hgrow := length_numeral_mono upper base tickskip val (show j + 1 ≤ j + (r + 1) by omega)
      generalize hi : (numeral upper base tickskip val (j + 1)).length -
        (numeral upper base tickskip val j).length = i at hone
      obtain ⟨rounds, rfl⟩ : ∃ m, rounds = m + 1 := ⟨rounds - 1, by omega⟩
      obtain ⟨hround, hqq, hoo', hleft'⟩ := hholds.round upper base tickskip val j
        (show _ = _ + i by omega) (by omega) hbound
      have hrest := ih (j + 1) rounds (k - i) _ hround
        (by rw [show j + 1 + r = j + (r + 1) by omega]; omega) (by omega) (by omega) (by omega)
        (by omega)
      have hunfold : digitLoop n upper base tickskip (rounds + 1) f (tickCounter tickskip j)
          (val / base ^ j) = digitLoop n upper base tickskip rounds
            (f.round n upper base (decide (0 < j ∧ j % tickskip = 0)) (val / base ^ j))
            (tickCounter tickskip (j + 1)) (val / base ^ (j + 1)) := by
        rw [digitLoop, if_pos (by omega), ← tickCounter_succ hskip, Nat.pow_succ,
          ← Nat.div_div_eq_div_mul]
        simp only [Fill.round, decide_eq_true_eq, tickCounter_eq_zero hskip]
      rw [hunfold]
      rw [show j + 1 + r = j + (r + 1) by omega] at hrest
      obtain ⟨hend, hqq', hoo''⟩ := hrest
      exact ⟨hend, by omega, by omega⟩

/-! ## What is printed -/

section Render

variable (val : Nat) (flags : Flags) (base prec : Nat)

def isNegative : Bool := flags.signed && decide (2 ^ 31 ≤ val)

def magnitude : Nat := if isNegative val flags then 2 ^ 32 - val else val

/-- At least one digit, at least the precision, and a leading zero for `#o`. -/
def digitCount : Nat :=
  let digits := (Nat.digits base (magnitude val flags)).length
  max (max digits prec) (if flags.hash ∧ base = 8 then digits + 1 else 1)

def groupSize : Nat :=
  if flags.tick then (if base = 16 then 4 else 3) else digitCount val flags base prec

def sign : List UInt8 :=
  if isNegative val flags then [byte '-']
  else if flags.plus then [byte '+']
  else if flags.space then [byte ' ']
  else []

def hexPrefix : List UInt8 :=
  if flags.hash ∧ base = 16 then [byte '0', if flags.upper then byte 'X' else byte 'x'] else []

def number : List UInt8 :=
  numeral flags.upper base (groupSize val flags base prec) (magnitude val flags)
    (digitCount val flags base prec)

/-- The length without padding. -/
def unpadded : Nat :=
  (sign val flags).length + (hexPrefix flags base).length + (number val flags base prec).length

/-- The padding that fills up to `width`, at the place where `here` holds. -/
def padding (width len : Nat) (here : Bool) (c : Char) : List UInt8 :=
  List.replicate (if here then width - len else 0) (byte c)

/-- What an integer directive prints. -/
def renderInt (width : Nat) : List UInt8 :=
  let pad := padding width (unpadded val flags base prec)
  pad (!flags.minus && !flags.zero) ' ' ++ sign val flags ++ hexPrefix flags base ++
    pad (flags.zero && !flags.minus) '0' ++ number val flags base prec ++ pad flags.minus ' '

theorem unpadded_le_length (width : Nat) :
    unpadded val flags base prec ≤ (renderInt val flags base prec width).length := by
  simp only [renderInt, unpadded, List.length_append]
  omega

end Render

/-! ## The layout -/

theorem countDigits_eq {base : Nat} (hbase : 2 ≤ base) (rounds : Nat) :
    ∀ v, v ≤ rounds → countDigits base rounds v = (Nat.digits base v).length := by
  induction rounds with
  | zero =>
      intro v hv
      rw [Nat.le_zero.mp hv, Nat.digits_zero]
      rfl
  | succ rounds ih =>
      intro v hv
      rw [countDigits]
      split
      · next hzero => rw [hzero, Nat.digits_zero, List.length_nil]
      · next hpos =>
        have hlt : v / base < v := Nat.div_lt_self (Nat.pos_of_ne_zero hpos) hbase
        rw [Nat.digits_def' hbase (Nat.pos_of_ne_zero hpos), List.length_cons,
          ih (v / base) (by omega)]

/-- The `prec` of a directive: -1 stands for no precision. -/
def precInt : Option Nat → Int
  | none => -1
  | some prec => prec

theorem digits_eq_nil {base v : Nat} : (Nat.digits base v).length = 0 ↔ v = 0 := by
  rw [List.length_eq_zero_iff, Nat.digits_eq_nil_iff_eq_zero]

theorem groupSize_pos (val : Nat) (flags : Flags) (base prec : Nat) :
    0 < groupSize val flags base prec := by
  unfold groupSize digitCount
  split
  · split <;> decide
  · dsimp only
    split <;> omega

theorem adjustDigits_eq (val : Nat) (flags : Flags) (base : Nat) (prec : Option Nat) :
    adjustDigits flags base (precInt prec) (magnitude val flags)
        (Nat.digits base (magnitude val flags)).length =
      digitCount val flags base (prec.getD 0) := by
  have hzero := @digits_eq_nil base (magnitude val flags)
  unfold adjustDigits digitCount
  dsimp only
  generalize (Nat.digits base (magnitude val flags)).length = d at *
  generalize magnitude val flags = m at *
  -- without a precision `prec` is -1, which is as good as 0 here
  have hprec : precInt prec = (prec.getD 0 : Nat) ∨ (precInt prec = -1 ∧ prec.getD 0 = 0) := by
    cases prec with
    | none => exact Or.inr ⟨rfl, rfl⟩
    | some p => exact Or.inl rfl
  generalize precInt prec = i at *
  generalize prec.getD 0 = p at *
  by_cases hoctal : flags.hash = true ∧ base = 8
  · rw [if_pos hoctal]
    simp only [hoctal.1, hoctal.2, true_and]
    split_ifs <;> omega
  · have hno : ¬ (flags.hash = true ∧ base = 8 ∧ i < d + 1) := fun h => hoctal ⟨h.1, h.2.1⟩
    rw [if_neg hoctal]
    simp only [if_neg hno]
    split_ifs <;> omega

theorem addNondigits_eq {val base prec : Nat} {flags : Flags}
    (hlen : unpadded val flags base prec < 2 ^ 31) :
    addNondigits flags base (isNegative val flags) (number val flags base prec).length =
      unpadded val flags base prec := by
  unfold unpadded at *
  have hsign : (sign val flags).length =
      if isNegative val flags ∨ flags.plus ∨ flags.space then 1 else 0 := by
    unfold sign
    split_ifs <;> simp_all
  have hprefix : (hexPrefix flags base).length = if flags.hash ∧ base = 16 then 2 else 0 := by
    unfold hexPrefix
    split_ifs <;> rfl
  rw [hsign, hprefix] at hlen ⊢
  generalize (number val flags base prec).length = k at *
  have hone : k + 1 < 2 ^ 31 → int32 (k + 1) = k + 1 :=
    fun h => int32_of_nonneg (by omega) (by omega)
  unfold addNondigits
  dsimp only
  by_cases hs : isNegative val flags = true ∨ flags.plus = true ∨ flags.space = true
  · rw [if_pos hs] at hlen
    rw [if_pos hs, if_pos hs, hone (by omega)]
    split_ifs at hlen ⊢ with hp
    · rw [int32_of_nonneg (by omega) (by omega)]
      omega
    · omega
  · rw [if_neg hs] at hlen
    rw [if_neg hs, if_neg hs]
    split_ifs at hlen ⊢ with hp
    · rw [int32_of_nonneg (by omega) (by omega)]
      omega
    · omega

theorem layout_eq {val base : Nat} {flags : Flags} {prec : Option Nat} (hbase : 2 ≤ base)
    (hlen : unpadded val flags base (prec.getD 0) < 2 ^ 31) :
    layout val flags base (precInt prec) =
      ⟨isNegative val flags, magnitude val flags, groupSize val flags base (prec.getD 0),
        (number val flags base (prec.getD 0)).length, unpadded val flags base (prec.getD 0)⟩ := by
  have hcount : countDigits base (magnitude val flags) (magnitude val flags) =
      (Nat.digits base (magnitude val flags)).length :=
    countDigits_eq hbase _ _ (Nat.le_refl _)
  have hmag : (if (flags.signed && decide (2 ^ 31 ≤ val)) = true then 2 ^ 32 - val else val) =
    magnitude val flags := rfl
  have hskip : (if flags.tick then (if base = 16 then 4 else 3)
      else (digitCount val flags base (prec.getD 0) : Int)) =
      groupSize val flags base (prec.getD 0) := by
    unfold groupSize
    split_ifs <;> rfl
  have hnumber : (number val flags base (prec.getD 0)).length = _ := length_numeral ..
  have hticks : int32 (digitCount val flags base (prec.getD 0) +
      ((digitCount val flags base (prec.getD 0) : Int) - 1).tdiv
        (groupSize val flags base (prec.getD 0))) =
      (number val flags base (prec.getD 0)).length := by
    have hpos : 0 < digitCount val flags base (prec.getD 0) := by
      unfold digitCount
      dsimp only
      split <;> omega
    have hbound : (number val flags base (prec.getD 0)).length < 2 ^ 31 := by
      unfold unpadded at hlen
      omega
    have hdiv : ((digitCount val flags base (prec.getD 0) : Int) - 1).tdiv
        (groupSize val flags base (prec.getD 0)) =
          ((digitCount val flags base (prec.getD 0) - 1) / groupSize val flags base (prec.getD 0) :
            Nat) := by
      rw [show (digitCount val flags base (prec.getD 0) : Int) - 1 =
        (digitCount val flags base (prec.getD 0) - 1 : Nat) by omega]
      rfl
    rw [hdiv]
    rw [int32_of_nonneg (by omega) (by omega)]
    omega
  simp only [layout, hmag, hcount, adjustDigits_eq, hskip, hticks]
  rw [← addNondigits_eq hlen]
  rfl

/-! ## Emitting it -/

section Emit

variable {b : Int → UInt8} {q : Int} {n : Nat} {s : Sink} {out : List UInt8}

theorem Sink.Agrees.emitNondigits (h : s.Agrees b q n out) (val : Nat) (flags : Flags) (base : Nat)
    (hlen : out.length + (sign val flags).length + (hexPrefix flags base).length < 2 ^ 32) :
    (s.emitNondigits n flags base (isNegative val flags)).Agrees b q n
      (out ++ sign val flags ++ hexPrefix flags base) := by
  have hsign : Sink.Agrees b q n (if isNegative val flags then s.emit n (byte '-')
      else if flags.plus then s.emit n (byte '+')
      else if flags.space then s.emit n (byte ' ')
      else s) (out ++ sign val flags) := by
    unfold sign at *
    split_ifs at hlen ⊢
    · exact h.emit _ (by rw [List.length_singleton] at hlen; omega)
    · exact h.emit _ (by rw [List.length_singleton] at hlen; omega)
    · exact h.emit _ (by rw [List.length_singleton] at hlen; omega)
    · rwa [List.append_nil]
  unfold Sink.emitNondigits hexPrefix at *
  dsimp only
  generalize (if isNegative val flags = true then s.emit n (byte '-') else _) = s' at hsign ⊢
  by_cases hp : flags.hash = true ∧ base = 16
  · rw [if_pos hp] at hlen
    rw [if_pos hp, if_pos hp, List.append_cons]
    simp only [List.length_cons, List.length_nil] at hlen
    have hzero := hsign.emit (byte '0') (by rw [List.length_append]; omega)
    have hx := hzero.emit (if flags.upper then byte 'X' else byte 'x')
      (by simp only [List.length_append, List.length_cons, List.length_nil]; omega)
    exact hx
  · rwa [if_neg hp, if_neg hp, List.append_nil]

theorem Sink.Agrees.emitNumber {val base prec : Nat} {flags : Flags} (h : s.Agrees b q n out)
    (l : Layout) (hval : l.val = magnitude val flags) (hskip : l.tickskip = groupSize val flags base prec)
    (hdigits : l.ndigits = (number val flags base prec).length)
    (hlen : out.length + (number val flags base prec).length < 2 ^ 31) :
    (s.emitNumber n flags.upper base l).Agrees b q n (out ++ number val flags base prec) := by
  have ho : sizeT (s.o + l.ndigits) = out.length + (number val flags base prec).length := by
    rw [h.count, hdigits, sizeT_of_nonneg (by omega) (by omega)]
    omega
  obtain ⟨hnumber, hqq, hoo⟩ := digitLoop_holds (b := s.buffer) n flags.upper base
    (magnitude val flags) (groupSize_pos val flags base prec) (digitCount val flags base prec) 0
    l.ndigits.toNat (number val flags base prec).length
    ⟨s.buffer, s.q + l.ndigits, sizeT (s.o + l.ndigits), l.ndigits⟩
    (written_nil _ _ _).symm (by rw [Nat.zero_add]; exact (Nat.zero_add _).symm) hdigits
    (by omega) (by dsimp only; omega) (by dsimp only; omega)
  have hstart : tickCounter (groupSize val flags base prec) 0 = l.tickskip := hskip.symm
  have hwhole : magnitude val flags / base ^ 0 = l.val := by
    rw [hval, Nat.pow_zero, Nat.div_one]
  rw [hstart, hwhole, ← hskip] at hnumber hqq hoo
  rw [Nat.zero_add] at hnumber
  generalize hf : digitLoop n flags.upper base l.tickskip l.ndigits.toNat _ l.tickskip l.val = f
    at hnumber hqq hoo
  have hqq' : f.qq = s.q := by
    rw [hqq, hdigits]
    exact Int.add_sub_cancel ..
  have hoo' : f.oo = out.length := by
    rw [hoo, ho]
    exact Nat.add_sub_cancel ..
  have hemit : s.emitNumber n flags.upper base l =
      ⟨f.buffer, s.q + l.ndigits, sizeT (s.o + l.ndigits)⟩ := by
    rw [← hf]
    rfl
  rw [hemit]
  refine ⟨?_, ?_, ?_⟩
  · rw [← written_append, ← h.buffer]
    show f.buffer = _
    rw [hnumber, hqq', hoo']
    by_cases hroom : out.length < n
    · rw [h.pointer hroom]
      rfl
    · rw [Nat.sub_eq_zero_of_le (Nat.le_of_not_lt hroom), written_zero, written_zero]
  · rw [List.length_append]
    exact ho
  · intro hroom
    rw [List.length_append] at hroom ⊢
    show s.q + l.ndigits = _
    rw [h.pointer (by omega), hdigits]
    omega

@[simp] theorem padding_false (width len : Nat) (c : Char) : padding width len false c = [] := rfl

/-- One padding loop, run if `P` holds. Where `P` says no although the padding belongs here, there is
none. -/
theorem Sink.Agrees.padIf (h : s.Agrees b q n out) (P : Prop) [Decidable P] (width len : Nat)
    (here : Bool) (c : Char) (hP : P → here = true)
    (hnone : here = true → ¬ P → width ≤ len)
    (hlen : out.length + (padding width len here c).length < 2 ^ 32) :
    (if P then s.padWhile n (byte c) width len else (s, (width : Int))).1.Agrees b q n
      (out ++ padding width len here c) := by
  have hcount : ((width : Int) - len).toNat = width - len := by omega
  unfold padding at *
  by_cases hp : P
  · rw [if_pos hp]
    rw [if_pos (hP hp), List.length_replicate] at *
    rw [← hcount]
    exact h.padWhile _ (by omega)
  · rw [if_neg hp]
    have hzero : (if here = true then width - len else 0) = 0 := by
      split
      · next hhere => exact Nat.sub_eq_zero_of_le (hnone hhere hp)
      · rfl
    rw [hzero, List.replicate_zero, List.append_nil]
    exact h

end Emit

/-- **`format_int` writes what fits of `renderInt`**, and returns its length. -/
theorem formatInt_eq (b : Int → UInt8) (q : Int) (n : Nat) {val base width : Nat} {flags : Flags}
    {prec : Option Nat} (hbase : 2 ≤ base)
    (hlen : (renderInt val flags base (prec.getD 0) width).length < 2 ^ 31) :
    formatInt b q n val flags base width (precInt prec) =
      (written b q n (renderInt val flags base (prec.getD 0) width),
        (renderInt val flags base (prec.getD 0) width).length) := by
  generalize hp : prec.getD 0 = p at hlen ⊢
  have hunpadded := unpadded_le_length val flags base p width
  have hlayout := @layout_eq val base flags prec hbase (by rw [hp]; omega)
  rw [hp] at hlayout
  obtain ⟨s, hs, hagrees⟩ : ∃ s : Sink, formatInt b q n val flags base width (precInt prec) =
      (s.buffer, s.o) ∧ s.Agrees b q n (renderInt val flags base p width) := by
    simp only [formatInt, hlayout]
    generalize hl : Layout.mk (isNegative val flags) (magnitude val flags)
      (groupSize val flags base p) (number val flags base p).length (unpadded val flags base p) = l
    refine ⟨_, rfl, ?_⟩
    simp only [renderInt, List.length_append] at hlen ⊢
    have hstart := Sink.agrees_nil (b := b) (q := q) (n := n)
    -- only one of the three padding loops runs: which one, the flags say
    cases hm : flags.minus with
    | true =>
        simp only [hm, Bool.not_true, Bool.false_and, Bool.and_false, padding_false, List.length_nil,
          Nat.zero_add, Nat.add_zero, if_true, not_true_eq_false, and_false, false_and, if_false,
          true_or, List.nil_append, List.append_nil] at hlen ⊢
        have hsign := hstart.emitNondigits val flags base (by rw [List.length_nil]; omega)
        have hnumber := hsign.emitNumber l (by rw [← hl]) (by rw [← hl]) (by rw [← hl])
          (by simp only [List.length_append, List.length_nil]; omega)
        exact hnumber.padIf True width (unpadded val flags base p) true ' ' (fun _ => rfl)
          (fun _ h => absurd trivial h) (by simp only [List.length_append, List.length_nil]; omega)
    | false =>
        cases hz : flags.zero with
        | true =>
            simp only [hm, hz, Bool.not_true, Bool.not_false, Bool.and_false, Bool.and_self,
              padding_false, List.length_nil, Nat.zero_add, Nat.add_zero, Bool.false_eq_true,
              if_false, or_true, not_true_eq_false, not_false_eq_true, and_self, false_and,
              true_and, List.nil_append, List.append_nil] at hlen ⊢
            have hsign := hstart.emitNondigits val flags base (by rw [List.length_nil]; omega)
            have hzeros := hsign.padIf ((width : Int) > (number val flags base p).length) width
              (unpadded val flags base p) true '0' (fun _ => rfl)
              (fun _ h => by unfold unpadded; omega)
              (by simp only [List.length_append, List.length_nil]; omega)
            exact hzeros.emitNumber l (by rw [← hl]) (by rw [← hl]) (by rw [← hl])
              (by simp only [List.length_append, List.length_nil]; omega)
        | false =>
            simp only [hm, hz, Bool.not_false, Bool.and_self, Bool.and_true, padding_false,
              List.length_nil, Nat.add_zero, Bool.false_eq_true, if_false, not_false_eq_true,
              and_true, or_self, true_and, false_and, List.append_nil] at hlen ⊢
            have hearly := hstart.padIf ((width : Int) > unpadded val flags base p) width
              (unpadded val flags base p) true ' ' (fun _ => rfl) (fun _ h => by omega)
              (by rw [List.length_nil]; omega)
            have hsign := hearly.emitNondigits val flags base
              (by simp only [List.length_append, List.length_nil]; omega)
            exact hsign.emitNumber l (by rw [← hl]) (by rw [← hl]) (by rw [← hl])
              (by simp only [List.length_append, List.length_nil]; omega)
  rw [hs, hagrees.buffer, hagrees.count]

end Neutrino.Stdio
