import Neutrino.Lib.Numerals
import Neutrino.Stdio.RenderInt

/-!
# The integer format

What a directive for an integer prints, said without the numeral's recursion: the digits are those of
the magnitude, padded with zeros to the precision, and the tick marks stand between the groups.
`format_int` writes this, and nothing else, for every value, base, width and precision
(`formatInt_writes`).
-/

namespace Neutrino.Stdio

open Neutrino.Lib

/-- The digits of the magnitude, padded with zeros to the precision, in groups if asked for. -/
def numberField (val : Nat) (flags : Flags) (base prec : Nat) : List UInt8 :=
  let digits := (Nat.digitsAppend base (digitCount val flags base prec) (magnitude val flags)).reverse
  if flags.tick then
    grouped (byte '_') (if base = 16 then 4 else 3) (digits.map (digit flags.upper))
  else
    digits.map (digit flags.upper)

/-- The length of sign, prefix and number. -/
def bareLength (val : Nat) (flags : Flags) (base prec : Nat) : Nat :=
  (sign val flags).length + (hexPrefix flags base).length +
    (numberField val flags base prec).length

def integerField (val : Nat) (flags : Flags) (base width prec : Nat) : List UInt8 :=
  let room := width - bareLength val flags base prec
  List.replicate (if flags.minus ∨ flags.zero then 0 else room) (byte ' ') ++
    sign val flags ++ hexPrefix flags base ++
    List.replicate (if flags.zero ∧ ¬ flags.minus then room else 0) (byte '0') ++
    numberField val flags base prec ++
    List.replicate (if flags.minus then room else 0) (byte ' ')

theorem length_integerField (val : Nat) (flags : Flags) (base width prec : Nat) :
    (integerField val flags base width prec).length = max width (bareLength val flags base prec) := by
  simp only [integerField, List.length_append, List.length_replicate]
  unfold bareLength
  cases flags.minus <;> cases flags.zero <;> simp <;> omega

/-! ## It is what `renderInt` says -/

theorem numeral_eq_grouped (upper : Bool) (base tickskip val j : Nat) :
    numeral upper base tickskip val j =
      grouped (byte '_') tickskip
        (((List.range j).map fun i => val / base ^ i % base).reverse.map (digit upper)) := by
  induction j with
  | zero => rfl
  | succ j ih =>
      rw [List.range_succ, List.map_append, List.reverse_append, numeral, ih]
      simp [grouped]

theorem digits_le_digitCount (val : Nat) (flags : Flags) (base prec : Nat) :
    (Nat.digits base (magnitude val flags)).length ≤ digitCount val flags base prec := by
  unfold digitCount
  exact Nat.le_trans (Nat.le_max_left _ _) (Nat.le_max_left _ _)

theorem number_eq {base : Nat} (hbase : 2 ≤ base) (val : Nat) (flags : Flags) (prec : Nat) :
    number val flags base prec = numberField val flags base prec := by
  unfold number numberField groupSize
  rw [numeral_eq_grouped, ← digitsAppend_eq_map hbase (digits_le_digitCount val flags base prec)]
  dsimp only
  split
  · rfl
  · apply grouped_of_length_le
    rw [digitsAppend_eq_map hbase (digits_le_digitCount val flags base prec)]
    simp

theorem renderInt_eq {base : Nat} (hbase : 2 ≤ base) (val : Nat) (flags : Flags) (width prec : Nat) :
    renderInt val flags base prec width = integerField val flags base width prec := by
  unfold renderInt integerField padding unpadded bareLength
  rw [number_eq hbase]
  cases flags.minus <;> cases flags.zero <;> simp

/-! ## Bounds -/

/-- A 32-bit number has at most 32 digits. -/
theorem length_digits_le {base m : Nat} (hbase : 2 ≤ base) (hm : m < 2 ^ 32) :
    (Nat.digits base m).length ≤ 32 := by
  rw [Nat.digits_length_le_iff hbase]
  exact Nat.lt_of_lt_of_le hm (Nat.pow_le_pow_left hbase 32)

theorem magnitude_lt {val : Nat} (hval : val < 2 ^ 32) (flags : Flags) :
    magnitude val flags < 2 ^ 32 := by
  unfold magnitude isNegative
  split
  · next h =>
    rw [Bool.and_eq_true, decide_eq_true_eq] at h
    omega
  · exact hval

theorem digitCount_pos (val : Nat) (flags : Flags) (base prec : Nat) :
    0 < digitCount val flags base prec := by
  unfold digitCount
  dsimp only
  split <;> omega

theorem length_number_lt {val base prec : Nat} (hval : val < 2 ^ 32) (hbase : 2 ≤ base)
    (flags : Flags) (hprec : prec ≤ 2 ^ 30) :
    (number val flags base prec).length < 2 ^ 30 + 2 ^ 29 := by
  have hdigits := length_digits_le hbase (magnitude_lt hval flags)
  have hpos := digitCount_pos val flags base prec
  have hcount : digitCount val flags base prec ≤ 2 ^ 30 := by
    unfold digitCount
    dsimp only
    split <;> omega
  unfold number groupSize
  rw [length_numeral]
  split
  · split <;> omega
  · rw [Nat.div_eq_of_lt (Nat.sub_lt hpos Nat.one_pos)]
    omega

/-- Widths and precisions up to `2 ^ 30` keep every length below the largest `int`. -/
theorem length_renderInt_lt {val base prec width : Nat} (hval : val < 2 ^ 32) (hbase : 2 ≤ base)
    (flags : Flags) (hprec : prec ≤ 2 ^ 30) (hwidth : width ≤ 2 ^ 30) :
    (renderInt val flags base prec width).length < 2 ^ 31 := by
  have hnumber := length_number_lt hval hbase flags hprec
  have hsign : (sign val flags).length ≤ 1 := by
    unfold sign
    split_ifs <;> simp
  have hprefix : (hexPrefix flags base).length ≤ 2 := by
    unfold hexPrefix
    split_ifs <;> simp
  rw [number_eq hbase] at hnumber
  rw [renderInt_eq hbase, length_integerField]
  unfold bareLength
  omega

/-! ## A width of -1 -/

/-- No padding loop runs for a width up to 0. -/
theorem formatInt_of_width_nonpos {b : Int → UInt8} {q : Int} {n val base : Nat} {flags : Flags}
    {width prec : Int} (hwidth : width ≤ 0)
    (hchars : 0 ≤ (layout val flags base prec).nchars)
    (hdigits : 0 ≤ (layout val flags base prec).ndigits) :
    formatInt b q n val flags base width prec = formatInt b q n val flags base 0 prec := by
  have hpad : ∀ (s : Sink) (c : UInt8) (w : Int), w ≤ 0 →
      (s.padWhile n c w (layout val flags base prec).nchars).1 = s := by
    intro s c w hw
    unfold Sink.padWhile
    rw [Int.toNat_of_nonpos (by omega)]
    rfl
  have hno : ¬ width > (layout val flags base prec).nchars := by omega
  have hno' : ¬ width > (layout val flags base prec).ndigits := by omega
  have hzero : ¬ (0 : Int) > (layout val flags base prec).nchars := by omega
  have hzero' : ¬ (0 : Int) > (layout val flags base prec).ndigits := by omega
  unfold formatInt
  simp only [hno, hno', hzero, hzero', and_false, if_false]
  cases flags.minus with
  | false => rfl
  | true => simp only [if_true, hpad _ _ width hwidth, hpad _ _ 0 (Int.le_refl 0)]

/-- Every precision from -1 on is one that a directive can have. -/
theorem exists_precInt {prec : Int} (h : -1 ≤ prec) :
    ∃ p : Option Nat, precInt p = prec ∧ p.getD 0 = prec.toNat := by
  by_cases hneg : prec = -1
  · exact ⟨none, hneg.symm, by rw [hneg]; rfl⟩
  · exact ⟨some prec.toNat, Int.toNat_of_nonneg (by omega), rfl⟩

/-- **`format_int` prints the integer's field**: it returns its length, which is the width or the
length without padding, whichever is larger, and leaves exactly its characters at `q`. -/
theorem formatInt_writes (b : Int → UInt8) (q : Int) {n val base : Nat} {width prec : Int}
    (flags : Flags) (hval : val < 2 ^ 32) (hbase : base = 8 ∨ base = 10 ∨ base = 16)
    (hwidth : -1 ≤ width ∧ width ≤ 2 ^ 30) (hprec : -1 ≤ prec ∧ prec ≤ 2 ^ 30)
    (hn : (integerField val flags base width.toNat prec.toNat).length < n) :
    let out := integerField val flags base width.toNat prec.toNat
    (formatInt b q n val flags base width prec).2 = out.length ∧
      out.length = max width.toNat (bareLength val flags base prec.toNat) ∧
      (∀ i (h : i < out.length), (formatInt b q n val flags base width prec).1 (q + i) = out[i]) ∧
      ∀ x, x < q ∨ q + out.length ≤ x →
        (formatInt b q n val flags base width prec).1 x = b x := by
  intro out
  have htwo : 2 ≤ base := by omega
  obtain ⟨p, rfl, hp⟩ := exists_precInt hprec.1
  have hlen := length_renderInt_lt hval htwo flags (show p.getD 0 ≤ 2 ^ 30 by omega)
    (show width.toNat ≤ 2 ^ 30 by omega)
  have hfield : renderInt val flags base (p.getD 0) width.toNat = out := by
    rw [renderInt_eq htwo, hp]
  have hformat : formatInt b q n val flags base width (precInt p) =
      (written b q n out, out.length) := by
    rw [← hfield, ← formatInt_eq b q n htwo hlen]
    by_cases hneg : 0 ≤ width
    · rw [Int.toNat_of_nonneg hneg]
    · have hlayout := @layout_eq val base flags p htwo
        (Nat.lt_of_le_of_lt (unpadded_le_length _ _ _ _ _) hlen)
      rw [Int.toNat_of_nonpos (by omega)]
      refine formatInt_of_width_nonpos (by omega) ?_ ?_
      · rw [hlayout]
        exact Int.natCast_nonneg _
      · rw [hlayout]
        exact Int.natCast_nonneg _
  rw [hformat]
  refine ⟨rfl, length_integerField .., fun i h => ?_, fun x hx => ?_⟩
  · exact written_apply b q n (Nat.lt_trans h hn) h
  · rcases hx with hx | hx
    · exact written_of_lt b q n out hx
    · exact written_of_past b q n out hx

/-- `-2_147_483_648`, in a field of 20. -/
theorem formatInt_writes_intMin :
    (formatInt (fun _ => 0) 0 64 (2 ^ 31) { Flags.none with tick := true, signed := true }
      10 20 (-1)).2 = 20 ∧
    (formatInt (fun _ => 0) 0 64 (2 ^ 31) { Flags.none with tick := true, signed := true }
      10 20 (-1)).1 6 = byte '-' := by
  have hwrites := @formatInt_writes (fun _ => 0) 0 64 (2 ^ 31) 10 20 (-1)
    { Flags.none with tick := true, signed := true } (by decide) (by decide) (by decide)
    (by decide) (by decide +kernel)
  exact ⟨hwrites.1.trans (by decide +kernel), hwrites.2.2.1 6 (by decide +kernel)⟩

end Neutrino.Stdio
