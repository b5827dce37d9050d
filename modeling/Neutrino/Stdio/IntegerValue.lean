import Neutrino.Stdio.Compositional
import Neutrino.Stdio.IntegerFormat

/-!
# Integer conversions and their arguments

A reader for what the integer conversions print: padding and tick marks left out, it takes the sign,
the hex prefix and the digits. What it reads off a directive's field is the 32-bit `val` that
`format_int` was given (`readNumeral_integerField`). That is the argument itself for every type up to
`long`; a `long long` is cut to its low half on the way (`conversion_reads_back_iff`).
-/

namespace Neutrino.Stdio

open Neutrino.Lib

/-! ## Reading a numeral -/

def digitVal (c : UInt8) : Option Nat :=
  if byte '0' ≤ c ∧ c ≤ byte '9' then some (c.toNat - (byte '0').toNat)
  else if byte 'a' ≤ c ∧ c ≤ byte 'f' then some (c.toNat - (byte 'a').toNat + 10)
  else if byte 'A' ≤ c ∧ c ≤ byte 'F' then some (c.toNat - (byte 'A').toNat + 10)
  else none

/-- The digits read so far have the value `acc`. -/
def readDigits (base : Nat) : (acc : Nat) → List UInt8 → Option Nat
  | acc, [] => some acc
  | acc, c :: text =>
      (digitVal c).bind fun d => if d < base then readDigits base (d + base * acc) text else none

def isHexPrefix (text : List UInt8) : Bool :=
  text = [byte '0', byte 'x'] ∨ text = [byte '0', byte 'X']

def readUnsigned (base : Nat) (text : List UInt8) : Option Nat :=
  let digits := if base = 16 ∧ isHexPrefix (text.take 2) then text.drop 2 else text
  if digits = [] then none else readDigits base 0 digits

/-- Neither padding nor a tick mark. -/
def isInk (c : UInt8) : Bool := c ≠ byte ' ' ∧ c ≠ byte '_'

def readNumeral (base : Nat) (text : List UInt8) : Option Int :=
  let ink := text.filter isInk
  if ink.head? = some (byte '-') then (readUnsigned base ink.tail).map fun v => -(v : Int)
  else if ink.head? = some (byte '+') then (readUnsigned base ink.tail).map Int.ofNat
  else (readUnsigned base ink).map Int.ofNat

/-! ## It reads the digits of a number -/

theorem digitVal_digit (upper : Bool) {d : Nat} (h : d < 16) : digitVal (digit upper d) = some d := by
  cases upper <;> decide +revert

/-- No digit is a sign, a blank, a mark or the `x` of the prefix. -/
theorem digit_ne (upper : Bool) {d : Nat} (h : d < 16) :
    digit upper d ∉ [' ', '_', '-', '+', 'x', 'X'].map byte := by
  cases upper <;> decide +revert

section Digits

variable {base : Nat} {ds : List Nat} (upper : Bool)

theorem readDigits_map (hbase : base ≤ 16) (hds : ∀ d ∈ ds, d < base) (acc : Nat) :
    readDigits base acc (ds.map (digit upper)) =
      some (ds.foldl (fun acc d => d + base * acc) acc) := by
  induction ds generalizing acc with
  | nil => rfl
  | cons d ds ih =>
      have hd : d < base := hds d List.mem_cons_self
      rw [List.map_cons, readDigits, digitVal_digit upper (Nat.lt_of_lt_of_le hd hbase),
        Option.bind_some, if_pos hd, ih (fun d' h => hds d' (List.mem_cons_of_mem d h))]
      rfl

theorem not_isHexPrefix (hds : ∀ d ∈ ds, d < 16) :
    isHexPrefix ((ds.map (digit upper)).take 2) = false := by
  rw [← Bool.not_eq_true]
  intro hprefix
  have hx : byte 'x' ∈ (ds.map (digit upper)).take 2 ∨ byte 'X' ∈ (ds.map (digit upper)).take 2 := by
    unfold isHexPrefix at hprefix
    rcases of_decide_eq_true hprefix with h | h
    · rw [h]
      exact Or.inl (by decide)
    · rw [h]
      exact Or.inr (by decide)
  have hno : ∀ c, c ∈ [' ', '_', '-', '+', 'x', 'X'].map byte →
      c ∉ (ds.map (digit upper)).take 2 := by
    intro c hc hmem
    obtain ⟨d, hd, rfl⟩ := List.mem_map.mp (List.mem_of_mem_take hmem)
    exact digit_ne upper (hds d hd) hc
  rcases hx with hx | hx
  · exact hno _ (by decide) hx
  · exact hno _ (by decide) hx

theorem readUnsigned_digits (hbase : base ≤ 16) (hds : ∀ d ∈ ds, d < base) (hne : ds ≠ []) :
    readUnsigned base (ds.map (digit upper)) = some (Nat.ofDigits base ds.reverse) := by
  have hno := not_isHexPrefix upper fun d h => Nat.lt_of_lt_of_le (hds d h) hbase
  have hne' : ds.map (digit upper) ≠ [] := by simpa using hne
  unfold readUnsigned
  simp only [hno, Bool.false_eq_true, and_false, if_false, if_neg hne']
  rw [readDigits_map upper hbase hds, Nat.ofDigits_eq_foldr, List.foldr_reverse]
  rfl

/-- The prefix, where there is one, is passed over. -/
theorem readUnsigned_hexPrefix (flags : Flags) (hbase : base ≤ 16) (hds : ∀ d ∈ ds, d < base)
    (hne : ds ≠ []) :
    readUnsigned base (hexPrefix flags base ++ ds.map (digit upper)) =
      some (Nat.ofDigits base ds.reverse) := by
  rw [← readUnsigned_digits upper hbase hds hne]
  unfold hexPrefix
  by_cases hp : flags.hash = true ∧ base = 16
  · have hprefix : isHexPrefix [byte '0', if flags.upper then byte 'X' else byte 'x'] = true := by
      cases flags.upper <;> decide
    have hno := not_isHexPrefix upper fun d h => Nat.lt_of_lt_of_le (hds d h) hbase
    rw [if_pos hp]
    unfold readUnsigned
    simp [hp.2, hprefix, hno]
  · rw [if_neg hp, List.nil_append]

end Digits

/-! ## It reads back what was printed -/

/-- The value that `format_int` prints. -/
def printedValue (val : Nat) (flags : Flags) : Int :=
  if isNegative val flags then -(magnitude val flags : Int) else magnitude val flags

section Field

variable {val base prec : Nat} {flags : Flags}

theorem filter_replicate_blank (k : Nat) :
    (List.replicate k (byte ' ')).filter isInk = [] := by
  rw [List.filter_replicate_of_neg (by decide)]

theorem filter_digits {ds : List Nat} (upper : Bool) (hds : ∀ d ∈ ds, d < 16) :
    (ds.map (digit upper)).filter isInk = ds.map (digit upper) := by
  rw [List.filter_eq_self]
  intro c hc
  obtain ⟨d, hd, rfl⟩ := List.mem_map.mp hc
  have hne := digit_ne upper (hds d hd)
  unfold isInk
  rw [decide_eq_true_eq]
  exact ⟨fun h => hne (h ▸ by decide), fun h => hne (h ▸ by decide)⟩

theorem filter_numberField (hbase : 2 ≤ base ∧ base ≤ 16) :
    (numberField val flags base prec).filter isInk =
      (Nat.digitsAppend base (digitCount val flags base prec) (magnitude val flags)).reverse.map
        (digit flags.upper) := by
  have hds : ∀ d ∈ (Nat.digitsAppend base (digitCount val flags base prec)
      (magnitude val flags)).reverse, d < 16 := by
    intro d hd
    rw [List.mem_reverse] at hd
    exact Nat.lt_of_lt_of_le (Nat.lt_of_mem_digitsAppend hbase.1 _ _ hd) hbase.2
  unfold numberField
  dsimp only
  split
  · have hmark : byte '_' ∉ (Nat.digitsAppend base (digitCount val flags base prec)
        (magnitude val flags)).reverse.map (digit flags.upper) := by
      intro hmem
      obtain ⟨d, hd, heq⟩ := List.mem_map.mp hmem
      exact digit_ne flags.upper (hds d hd) (heq ▸ by decide)
    have hink : ∀ text : List UInt8,
        text.filter isInk = (text.filter (· ≠ byte '_')).filter isInk := by
      intro text
      rw [List.filter_filter]
      apply List.filter_congr
      intro c _
      unfold isInk
      simp
    rw [hink, filter_grouped hmark, filter_digits _ hds]
  · exact filter_digits _ hds

/-- The characters of a field that are read: the sign, the prefix, the digits behind zeros. -/
theorem filter_integerField (hbase : 2 ≤ base ∧ base ≤ 16) (width : Nat) :
    ∃ ds : List Nat, ds ≠ [] ∧ (∀ d ∈ ds, d < base) ∧
      Nat.ofDigits base ds.reverse = magnitude val flags ∧
      (integerField val flags base width prec).filter isInk =
        (sign val flags).filter isInk ++ (hexPrefix flags base ++ ds.map (digit flags.upper)) := by
  have hprefix : (hexPrefix flags base).filter isInk = hexPrefix flags base := by
    unfold hexPrefix
    cases flags.upper <;> split <;> decide
  have hzeros : ∀ k, (List.replicate k (byte '0')).filter isInk =
      (List.replicate k 0).map (digit flags.upper) := by
    intro k
    rw [List.filter_replicate_of_pos (by decide), List.map_replicate]
    cases flags.upper <;> rfl
  have hlen : (Nat.digitsAppend base (digitCount val flags base prec)
      (magnitude val flags)).length = digitCount val flags base prec := by
    rw [digitsAppend_eq_map hbase.1 (digits_le_digitCount val flags base prec), List.length_map,
      List.length_range]
  unfold integerField
  dsimp only
  generalize (if flags.zero = true ∧ ¬ flags.minus = true then
    width - bareLength val flags base prec else 0) = k
  refine ⟨List.replicate k 0 ++ (Nat.digitsAppend base (digitCount val flags base prec)
    (magnitude val flags)).reverse, ?_, ?_, ?_, ?_⟩
  · apply List.append_ne_nil_of_right_ne_nil
    rw [← List.length_pos_iff, List.length_reverse, hlen]
    exact digitCount_pos val flags base prec
  · intro d hd
    rcases List.mem_append.mp hd with hd | hd
    · rw [List.eq_of_mem_replicate hd]
      exact Nat.lt_of_lt_of_le Nat.zero_lt_two hbase.1
    · exact Nat.lt_of_mem_digitsAppend hbase.1 _ _ (List.mem_reverse.mp hd)
  · rw [List.reverse_append, List.reverse_reverse, List.reverse_replicate,
      Nat.ofDigits_append_replicate_zero, Nat.digitsAppend, Nat.ofDigits_append_replicate_zero,
      Nat.ofDigits_digits]
  · simp only [List.filter_append, filter_replicate_blank, hprefix, hzeros,
      filter_numberField hbase, List.map_append, List.nil_append, List.append_nil, List.append_assoc]

/-- **What is read off a field is the value it was printed for.** -/
theorem readNumeral_integerField (hbase : 2 ≤ base ∧ base ≤ 16) (width : Nat) :
    readNumeral base (integerField val flags base width prec) = some (printedValue val flags) := by
  obtain ⟨ds, hne, hds, hvalue, hink⟩ := @filter_integerField val base prec flags hbase width
  have hread := readUnsigned_hexPrefix flags.upper flags hbase.2 hds hne
  rw [hvalue] at hread
  -- without a sign the first character read is one of the number
  have hhead : ∀ c, c = byte '-' ∨ c = byte '+' →
      (hexPrefix flags base ++ ds.map (digit flags.upper)).head? ≠ some c := by
    intro c hc heq
    rcases List.mem_append.mp (List.mem_of_mem_head? heq) with hmem | hmem
    · unfold hexPrefix at hmem
      rcases hc with rfl | rfl <;> cases hu : flags.upper <;> split at hmem <;>
        simp [hu, byte] at hmem
    · obtain ⟨d, hd, hdc⟩ := List.mem_map.mp hmem
      have hno := digit_ne flags.upper (Nat.lt_of_lt_of_le (hds d hd) hbase.2)
      rcases hc with rfl | rfl
      · exact hno (hdc ▸ by decide)
      · exact hno (hdc ▸ by decide)
  have hminus := hhead (byte '-') (Or.inl rfl)
  have hplus := hhead (byte '+') (Or.inr rfl)
  unfold readNumeral printedValue
  simp only [hink]
  unfold sign
  split
  · have hsign : [byte '-'].filter isInk = [byte '-'] := by decide
    simp [hsign, hread]
  · split
    · have hsign : [byte '+'].filter isInk = [byte '+'] := by decide
      have hne' : byte '+' ≠ byte '-' := by decide
      simp [hsign, hread, hne']
    · have hsign : (if flags.space = true then [byte ' '] else []).filter isInk = [] := by
        split <;> decide
      rw [hsign, List.nil_append, if_neg hminus, if_neg hplus, hread]
      rfl

end Field

/-! ## Arguments -/

/-- The value of an argument converted to the type that the rank selects, if it was passed as one. -/
def argValue (signed : Bool) (rank : Rank) (arg : Arg) : Option Int :=
  match rank, arg with
  | .char, .int v => some (if signed then (v.setWidth 8).toInt else (v.setWidth 8).toNat)
  | .short, .int v => some (if signed then (v.setWidth 16).toInt else (v.setWidth 16).toNat)
  | .int, .int v => some (if signed then v.toInt else v.toNat)
  | .long, .long v => some (if signed then v.toInt else v.toNat)
  | .longlong, .longlong v => some (if signed then v.toInt else v.toNat)
  | _, _ => none

/-- What 32 bits can hold. -/
def Fits32 (signed : Bool) (value : Int) : Prop :=
  if signed then -2 ^ 31 ≤ value ∧ value < 2 ^ 31 else 0 ≤ value ∧ value < 2 ^ 32

def fetchInteger (signed : Bool) (rank : Rank) (ap : List Arg) : Option (Nat × List Arg) :=
  if signed then fetchSigned rank ap else fetchUnsigned rank ap

/-- The value of a 32-bit word. -/
def wordValue (signed : Bool) (u : BitVec 32) : Int := if signed then u.toInt else u.toNat

theorem printedValue_eq (u : BitVec 32) (flags : Flags) :
    printedValue u.toNat flags = wordValue flags.signed u := by
  have hlt := u.isLt
  unfold printedValue magnitude isNegative wordValue
  cases flags.signed with
  | false => simp
  | true =>
      rw [if_pos rfl, BitVec.toInt_eq_toNat_cond]
      by_cases hneg : 2 ^ 31 ≤ u.toNat
      · simp only [Bool.true_and, hneg, decide_true, if_true]
        rw [if_neg (by omega)]
        omega
      · simp only [Bool.true_and, hneg, decide_false, Bool.false_eq_true, if_false]
        rw [if_pos (by omega)]

theorem fits32_wordValue (signed : Bool) (u : BitVec 32) : Fits32 signed (wordValue signed u) := by
  have hlt := u.isLt
  unfold Fits32 wordValue
  cases signed with
  | false =>
      simp only [Bool.false_eq_true, if_false]
      exact ⟨Int.natCast_nonneg _, by exact_mod_cast hlt⟩
  | true => exact ⟨u.le_toInt, u.toInt_lt⟩

theorem wordValue_iff_of_eq {signed : Bool} {u : BitVec 32} {value : Int}
    (h : wordValue signed u = value) : wordValue signed u = value ↔ Fits32 signed value :=
  iff_of_true h (h ▸ fits32_wordValue signed u)

/-- The low half of a `long long` is all of it when it fits. -/
theorem wordValue_setWidth (signed : Bool) (v : BitVec 64) :
    wordValue signed (v.setWidth 32) = (if signed then v.toInt else (v.toNat : Int)) ↔
      Fits32 signed (if signed then v.toInt else v.toNat) := by
  have hlt := v.isLt
  unfold Fits32 wordValue
  cases signed with
  | false =>
      simp only [Bool.false_eq_true, if_false, BitVec.toNat_setWidth]
      omega
  | true =>
      simp only [if_true, BitVec.toInt_eq_toNat_cond, BitVec.toNat_setWidth]
      omega

/-- A type of at most 32 bits is extended without a change. -/
theorem wordValue_extend (signed : Bool) {w : Nat} (hw : w ≤ 32) (v : BitVec w) :
    wordValue signed (if signed then v.signExtend 32 else v.setWidth 32) =
      if signed then v.toInt else v.toNat := by
  unfold wordValue
  cases signed with
  | false =>
      have hlt : v.toNat < 2 ^ 32 := Nat.lt_of_lt_of_le v.isLt (Nat.pow_le_pow_right (by decide) hw)
      simp only [Bool.false_eq_true, if_false, BitVec.toNat_setWidth, Nat.mod_eq_of_lt hlt]
  | true => simp only [if_true, BitVec.toInt_signExtend_of_le hw]

/-- **The word fetched has the argument's value, as far as 32 bits can hold it.** -/
theorem fetchInteger_value {signed : Bool} {rank : Rank} {arg : Arg} {value : Int}
    (h : argValue signed rank arg = some value) :
    ∃ u : BitVec 32, fetchInteger signed rank [arg] = some (u.toNat, []) ∧
      (wordValue signed u = value ↔ Fits32 signed value) := by
  have hnarrow : ∀ {w : Nat}, w ≤ 32 → ∀ v : BitVec w,
      (v.setWidth 32).toNat = v.toNat := by
    intro w hw v
    rw [BitVec.toNat_setWidth]
    exact Nat.mod_eq_of_lt (Nat.lt_of_lt_of_le v.isLt (Nat.pow_le_pow_right (by decide) hw))
  cases rank with
  | char =>
      cases arg with
      | int v =>
          cases h
          refine ⟨_, ?_, wordValue_iff_of_eq (wordValue_extend signed (by decide) (v.setWidth 8))⟩
          cases signed with
          | false => simp [fetchInteger, fetchUnsigned, vaInt, hnarrow]
          | true => rfl
      | _ => cases h
  | short =>
      cases arg with
      | int v =>
          cases h
          refine ⟨_, ?_, wordValue_iff_of_eq (wordValue_extend signed (by decide) (v.setWidth 16))⟩
          cases signed with
          | false => simp [fetchInteger, fetchUnsigned, vaInt, hnarrow]
          | true => rfl
      | _ => cases h
  | int =>
      cases arg with
      | int v =>
          cases h
          refine ⟨v, ?_, wordValue_iff_of_eq rfl⟩
          cases signed <;> rfl
      | _ => cases h
  | long =>
      cases arg with
      | long v =>
          cases h
          refine ⟨v, ?_, wordValue_iff_of_eq rfl⟩
          cases signed <;> rfl
      | _ => cases h
  | longlong =>
      cases arg with
      | longlong v =>
          cases h
          refine ⟨v.setWidth 32, ?_, wordValue_setWidth signed v⟩
          cases signed <;> rfl
      | _ => cases h

/-! ## Length modifiers -/

def lengthModifiers : List UInt8 := ['h', 'l', 'j', 'z', 't', 'L', 'q'].map byte

/-- The rank after a sequence of length modifiers. -/
def rankAfter (rank : Int) (mods : List UInt8) : Int :=
  mods.foldl (fun rank m => (setRank m rank).getD rank) rank

/-- Whether an integer conversion is signed, and its base. -/
def integerConversion (ch : UInt8) : Option (Bool × Nat) :=
  match conversion ch with
  | .signed => some (true, 10)
  | .unsigned base _ => some (false, base)
  | _ => none

theorem byte_chr (c : UInt8) : byte (chr c) = c := by
  have hvalid : c.toNat.isValidChar := Or.inl (Nat.lt_of_lt_of_le c.toNat_lt (by decide))
  unfold byte chr Char.ofNat
  rw [dif_pos hvalid]
  exact UInt8.ofNat_toNat

/-- Neither a flag nor part of a width or a precision. -/
structure IsLate (ch : UInt8) : Prop where
  flag : ∀ flags, setFlag ch flags = none
  digit : digitValue ch = none
  star : ch ≠ byte '*'
  dot : ch ≠ byte '.'

theorem isLate_of_modifier {m : UInt8} (h : m ∈ lengthModifiers) :
    IsLate m ∧ m ≠ 0 ∧ ∀ rank, ∃ r, setRank m rank = some r := by
  simp only [lengthModifiers, List.map_cons, List.map_nil, List.mem_cons, List.not_mem_nil,
    or_false] at h
  rcases h with rfl | rfl | rfl | rfl | rfl | rfl | rfl <;>
    exact ⟨⟨fun _ => rfl, rfl, by decide, by decide⟩, by decide, fun _ => ⟨_, rfl⟩⟩

theorem mem_of_integerConversion {ch : UInt8} {r : Bool × Nat}
    (h : integerConversion ch = some r) : ch ∈ ['d', 'i', 'o', 'u', 'X', 'x'].map byte := by
  rw [← byte_chr ch]
  unfold integerConversion at h
  cases hconv : conversion ch with
  | signed =>
      unfold conversion at hconv
      split at hconv <;> cases hconv <;> rename_i hchr <;> rw [hchr] <;> decide
  | unsigned base upper =>
      unfold conversion at hconv
      split at hconv <;> cases hconv <;> rename_i hchr <;> rw [hchr] <;> decide
  | _ => simp [hconv] at h

theorem integerConversion_base {ch : UInt8} {signed : Bool} {base : Nat}
    (h : integerConversion ch = some (signed, base)) : 2 ≤ base ∧ base ≤ 16 := by
  have hch := mem_of_integerConversion h
  simp only [List.map_cons, List.map_nil, List.mem_cons, List.not_mem_nil, or_false] at hch
  rcases hch with rfl | rfl | rfl | rfl | rfl | rfl <;> cases h <;> decide

theorem isLate_of_integerConversion {ch : UInt8} {r : Bool × Nat}
    (h : integerConversion ch = some r) :
    IsLate ch ∧ ch ≠ 0 ∧ ∀ rank, setRank ch rank = none := by
  have hch := mem_of_integerConversion h
  simp only [List.map_cons, List.map_nil, List.mem_cons, List.not_mem_nil, or_false] at hch
  rcases hch with rfl | rfl | rfl | rfl | rfl | rfl <;>
    exact ⟨⟨fun _ => rfl, rfl, by decide, by decide⟩, by decide, fun _ => rfl⟩

section Scan

variable {strings : Strings} {mode mode' : Mode} {d : Directive} {ch : UInt8}
  {args rest : List Arg} {out : List UInt8}

theorem feed_late (hreads : mode.Reads d) (hlate : IsLate ch) :
    feed strings mode ch args = feedModifiers strings d ch args := by
  cases mode with
  | normal => exact hreads.elim
  | flags d' =>
      cases hreads
      simp only [feed, feedFlags, hlate.flag, feedWidth, hlate.digit, if_neg hlate.star,
        if_neg hlate.dot]
  | width d' =>
      cases hreads
      simp only [feed, feedWidth, hlate.digit, if_neg hlate.star, if_neg hlate.dot]
  | prec d' =>
      cases hreads
      simp only [feed, feedPrec, hlate.digit, if_neg hlate.star]
  | modifiers d' =>
      cases hreads
      rfl

/-- Length modifiers change the rank and print nothing. -/
theorem render_modifiers (strings : Strings) (args : List Arg) (mods : List UInt8)
    (hmods : ∀ m ∈ mods, m ∈ lengthModifiers) (hreads : mode.Reads d) :
    ∃ mode', render strings mode mods args = some (mode', [], args) ∧
      mode'.Reads { d with rank := rankAfter d.rank mods } := by
  induction mods generalizing mode d with
  | nil => exact ⟨mode, rfl, hreads⟩
  | cons m mods ih =>
      obtain ⟨hlate, hne, hrank⟩ := isLate_of_modifier (hmods m List.mem_cons_self)
      obtain ⟨r, hr⟩ := hrank d.rank
      have hfeed : feed strings mode m args = some (.modifiers { d with rank := r }, [], args) := by
        rw [feed_late hreads hlate, feedModifiers, hr]
      have hread : (Mode.modifiers { d with rank := r }).Reads { d with rank := r } := rfl
      obtain ⟨mode', hrender, hreads'⟩ :=
        ih (fun m' h => hmods m' (List.mem_cons_of_mem m h)) hread
      refine ⟨mode', ?_, ?_⟩
      · rw [render, if_neg hne, Option.bind_eq_bind, Option.bind_eq_some_iff]
        exact ⟨_, hfeed, Option.bind_eq_some_iff.mpr ⟨_, hrender, rfl⟩⟩
      · rw [rankAfter, List.foldl_cons, hr]
        exact hreads'

/-- An integer conversion prints the field of the word it fetches. -/
theorem feedConversion_integer (strings : Strings) (d : Directive) {signed : Bool} {base : Nat}
    {u : BitVec 32} {arg : Arg} (hch : integerConversion ch = some (signed, base))
    (hclean : d.flags.signed = false)
    (hfetch : fetchInteger signed (canonicalRank d.rank) [arg] = some (u.toNat, [])) :
    ∃ flags : Flags, flags.signed = signed ∧ feedConversion strings d ch [arg] =
      some (renderInt u.toNat flags base (d.prec.getD 0) d.width, []) := by
  unfold integerConversion at hch
  unfold fetchInteger at hfetch
  cases hconv : conversion ch with
  | signed =>
      rw [hconv] at hch
      cases hch
      rw [if_pos rfl] at hfetch
      refine ⟨{ d.flags with signed := true }, rfl, ?_⟩
      simp only [feedConversion, hconv, hfetch]
      rfl
  | unsigned base' upper =>
      rw [hconv] at hch
      cases hch
      rw [if_neg (by decide)] at hfetch
      refine ⟨{ d.flags with upper := d.flags.upper || upper }, hclean, ?_⟩
      simp only [feedConversion, hconv, hfetch]
      rfl
  | _ => simp [hconv] at hch

/-! ## Directives before their modifiers -/

/-- The rank is that of `int`, and no conversion has set its own flags. -/
structure Directive.Clean (d : Directive) : Prop where
  rank : d.rank = 0
  signed : d.flags.signed = false

/-- Directives are clean up to their length modifiers. -/
def Mode.Clean : Mode → Prop
  | .normal => True
  | .flags d => d.Clean
  | .width d => d.Clean
  | .prec d => d.Clean
  | .modifiers _ => True

theorem setFlag_signed {flags flags' : Flags} (h : setFlag ch flags = some flags') :
    flags'.signed = flags.signed := by
  unfold setFlag at h
  split at h <;> cases h <;> rfl

theorem feedModifiers_clean (h : feedModifiers strings d ch args = some (mode', out, rest)) :
    mode'.Clean := by
  unfold feedModifiers at h
  split at h
  · cases h
    trivial
  · obtain ⟨_, -, h⟩ := Option.bind_eq_some_iff.mp h
    cases h
    trivial

theorem feedPrec_clean (hd : d.Clean)
    (h : feedPrec strings d ch args = some (mode', out, rest)) : mode'.Clean := by
  unfold feedPrec at h
  split at h
  · obtain ⟨_, -, h⟩ := Option.bind_eq_some_iff.mp h
    obtain ⟨_, -, h⟩ := Option.bind_eq_some_iff.mp h
    cases h
    exact ⟨hd.rank, hd.signed⟩
  · split at h
    · obtain ⟨_, -, h⟩ := Option.bind_eq_some_iff.mp h
      cases h
      exact ⟨hd.rank, hd.signed⟩
    · exact feedModifiers_clean h

theorem feedWidth_clean (hd : d.Clean)
    (h : feedWidth strings d ch args = some (mode', out, rest)) : mode'.Clean := by
  unfold feedWidth at h
  split at h
  · obtain ⟨_, -, h⟩ := Option.bind_eq_some_iff.mp h
    cases h
    exact ⟨hd.rank, hd.signed⟩
  · split at h
    · obtain ⟨_, -, h⟩ := Option.bind_eq_some_iff.mp h
      obtain ⟨_, -, h⟩ := Option.bind_eq_some_iff.mp h
      cases h
      exact ⟨hd.rank, hd.signed⟩
    · split at h
      · cases h
        exact ⟨hd.rank, hd.signed⟩
      · exact feedModifiers_clean h

theorem feed_clean (hclean : mode.Clean)
    (h : feed strings mode ch args = some (mode', out, rest)) : mode'.Clean := by
  cases mode with
  | normal =>
      simp only [feed] at h
      split at h
      · cases h
        exact ⟨rfl, rfl⟩
      · cases h
        trivial
  | flags d =>
      simp only [feed, feedFlags] at h
      split at h
      · next hflag =>
        cases h
        exact ⟨hclean.rank, (setFlag_signed hflag).trans hclean.signed⟩
      · exact feedWidth_clean hclean h
  | width d => exact feedWidth_clean hclean h
  | prec d => exact feedPrec_clean hclean h
  | modifiers d => exact feedModifiers_clean h

theorem render_clean {format : List UInt8} (hclean : mode.Clean)
    (h : render strings mode format args = some (mode', out, rest)) : mode'.Clean := by
  induction format generalizing mode args out with
  | nil =>
      cases h
      exact hclean
  | cons ch format ih =>
      rw [render] at h
      split at h
      · cases h
        exact hclean
      · obtain ⟨⟨m, o, r⟩, hfeed, h⟩ := Option.bind_eq_some_iff.mp h
        obtain ⟨⟨m', o', r'⟩, hrest, heq⟩ := Option.bind_eq_some_iff.mp h
        cases heq
        exact ih (feed_clean hclean hfeed) hrest

end Scan

/-! ## Whole directives -/

/-- The directive `d` is being read, and no length modifier of it yet. -/
def Mode.Awaits (mode : Mode) (d : Directive) : Prop :=
  mode = .flags d ∨ mode = .width d ∨ mode = .prec d

theorem Mode.Awaits.reads {mode : Mode} {d : Directive} (h : mode.Awaits d) : mode.Reads d := by
  rcases h with rfl | rfl | rfl <;> rfl

theorem Mode.Awaits.clean {mode : Mode} {d : Directive} (h : mode.Awaits d) (hclean : mode.Clean) :
    d.Clean := by
  rcases h with rfl | rfl | rfl <;> exact hclean

/-- **An integer conversion prints its argument exactly when 32 bits hold it.** The format so far,
`start`, ends in a directive whose flags, width and precision have been read; `mods` are its length
modifiers and `ch` is its conversion. -/
theorem conversion_reads_back_iff (strings : Strings) {start mods out : List UInt8} {a : List Arg}
    {mode : Mode} {d : Directive} {ch : UInt8} {signed : Bool} {base : Nat} {arg : Arg} {value : Int}
    (hnul : (0 : UInt8) ∉ start) (hstart : render strings .normal start a = some (mode, out, []))
    (hmode : mode.Awaits d) (hmods : ∀ m ∈ mods, m ∈ lengthModifiers)
    (hch : integerConversion ch = some (signed, base))
    (harg : argValue signed (canonicalRank (rankAfter 0 mods)) arg = some value) :
    ∃ text, render strings .normal (start ++ (mods ++ [ch])) (a ++ [arg]) =
        some (.normal, out ++ text, []) ∧
      ((out ++ text).length < 2 ^ 31 →
        Prints strings (start ++ (mods ++ [ch])) (a ++ [arg]) (out ++ text) .normal) ∧
      (readNumeral base text = some value ↔ Fits32 signed value) := by
  have hinit : Mode.normal.Clean := trivial
  have hd := hmode.clean (render_clean hinit hstart)
  obtain ⟨hlate, hne, hrank⟩ := isLate_of_integerConversion hch
  obtain ⟨u, hfetch, hvalue⟩ := fetchInteger_value harg
  obtain ⟨mode', hrender, hreads⟩ :=
    render_modifiers strings [arg] mods hmods hmode.reads
  rw [hd.rank] at hreads
  obtain ⟨flags, hsigned, hconv⟩ := feedConversion_integer strings
    { d with rank := rankAfter 0 mods } hch hd.signed hfetch
  have hbase := integerConversion_base hch
  have hlast : render strings mode' [ch] [arg] =
      some (.normal, renderInt u.toNat flags base (d.prec.getD 0) d.width, []) := by
    rw [render, if_neg hne, feed_late hreads hlate, feedModifiers, hrank, hconv]
    exact congrArg some (by rw [List.append_nil])
  have hmods0 : (0 : UInt8) ∉ mods := fun h => (isLate_of_modifier (hmods 0 h)).2.1 rfl
  have hdirective := render_append hmods0 hrender hlast
  have hwhole := render_append hnul (render_more [arg] hstart) hdirective
  refine ⟨_, hwhole, fun hlen => prints_of_render hwhole (short_of_render hwhole hlen), ?_⟩
  rw [List.nil_append, renderInt_eq hbase.1, readNumeral_integerField hbase, Option.some_inj,
    printedValue_eq, hsigned, hvalue]

/-- `"%+5hhd"` of 300, which is 44 as a `signed char`. -/
theorem conversion_reads_back_char :
    ∃ text, render (fun _ => none) .normal (['%', '+', '5', 'h', 'h', 'd'].map byte) [.int 300] =
        some (.normal, text, []) ∧ readNumeral 10 text = some 44 := by
  have hstart : render (fun _ => none) .normal (['%', '+', '5'].map byte) [] =
      some (.width ⟨{ Flags.none with plus := true }, 0, 5, none⟩, [], []) := by decide
  obtain ⟨text, hrender, -, hread⟩ := conversion_reads_back_iff (fun _ => none)
    (by decide) hstart (Or.inr (Or.inl rfl))
    (show ∀ m ∈ ['h', 'h'].map byte, m ∈ lengthModifiers by decide +kernel)
    (show integerConversion (byte 'd') = some (true, 10) from rfl)
    (show argValue true .char (.int 300) = some 44 from rfl)
  exact ⟨text, hrender, hread.mpr (by unfold Fits32; decide)⟩

/-- `"%lld"` of `2 ^ 32` prints `0`. -/
theorem longlong_not_read_back :
    ∃ s, vsnprintf (fun _ => none) (fun _ => 0) 16 (['%', 'l', 'l', 'd'].map byte)
        [.longlong 0x100000000] = some (1, s) ∧
      readNumeral 10 [s.sink.buffer 0] ≠
        argValue true (canonicalRank (rankAfter 0 (['l', 'l'].map byte))) (.longlong 0x100000000) := by
  have hrun : (vsnprintf (fun _ => none) (fun _ => 0) 16 (['%', 'l', 'l', 'd'].map byte)
      [.longlong 0x100000000]).map (fun r => (r.1, r.2.sink.buffer 0)) = some (1, byte '0') := by
    decide +kernel
  obtain ⟨⟨ret, s⟩, hs, heq⟩ := Option.map_eq_some_iff.mp hrun
  obtain ⟨rfl, hbuffer⟩ := Prod.mk.inj heq
  refine ⟨s, hs, ?_⟩
  dsimp only at hbuffer
  rw [hbuffer]
  decide

end Neutrino.Stdio
