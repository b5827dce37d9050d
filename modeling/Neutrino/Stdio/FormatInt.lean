import Neutrino.Lib.BoundedWrite
import Mathlib.Data.Nat.Digits.Defs

/-!
# `format_int`

The model keeps the buffer as a map from offsets to bytes and a pointer into it as an offset, so that
a write outside the buffer is a write at an offset outside `0 .. n - 1`. `int` arithmetic wraps
(`int32`), `size_t` arithmetic is modulo `2 ^ 32`; the flags are a record instead of a bit mask.
-/

namespace Neutrino.Stdio

/-! ## Characters, flags, machine integers -/

/-- A byte as the character it stands for, to `switch` on. -/
def chr (c : UInt8) : Char := Char.ofNat c.toNat

def byte (c : Char) : UInt8 := UInt8.ofNat c.toNat

/-- `enum flags`, a set. -/
structure Flags where
  zero : Bool
  minus : Bool
  plus : Bool
  tick : Bool
  space : Bool
  hash : Bool
  signed : Bool
  upper : Bool
  deriving DecidableEq, Repr

/-- `flags = 0` -/
def Flags.none : Flags := ⟨false, false, false, false, false, false, false, false⟩

/-- The `int` that an integer wraps to. -/
def int32 (x : Int) : Int := x.bmod (2 ^ 32)

/-- The `size_t` that an integer wraps to. -/
def sizeT (x : Int) : Nat := (x % 2 ^ 32).toNat

theorem int32_of_nonneg {x : Int} (h0 : 0 ≤ x) (h : x < 2 ^ 31) : int32 x = x := by
  unfold int32
  rw [Int.bmod_def]
  omega

theorem sizeT_of_nonneg {x : Int} (h0 : 0 ≤ x) (h : x < 2 ^ 32) : sizeT x = x.toNat := by
  unfold sizeT
  rw [Int.emod_eq_of_lt h0 h]

/-! ## The output position -/

/-- `q` and `o`, and the buffer they are about. -/
structure Sink where
  buffer : Int → UInt8
  q : Int
  o : Nat

/-- `EMIT(c)` -/
def Sink.emit (n : Nat) (c : UInt8) (s : Sink) : Sink :=
  if s.o < n then
    ⟨Function.update s.buffer s.q c, s.q + 1, sizeT (s.o + 1)⟩
  else
    { s with o := sizeT (s.o + 1) }

/-- `while (width > limit) { EMIT(c); width--; }` -/
def Sink.padWhile (n : Nat) (c : UInt8) (width limit : Int) (s : Sink) : Sink × Int :=
  ((width - limit).toNat.repeat (Sink.emit n c) s, min width limit)

/-! ## Counting -/

/-- `while (tmpval) { tmpval /= base; ndigits++; }`; a value has at most as many digits as itself. -/
def countDigits (base : Nat) : (rounds : Nat) → (tmpval : Nat) → Nat
  | 0, _ => 0
  | rounds + 1, tmpval =>
      if tmpval = 0 then 0 else countDigits base rounds (tmpval / base) + 1

/-- What `format_int` works out before it emits anything. -/
structure Layout where
  minus : Bool
  val : Nat
  tickskip : Int
  ndigits : Int
  nchars : Int

/-- "Adjust ndigits for size of output": the precision, the octal prefix, a digit for zero. -/
def adjustDigits (flags : Flags) (base : Nat) (prec : Int) (val : Nat) (ndigits : Int) : Int :=
  let prec := if flags.hash ∧ base = 8 ∧ prec < ndigits + 1 then ndigits + 1 else prec
  if ndigits < prec then prec else if val = 0 then 1 else ndigits

/-- "Now compute the number of nondigits" -/
def addNondigits (flags : Flags) (base : Nat) (minus : Bool) (ndigits : Int) : Int :=
  let nchars := if minus ∨ flags.plus ∨ flags.space then int32 (ndigits + 1) else ndigits
  if flags.hash ∧ base = 16 then int32 (nchars + 2) else nchars

def layout (val : Nat) (flags : Flags) (base : Nat) (prec : Int) : Layout :=
  let minus := flags.signed && decide (2 ^ 31 ≤ val)
  let val := if minus then 2 ^ 32 - val else val
  let ndigits := adjustDigits flags base prec val (countDigits base val val)
  let tickskip := if flags.tick then (if base = 16 then 4 else 3) else ndigits
  -- tick marks are not digits, but the number converter writes them
  let ndigits := int32 (ndigits + (ndigits - 1).tdiv tickskip)
  ⟨minus, val, tickskip, ndigits, addNondigits flags base minus ndigits⟩

/-! ## The digits, from right to left -/

def lcdigits : List Char :=
  ['0', '1', '2', '3', '4', '5', '6', '7', '8', '9', 'a', 'b', 'c', 'd', 'e', 'f']

def ucdigits : List Char :=
  ['0', '1', '2', '3', '4', '5', '6', '7', '8', '9', 'A', 'B', 'C', 'D', 'E', 'F']

/-- `digits[d]` -/
def digit (upper : Bool) (d : Nat) : UInt8 :=
  byte ((if upper then ucdigits else lcdigits).getD d '0')

/-- `qq` and `oo`, the buffer, and how many characters are still to come. -/
structure Fill where
  buffer : Int → UInt8
  qq : Int
  oo : Nat
  ndigits : Int

/-- `qq--; oo--; ndigits--; if (oo < n) *qq = c;` -/
def Fill.put (n : Nat) (c : UInt8) (f : Fill) : Fill :=
  let oo := sizeT (f.oo - 1)
  ⟨if oo < n then Function.update f.buffer (f.qq - 1) c else f.buffer, f.qq - 1, oo, f.ndigits - 1⟩

/-- The loop that generates the number. Every round takes at least one from `ndigits`. -/
def digitLoop (n : Nat) (upper : Bool) (base : Nat) (tickskip : Int) :
    (rounds : Nat) → Fill → (b4tick : Int) → (val : Nat) → Fill
  | 0, f, _, _ => f
  | rounds + 1, f, b4tick, val =>
      if 0 < f.ndigits then
        let f' := if b4tick = 0 then f.put n (byte '_') else f
        let b4tick' := if b4tick = 0 then tickskip - 1 else b4tick - 1
        digitLoop n upper base tickskip rounds (f'.put n (digit upper (val % base))) b4tick'
          (val / base)
      else f

/-- Advance to the end of the number and generate it. -/
def Sink.emitNumber (n : Nat) (upper : Bool) (base : Nat) (l : Layout) (s : Sink) : Sink :=
  let q := s.q + l.ndigits
  let o := sizeT (s.o + l.ndigits)
  let f := digitLoop n upper base l.tickskip l.ndigits.toNat ⟨s.buffer, q, o, l.ndigits⟩
    l.tickskip l.val
  ⟨f.buffer, q, o⟩

/-! ## `format_int` -/

/-- The sign and the hex prefix. -/
def Sink.emitNondigits (n : Nat) (flags : Flags) (base : Nat) (minus : Bool) (s : Sink) : Sink :=
  let s := if minus then s.emit n (byte '-')
    else if flags.plus then s.emit n (byte '+')
    else if flags.space then s.emit n (byte ' ')
    else s
  if flags.hash ∧ base = 16 then
    (s.emit n (byte '0')).emit n (if flags.upper then byte 'X' else byte 'x')
  else s

/-- The buffer afterwards and the returned `o`. -/
def formatInt (buffer : Int → UInt8) (q : Int) (n : Nat) (val : Nat) (flags : Flags) (base : Nat)
    (width prec : Int) : (Int → UInt8) × Nat :=
  let l := layout val flags base prec
  let s : Sink := ⟨buffer, q, 0⟩
  let early := if ¬ (flags.minus ∨ flags.zero) ∧ width > l.nchars then
      s.padWhile n (byte ' ') width l.nchars else (s, width)
  let s := early.1.emitNondigits n flags base l.minus
  let zeros := if (flags.zero ∧ ¬ flags.minus) ∧ early.2 > l.ndigits then
      s.padWhile n (byte '0') early.2 l.nchars else (s, early.2)
  let s := zeros.1.emitNumber n flags.upper base l
  let late := if flags.minus then s.padWhile n (byte ' ') zeros.2 l.nchars else (s, zeros.2)
  (late.1.buffer, late.1.o)

end Neutrino.Stdio
