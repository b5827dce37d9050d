import Neutrino.Stdio.FormatInt

/-!
# `vsnprintf`

The main loop, one character of the format a round: five states, three of which push the character
back. A variadic argument is tagged with the type it was passed at, and `va_arg` at another type is
`none`, like any other access the C program must not make: behind the NUL of the format, or behind
the end of a string argument.
-/

namespace Neutrino.Stdio

/-! ## Arguments -/

/-- A string in memory, without its NUL. No object is larger than half of the address space. -/
structure CString where
  bytes : List UInt8
  noNul : ∀ c ∈ bytes, c ≠ 0
  length_lt : bytes.length < 2 ^ 31

/-- The string that starts at an address, if one does. -/
abbrev Strings := UInt32 → Option CString

/-- A variadic argument, at its promoted type. -/
inductive Arg where
  | int (v : BitVec 32)
  | long (v : BitVec 32)
  | longlong (v : BitVec 64)
  | ptr (addr : UInt32)
  deriving DecidableEq, Repr

def vaInt : List Arg → Option (BitVec 32 × List Arg)
  | .int v :: ap => some (v, ap)
  | _ => none

def vaLong : List Arg → Option (BitVec 32 × List Arg)
  | .long v :: ap => some (v, ap)
  | _ => none

def vaLonglong : List Arg → Option (BitVec 64 × List Arg)
  | .longlong v :: ap => some (v, ap)
  | _ => none

def vaPtr : List Arg → Option (UInt32 × List Arg)
  | .ptr addr :: ap => some (addr, ap)
  | _ => none

/-! ## Ranks and conversions -/

/-- `enum ranks` -/
inductive Rank where
  | char
  | short
  | int
  | long
  | longlong
  deriving DecidableEq, Repr

/-- The rank after "Canonicalize rank": from -2 for `char` to 2 for `long long`. -/
def canonicalRank (rank : Int) : Rank :=
  if rank ≤ -2 then .char
  else if rank = -1 then .short
  else if rank = 0 then .int
  else if rank = 1 then .long
  else .longlong

/-- The length modifiers. -/
def setRank (ch : UInt8) (rank : Int) : Option Int :=
  match chr ch with
  | 'h' => some (int32 (rank - 1))
  | 'l' => some (int32 (rank + 1))
  | 'j' => some 2
  | 'z' => some 1
  | 't' => some 1
  | 'L' => some (int32 (rank + 2))
  | 'q' => some (int32 (rank + 2))
  | _ => none

/-- The special flags. -/
def setFlag (ch : UInt8) (flags : Flags) : Option Flags :=
  match chr ch with
  | '-' => some { flags with minus := true }
  | '+' => some { flags with plus := true }
  | '\'' => some { flags with tick := true }
  | ' ' => some { flags with space := true }
  | '#' => some { flags with hash := true }
  | '0' => some { flags with zero := true }
  | _ => none

/-- `ch - '0'`, if `ch >= '0' && ch <= '9'` -/
def digitValue (ch : UInt8) : Option Nat :=
  if byte '0' ≤ ch ∧ ch ≤ byte '9' then some (ch.toNat - (byte '0').toNat) else none

inductive Conversion where
  | pointer (upper : Bool)
  | signed
  | unsigned (base : Nat) (upper : Bool)
  | char
  | string
  | count
  | other
  deriving DecidableEq, Repr

def conversion (ch : UInt8) : Conversion :=
  match chr ch with
  | 'P' => .pointer true
  | 'p' => .pointer false
  | 'd' => .signed
  | 'i' => .signed
  | 'o' => .unsigned 8 false
  | 'u' => .unsigned 10 false
  | 'X' => .unsigned 16 true
  | 'x' => .unsigned 16 false
  | 'c' => .char
  | 's' => .string
  | 'n' => .count
  | _ => .other

/-- The `val` of a signed conversion. -/
def fetchSigned (rank : Rank) (ap : List Arg) : Option (Nat × List Arg) :=
  match rank with
  | .char => (vaInt ap).map fun (v, ap) => (((v.setWidth 8).signExtend 32).toNat, ap)
  | .short => (vaInt ap).map fun (v, ap) => (((v.setWidth 16).signExtend 32).toNat, ap)
  | .int => (vaInt ap).map fun (v, ap) => (v.toNat, ap)
  | .long => (vaLong ap).map fun (v, ap) => (v.toNat, ap)
  | .longlong => (vaLonglong ap).map fun (v, ap) => ((v.setWidth 32).toNat, ap)

/-- The `val` of an unsigned conversion. -/
def fetchUnsigned (rank : Rank) (ap : List Arg) : Option (Nat × List Arg) :=
  match rank with
  | .char => (vaInt ap).map fun (v, ap) => ((v.setWidth 8).toNat, ap)
  | .short => (vaInt ap).map fun (v, ap) => ((v.setWidth 16).toNat, ap)
  | .int => (vaInt ap).map fun (v, ap) => (v.toNat, ap)
  | .long => (vaLong ap).map fun (v, ap) => (v.toNat, ap)
  | .longlong => (vaLonglong ap).map fun (v, ap) => ((v.setWidth 32).toNat, ap)

/-- `"(null)"` -/
def nullText : List UInt8 := ['(', 'n', 'u', 'l', 'l', ')'].map byte

/-- `sarg ? sarg : "(null)"`, without the NUL. -/
def stringArg (strings : Strings) (addr : UInt32) : Option (List UInt8) :=
  if addr = 0 then some nullText else (strings addr).map CString.bytes

theorem stringArg_length {strings : Strings} {addr : UInt32} {bytes : List UInt8}
    (h : stringArg strings addr = some bytes) : bytes.length < 2 ^ 31 := by
  unfold stringArg at h
  split at h
  · cases h
    decide
  · obtain ⟨str, -, rfl⟩ := Option.map_eq_some_iff.mp h
    exact str.length_lt

/-! ## The state of the scanner -/

/-- The `state` of the main loop. -/
inductive ScanState where
  | normal
  | flags
  | width
  | prec
  | modifiers
  deriving DecidableEq, Repr

/-- The variables of `vsnprintf`; `counts` are the stores that `%n` made, latest first. -/
structure Scan where
  p : Nat
  sink : Sink
  val : Nat
  rank : Int
  width : Int
  prec : Int
  base : Nat
  flags : Flags
  state : ScanState
  ap : List Arg
  counts : List (UInt32 × Rank × Nat)

/-- `EMIT(c)` -/
def Scan.emit (n : Nat) (c : UInt8) (s : Scan) : Scan := { s with sink := s.sink.emit n c }

/-- `p--`, and on to another state. -/
def Scan.pushBack (state : ScanState) (s : Scan) : Scan := { s with state := state, p := s.p - 1 }

/-! ## Conversions -/

/-- From the label `is_integer` on. -/
def Scan.integer (n : Nat) (s : Scan) : Scan :=
  let sz := formatInt s.sink.buffer s.sink.q (if s.sink.o < n then n - s.sink.o else 0) s.val s.flags
    s.base s.width s.prec
  { s with sink := ⟨sz.1, s.sink.q + sz.2, sizeT (s.sink.o + sz.2)⟩ }

/-- `for (i = slen; i; i--) { sch = *sarg++; EMIT(sch); }`, where `sarg` points into `object`. -/
def Sink.copyLoop (n : Nat) (object : List UInt8) : (i : Nat) → (sarg : Nat) → Sink → Option Sink
  | 0, _, s => some s
  | i + 1, sarg, s => do
      let sch ← object[sarg]?
      Sink.copyLoop n object i (sarg + 1) (s.emit n sch)

/-- From the label `is_string` on. -/
def Scan.string (n : Nat) (object : List UInt8) (slen : Int) (s : Scan) : Option Scan := do
  let slen := if s.prec ≠ -1 ∧ slen > s.prec then s.prec else slen
  let early := if s.width > slen ∧ ¬ s.flags.minus then
      s.sink.padWhile n (if s.flags.zero then byte '0' else byte ' ') s.width slen
    else (s.sink, s.width)
  -- a negative `slen` counts down through all of the `int`s
  let sink ← early.1.copyLoop n object (sizeT slen) 0
  let late := if early.2 > slen ∧ s.flags.minus then
      sink.padWhile n (byte ' ') early.2 slen
    else (sink, early.2)
  return { s with sink := late.1, width := late.2 }

/-- The terminal sequences of `st_modifiers`. -/
def Scan.convert (n : Nat) (strings : Strings) (ch : UInt8) (s : Scan) : Option Scan :=
  let rank := canonicalRank s.rank
  match conversion ch with
  | .pointer upper => do
      let (addr, ap) ← vaPtr s.ap
      let flags := { s.flags with upper := s.flags.upper || upper, hash := true }
      return { s with ap, flags, val := addr.toNat, base := 16, prec := 8 }.integer n
  | .signed => do
      let (val, ap) ← fetchSigned rank s.ap
      return { s with ap, val, base := 10, flags := { s.flags with signed := true } }.integer n
  | .unsigned base upper => do
      let (val, ap) ← fetchUnsigned rank s.ap
      let flags := { s.flags with upper := s.flags.upper || upper }
      return { s with ap, val, base, flags }.integer n
  | .char => do
      let (v, ap) ← vaInt s.ap
      { s with ap }.string n [UInt8.ofBitVec (v.setWidth 8)] 1
  | .string => do
      let (addr, ap) ← vaPtr s.ap
      let bytes ← stringArg strings addr
      { s with ap }.string n (bytes ++ [0]) (int32 bytes.length)
  | .count => do
      let (addr, ap) ← vaPtr s.ap
      return { s with ap, counts := (addr, rank, s.sink.o) :: s.counts }
  | .other => some (s.emit n ch)

/-! ## The main loop -/

/-- One character in the current state. -/
def Scan.step (n : Nat) (strings : Strings) (ch : UInt8) (s : Scan) : Option Scan :=
  match s.state with
  | .normal =>
      if ch = byte '%' then
        some { s with state := .flags, flags := Flags.none, rank := 0, width := 0, prec := -1 }
      else
        some (s.emit n ch)
  | .flags =>
      match setFlag ch s.flags with
      | some flags => some { s with flags }
      | none => some (s.pushBack .width)
  | .width =>
      match digitValue ch with
      | some d => some { s with width := int32 (s.width * 10 + d) }
      | none =>
          if ch = byte '*' then do
            let (v, ap) ← vaInt s.ap
            if v.toInt < 0 then
              return { s with ap, width := int32 (-v.toInt), flags := { s.flags with minus := true } }
            else
              return { s with ap, width := v.toInt }
          else if ch = byte '.' then
            some { s with prec := 0, state := .prec }
          else
            some (s.pushBack .modifiers)
  | .prec =>
      match digitValue ch with
      | some d => some { s with prec := int32 (s.prec * 10 + d) }
      | none =>
          if ch = byte '*' then do
            let (v, ap) ← vaInt s.ap
            return { s with ap, prec := if v.toInt < 0 then -1 else v.toInt }
          else
            some (s.pushBack .modifiers)
  | .modifiers =>
      match setRank ch s.rank with
      | some rank => some { s with rank }
      | none => { s with state := .normal }.convert n strings ch

/-- `while ((ch = *p++)) …` -/
def Scan.loop (n : Nat) (strings : Strings) (format : List UInt8) : (rounds : Nat) → Scan → Option Scan
  | 0, _ => none
  | rounds + 1, s => do
      let ch ← (format ++ [0])[s.p]?
      let s := { s with p := s.p + 1 }
      if ch = 0 then return s
      let s ← s.step n strings ch
      Scan.loop n strings format rounds s

/-- "Null-terminate the string" -/
def Sink.terminate (n : Nat) (s : Sink) : Sink :=
  if s.o < n then { s with buffer := Function.update s.buffer s.q 0 }
  else if n > 0 then { s with buffer := Function.update s.buffer (n - 1) 0 }
  else s

/-- `val` and `base` are set before they are read; `base` has no initial value in the source. -/
def Scan.start (buffer : Int → UInt8) (ap : List Arg) : Scan :=
  ⟨0, ⟨buffer, 0, 0⟩, 0, 0, 0, -1, 0, Flags.none, .normal, ap, []⟩

/-- What is returned, and the state at the end. No character is looked at more than three times, so
the loop ends within the rounds it is given. -/
def vsnprintf (strings : Strings) (buffer : Int → UInt8) (n : Nat) (format : List UInt8)
    (ap : List Arg) : Option (Int × Scan) := do
  let s ← (Scan.start buffer ap).loop n strings format (3 * format.length + 1)
  return (int32 s.sink.o, { s with sink := s.sink.terminate n })

end Neutrino.Stdio
