import Neutrino.Stdio.RenderInt
import Neutrino.Stdio.Vsnprintf

/-!
# What a format prints

An abstract scanner: it reads each character once, carries the directive it is in the middle of as a
value, and prints to a list. Widths and precisions are natural numbers; one that does not fit into an
`int` has no meaning here (`none`), and neither has an argument list that does not match the format,
or `%n`.

Reading on where the last format stopped is all there is to concatenation (`render_append`).
-/

namespace Neutrino.Stdio

/-- A directive that is being read. -/
structure Directive where
  flags : Flags
  rank : Int
  width : Nat
  prec : Option Nat
  deriving DecidableEq, Repr

/-- The directive a `%` starts. -/
def Directive.fresh : Directive := ⟨Flags.none, 0, 0, none⟩

/-- Where in a format the scanner is. -/
inductive Mode where
  | normal
  | flags (d : Directive)
  | width (d : Directive)
  | prec (d : Directive)
  | modifiers (d : Directive)
  deriving DecidableEq, Repr

/-- Only numbers that an `int` can hold. -/
def fits (x : Nat) : Option Nat := if x < 2 ^ 31 then some x else none

/-- At most as many characters as the precision says, if there is one. -/
def cutTo (prec : Option Nat) (str : List UInt8) : List UInt8 :=
  match prec with
  | none => str
  | some prec => str.take prec

/-- `str` cut to the precision and padded to the width. -/
def renderString (d : Directive) (str : List UInt8) : List UInt8 :=
  let cut := cutTo d.prec str
  padding d.width cut.length (!d.flags.minus) (if d.flags.zero then '0' else ' ') ++ cut ++
    padding d.width cut.length d.flags.minus ' '

section Feed

variable (strings : Strings) (d : Directive) (ch : UInt8) (args : List Arg)

/-- What the end of a directive prints, and the arguments it leaves. -/
def feedConversion : Option (List UInt8 × List Arg) :=
  match conversion ch with
  | .pointer upper => do
      let (addr, rest) ← vaPtr args
      let flags := { d.flags with upper := d.flags.upper || upper, hash := true }
      return (renderInt addr.toNat flags 16 8 d.width, rest)
  | .signed => do
      let (val, rest) ← fetchSigned (canonicalRank d.rank) args
      return (renderInt val { d.flags with signed := true } 10 (d.prec.getD 0) d.width, rest)
  | .unsigned base upper => do
      let (val, rest) ← fetchUnsigned (canonicalRank d.rank) args
      let flags := { d.flags with upper := d.flags.upper || upper }
      return (renderInt val flags base (d.prec.getD 0) d.width, rest)
  | .char => do
      let (v, rest) ← vaInt args
      return (renderString d [UInt8.ofBitVec (v.setWidth 8)], rest)
  | .string => do
      let (addr, rest) ← vaPtr args
      let str ← stringArg strings addr
      return (renderString d str, rest)
  | .count => none
  | .other => some ([ch], args)

def feedModifiers : Option (Mode × List UInt8 × List Arg) :=
  match setRank ch d.rank with
  | some rank => some (.modifiers { d with rank }, [], args)
  | none => do
      let (out, rest) ← feedConversion strings d ch args
      return (.normal, out, rest)

def feedPrec : Option (Mode × List UInt8 × List Arg) :=
  match digitValue ch with
  | some k => do
      let prec ← d.prec
      let prec ← fits (prec * 10 + k)
      return (.prec { d with prec := some prec }, [], args)
  | none =>
      if ch = byte '*' then do
        let (v, rest) ← vaInt args
        let prec := if v.toInt < 0 then none else some v.toNat
        return (.prec { d with prec }, [], rest)
      else feedModifiers strings d ch args

def feedWidth : Option (Mode × List UInt8 × List Arg) :=
  match digitValue ch with
  | some k => do
      let width ← fits (d.width * 10 + k)
      return (.width { d with width }, [], args)
  | none =>
      if ch = byte '*' then do
        let (v, rest) ← vaInt args
        let width ← fits v.toInt.natAbs
        let flags := { d.flags with minus := d.flags.minus || decide (v.toInt < 0) }
        return (.width { d with width, flags }, [], rest)
      else if ch = byte '.' then
        some (.prec { d with prec := some 0 }, [], args)
      else feedModifiers strings d ch args

def feedFlags : Option (Mode × List UInt8 × List Arg) :=
  match setFlag ch d.flags with
  | some flags => some (.flags { d with flags }, [], args)
  | none => feedWidth strings d ch args

end Feed

/-- One character of the format. -/
def feed (strings : Strings) (mode : Mode) (ch : UInt8) (args : List Arg) :
    Option (Mode × List UInt8 × List Arg) :=
  match mode with
  | .normal =>
      if ch = byte '%' then some (.flags Directive.fresh, [], args) else some (.normal, [ch], args)
  | .flags d => feedFlags strings d ch args
  | .width d => feedWidth strings d ch args
  | .prec d => feedPrec strings d ch args
  | .modifiers d => feedModifiers strings d ch args

/-- Where the scanner is after the format, what it printed, and the arguments left. -/
def render (strings : Strings) (mode : Mode) :
    List UInt8 → List Arg → Option (Mode × List UInt8 × List Arg)
  | [], args => some (mode, [], args)
  | ch :: format, args =>
      if ch = 0 then some (mode, [], args)
      else do
        let (mode, out, rest) ← feed strings mode ch args
        let (mode, out', rest) ← render strings mode format rest
        return (mode, out ++ out', rest)

end Neutrino.Stdio
