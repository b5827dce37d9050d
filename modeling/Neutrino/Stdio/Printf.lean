import Neutrino.Drivers.ConsoleBounds
import Neutrino.Drivers.ConsoleGlyphs
import Neutrino.Stdio.Truncation

/-!
# `printf`

`printf` formats into a buffer on its stack and puts the buffer on the console, up to the first NUL. What
appears is the rendered text, cut to the buffer and to its first NUL (`printf_eq`).
-/

namespace Neutrino.Stdio

open Neutrino.Lib Neutrino.Drivers

/-- `BUFFER_SIZE` -/
def bufferSize : Nat := 32768

section Code

variable (m : VideoMode) (lerp : UInt8 → UInt8 → UInt32 → UInt8)

def putc (c : UInt8) (con : Console) : Console := vgaPutc m lerp c.toInt8 con

/-- `puts`, of a string that starts at index `i` of an array with `room` more bytes. It is `none` when it
leaves the array. -/
def puts (str : Int → UInt8) : Nat → Nat → Console → Option Console
  | 0, _, _ => none
  | room + 1, i, con =>
      if str i = 0 then some con else puts str room (i + 1) (putc m lerp (str i) con)

/-- The buffer is not initialized; `stack` is what it holds. -/
def printf (strings : Strings) (stack : Int → UInt8) (format : List UInt8) (ap : List Arg)
    (con : Console) : Option (Int × Console) := do
  let (rv, s) ← vsnprintf strings stack bufferSize format ap
  if rv < 0 then
    return (rv, con)
  let rv := if rv > bufferSize - 1 then (bufferSize : Int) - 1 else rv
  let con ← puts m lerp (Function.update s.sink.buffer rv 0) bufferSize 0 con
  return (rv, con)

end Code

/-! ## One call -/

/-- What is put on the console of a rendered text. -/
def printed (out : List UInt8) : List Int8 :=
  ((out.take (bufferSize - 1)).takeWhile fun c => c ≠ 0).map UInt8.toInt8

section Call

variable {m : VideoMode} {lerp : UInt8 → UInt8 → UInt32 → UInt8} {strings : Strings}

/-- `puts` stops at the first NUL, whether or not it is the one behind the text. -/
theorem puts_eq {str : Int → UInt8} : ∀ {text : List UInt8} {room i : Nat} {con : Console},
    (∀ j (hj : j < text.length), str ((i + j : Nat) : Int) = text[j]) →
    str ((i + text.length : Nat) : Int) = 0 → text.length < room →
    puts m lerp str room i con =
      some (vgaPuts m lerp ((text.takeWhile fun c => c ≠ 0).map UInt8.toInt8) con)
  | _, 0, _, _, _, _, hroom => absurd hroom (Nat.not_lt_zero _)
  | [], room + 1, i, con, _, hnul, _ => by
      have hstop : str (i : Int) = 0 := hnul
      rw [puts, if_pos hstop]
      rfl
  | c :: text, room + 1, i, con, htext, hnul, hroom => by
      have hc : str (i : Int) = c := htext 0 (Nat.zero_lt_succ _)
      rw [puts, hc, List.takeWhile_cons]
      by_cases hzero : c = 0
      · rw [if_pos hzero, if_neg (by simpa using hzero)]
        rfl
      · rw [if_neg hzero, if_pos (by simpa using hzero)]
        apply puts_eq
        · intro j hj
          rw [Nat.add_assoc, Nat.add_comm 1 j]
          exact htext (j + 1) (Nat.succ_lt_succ hj)
        · rw [Nat.add_assoc, Nat.add_comm 1 text.length]
          exact hnul
        · exact Nat.lt_of_succ_lt_succ hroom

/-- **One call**, of a format and arguments that have a rendering. -/
theorem printf_eq {format out : List UInt8} {args rest : List Arg} {mode : Mode}
    (h : render strings .normal format args = some (mode, out, rest)) (hlen : out.length < 2 ^ 31)
    (stack : Int → UInt8) (con : Console) :
    printf m lerp strings stack format args con =
      some (((min out.length (bufferSize - 1) : Nat) : Int), vgaPuts m lerp (printed out) con) := by
  obtain ⟨s, hrun, hterm, -, -⟩ := vsnprintf_renders h hlen bufferSize stack
  have hsize : bufferSize = 32768 := rfl
  have hcut : (if (out.length : Int) > bufferSize - 1 then (bufferSize : Int) - 1 else out.length) =
      ((min out.length (bufferSize - 1) : Nat) : Int) := by
    split <;> omega
  have hputs : puts m lerp
      (Function.update s.sink.buffer ((min out.length (bufferSize - 1) : Nat) : Int) 0) bufferSize 0
      con = some (vgaPuts m lerp (printed out) con) := by
    have hlength : (out.take (bufferSize - 1)).length = min out.length (bufferSize - 1) := by
      rw [List.length_take, Nat.min_comm]
    apply puts_eq
    · intro j hj
      rw [Nat.zero_add, List.getElem_take, Function.update_of_ne (by omega)]
      exact hterm.text j (by omega) (by omega)
    · rw [Nat.zero_add, hlength]
      exact Function.update_self _ _ _
    · omega
  rw [printf, hrun, Option.bind_eq_bind, Option.bind_some]
  simp only [if_neg (show ¬ (out.length : Int) < 0 by omega), hcut, hputs]
  rfl

end Call

/-- A call: the format, and the arguments. -/
structure Call where
  format : List UInt8
  args : List Arg

end Neutrino.Stdio
