import Neutrino.Stdio.Refinement

/-!
# Truncated output

The length of the buffer decides how much of the output is stored and nothing else. `out` is the whole
output, from a scanner that knows of no buffer; a buffer of more than `out.length` bytes holds all of
it.
-/

namespace Neutrino.Stdio

open Neutrino.Lib

/-- **Whatever the size of the buffer**, `vsnprintf` returns the length of the whole output, stores as
much of it as fits in front of a NUL, and writes nothing outside the buffer. -/
theorem vsnprintf_truncates (strings : Strings) {format out : List UInt8} {args rest : List Arg}
    {mode : Mode} (h : render strings .normal format args = some (mode, out, rest))
    (hlen : out.length < 2 ^ 31) (n : Nat) (buffer : Int → UInt8) :
    ∃ s, vsnprintf strings buffer n format args = some ((out.length : Int), s) ∧
      (0 < n → (∀ i (hi : i < out.length), i < min out.length (n - 1) → s.sink.buffer i = out[i]) ∧
        s.sink.buffer (min out.length (n - 1) : Nat) = 0) ∧
      ∀ x : Int, x < 0 ∨ n ≤ x → s.sink.buffer x = buffer x := by
  obtain ⟨s, hrun, hbuffer, -, -⟩ := vsnprintf_renders h hlen n buffer
  refine ⟨s, hrun, ?_, hbuffer.outside⟩
  intro hn
  refine ⟨?_, hbuffer.nul hn⟩
  intro i hi hmin
  exact hbuffer.text i hi (Nat.lt_of_lt_of_le hmin (Nat.min_le_right _ _))

/-- `"%5d|"` -/
def numberFormat : List UInt8 := ['%', '5', 'd', '|'].map byte

def numberText : List UInt8 := [' ', ' ', ' ', '4', '2', '|'].map byte

/-- Six characters in a buffer of four bytes. -/
theorem number_truncates : ∃ s,
    vsnprintf (fun _ => none) (fun _ => 0xFF) 4 numberFormat [.int 42] = some (6, s) ∧
      (0 < 4 → (∀ i (hi : i < numberText.length), i < min 6 3 → s.sink.buffer i = numberText[i]) ∧
        s.sink.buffer (min 6 3 : Nat) = 0) ∧
      ∀ x : Int, x < 0 ∨ (4 : Nat) ≤ x → s.sink.buffer x = 0xFF :=
  @vsnprintf_truncates (fun _ => none) numberFormat numberText [.int 42] [] .normal (by decide)
    (by decide) 4 (fun _ => 0xFF)

end Neutrino.Stdio
