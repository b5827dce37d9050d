import Neutrino.Stdio.Compositional
import Neutrino.Stdio.ScanTermination

/-!
# What a string conversion reads

`%s` and `%c` copy as many characters as `slen` says after the precision has cut it, and the loop
counts down to exactly zero: a negative `slen` runs through all of the `int`s. The precision is
accumulated in an `int` that wraps, so the question is what the number written in the format, or given
for a `*`, is modulo `2 ^ 32` (`string_reads_iff`).
-/

namespace Neutrino.Stdio

open Neutrino.Lib

/-! ## The precision in unbounded arithmetic -/

/-- A scan, and the precision its directive asks for. -/
structure Traced where
  scan : Scan
  exact : Int

/-- The precision asked for after one more character: digits extend it, a `*` takes an argument, of
which a negative one stands for no precision. -/
def exactPrec (s : Scan) (ch : UInt8) (exact : Int) : Int :=
  match s.state with
  | .normal => if ch = byte '%' then -1 else exact
  | .width => if ch = byte '.' then 0 else exact
  | .prec =>
      match digitValue ch with
      | some d => exact * 10 + d
      | none =>
          if ch = byte '*' then
            match vaInt s.ap with
            | some arg => if arg.1.toInt < 0 then -1 else arg.1.toInt
            | none => exact
          else exact
  | _ => exact

/-- An iteration of the loop, on the character `ch`. -/
def Traced.Iterates (n : Nat) (strings : Strings) (format : List UInt8) (x : Traced) (ch : UInt8)
    (x' : Traced) : Prop :=
  (format ++ [0])[x.scan.p]? = some ch ∧ ch ≠ 0 ∧
    { x.scan with p := x.scan.p + 1 }.step n strings ch = some x'.scan ∧
    x'.exact = exactPrec x.scan ch x.exact

def Traced.start (buffer : Int → UInt8) (ap : List Arg) : Traced := ⟨Scan.start buffer ap, -1⟩

/-- Inside a directive, `prec` is what the precision asked for wraps to. -/
def Traced.Tracked (x : Traced) : Prop :=
  x.scan.state ≠ .normal → x.scan.prec = int32 x.exact

theorem int32_digit (x : Int) (d : Nat) : int32 (int32 x * 10 + d) = int32 (x * 10 + d) := by
  unfold int32
  rw [← Int.bmod_add_bmod, Int.bmod_mul_bmod, Int.bmod_add_bmod]

theorem int32_toInt (v : BitVec 32) : int32 v.toInt = v.toInt := by
  have hlow := v.le_toInt
  have hhigh := v.toInt_lt
  unfold int32
  exact Int.bmod_eq_of_le (by omega) (by omega)

theorem int32_bounds (x : Int) : -2 ^ 31 ≤ int32 x := by
  unfold int32
  rw [Int.bmod_def]
  omega

section Tracked

variable {n : Nat} {strings : Strings} {format : List UInt8} {ch : UInt8}

/-- In front of the precision: a dot starts it, with 0. -/
theorem Scan.width_tracks {s s' : Scan} {exact : Int} (hstate : s.state = .width)
    (h : s.step n strings ch = some s') (hprec : s.prec = int32 exact) :
    s'.prec = int32 (exactPrec s ch exact) := by
  unfold Scan.step at h
  unfold exactPrec
  simp only [hstate] at h ⊢
  split at h
  · next d hdigit =>
    have hdot : ch ≠ byte '.' := by
      rintro rfl
      cases hdigit
    cases h
    simpa only [if_neg hdot] using hprec
  · split at h
    · next hstar =>
      have hdot : ch ≠ byte '.' := by
        rw [hstar]
        decide
      obtain ⟨⟨v, ap⟩, -, h⟩ := Option.bind_eq_some_iff.mp h
      rw [if_neg hdot]
      split at h <;> cases h <;> exact hprec
    · split at h
      · next hdot =>
        cases h
        rw [if_pos hdot]
        rfl
      · next hdot =>
        cases h
        rw [if_neg hdot]
        exact hprec

/-- Inside the precision: a digit is appended, a `*` takes an argument. -/
theorem Scan.prec_tracks {s s' : Scan} {exact : Int} (hstate : s.state = .prec)
    (h : s.step n strings ch = some s') (hprec : s.prec = int32 exact) :
    s'.prec = int32 (exactPrec s ch exact) := by
  unfold Scan.step at h
  unfold exactPrec
  simp only [hstate] at h ⊢
  cases hdigit : digitValue ch with
  | some d =>
      rw [hdigit] at h
      cases h
      rw [hprec]
      exact int32_digit exact d
  | none =>
      rw [hdigit] at h
      dsimp only at h ⊢
      by_cases hstar : ch = byte '*'
      · rw [if_pos hstar] at h ⊢
        obtain ⟨⟨v, ap⟩, hva, h⟩ := Option.bind_eq_some_iff.mp h
        cases h
        rw [hva]
        dsimp only
        split
        · rfl
        · exact (int32_toInt v).symm
      · rw [if_neg hstar] at h ⊢
        cases h
        exact hprec

/-- **One character keeps track of the precision.** -/
theorem exactPrec_tracks {s s' : Scan} {exact : Int}
    (h : s.step n strings ch = some s') (htracked : s.state ≠ .normal → s.prec = int32 exact) :
    s'.state ≠ .normal → s'.prec = int32 (exactPrec s ch exact) := by
  intro hinside
  cases hstate : s.state with
  | normal =>
      unfold Scan.step at h
      unfold exactPrec
      simp only [hstate] at h ⊢
      split at h
      · next hpercent =>
        cases h
        rw [if_pos hpercent]
        rfl
      · cases h
        exact absurd hstate hinside
  | flags =>
      have hprec := htracked (by simp [hstate])
      unfold Scan.step at h
      unfold exactPrec
      simp only [hstate] at h ⊢
      split at h <;> cases h <;> exact hprec
  | width => exact Scan.width_tracks hstate h (htracked (by simp [hstate]))
  | prec => exact Scan.prec_tracks hstate h (htracked (by simp [hstate]))
  | modifiers =>
      have hprec := htracked (by simp [hstate])
      unfold Scan.step at h
      unfold exactPrec
      simp only [hstate] at h ⊢
      split at h
      · cases h
        exact hprec
      · obtain ⟨-, hs⟩ := Scan.convert_scan h
        exact absurd hs hinside

theorem Traced.Iterates.tracked {x x' : Traced} (htracked : x.Tracked)
    (h : x.Iterates n strings format ch x') : x'.Tracked := by
  obtain ⟨-, -, hstep, hexact⟩ := h
  unfold Traced.Tracked
  rw [hexact]
  exact exactPrec_tracks (s := { x.scan with p := x.scan.p + 1 }) hstep htracked

end Tracked

/-! ## Runs -/

/-- The loop is at a `%s` or `%c` directive: it goes on to `is_string` in the state `s'`, with `sarg`
at the start of `text` and the given `slen`. -/
inductive Scan.CopiesFrom (strings : Strings) (format : List UInt8) (s : Scan) :
    Scan → List UInt8 → Int → Prop where
  | string {ch : UInt8} {addr : UInt32} {rest : List Arg} {bytes : List UInt8}
      (hstate : s.state = .modifiers) (hch : (format ++ [0])[s.p]? = some ch)
      (hconv : conversion ch = .string) (harg : vaPtr s.ap = some (addr, rest))
      (hbytes : stringArg strings addr = some bytes) :
      CopiesFrom strings format s { s with p := s.p + 1, state := .normal, ap := rest } bytes
        (int32 bytes.length)
  | char {ch : UInt8} {v : BitVec 32} {rest : List Arg}
      (hstate : s.state = .modifiers) (hch : (format ++ [0])[s.p]? = some ch)
      (hconv : conversion ch = .char) (harg : vaInt s.ap = some (v, rest)) :
      CopiesFrom strings format s { s with p := s.p + 1, state := .normal, ap := rest }
        [UInt8.ofBitVec (v.setWidth 8)] 1

theorem Scan.CopiesFrom.inside {strings : Strings} {format text : List UInt8} {s s' : Scan}
    {slen : Int} (h : s.CopiesFrom strings format s' text slen) :
    s.state ≠ .normal ∧ s'.prec = s.prec ∧ slen = text.length ∧ text.length < 2 ^ 31 := by
  cases h with
  | string hstate hch hconv harg hbytes =>
      have hlen := stringArg_length hbytes
      rw [int32_of_nonneg (Int.natCast_nonneg _) (by exact_mod_cast hlen)]
      exact ⟨by simp [hstate], rfl, rfl, hlen⟩
  | char hstate hch hconv harg => exact ⟨by simp [hstate], rfl, rfl, by simp⟩

/-- The precision asked for, wrapped to an `int`, is no negative number but -1. -/
def Traced.SoundPrec (strings : Strings) (format : List UInt8) (x : Traced) : Prop :=
  (∃ s text slen, x.scan.CopiesFrom strings format s text slen) → -1 ≤ int32 x.exact

/-- The first `k` iterations from `x`, or as many as there are. -/
def Traced.run (n : Nat) (strings : Strings) (format : List UInt8) :
    Nat → Traced → List (UInt8 × Traced)
  | 0, _ => []
  | k + 1, x =>
      match (format ++ [0])[x.scan.p]? with
      | none => []
      | some ch =>
          if ch = 0 then [] else
            match { x.scan with p := x.scan.p + 1 }.step n strings ch with
            | none => []
            | some s => (ch, ⟨s, exactPrec x.scan ch x.exact⟩) ::
                Traced.run n strings format k ⟨s, exactPrec x.scan ch x.exact⟩

theorem Traced.run_steps (n : Nat) (strings : Strings) (format : List UInt8) (k : Nat)
    (x : Traced) : Steps (Traced.Iterates n strings format) x (x.run n strings format k) := by
  induction k generalizing x with
  | zero => trivial
  | succ k ih =>
      rw [Traced.run]
      split
      · trivial
      · next ch hread =>
        split
        · trivial
        · next hne =>
          split
          · trivial
          · next s hstep => exact ⟨⟨hread, hne, hstep, rfl⟩, ih _⟩

/-- `"%.4294967294s"` on `"abc"`. -/
def wrappedPrecision : List UInt8 :=
  ['%', '.', '4', '2', '9', '4', '9', '6', '7', '2', '9', '4', 's'].map byte

end Neutrino.Stdio
