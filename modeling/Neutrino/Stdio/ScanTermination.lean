import Neutrino.Lib.Run
import Neutrino.Stdio.Vsnprintf

/-!
# The scan ends

Three states of the scanner push the character back, so `p` alone is no measure. Each of them hands
the character on to a state with fewer such steps ahead: from `st_flags` a character can be pushed
back twice, from `st_width` and `st_prec` once, and the other states keep what they read. That number
(`ScanState.weight`) and the characters left together go down with every iteration.
-/

namespace Neutrino.Stdio

open Neutrino.Lib

/-! ## One iteration -/

/-- How often the next character can be pushed back from a state. -/
def ScanState.weight : ScanState → Nat
  | .normal => 0
  | .flags => 2
  | .width => 1
  | .prec => 1
  | .modifiers => 0

/-- An iteration of the loop: where it read, and whether `p--` led back there. -/
structure Iteration where
  pos : Nat
  pushedBack : Bool
  deriving DecidableEq, Repr

section Scan

variable {n : Nat} {strings : Strings} {format : List UInt8} {ch : UInt8} {s s' : Scan}

theorem Scan.string_scan {object : List UInt8} {slen : Int}
    (h : s.string n object slen = some s') : s'.p = s.p ∧ s'.state = s.state := by
  unfold Scan.string at h
  obtain ⟨sink, -, h⟩ := Option.bind_eq_some_iff.mp h
  cases h
  exact ⟨rfl, rfl⟩

/-- A conversion moves neither the pointer nor the state. -/
theorem Scan.convert_scan (h : s.convert n strings ch = some s') :
    s'.p = s.p ∧ s'.state = s.state := by
  unfold Scan.convert at h
  split at h
  · obtain ⟨_, -, h⟩ := Option.bind_eq_some_iff.mp h
    cases h
    exact ⟨rfl, rfl⟩
  · obtain ⟨_, -, h⟩ := Option.bind_eq_some_iff.mp h
    cases h
    exact ⟨rfl, rfl⟩
  · obtain ⟨_, -, h⟩ := Option.bind_eq_some_iff.mp h
    cases h
    exact ⟨rfl, rfl⟩
  · obtain ⟨⟨v, ap⟩, -, h⟩ := Option.bind_eq_some_iff.mp h
    obtain ⟨hp, hs⟩ := Scan.string_scan h
    exact ⟨hp, hs⟩
  · obtain ⟨⟨addr, ap⟩, -, h⟩ := Option.bind_eq_some_iff.mp h
    obtain ⟨_, -, h⟩ := Option.bind_eq_some_iff.mp h
    obtain ⟨hp, hs⟩ := Scan.string_scan h
    exact ⟨hp, hs⟩
  · obtain ⟨_, -, h⟩ := Option.bind_eq_some_iff.mp h
    cases h
    exact ⟨rfl, rfl⟩
  · cases h
    exact ⟨rfl, rfl⟩

/-- **What one character does to the scan**: it is kept, or pushed back to a lighter state. -/
theorem Scan.step_scan (h : s.step n strings ch = some s') :
    (s'.p = s.p ∧ s'.state.weight ≤ 2) ∨
      (s'.p = s.p - 1 ∧ s'.state.weight + 1 ≤ s.state.weight) := by
  unfold Scan.step at h
  cases hstate : s.state with
  | normal =>
      simp only [hstate] at h
      split at h
      · cases h
        exact Or.inl ⟨rfl, Nat.le_refl 2⟩
      · cases h
        exact Or.inl ⟨rfl, by simp [Scan.emit, hstate, ScanState.weight]⟩
  | flags =>
      simp only [hstate] at h
      split at h
      · cases h
        exact Or.inl ⟨rfl, by simp [ScanState.weight]⟩
      · cases h
        exact Or.inr ⟨rfl, Nat.le_refl 2⟩
  | width =>
      simp only [hstate] at h
      split at h
      · cases h
        exact Or.inl ⟨rfl, by simp [ScanState.weight]⟩
      · split at h
        · obtain ⟨⟨v, ap⟩, -, h⟩ := Option.bind_eq_some_iff.mp h
          split at h
          · cases h
            exact Or.inl ⟨rfl, by simp [ScanState.weight]⟩
          · cases h
            exact Or.inl ⟨rfl, by simp [ScanState.weight]⟩
        · split at h
          · cases h
            exact Or.inl ⟨rfl, by simp [ScanState.weight]⟩
          · cases h
            exact Or.inr ⟨rfl, Nat.le_refl 1⟩
  | prec =>
      simp only [hstate] at h
      split at h
      · cases h
        exact Or.inl ⟨rfl, by simp [ScanState.weight]⟩
      · split at h
        · obtain ⟨⟨v, ap⟩, -, h⟩ := Option.bind_eq_some_iff.mp h
          cases h
          exact Or.inl ⟨rfl, by simp [ScanState.weight]⟩
        · cases h
          exact Or.inr ⟨rfl, Nat.le_refl 1⟩
  | modifiers =>
      simp only [hstate] at h
      split at h
      · cases h
        exact Or.inl ⟨rfl, by simp [ScanState.weight]⟩
      · obtain ⟨hp, hs⟩ := Scan.convert_scan h
        rw [hs]
        exact Or.inl ⟨hp, Nat.zero_le 2⟩

/-- One iteration of `while ((ch = *p++))`, on a character that is not the NUL. -/
def Scan.Iterates (n : Nat) (strings : Strings) (format : List UInt8) (s : Scan) (i : Iteration)
    (s' : Scan) : Prop :=
  ∃ ch, (format ++ [0])[s.p]? = some ch ∧ ch ≠ 0 ∧
    { s with p := s.p + 1 }.step n strings ch = some s' ∧ i = ⟨s.p, decide (s'.p = s.p)⟩

theorem lt_of_read (hread : (format ++ [0])[s.p]? = some ch) (hne : ch ≠ 0) :
    s.p < format.length := by
  obtain ⟨hlt, hget⟩ := List.getElem?_eq_some_iff.mp hread
  rw [List.length_append, List.length_singleton] at hlt
  rcases Nat.lt_or_eq_of_le (Nat.le_of_lt_succ hlt) with h | h
  · exact h
  · simp only [h, List.getElem_concat_length] at hget
    exact absurd hget.symm hne

/-- **An iteration** reads a character of the format and moves on behind it, or pushes it back to a
lighter state. -/
theorem Scan.Iterates.cases {i : Iteration} (h : s.Iterates n strings format i s') :
    i.pos = s.p ∧ s.p < format.length ∧
      ((i.pushedBack = false ∧ s'.p = s.p + 1 ∧ s'.state.weight ≤ 2) ∨
        (i.pushedBack = true ∧ s'.p = s.p ∧ s'.state.weight + 1 ≤ s.state.weight)) := by
  obtain ⟨ch, hread, hne, hstep, rfl⟩ := h
  refine ⟨rfl, lt_of_read hread hne, ?_⟩
  rcases Scan.step_scan hstep with ⟨hp, hweight⟩ | ⟨hp, hweight⟩
  · exact Or.inl ⟨by simp [hp], hp, hweight⟩
  · exact Or.inr ⟨by simp [hp], hp, hweight⟩

/-! ## Bounds -/

/-- The iterations that are left at most. -/
def Scan.fuel (format : List UInt8) (s : Scan) : Nat :=
  3 * (format.length - s.p) + s.state.weight

theorem Scan.Iterates.fuel_lt {i : Iteration} (h : s.Iterates n strings format i s') :
    s'.fuel format < s.fuel format := by
  obtain ⟨-, hlt, ⟨-, hp, hweight⟩ | ⟨-, hp, hweight⟩⟩ := h.cases
  · unfold Scan.fuel
    omega
  · unfold Scan.fuel
    omega

/-- How often the character at `i` can still be pushed back. -/
def Scan.pushesLeft (i : Nat) (s : Scan) : Nat :=
  if i < s.p then 0 else if i = s.p then s.state.weight else 2

theorem Scan.Iterates.pushesLeft_le (k : Nat) {i : Iteration}
    (h : s.Iterates n strings format i s') :
    s'.pushesLeft k + (i.pushedBack && i.pos == k).toNat ≤ s.pushesLeft k := by
  obtain ⟨hpos, -, ⟨hback, hp, hweight⟩ | ⟨hback, hp, hweight⟩⟩ := h.cases
  · unfold Scan.pushesLeft
    rw [hback, hp, Bool.false_and, Bool.toNat_false]
    split_ifs <;> omega
  · unfold Scan.pushesLeft
    rw [hback, hp, hpos, Bool.true_and]
    by_cases hk : s.p = k
    · subst hk
      simp
      exact hweight
    · have hne : ¬ k = s.p := fun h => hk h.symm
      simp [hk, hne]

end Scan

/-! ## How many characters are copied -/

/-- The `i` that the copying loop starts from. -/
def stringCount (prec slen : Int) : Nat :=
  sizeT (if prec ≠ -1 ∧ slen > prec then prec else slen)

theorem Sink.copyLoop_isSome_iff (n : Nat) (object : List UInt8) (i sarg : Nat) (s : Sink)
    (hsarg : sarg ≤ object.length) :
    (s.copyLoop n object i sarg).isSome ↔ sarg + i ≤ object.length := by
  induction i generalizing sarg s with
  | zero => simp [Sink.copyLoop, hsarg]
  | succ i ih =>
      rw [Sink.copyLoop]
      by_cases hlt : sarg < object.length
      · rw [List.getElem?_eq_getElem hlt, Option.bind_eq_bind, Option.bind_some, ih _ _ hlt]
        omega
      · rw [List.getElem?_eq_none (Nat.le_of_not_lt hlt)]
        simp
        omega

/-- The conversion reads `stringCount` characters: it needs an object of that size. -/
theorem Scan.string_isSome_iff (n : Nat) (object : List UInt8) (slen : Int) (s : Scan) :
    (s.string n object slen).isSome ↔ stringCount s.prec slen ≤ object.length := by
  have hcopy := fun sink : Sink =>
    Sink.copyLoop_isSome_iff n object (stringCount s.prec slen) 0 sink (Nat.zero_le _)
  simp only [Nat.zero_add] at hcopy
  unfold Scan.string
  dsimp only
  rw [Option.bind_eq_bind, Option.isSome_bind, ← hcopy]
  unfold stringCount
  cases Sink.copyLoop n object _ 0 _ <;> simp

/-- **The copy stays inside its argument** exactly if the precision is none at all or not negative. -/
theorem stringCount_le_iff {prec : Int} {len : Nat} (hprec : -2 ^ 31 ≤ prec) (hlen : len < 2 ^ 31) :
    stringCount prec len ≤ len ↔ -1 ≤ prec := by
  unfold stringCount sizeT
  split_ifs <;> omega

/-! ## How the loop ends -/

section Fails

variable {n : Nat} {strings : Strings} {ch : UInt8} {s : Scan}

/-- All that can fail about an iteration: the argument that the character takes is not there, or is no
string, or a precision below -1 sends the copy past the end of its object. -/
def Scan.Fails (strings : Strings) (s : Scan) (ch : UInt8) : Prop :=
  match s.state with
  | .width => ch = byte '*' ∧ vaInt s.ap = none
  | .prec => ch = byte '*' ∧ vaInt s.ap = none
  | .modifiers =>
      match conversion ch with
      | .pointer _ => vaPtr s.ap = none
      | .signed => fetchSigned (canonicalRank s.rank) s.ap = none
      | .unsigned _ _ => fetchUnsigned (canonicalRank s.rank) s.ap = none
      | .char => vaInt s.ap = none ∨ s.prec < -1
      | .string => ((vaPtr s.ap).bind fun arg => stringArg strings arg.1) = none ∨ s.prec < -1
      | .count => vaPtr s.ap = none
      | .other => False
  | _ => False

/-- A copy that leaves an object as long as its string has a precision below -1. -/
theorem Scan.prec_of_string_none {object : List UInt8} {slen : Int}
    (h : s.string n object slen = none) (hpos : 0 ≤ slen) (hlen : slen < 2 ^ 32)
    (hobject : slen ≤ object.length) : s.prec < -1 := by
  have hout : ¬ stringCount s.prec slen ≤ object.length := by
    rw [← Scan.string_isSome_iff (n := n), h]
    exact Bool.false_ne_true
  unfold stringCount sizeT at hout
  split_ifs at hout <;> omega

/-- **A conversion fails for want of its argument**, or in its copy. -/
theorem Scan.convert_none (h : s.convert n strings ch = none) :
    match conversion ch with
    | .pointer _ => vaPtr s.ap = none
    | .signed => fetchSigned (canonicalRank s.rank) s.ap = none
    | .unsigned _ _ => fetchUnsigned (canonicalRank s.rank) s.ap = none
    | .char => vaInt s.ap = none ∨ s.prec < -1
    | .string => ((vaPtr s.ap).bind fun arg => stringArg strings arg.1) = none ∨ s.prec < -1
    | .count => vaPtr s.ap = none
    | .other => False := by
  unfold Scan.convert at h
  cases hconv : conversion ch with
  | pointer upper =>
      rw [hconv] at h
      cases harg : vaPtr s.ap with
      | none => rfl
      | some arg => simp [harg] at h
  | signed =>
      rw [hconv] at h
      cases harg : fetchSigned (canonicalRank s.rank) s.ap with
      | none => rfl
      | some arg => simp [harg] at h
  | unsigned base upper =>
      rw [hconv] at h
      cases harg : fetchUnsigned (canonicalRank s.rank) s.ap with
      | none => rfl
      | some arg => simp [harg] at h
  | char =>
      rw [hconv] at h
      cases harg : vaInt s.ap with
      | none => exact Or.inl rfl
      | some arg =>
          simp only [harg, Option.bind_eq_bind, Option.bind_some] at h
          have hprec := Scan.prec_of_string_none h (by decide) (by decide) (by simp)
          exact Or.inr hprec
  | string =>
      rw [hconv] at h
      cases harg : vaPtr s.ap with
      | none => exact Or.inl rfl
      | some arg =>
          cases hbytes : stringArg strings arg.1 with
          | none => exact Or.inl hbytes
          | some bytes =>
              have hlen := stringArg_length hbytes
              simp only [harg, hbytes, Option.bind_eq_bind, Option.bind_some,
                int32_of_nonneg (Int.natCast_nonneg bytes.length) (by exact_mod_cast hlen)] at h
              have hprec := Scan.prec_of_string_none h (by omega) (by omega) (by simp)
              exact Or.inr hprec
  | count =>
      rw [hconv] at h
      cases harg : vaPtr s.ap with
      | none => rfl
      | some arg => simp [harg] at h
  | other =>
      rw [hconv] at h
      cases h

theorem Scan.fails_of_step (h : s.step n strings ch = none) : s.Fails strings ch := by
  unfold Scan.step at h
  unfold Scan.Fails
  cases hstate : s.state with
  | normal =>
      simp only [hstate] at h
      split at h <;> cases h
  | flags =>
      simp only [hstate] at h
      split at h <;> cases h
  | width =>
      simp only [hstate] at h
      split at h
      · cases h
      · split at h
        · next hstar =>
          cases harg : vaInt s.ap with
          | none => exact ⟨hstar, rfl⟩
          | some arg =>
              simp only [harg, Option.bind_eq_bind, Option.bind_some] at h
              split at h <;> cases h
        · split at h <;> cases h
  | prec =>
      simp only [hstate] at h
      split at h
      · cases h
      · split at h
        · next hstar =>
          cases harg : vaInt s.ap with
          | none => exact ⟨hstar, rfl⟩
          | some arg => simp [harg] at h
        · cases h
  | modifiers =>
      simp only [hstate] at h
      split at h
      · cases h
      · have hnone := Scan.convert_none h
        exact hnone

end Fails

section Scan

variable {n : Nat} {strings : Strings} {format : List UInt8} {ch : UInt8} {s s' : Scan}

/-- With enough rounds the loop runs up to a NUL, or up to a character that fails. -/
theorem Scan.loop_ends (rounds : Nat) (hrounds : s.fuel format < rounds) (hp : s.p ≤ format.length) :
    ∃ tr, Steps (Scan.Iterates n strings format) s tr ∧
      (((format ++ [0])[(final s tr).p]? = some 0 ∧ s.loop n strings format rounds =
          some { final s tr with p := (final s tr).p + 1 }) ∨
        ∃ ch, (format ++ [0])[(final s tr).p]? = some ch ∧ ch ≠ 0 ∧
          (final s tr).Fails strings ch ∧ s.loop n strings format rounds = none) := by
  induction rounds generalizing s with
  | zero => exact absurd hrounds (Nat.not_lt_zero _)
  | succ rounds ih =>
      obtain ⟨ch, hread⟩ : ∃ ch, (format ++ [0])[s.p]? = some ch :=
        ⟨_, List.getElem?_eq_getElem (by rw [List.length_append]; exact Nat.lt_succ_of_le hp)⟩
      by_cases hne : ch = 0
      · subst hne
        refine ⟨[], trivial, Or.inl ⟨hread, ?_⟩⟩
        rw [Scan.loop, hread]
        rfl
      · cases hstep : { s with p := s.p + 1 }.step n strings ch with
        | none =>
            have hfails : s.Fails strings ch := by
              have h := Scan.fails_of_step hstep
              exact h
            refine ⟨[], trivial, Or.inr ⟨ch, hread, hne, hfails, ?_⟩⟩
            rw [Scan.loop, hread, Option.bind_eq_bind, Option.bind_some, if_neg hne, hstep]
            rfl
        | some s' =>
            have hiter : s.Iterates n strings format ⟨s.p, decide (s'.p = s.p)⟩ s' :=
              ⟨ch, hread, hne, hstep, rfl⟩
            have hp' : s'.p ≤ format.length := by
              obtain ⟨-, hlt, ⟨-, hp', -⟩ | ⟨-, hp', -⟩⟩ := hiter.cases <;> omega
            have hfuel := hiter.fuel_lt
            obtain ⟨tr, hrun, hend⟩ := ih (by omega) hp'
            refine ⟨(_, s') :: tr, ⟨hiter, hrun⟩, ?_⟩
            have hloop : s.loop n strings format (rounds + 1) = s'.loop n strings format rounds := by
              rw [Scan.loop, hread, Option.bind_eq_bind, Option.bind_some, if_neg hne, hstep]
              rfl
            rw [hloop]
            exact hend

end Scan

/-- **The scan of a format ends**: in every run of the loop all reads are inside the format and its
NUL, no character is pushed back more than twice, and there are at most three iterations for each
character. The loop of `vsnprintf` is such a run, and it ends at the NUL but where an argument is
missing or a copy leaves its object. -/
theorem scan_terminates (strings : Strings) (buffer : Int → UInt8) (n : Nat) (format : List UInt8)
    (ap : List Arg) :
    (∀ tr, Steps (Scan.Iterates n strings format) (Scan.start buffer ap) tr →
      (∀ s ∈ states (Scan.start buffer ap) tr, s.p ≤ format.length) ∧
      (∀ k, tr.countP (fun x => x.1.pushedBack && x.1.pos == k) ≤ 2) ∧
      tr.length ≤ 3 * format.length) ∧
    ∃ tr, Steps (Scan.Iterates n strings format) (Scan.start buffer ap) tr ∧
      (((format ++ [0])[(final (Scan.start buffer ap) tr).p]? = some 0 ∧
          (vsnprintf strings buffer n format ap).isSome) ∨
        ∃ ch, (format ++ [0])[(final (Scan.start buffer ap) tr).p]? = some ch ∧ ch ≠ 0 ∧
          (final (Scan.start buffer ap) tr).Fails strings ch ∧
          vsnprintf strings buffer n format ap = none) := by
  constructor
  · intro tr hrun
    refine ⟨?_, fun k => ?_, ?_⟩
    · refine Steps.invariant (fun s i s' _ h => ?_) (Nat.zero_le _) hrun
      obtain ⟨-, hlt, ⟨-, hp, -⟩ | ⟨-, hp, -⟩⟩ := h.cases <;> omega
    · have hcount := Steps.countP_le (fun s i s' h => Scan.Iterates.pushesLeft_le k h) hrun
      have hstart : (Scan.start buffer ap).pushesLeft k ≤ 2 := by
        unfold Scan.pushesLeft
        split_ifs <;> simp [Scan.start, ScanState.weight]
      omega
    · exact Steps.length_le (fun s i s' h => h.fuel_lt) hrun
  · have hfuel : (Scan.start buffer ap).fuel format < 3 * format.length + 1 := Nat.lt_succ_self _
    obtain ⟨tr, hrun, hend⟩ := @Scan.loop_ends n strings _ _ _ hfuel (Nat.zero_le _)
    refine ⟨tr, hrun, ?_⟩
    unfold vsnprintf
    rcases hend with ⟨hnul, hloop⟩ | ⟨ch, hread, hne, hfails, hloop⟩
    · rw [hloop]
      exact Or.inl ⟨hnul, rfl⟩
    · rw [hloop]
      exact Or.inr ⟨ch, hread, hne, hfails, rfl⟩

end Neutrino.Stdio
