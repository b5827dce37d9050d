import Neutrino.Stdio.Render

/-!
# `vsnprintf` prints what its format renders to

The simulation between the scanner of the source and the abstract one. `Scan.Renders` ties a state of
the main loop to what was printed, the arguments left, and where in a directive the scanner is; the
variables of the last directive are free as soon as it is over, and the buffer is described through
`Sink.Agrees` whether or not there is room left.

A character that the source pushes back is read again in the next state, at most twice
(`Scan.advance`); the abstract scanner reads it once.
-/

namespace Neutrino.Stdio

open Neutrino.Lib

/-! ## The simulation relation -/

/-- The variables hold the directive. -/
structure Scan.Has (s : Scan) (d : Directive) : Prop where
  flags : s.flags = d.flags
  rank : s.rank = d.rank
  width : s.width = d.width
  prec : s.prec = precInt d.prec

/-- In the ground state the variables may hold anything. -/
def Scan.In (s : Scan) : Mode → Prop
  | .normal => s.state = .normal
  | .flags d => s.state = .flags ∧ s.Has d
  | .width d => s.state = .width ∧ s.Has d
  | .prec d => s.state = .prec ∧ s.Has d
  | .modifiers d => s.state = .modifiers ∧ s.Has d

/-- Only these variables matter. -/
theorem Scan.In.congr {s s' : Scan} {mode : Mode} (h : s.In mode) (hstate : s'.state = s.state)
    (hflags : s'.flags = s.flags) (hrank : s'.rank = s.rank) (hwidth : s'.width = s.width)
    (hprec : s'.prec = s.prec) : s'.In mode := by
  have hhas : ∀ d, s.Has d → s'.Has d := fun d hd =>
    ⟨hflags.trans hd.flags, hrank.trans hd.rank, hwidth.trans hd.width, hprec.trans hd.prec⟩
  cases mode with
  | normal => exact hstate.trans h
  | flags d => exact ⟨hstate.trans h.1, hhas d h.2⟩
  | width d => exact ⟨hstate.trans h.1, hhas d h.2⟩
  | prec d => exact ⟨hstate.trans h.1, hhas d h.2⟩
  | modifiers d => exact ⟨hstate.trans h.1, hhas d h.2⟩

/-- The scanner has printed `out`, has `args` left, and is in `mode`. -/
structure Scan.Renders (b : Int → UInt8) (n : Nat) (s : Scan) (mode : Mode) (out : List UInt8)
    (args : List Arg) : Prop where
  output : s.sink.Agrees b 0 n out
  args : s.ap = args
  mode : s.In mode

/-- There is room for `more` behind `out`: `o` counts both, and an `int` what one directive prints. -/
structure FitsBehind (out more : List UInt8) : Prop where
  total : (out ++ more).length < 2 ^ 32
  piece : more.length < 2 ^ 31

section Simulation

variable {b : Int → UInt8} {n : Nat} {strings : Strings} {s : Scan} {d : Directive}
  {out : List UInt8}

/-! ## Conversions -/

theorem Scan.integer_agrees {base prec : Nat} {flags : Flags} {val width : Nat} {p : Option Nat}
    (h : s.sink.Agrees b 0 n out) (hbase : 2 ≤ s.base) (hval : s.val = val)
    (hflags : s.flags = flags) (hb : s.base = base) (hwidth : s.width = width)
    (hprec : s.prec = precInt p) (hp : p.getD 0 = prec)
    (hlen : FitsBehind out (renderInt val flags base prec width)) :
    (s.integer n).sink.Agrees b 0 n (out ++ renderInt val flags base prec width) := by
  obtain ⟨htotal, hpiece⟩ := hlen
  rw [List.length_append] at htotal
  have hroom : (if s.sink.o < n then n - s.sink.o else 0) = n - out.length := by
    rw [h.count]
    split <;> omega
  have hint := @formatInt_eq s.sink.buffer s.sink.q (n - out.length) val base width flags p
    (hb ▸ hbase) (by rw [hp]; omega)
  unfold Scan.integer
  rw [hroom, hval, hflags, hb, hwidth, hprec, hint, hp]
  generalize renderInt val flags base prec width = r at htotal ⊢
  have ho : sizeT (s.sink.o + (r.length : Int)) = (out ++ r).length := by
    rw [h.count, sizeT_of_nonneg (by omega) (by omega), List.length_append]
    omega
  refine ⟨?_, ho, ?_⟩
  · rw [← written_append, ← h.buffer]
    by_cases hfull : out.length < n
    · rw [h.pointer hfull]
    · rw [Nat.sub_eq_zero_of_le (Nat.le_of_not_lt hfull), written_zero, written_zero]
  · intro hfull
    rw [List.length_append] at hfull ⊢
    show s.sink.q + (r.length : Int) = _
    rw [h.pointer (by omega)]
    omega

theorem Sink.Agrees.copyLoop (object : List UInt8) (k : Nat) :
    ∀ (sarg : Nat) {s : Sink} {out : List UInt8}, s.Agrees b 0 n out → sarg + k ≤ object.length →
      out.length + k < 2 ^ 32 →
      ∃ s', s.copyLoop n object k sarg = some s' ∧
        s'.Agrees b 0 n (out ++ (object.drop sarg).take k) := by
  induction k with
  | zero =>
      intro sarg s out h _ _
      refine ⟨s, rfl, ?_⟩
      rwa [List.take_zero, List.append_nil]
  | succ k ih =>
      intro sarg s out h hobject hlen
      have hlt : sarg < object.length := by omega
      obtain ⟨s', hrun, hagrees⟩ := ih (sarg + 1) (h.emit object[sarg] (by omega)) (by omega)
        (by rw [List.length_append, List.length_singleton]; omega)
      refine ⟨s', ?_, ?_⟩
      · rw [Sink.copyLoop, List.getElem?_eq_getElem hlt]
        exact hrun
      · rwa [List.drop_eq_getElem_cons hlt, List.take_succ_cons, List.append_cons]

/-- What the code keeps of a string: `slen` after it was cut to the precision. -/
theorem cut_eq (prec : Option Nat) (slen : Nat) (object : List UInt8) :
    ∃ k : Nat, (if precInt prec ≠ -1 ∧ (slen : Int) > precInt prec then precInt prec else slen) = k ∧
      k ≤ slen ∧ object.take k = cutTo prec (object.take slen) := by
  cases prec with
  | none => exact ⟨slen, if_neg (fun h => h.1 rfl), Nat.le_refl _, rfl⟩
  | some p =>
      refine ⟨min p slen, ?_, Nat.min_le_right _ _, List.take_take.symm⟩
      rw [precInt]
      split_ifs <;> omega

/-- **A string directive** prints its argument, cut and padded. -/
theorem Scan.string_agrees {object str : List UInt8} {slen : Nat}
    (h : s.sink.Agrees b 0 n out) (hd : s.Has d) (hstr : object.take slen = str)
    (hslen : slen ≤ object.length) (hlen : FitsBehind out (renderString d str)) :
    ∃ s', s.string n object slen = some s' ∧ s'.sink.Agrees b 0 n (out ++ renderString d str) ∧
      s'.ap = s.ap ∧ s'.state = s.state ∧ s'.p = s.p := by
  obtain ⟨k, hk, hle, htake⟩ := cut_eq d.prec slen object
  have hbody : (cutTo d.prec str).length = k := by
    rw [← hstr, ← htake, List.length_take_of_le (by omega)]
  have hrender : renderString d str = padding d.width k (!d.flags.minus)
      (if d.flags.zero then '0' else ' ') ++ object.take k ++
        padding d.width k d.flags.minus ' ' := by
    rw [renderString, hbody, htake, hstr]
  obtain ⟨htotal, hpiece⟩ := hlen
  rw [hrender] at htotal hpiece ⊢
  simp only [List.length_append, List.length_take_of_le (show k ≤ object.length by omega)]
    at htotal hpiece
  have hpad : (if d.flags.zero then byte '0' else byte ' ') =
      byte (if d.flags.zero then '0' else ' ') := by
    split <;> rfl
  have hsize : sizeT (k : Int) = k := by
    rw [sizeT_of_nonneg (by omega) (by omega)]
    rfl
  unfold Scan.string
  simp only [hd.prec, hk, hd.width, hd.flags, hpad, hsize]
  -- the padding stands on one side of the string, and the flag says on which
  cases hm : d.flags.minus with
  | true =>
      simp only [hm, Bool.not_true, padding_false, List.length_nil, Nat.zero_add,
        List.nil_append, not_true_eq_false, and_false, if_false, and_true] at htotal ⊢
      obtain ⟨sink, hcopy, hagrees⟩ := h.copyLoop object k 0 (by omega) (by omega)
      have hlate := hagrees.padIf ((d.width : Int) > k) d.width k true ' ' (fun _ => rfl)
        (fun _ hno => by omega) (by simp only [List.length_append, List.length_take]; omega)
      rw [hcopy]
      refine ⟨_, rfl, ?_, rfl, rfl, rfl⟩
      rw [← List.append_assoc]
      exact hlate
  | false =>
      simp only [hm, Bool.not_false, padding_false, List.length_nil, Nat.add_zero, List.append_nil,
        Bool.false_eq_true, not_false_eq_true, and_true, and_false, if_false] at htotal ⊢
      have hearly := h.padIf ((d.width : Int) > k) d.width k true
        (if d.flags.zero then '0' else ' ') (fun _ => rfl) (fun _ hno => by omega) (by omega)
      obtain ⟨sink, hcopy, hagrees⟩ := hearly.copyLoop object k 0 (by omega)
        (by rw [List.length_append]; omega)
      rw [hcopy]
      refine ⟨_, rfl, ?_, rfl, rfl, rfl⟩
      rw [← List.append_assoc]
      exact hagrees

theorem conversion_base {ch : UInt8} {base : Nat} {upper : Bool}
    (h : conversion ch = .unsigned base upper) : 2 ≤ base := by
  unfold conversion at h
  split at h <;> cases h <;> decide

theorem Scan.convert_agrees {ch : UInt8} {args rest : List Arg} {out' : List UInt8}
    (h : s.sink.Agrees b 0 n out) (hd : s.Has d) (hap : s.ap = args)
    (hfeed : feedConversion strings d ch args = some (out', rest))
    (hlen : FitsBehind out out') :
    ∃ s', s.convert n strings ch = some s' ∧ s'.sink.Agrees b 0 n (out ++ out') ∧ s'.ap = rest ∧
      s'.state = s.state ∧ s'.p = s.p := by
  subst hap
  unfold feedConversion at hfeed
  rw [← hd.rank] at hfeed
  unfold Scan.convert
  cases hconv : conversion ch with
  | pointer upper =>
      simp only [hconv] at hfeed ⊢
      obtain ⟨⟨addr, ap⟩, hva, heq⟩ := Option.bind_eq_some_iff.mp hfeed
      cases heq
      rw [hva]
      refine ⟨_, rfl, ?_, rfl, rfl, rfl⟩
      exact Scan.integer_agrees (p := some 8) h (show 2 ≤ 16 by decide) rfl (by rw [hd.flags]) rfl
        hd.width rfl rfl hlen
  | signed =>
      simp only [hconv] at hfeed ⊢
      obtain ⟨⟨val, ap⟩, hva, heq⟩ := Option.bind_eq_some_iff.mp hfeed
      cases heq
      rw [hva]
      refine ⟨_, rfl, ?_, rfl, rfl, rfl⟩
      exact Scan.integer_agrees h (show 2 ≤ 10 by decide) rfl (by rw [hd.flags]) rfl hd.width
        hd.prec rfl hlen
  | unsigned base upper =>
      simp only [hconv] at hfeed ⊢
      obtain ⟨⟨val, ap⟩, hva, heq⟩ := Option.bind_eq_some_iff.mp hfeed
      cases heq
      rw [hva]
      refine ⟨_, rfl, ?_, rfl, rfl, rfl⟩
      exact Scan.integer_agrees h (conversion_base hconv) rfl (by rw [hd.flags]) rfl hd.width hd.prec
        rfl hlen
  | char =>
      simp only [hconv] at hfeed ⊢
      obtain ⟨⟨v, ap⟩, hva, heq⟩ := Option.bind_eq_some_iff.mp hfeed
      cases heq
      rw [hva, Option.bind_eq_bind, Option.bind_some]
      have hstring := @Scan.string_agrees b n { s with ap } d out [UInt8.ofBitVec (v.setWidth 8)] _ 1
        h ⟨hd.flags, hd.rank, hd.width, hd.prec⟩ rfl (Nat.le_refl 1) hlen
      exact hstring
  | string =>
      simp only [hconv] at hfeed ⊢
      obtain ⟨⟨addr, ap⟩, hva, hfeed⟩ := Option.bind_eq_some_iff.mp hfeed
      obtain ⟨bytes, hbytes, heq⟩ := Option.bind_eq_some_iff.mp hfeed
      cases heq
      rw [hva, Option.bind_eq_bind, Option.bind_some]
      simp only [hbytes]
      have hslen : int32 bytes.length = bytes.length :=
        int32_of_nonneg (by omega) (by exact_mod_cast stringArg_length hbytes)
      rw [Option.bind_eq_bind, Option.bind_some, hslen]
      exact Scan.string_agrees (s := { s with ap }) h ⟨hd.flags, hd.rank, hd.width, hd.prec⟩
        (by rw [List.take_left]) (by rw [List.length_append]; omega) hlen
  | count =>
      simp only [hconv] at hfeed
      exact absurd hfeed (by simp)
  | other =>
      simp only [hconv] at hfeed ⊢
      cases hfeed
      refine ⟨_, rfl, h.emit ch ?_, rfl, rfl, rfl⟩
      have htotal := hlen.total
      rw [List.length_append, List.length_singleton] at htotal
      omega

/-! ## One character -/

variable {format : List UInt8} {ch : UInt8} {args rest : List Arg} {mode : Mode}
  {out' : List UInt8}

/-- `k` rounds of the main loop lead from `s` to `s'`. -/
def Scan.Reaches (n : Nat) (strings : Strings) (format : List UInt8) (k : Nat) (s s' : Scan) : Prop :=
  ∀ rounds, s.loop n strings format (rounds + k) = s'.loop n strings format rounds

theorem Scan.Reaches.trans {k l : Nat} {s s' s'' : Scan} (h : s.Reaches n strings format k s')
    (h' : s'.Reaches n strings format l s'') : s.Reaches n strings format (l + k) s'' := by
  intro rounds
  rw [← Nat.add_assoc, h, h']

theorem Scan.reaches_of_step {s s' : Scan} (hch : (format ++ [0])[s.p]? = some ch) (hne : ch ≠ 0)
    (hstep : { s with p := s.p + 1 }.step n strings ch = some s') :
    s.Reaches n strings format 1 s' := by
  intro rounds
  rw [Scan.loop, hch, Option.bind_eq_bind, Option.bind_some, if_neg hne, hstep]
  rfl

/-- In at most `bound` rounds the loop gets over the character at `s.p`. -/
def Scan.Advances (b : Int → UInt8) (n : Nat) (strings : Strings) (format : List UInt8) (bound : Nat)
    (s : Scan) (mode : Mode) (out : List UInt8) (args : List Arg) : Prop :=
  ∃ k s', k ≤ bound ∧ s.Reaches n strings format k s' ∧ s'.p = s.p + 1 ∧
    s'.Renders b n mode out args

theorem Scan.Advances.mono {bound bound' : Nat}
    (h : s.Advances b n strings format bound mode out args) (hle : bound ≤ bound') :
    s.Advances b n strings format bound' mode out args := by
  obtain ⟨k, s', hk, hrest⟩ := h
  exact ⟨k, s', Nat.le_trans hk hle, hrest⟩

/-- A character that is not pushed back. -/
theorem Scan.Renders.advance (s' : Scan) (hch : (format ++ [0])[s.p]? = some ch) (hne : ch ≠ 0)
    (hstep : { s with p := s.p + 1 }.step n strings ch = some s') (hp : s'.p = s.p + 1)
    (h : s'.Renders b n mode out args) : s.Advances b n strings format 1 mode out args :=
  ⟨1, s', Nat.le_refl 1, Scan.reaches_of_step hch hne hstep, hp, h⟩

/-- A character inside a directive: it is not pushed back, and nothing comes out. -/
theorem Scan.Renders.advance_silent {bound : Nat} (s' : Scan)
    (hch : (format ++ [0])[s.p]? = some ch) (hne : ch ≠ 0)
    (hstep : { s with p := s.p + 1 }.step n strings ch = some s') (hp : s'.p = s.p + 1)
    (hbound : 1 ≤ bound) (h : s'.Renders b n mode out args) :
    s.Advances b n strings format bound mode (out ++ []) args := by
  rw [List.append_nil]
  exact (h.advance s' hch hne hstep hp).mono hbound

/-- A character that is pushed back, and then read in the next state. -/
theorem Scan.Advances.pushBack {bound : Nat} (state : ScanState)
    (hch : (format ++ [0])[s.p]? = some ch) (hne : ch ≠ 0)
    (hstep : { s with p := s.p + 1 }.step n strings ch =
      some ({ s with p := s.p + 1 }.pushBack state))
    (h : ({ s with state }).Advances b n strings format bound mode out args) :
    s.Advances b n strings format (bound + 1) mode out args := by
  obtain ⟨k, s', hk, hreach, hp, hrenders⟩ := h
  exact ⟨k + 1, s', Nat.succ_le_succ hk, (Scan.reaches_of_step hch hne hstep).trans hreach, hp,
    hrenders⟩

theorem Scan.modifiers_advance (hch : (format ++ [0])[s.p]? = some ch) (hne : ch ≠ 0)
    (h : s.Renders b n (.modifiers d) out args)
    (hfeed : feedModifiers strings d ch args = some (mode, out', rest))
    (hlen : FitsBehind out out') :
    s.Advances b n strings format 1 mode (out ++ out') rest := by
  obtain ⟨houtput, hargs, hstate, hd⟩ := h
  unfold feedModifiers at hfeed
  rw [← hd.rank] at hfeed
  cases hrank : setRank ch s.rank with
  | some rank =>
      rw [hrank] at hfeed
      cases hfeed
      apply Scan.Renders.advance_silent { s with p := s.p + 1, rank } hch hne ?_ rfl (Nat.le_refl 1)
      · exact ⟨houtput, hargs, hstate, hd.flags, rfl, hd.width, hd.prec⟩
      · simp only [Scan.step, hstate, hrank]
  | none =>
      rw [hrank] at hfeed
      obtain ⟨⟨o, r⟩, hconv, heq⟩ := Option.bind_eq_some_iff.mp hfeed
      cases heq
      obtain ⟨s', hrun, hagrees, hap, hstate', hp⟩ := Scan.convert_agrees
        (s := { s with p := s.p + 1, state := .normal }) houtput
        ⟨hd.flags, hd.rank, hd.width, hd.prec⟩ hargs hconv hlen
      apply Scan.Renders.advance s' hch hne
      · simp only [Scan.step, hstate, hrank]
        exact hrun
      · exact hp
      · exact ⟨hagrees, hap, hstate'⟩

theorem fits_eq_some {x y : Nat} (h : fits x = some y) : y = x ∧ x < 2 ^ 31 := by
  unfold fits at h
  split at h
  · next hlt => exact ⟨(Option.some.inj h).symm, hlt⟩
  · exact absurd h (by simp)

theorem toInt_of_nonneg {v : BitVec 32} (h : ¬ v.toInt < 0) : v.toInt = v.toNat := by
  rw [BitVec.toInt_eq_toNat_cond] at *
  split_ifs at * <;> omega

theorem Scan.prec_advance (hch : (format ++ [0])[s.p]? = some ch) (hne : ch ≠ 0)
    (h : s.Renders b n (.prec d) out args)
    (hfeed : feedPrec strings d ch args = some (mode, out', rest))
    (hlen : FitsBehind out out') :
    s.Advances b n strings format 2 mode (out ++ out') rest := by
  obtain ⟨houtput, hargs, hstate, hd⟩ := h
  unfold feedPrec at hfeed
  cases hdigit : digitValue ch with
  | some k =>
      rw [hdigit] at hfeed
      obtain ⟨p, hp, hfeed⟩ := Option.bind_eq_some_iff.mp hfeed
      obtain ⟨p', hfits, heq⟩ := Option.bind_eq_some_iff.mp hfeed
      obtain ⟨rfl, hlt⟩ := fits_eq_some hfits
      cases heq
      have hprec : int32 (s.prec * 10 + k) = (p * 10 + k : Nat) := by
        rw [hd.prec, hp, precInt, int32_of_nonneg (by omega) (by omega)]
        omega
      apply Scan.Renders.advance_silent { s with p := s.p + 1, prec := int32 (s.prec * 10 + k) }
        hch hne ?_ rfl (by decide)
      · exact ⟨houtput, hargs, hstate, hd.flags, hd.rank, hd.width, hprec⟩
      · simp only [Scan.step, hstate, hdigit]
  | none =>
      rw [hdigit] at hfeed
      by_cases hstar : ch = byte '*'
      · rw [if_pos hstar] at hfeed
        obtain ⟨⟨v, ap⟩, hva, heq⟩ := Option.bind_eq_some_iff.mp hfeed
        cases heq
        apply Scan.Renders.advance_silent
          { s with p := s.p + 1, ap := rest, prec := if v.toInt < 0 then -1 else v.toInt }
          hch hne ?_ rfl (by decide)
        · refine ⟨houtput, rfl, hstate, hd.flags, hd.rank, hd.width, ?_⟩
          show (if v.toInt < 0 then -1 else v.toInt) = precInt (if v.toInt < 0 then none else _)
          split
          · rfl
          · next hneg => exact toInt_of_nonneg hneg
        · simp only [Scan.step, hstate, hdigit, if_pos hstar, hargs, hva]
          rfl
      · rw [if_neg hstar] at hfeed
        apply Scan.Advances.pushBack .modifiers hch hne
        · simp only [Scan.step, hstate, hdigit, if_neg hstar]
        · exact Scan.modifiers_advance hch hne
            ⟨houtput, hargs, rfl, hd.flags, hd.rank, hd.width, hd.prec⟩ hfeed hlen

/-- `*` in the width: a negative argument is a `-` flag followed by its absolute value. -/
theorem Scan.widthStar_advance {v : BitVec 32} (hch : (format ++ [0])[s.p]? = some (byte '*'))
    (h : s.Renders b n (.width d) out args) (hva : vaInt args = some (v, rest))
    (hlt : v.toInt.natAbs < 2 ^ 31) :
    s.Advances b n strings format 2 (.width { d with
      flags := { d.flags with minus := d.flags.minus || decide (v.toInt < 0) }
      width := v.toInt.natAbs }) (out ++ []) rest := by
  obtain ⟨houtput, hargs, hstate, hd⟩ := h
  have hne : byte '*' ≠ 0 := by decide
  have hdigit : digitValue (byte '*') = none := by decide
  by_cases hneg : v.toInt < 0
  · have hwidth : int32 (-v.toInt) = v.toInt.natAbs := by
      rw [int32_of_nonneg (by omega) (by omega)]
      omega
    rw [decide_eq_true hneg, Bool.or_true, ← hd.flags]
    apply Scan.Renders.advance_silent { s with
      p := s.p + 1
      ap := rest
      width := int32 (-v.toInt)
      flags := { s.flags with minus := true } } hch hne ?_ rfl (by decide)
    · exact ⟨houtput, rfl, hstate, rfl, hd.rank, hwidth, hd.prec⟩
    · simp only [Scan.step, hstate, hdigit, if_true, hargs, hva, Option.bind_eq_bind,
        Option.bind_some, if_pos hneg]
      rfl
  · have hwidth : v.toInt = v.toInt.natAbs := by omega
    rw [decide_eq_false hneg, Bool.or_false]
    apply Scan.Renders.advance_silent { s with p := s.p + 1, ap := rest, width := v.toInt }
      hch hne ?_ rfl (by decide)
    · exact ⟨houtput, rfl, hstate, hd.flags, hd.rank, hwidth, hd.prec⟩
    · simp only [Scan.step, hstate, hdigit, if_true, hargs, hva, Option.bind_eq_bind,
        Option.bind_some, if_neg hneg]
      rfl

theorem Scan.width_advance (hch : (format ++ [0])[s.p]? = some ch) (hne : ch ≠ 0)
    (h : s.Renders b n (.width d) out args)
    (hfeed : feedWidth strings d ch args = some (mode, out', rest))
    (hlen : FitsBehind out out') :
    s.Advances b n strings format 2 mode (out ++ out') rest := by
  obtain ⟨houtput, hargs, hstate, hd⟩ := h
  unfold feedWidth at hfeed
  cases hdigit : digitValue ch with
  | some k =>
      rw [hdigit] at hfeed
      obtain ⟨w, hfits, heq⟩ := Option.bind_eq_some_iff.mp hfeed
      obtain ⟨rfl, hlt⟩ := fits_eq_some hfits
      cases heq
      have hwidth : int32 (s.width * 10 + k) = (d.width * 10 + k : Nat) := by
        rw [hd.width, int32_of_nonneg (by omega) (by omega)]
        omega
      apply Scan.Renders.advance_silent { s with p := s.p + 1, width := int32 (s.width * 10 + k) }
        hch hne ?_ rfl (by decide)
      · exact ⟨houtput, hargs, hstate, hd.flags, hd.rank, hwidth, hd.prec⟩
      · simp only [Scan.step, hstate, hdigit]
  | none =>
      rw [hdigit] at hfeed
      by_cases hstar : ch = byte '*'
      · rw [if_pos hstar] at hfeed
        obtain ⟨⟨v, ap⟩, hva, hfeed⟩ := Option.bind_eq_some_iff.mp hfeed
        obtain ⟨w, hfits, heq⟩ := Option.bind_eq_some_iff.mp hfeed
        obtain ⟨rfl, hlt⟩ := fits_eq_some hfits
        cases heq
        subst hstar
        exact Scan.widthStar_advance hch ⟨houtput, hargs, hstate, hd⟩ hva hlt
      · rw [if_neg hstar] at hfeed
        by_cases hdot : ch = byte '.'
        · rw [if_pos hdot] at hfeed
          cases hfeed
          apply Scan.Renders.advance_silent { s with p := s.p + 1, prec := 0, state := .prec }
            hch hne ?_ rfl (by decide)
          · exact ⟨houtput, hargs, rfl, hd.flags, hd.rank, hd.width, rfl⟩
          · simp only [Scan.step, hstate, hdigit, if_neg hstar, if_pos hdot]
        · rw [if_neg hdot] at hfeed
          apply Scan.Advances.pushBack .modifiers hch hne
          · simp only [Scan.step, hstate, hdigit, if_neg hstar, if_neg hdot]
          · exact Scan.modifiers_advance hch hne
              ⟨houtput, hargs, rfl, hd.flags, hd.rank, hd.width, hd.prec⟩ hfeed hlen

theorem Scan.flags_advance (hch : (format ++ [0])[s.p]? = some ch) (hne : ch ≠ 0)
    (h : s.Renders b n (.flags d) out args)
    (hfeed : feedFlags strings d ch args = some (mode, out', rest))
    (hlen : FitsBehind out out') :
    s.Advances b n strings format 3 mode (out ++ out') rest := by
  obtain ⟨houtput, hargs, hstate, hd⟩ := h
  unfold feedFlags at hfeed
  rw [← hd.flags] at hfeed
  cases hflag : setFlag ch s.flags with
  | some flags =>
      rw [hflag] at hfeed
      cases hfeed
      apply Scan.Renders.advance_silent { s with p := s.p + 1, flags } hch hne ?_ rfl (by decide)
      · exact ⟨houtput, hargs, hstate, rfl, hd.rank, hd.width, hd.prec⟩
      · simp only [Scan.step, hstate, hflag]
  | none =>
      rw [hflag] at hfeed
      apply Scan.Advances.pushBack .width hch hne
      · simp only [Scan.step, hstate, hflag]
      · exact Scan.width_advance hch hne
          ⟨houtput, hargs, rfl, hd.flags, hd.rank, hd.width, hd.prec⟩ hfeed hlen

/-- **Every character takes at most three rounds**, and does what the abstract scanner does. -/
theorem Scan.advance {mode' : Mode} (hch : (format ++ [0])[s.p]? = some ch) (hne : ch ≠ 0)
    (h : s.Renders b n mode out args)
    (hfeed : feed strings mode ch args = some (mode', out', rest))
    (hlen : FitsBehind out out') :
    s.Advances b n strings format 3 mode' (out ++ out') rest := by
  cases mode with
  | normal =>
      obtain ⟨houtput, hargs, hstate⟩ := h
      rw [feed] at hfeed
      by_cases hpercent : ch = byte '%'
      · rw [if_pos hpercent] at hfeed
        cases hfeed
        apply Scan.Renders.advance_silent { s with
          p := s.p + 1
          state := .flags
          flags := Flags.none
          rank := 0
          width := 0
          prec := -1 } hch hne ?_ rfl (by decide)
        · exact ⟨houtput, hargs, rfl, rfl, rfl, rfl, rfl⟩
        · simp only [Scan.step, show s.state = .normal from hstate, if_pos hpercent]
      · rw [if_neg hpercent] at hfeed
        cases hfeed
        have htotal := hlen.total
        rw [List.length_append, List.length_singleton] at htotal
        apply Scan.Advances.mono (Scan.Renders.advance ({ s with p := s.p + 1 }.emit n ch) hch hne
          ?_ rfl ?_) (by decide)
        · simp only [Scan.step, show s.state = .normal from hstate, if_neg hpercent]
        · exact ⟨houtput.emit ch (by omega), hargs, hstate⟩
  | flags d => exact Scan.flags_advance hch hne h hfeed hlen
  | width d => exact (Scan.width_advance hch hne h hfeed hlen).mono (by decide)
  | prec d => exact (Scan.prec_advance hch hne h hfeed hlen).mono (by decide)
  | modifiers d => exact (Scan.modifiers_advance hch hne h hfeed hlen).mono (by decide)

/-! ## The whole format -/

theorem Scan.loop_of_nul (hch : (format ++ [0])[s.p]? = some 0) (rounds : Nat) :
    s.loop n strings format (rounds + 1) = some { s with p := s.p + 1 } := by
  rw [Scan.loop, hch]
  rfl

theorem getElem?_of_drop {l : List UInt8} {p : Nat} {c : UInt8} {f : List UInt8}
    (h : l.drop p = c :: f) : l[p]? = some c ∧ l.drop (p + 1) = f := by
  have hget := @List.getElem?_drop _ l p 0
  rw [h, Nat.add_zero] at hget
  exact ⟨hget.symm, by rw [← List.drop_drop, h, List.drop_one, List.tail_cons]⟩

/-- No piece that the format prints is longer than an `int` can count. -/
def Short (strings : Strings) : Mode → List UInt8 → List Arg → Prop
  | _, [], _ => True
  | mode, ch :: format, args => ch ≠ 0 → ∀ mode' out rest,
      feed strings mode ch args = some (mode', out, rest) →
        out.length < 2 ^ 31 ∧ Short strings mode' format rest

/-- No piece is longer than the whole. -/
theorem short_of_render {f : List UInt8} :
    ∀ {mode mode' : Mode} {out : List UInt8} {args rest : List Arg},
      render strings mode f args = some (mode', out, rest) → out.length < 2 ^ 31 →
      Short strings mode f args := by
  induction f with
  | nil => exact fun _ _ => trivial
  | cons ch f ih =>
      intro mode mode' out args rest hrender hlen hne m o r hfeed
      rw [render, if_neg hne, hfeed, Option.bind_eq_bind, Option.bind_some] at hrender
      obtain ⟨⟨m', o', r'⟩, hrest, heq⟩ := Option.bind_eq_some_iff.mp hrender
      cases heq
      rw [List.length_append] at hlen
      exact ⟨by omega, ih hrest (by omega)⟩

/-- The run of the loop over what is left of the format. -/
theorem Scan.loop_renders (f : List UInt8) :
    ∀ {s : Scan} {mode mode' : Mode} {out out' : List UInt8} {args rest : List Arg} {rounds : Nat},
      s.Renders b n mode out args → (format ++ [0]).drop s.p = f ++ [0] →
      render strings mode f args = some (mode', out', rest) → Short strings mode f args →
      (out ++ out').length < 2 ^ 32 → 3 * f.length + 1 ≤ rounds →
      ∃ s', s.loop n strings format rounds = some s' ∧ s'.Renders b n mode' (out ++ out') rest := by
  induction f with
  | nil =>
      intro s mode mode' out out' args rest rounds h hdrop hrender _ _ hrounds
      cases hrender
      obtain ⟨rounds, rfl⟩ : ∃ r, rounds = r + 1 := ⟨rounds - 1, by omega⟩
      rw [List.append_nil]
      refine ⟨_, Scan.loop_of_nul (getElem?_of_drop hdrop).1 rounds, h.output, h.args, ?_⟩
      exact h.mode.congr rfl rfl rfl rfl rfl
  | cons ch f ih =>
      intro s mode mode' out out' args rest rounds h hdrop hrender hshort hlen hrounds
      obtain ⟨hch, hdrop'⟩ := getElem?_of_drop hdrop
      rw [List.length_cons] at hrounds
      rw [render] at hrender
      by_cases hnul : ch = 0
      · rw [if_pos hnul] at hrender
        cases hrender
        obtain ⟨rounds, rfl⟩ : ∃ r, rounds = r + 1 := ⟨rounds - 1, by omega⟩
        rw [List.append_nil]
        refine ⟨_, Scan.loop_of_nul (hnul ▸ hch) rounds, h.output, h.args, ?_⟩
        exact h.mode.congr rfl rfl rfl rfl rfl
      · rw [if_neg hnul] at hrender
        obtain ⟨⟨m, o, r⟩, hfeed, hrender⟩ := Option.bind_eq_some_iff.mp hrender
        obtain ⟨⟨m', o', r'⟩, hrest, heq⟩ := Option.bind_eq_some_iff.mp hrender
        cases heq
        rw [← List.append_assoc] at hlen ⊢
        obtain ⟨hpiece, hshort'⟩ := hshort hnul m o r hfeed
        obtain ⟨k, s', hk, hreach, hp, hrenders⟩ := Scan.advance hch hnul h hfeed
          ⟨by simp only [List.length_append] at hlen ⊢; omega, hpiece⟩
        rw [show rounds = rounds - k + k by omega, hreach]
        exact ih hrenders (by rw [hp]; exact hdrop') hrest hshort' hlen (by omega)

end Simulation

/-- What the buffer holds in the end. -/
structure Terminated (b : Int → UInt8) (n : Nat) (out : List UInt8) (buffer : Int → UInt8) : Prop where
  text : ∀ i (h : i < out.length), i < n - 1 → buffer i = out[i]
  nul : 0 < n → buffer (min out.length (n - 1) : Nat) = 0
  outside : ∀ x : Int, x < 0 ∨ n ≤ x → buffer x = b x

theorem Sink.Agrees.terminate {b : Int → UInt8} {n : Nat} {s : Sink} {out : List UInt8}
    (h : s.Agrees b 0 n out) : Terminated b n out (s.terminate n).buffer := by
  -- where the NUL goes: behind the text, or into the last byte
  have hnul : 0 < n → (s.terminate n).buffer =
      Function.update (written b 0 n out) (min out.length (n - 1) : Nat) 0 := by
    intro hn
    unfold Sink.terminate
    rw [h.count]
    by_cases hroom : out.length < n
    · rw [if_pos hroom, h.buffer, h.pointer hroom, Nat.min_eq_left (by omega), Int.zero_add]
    · rw [if_neg hroom, if_pos hn, h.buffer, Nat.min_eq_right (by omega), Int.natCast_sub hn]
      rfl
  have hempty : n = 0 → (s.terminate n).buffer = b := by
    rintro rfl
    unfold Sink.terminate
    rw [if_neg (Nat.not_lt_zero _), if_neg (Nat.lt_irrefl 0), h.buffer, written_zero]
  refine ⟨?_, ?_, ?_⟩
  · intro i hi hin
    rw [hnul (by omega), Function.update_of_ne (by omega)]
    have := written_apply b 0 n (show i < n by omega) hi
    rwa [Int.zero_add] at this
  · intro hn
    rw [hnul hn, Function.update_self]
  · intro x hx
    rcases Nat.eq_zero_or_pos n with hn | hn
    · rw [hempty hn]
    · rw [hnul hn, Function.update_of_ne (by omega)]
      rcases hx with hneg | hge
      · exact written_of_lt b 0 n out hneg
      · exact written_of_ge b 0 n out (by omega)

/-- **`vsnprintf` prints what the format renders to**, and leaves the arguments it leaves. It returns the
number of characters as an `int`. -/
theorem vsnprintf_renders_short {strings : Strings} {format out : List UInt8} {args rest : List Arg}
    {mode : Mode} (h : render strings .normal format args = some (mode, out, rest))
    (hshort : Short strings .normal format args) (hlen : out.length < 2 ^ 32) (n : Nat)
    (buffer : Int → UInt8) :
    ∃ s, vsnprintf strings buffer n format args = some (int32 out.length, s) ∧
      Terminated buffer n out s.sink.buffer ∧ s.ap = rest ∧ s.In mode := by
  have hstart : (Scan.start buffer args).Renders buffer n .normal [] args :=
    ⟨Sink.agrees_nil, rfl, rfl⟩
  obtain ⟨s, hrun, hrenders⟩ := Scan.loop_renders format hstart
    (show (format ++ [0]).drop 0 = format ++ [0] from rfl) h hshort hlen (Nat.le_refl _)
  refine ⟨{ s with sink := s.sink.terminate n }, ?_, hrenders.output.terminate, hrenders.args, ?_⟩
  · rw [vsnprintf, hrun, Option.bind_eq_bind, Option.bind_some, hrenders.output.count]
    rfl
  · exact hrenders.mode.congr rfl rfl rfl rfl rfl

/-- A short output is short in every piece, and its length is what is returned. -/
theorem vsnprintf_renders {strings : Strings} {format out : List UInt8} {args rest : List Arg}
    {mode : Mode} (h : render strings .normal format args = some (mode, out, rest))
    (hlen : out.length < 2 ^ 31) (n : Nat) (buffer : Int → UInt8) :
    ∃ s, vsnprintf strings buffer n format args = some ((out.length : Int), s) ∧
      Terminated buffer n out s.sink.buffer ∧ s.ap = rest ∧ s.In mode := by
  have hrenders := vsnprintf_renders_short h (short_of_render h hlen) (by omega) n buffer
  rwa [int32_of_nonneg (by omega) (by exact_mod_cast hlen)] at hrenders

end Neutrino.Stdio
