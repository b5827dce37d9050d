import Neutrino.Stdio.Refinement

/-!
# Formats compose

What a directive prints depends on the directive and its own arguments, and on nothing that was
printed before: formats can be put together, and so can be read apart again.
-/

namespace Neutrino.Stdio

open Neutrino.Lib

/-! ## Arguments that come later are not looked at -/

/-- Fetching leaves the arguments behind its own untouched. `attach x rest` is the result `x` together
with the arguments left. -/
def Framed {β ρ : Type} (attach : β → List Arg → ρ) (fetch : List Arg → Option ρ) : Prop :=
  ∀ args rest x more, fetch args = some (attach x rest) →
    fetch (args ++ more) = some (attach x (rest ++ more))

section Framed

variable {β γ ρ : Type} {attach : γ → List Arg → ρ} {fetch : List Arg → Option (β × List Arg)}

theorem framed_none : Framed attach fun _ => none := by
  intro args rest x more h
  cases h

theorem framed_some (hattach : ∀ {x y r r'}, attach x r = attach y r' → x = y ∧ r = r') (x : γ) :
    Framed attach fun args => some (attach x args) := by
  intro args rest y more h
  obtain ⟨rfl, rfl⟩ := hattach (Option.some.inj h)
  rfl

theorem Framed.bind (h : Framed Prod.mk fetch) (next : β → List Arg → Option ρ)
    (hnext : ∀ x, Framed attach (next x)) :
    Framed attach fun args => (fetch args).bind fun r => next r.1 r.2 := by
  intro args rest y more hrun
  obtain ⟨⟨x, r⟩, hfetch, hrest⟩ := Option.bind_eq_some_iff.mp hrun
  dsimp only
  rw [h _ _ _ more hfetch, Option.bind_some]
  exact hnext x _ _ _ more hrest

theorem Framed.map (h : Framed Prod.mk fetch) (f : β → γ) :
    Framed Prod.mk fun args => (fetch args).map fun (x, rest) => (f x, rest) := by
  intro args rest y more hrun
  obtain ⟨⟨x, r⟩, hfetch, heq⟩ := Option.map_eq_some_iff.mp hrun
  cases heq
  dsimp only
  rw [h _ _ _ more hfetch, Option.map_some]

theorem framed_pair (x : β) : Framed Prod.mk fun args => some (x, args) :=
  framed_some (fun h => Prod.mk.inj h) x

/-- A fetch that takes the first argument, if it is of the right type. -/
theorem framed_head (hnil : fetch [] = none)
    (hcons : ∀ arg, (∀ rest, fetch (arg :: rest) = none) ∨
      ∃ x, ∀ rest, fetch (arg :: rest) = some (x, rest)) : Framed Prod.mk fetch := by
  intro args rest x more h
  cases args with
  | nil =>
      rw [hnil] at h
      cases h
  | cons arg args =>
      rcases hcons arg with hnone | ⟨y, hsome⟩
      · rw [hnone] at h
        cases h
      · rw [hsome] at h
        cases h
        rw [List.cons_append, hsome]

end Framed

theorem framed_vaInt : Framed Prod.mk vaInt := by
  apply framed_head rfl
  intro arg
  cases arg with
  | int v => exact .inr ⟨v, fun _ => rfl⟩
  | _ => exact .inl fun _ => rfl

theorem framed_vaLong : Framed Prod.mk vaLong := by
  apply framed_head rfl
  intro arg
  cases arg with
  | long v => exact .inr ⟨v, fun _ => rfl⟩
  | _ => exact .inl fun _ => rfl

theorem framed_vaLonglong : Framed Prod.mk vaLonglong := by
  apply framed_head rfl
  intro arg
  cases arg with
  | longlong v => exact .inr ⟨v, fun _ => rfl⟩
  | _ => exact .inl fun _ => rfl

theorem framed_vaPtr : Framed Prod.mk vaPtr := by
  apply framed_head rfl
  intro arg
  cases arg with
  | ptr addr => exact .inr ⟨addr, fun _ => rfl⟩
  | _ => exact .inl fun _ => rfl

theorem framed_fetchSigned (rank : Rank) : Framed Prod.mk (fetchSigned rank) := by
  cases rank with
  | char => exact framed_vaInt.map fun v => ((v.setWidth 8).signExtend 32).toNat
  | short => exact framed_vaInt.map fun v => ((v.setWidth 16).signExtend 32).toNat
  | int => exact framed_vaInt.map fun v => v.toNat
  | long => exact framed_vaLong.map fun v => v.toNat
  | longlong => exact framed_vaLonglong.map fun v => (v.setWidth 32).toNat

theorem framed_fetchUnsigned (rank : Rank) : Framed Prod.mk (fetchUnsigned rank) := by
  cases rank with
  | char => exact framed_vaInt.map fun v => (v.setWidth 8).toNat
  | short => exact framed_vaInt.map fun v => (v.setWidth 16).toNat
  | int => exact framed_vaInt.map fun v => v.toNat
  | long => exact framed_vaLong.map fun v => v.toNat
  | longlong => exact framed_vaLonglong.map fun v => (v.setWidth 32).toNat

section Feed

variable (strings : Strings) (d : Directive) (ch : UInt8)

/-- The result of a character. -/
def fed (r : Mode × List UInt8) (rest : List Arg) : Mode × List UInt8 × List Arg := (r.1, r.2, rest)

theorem framed_fed (mode : Mode) (out : List UInt8) :
    Framed fed fun args => some (mode, out, args) := by
  have hfed : ∀ {x y : Mode × List UInt8} {r r' : List Arg}, fed x r = fed y r' → x = y ∧ r = r' := by
    rintro ⟨m, o⟩ ⟨m', o'⟩ r r' h
    cases h
    exact ⟨rfl, rfl⟩
  exact framed_some hfed (mode, out)

theorem framed_feedConversion : Framed Prod.mk (feedConversion strings d ch) := by
  unfold feedConversion
  cases conversion ch with
  | pointer upper =>
      exact framed_vaPtr.bind (fun addr rest => some (renderInt addr.toNat
        { d.flags with upper := d.flags.upper || upper, hash := true } 16 8 d.width, rest))
        fun _ => framed_pair _
  | signed =>
      exact (framed_fetchSigned _).bind (fun val rest => some (renderInt val
        { d.flags with signed := true } 10 (d.prec.getD 0) d.width, rest)) fun _ => framed_pair _
  | unsigned base upper =>
      exact (framed_fetchUnsigned _).bind (fun val rest => some (renderInt val
        { d.flags with upper := d.flags.upper || upper } base (d.prec.getD 0) d.width, rest))
        fun _ => framed_pair _
  | char =>
      exact framed_vaInt.bind (fun v rest =>
        some (renderString d [UInt8.ofBitVec (v.setWidth 8)], rest)) fun _ => framed_pair _
  | string =>
      apply framed_vaPtr.bind (fun addr rest =>
        (stringArg strings addr).bind fun str => some (renderString d str, rest))
      intro addr
      cases stringArg strings addr with
      | none => exact framed_none
      | some str => exact framed_pair (renderString d str)
  | count => exact framed_none
  | other => exact framed_pair [ch]

theorem framed_feedModifiers : Framed fed (feedModifiers strings d ch) := by
  unfold feedModifiers
  cases setRank ch d.rank with
  | some rank => exact framed_fed _ _
  | none =>
      exact (framed_feedConversion strings d ch).bind (fun out rest =>
        some (Mode.normal, out, rest)) fun out => framed_fed .normal out

theorem framed_feedPrec : Framed fed (feedPrec strings d ch) := by
  unfold feedPrec
  cases digitValue ch with
  | some k =>
      cases d.prec with
      | none => exact framed_none
      | some prec =>
          dsimp only [Option.bind_eq_bind, Option.bind_some]
          cases fits (prec * 10 + k) with
          | none => exact framed_none
          | some p => exact framed_fed (.prec { d with prec := some p }) []
  | none =>
      by_cases hstar : ch = byte '*'
      · simp only [if_pos hstar]
        exact framed_vaInt.bind (fun v rest => some (Mode.prec { d with
          prec := if v.toInt < 0 then none else some v.toNat }, [], rest)) fun _ => framed_fed _ _
      · simp only [if_neg hstar]
        exact framed_feedModifiers strings d ch

theorem framed_feedWidth : Framed fed (feedWidth strings d ch) := by
  unfold feedWidth
  cases digitValue ch with
  | some k =>
      dsimp only
      cases fits (d.width * 10 + k) with
      | none => exact framed_none
      | some w => exact framed_fed (.width { d with width := w }) []
  | none =>
      by_cases hstar : ch = byte '*'
      · simp only [if_pos hstar]
        apply framed_vaInt.bind (fun v rest => (fits v.toInt.natAbs).bind fun width =>
          some (Mode.width { d with
            width
            flags := { d.flags with minus := d.flags.minus || decide (v.toInt < 0) } }, [], rest))
        intro v
        cases fits v.toInt.natAbs with
        | none => exact framed_none
        | some w => exact framed_fed _ []
      · simp only [if_neg hstar]
        by_cases hdot : ch = byte '.'
        · simp only [if_pos hdot]
          exact framed_fed (.prec { d with prec := some 0 }) []
        · simp only [if_neg hdot]
          exact framed_feedModifiers strings d ch

theorem framed_feedFlags : Framed fed (feedFlags strings d ch) := by
  unfold feedFlags
  cases setFlag ch d.flags with
  | some flags => exact framed_fed _ _
  | none => exact framed_feedWidth strings d ch

theorem framed_feed (mode : Mode) : Framed fed fun args => feed strings mode ch args := by
  cases mode with
  | normal =>
      by_cases hpercent : ch = byte '%'
      · simp only [feed, if_pos hpercent]
        exact framed_fed _ _
      · simp only [feed, if_neg hpercent]
        exact framed_fed _ _
  | flags d => exact framed_feedFlags strings d ch
  | width d => exact framed_feedWidth strings d ch
  | prec d => exact framed_feedPrec strings d ch
  | modifiers d => exact framed_feedModifiers strings d ch

end Feed

/-! ## Reading on -/

/-- Arguments behind those of the format are left over. -/
theorem render_more {strings : Strings} {f out : List UInt8} {args rest : List Arg}
    {mode mode' : Mode} (more : List Arg)
    (h : render strings mode f args = some (mode', out, rest)) :
    render strings mode f (args ++ more) = some (mode', out, rest ++ more) := by
  induction f generalizing mode args out with
  | nil =>
      cases h
      rfl
  | cons ch f ih =>
      rw [render] at h ⊢
      split at h
      · next hnul =>
        rw [if_pos hnul]
        cases h
        rfl
      · next hnul =>
        rw [if_neg hnul]
        obtain ⟨⟨m, o, r⟩, hfeed, h⟩ := Option.bind_eq_some_iff.mp h
        obtain ⟨⟨m', o', r'⟩, hrest, heq⟩ := Option.bind_eq_some_iff.mp h
        cases heq
        have hfeed' := framed_feed strings ch mode args r (m, o) more hfeed
        rw [Option.bind_eq_bind, Option.bind_eq_some_iff]
        refine ⟨_, hfeed', ?_⟩
        rw [Option.bind_eq_some_iff]
        exact ⟨_, ih hrest, rfl⟩

/-- **A format that is read on** prints what its parts print, from where the first part stopped. -/
theorem render_append {strings : Strings} {f g x y : List UInt8} {args rest rest' : List Arg}
    {mode mode' mode'' : Mode} (hnul : (0 : UInt8) ∉ f)
    (hf : render strings mode f args = some (mode', x, rest))
    (hg : render strings mode' g rest = some (mode'', y, rest')) :
    render strings mode (f ++ g) args = some (mode'', x ++ y, rest') := by
  induction f generalizing mode args x with
  | nil =>
      cases hf
      exact hg
  | cons ch f ih =>
      have hne : ch ≠ 0 := fun h => hnul (h ▸ List.mem_cons_self)
      rw [List.cons_append, render, if_neg hne] at *
      obtain ⟨⟨m, o, r⟩, hfeed, hf⟩ := Option.bind_eq_some_iff.mp hf
      obtain ⟨⟨m', o', r'⟩, hrest, heq⟩ := Option.bind_eq_some_iff.mp hf
      cases heq
      rw [Option.bind_eq_bind, Option.bind_eq_some_iff]
      refine ⟨_, hfeed, ?_⟩
      rw [Option.bind_eq_some_iff, List.append_assoc]
      exact ⟨_, ih (fun h => hnul (List.mem_cons_of_mem _ h)) hrest, rfl⟩

/-- Arguments that come later change no piece. -/
theorem Short.more {strings : Strings} {f : List UInt8} (more : List Arg) :
    ∀ {mode mode' : Mode} {out : List UInt8} {args rest : List Arg}, Short strings mode f args →
      render strings mode f args = some (mode', out, rest) → Short strings mode f (args ++ more) := by
  induction f with
  | nil => exact fun _ _ => trivial
  | cons ch f ih =>
      intro mode mode' out args rest hshort hrender hne m o r hfeed
      rw [render, if_neg hne] at hrender
      obtain ⟨⟨m', o', r'⟩, hfeed', hrender⟩ := Option.bind_eq_some_iff.mp hrender
      obtain ⟨⟨m'', o'', r''⟩, hrest, -⟩ := Option.bind_eq_some_iff.mp hrender
      have hsame : feed strings mode ch (args ++ more) = some (m', o', r' ++ more) :=
        framed_feed strings ch mode args r' (m', o') more hfeed'
      obtain ⟨hpiece, hshort'⟩ := hshort hne m' o' r' hfeed'
      rw [hsame] at hfeed
      cases hfeed
      exact ⟨hpiece, ih hshort' hrest⟩

/-- **The pieces of a format that is read on** are those of its parts. -/
theorem Short.append {strings : Strings} {f g : List UInt8} (hnul : (0 : UInt8) ∉ f) :
    ∀ {mode mode' : Mode} {x : List UInt8} {args rest : List Arg}, Short strings mode f args →
      render strings mode f args = some (mode', x, rest) → Short strings mode' g rest →
      Short strings mode (f ++ g) args := by
  induction f with
  | nil =>
      intro mode mode' x args rest _ hrender hg
      cases hrender
      exact hg
  | cons ch f ih =>
      intro mode mode' x args rest hf hrender hg hne m o r hfeed
      rw [render, if_neg hne, hfeed, Option.bind_eq_bind, Option.bind_some] at hrender
      obtain ⟨⟨m'', o'', r''⟩, hrest, heq⟩ := Option.bind_eq_some_iff.mp hrender
      cases heq
      obtain ⟨hpiece, hf'⟩ := hf hne m o r hfeed
      exact ⟨hpiece, ih (fun h => hnul (List.mem_cons_of_mem _ h)) hf' hrest hg⟩

/-! ## What directives print -/

def Mode.state : Mode → ScanState
  | .normal => .normal
  | .flags _ => .flags
  | .width _ => .width
  | .prec _ => .prec
  | .modifiers _ => .modifiers

/-- In every buffer that is large enough, `format` prints `out`, if a `size_t` can count it, takes the
arguments `args` in order and none of those behind them, and leaves the scanner in `state`. What is
returned is the length of `out` as an `int`. -/
def Prints (strings : Strings) (format : List UInt8) (args : List Arg) (out : List UInt8)
    (state : ScanState) : Prop :=
  ∀ (n : Nat) (buffer : Int → UInt8) (more : List Arg), out.length < n → out.length < 2 ^ 32 →
    ∃ s, vsnprintf strings buffer n format (args ++ more) = some (int32 out.length, s) ∧
      (∀ i (hi : i < out.length), s.sink.buffer i = out[i]) ∧
      s.sink.buffer (out.length : Nat) = 0 ∧ s.ap = more ∧ s.state = state

theorem Scan.In.state {s : Scan} {mode : Mode} (h : s.In mode) : s.state = mode.state := by
  cases mode with
  | normal => exact h
  | flags d => exact h.1
  | width d => exact h.1
  | prec d => exact h.1
  | modifiers d => exact h.1

theorem prints_of_render {strings : Strings} {format out : List UInt8} {args : List Arg}
    {mode : Mode} (h : render strings .normal format args = some (mode, out, []))
    (hshort : Short strings .normal format args) : Prints strings format args out mode.state := by
  intro n buffer more hroom hlen
  obtain ⟨s, hrun, hbuffer, hap, hin⟩ :=
    vsnprintf_renders_short (render_more more h) (hshort.more more h) hlen n buffer
  refine ⟨s, hrun, ?_, ?_, hap, hin.state⟩
  · intro i hi
    exact hbuffer.text i hi (by omega)
  · have hnul := hbuffer.nul (by omega)
    rwa [Nat.min_eq_left (by omega)] at hnul

/-- The scanner is reading the directive `d`. -/
def Mode.Reads : Mode → Directive → Prop
  | .normal, _ => False
  | .flags d, d' => d = d'
  | .width d, d' => d = d'
  | .prec d, d' => d = d'
  | .modifiers d, d' => d = d'

/-- The character is no part of a directive that is read: it is its conversion. -/
def Mode.Converts (mode : Mode) (ch : UInt8) : Prop :=
  match mode with
  | .normal => False
  | .flags d => setFlag ch d.flags = none ∧ digitValue ch = none ∧ ch ≠ byte '*' ∧ ch ≠ byte '.' ∧
      setRank ch d.rank = none
  | .width d => digitValue ch = none ∧ ch ≠ byte '*' ∧ ch ≠ byte '.' ∧ setRank ch d.rank = none
  | .prec d => digitValue ch = none ∧ ch ≠ byte '*' ∧ setRank ch d.rank = none
  | .modifiers d => setRank ch d.rank = none

theorem feed_of_converts {strings : Strings} {mode : Mode} {d : Directive} {ch : UInt8}
    {args rest : List Arg} {out : List UInt8} (hreads : mode.Reads d) (hconv : mode.Converts ch)
    (h : feedConversion strings d ch args = some (out, rest)) :
    feed strings mode ch args = some (.normal, out, rest) := by
  have hmod : setRank ch d.rank = none → feedModifiers strings d ch args =
      some (.normal, out, rest) := by
    intro hrank
    rw [feedModifiers, hrank]
    exact Option.bind_eq_some_iff.mpr ⟨_, h, rfl⟩
  cases mode with
  | normal => exact hreads.elim
  | flags d' =>
      cases hreads
      obtain ⟨hflag, hdigit, hstar, hdot, hrank⟩ := hconv
      simp only [feed, feedFlags, hflag, feedWidth, hdigit, if_neg hstar, if_neg hdot, hmod hrank]
  | width d' =>
      cases hreads
      obtain ⟨hdigit, hstar, hdot, hrank⟩ := hconv
      simp only [feed, feedWidth, hdigit, if_neg hstar, if_neg hdot, hmod hrank]
  | prec d' =>
      cases hreads
      obtain ⟨hdigit, hstar, hrank⟩ := hconv
      simp only [feed, feedPrec, hdigit, if_neg hstar, hmod hrank]
  | modifiers d' =>
      cases hreads
      exact hmod hconv

/-- What the conversion `ch` at the end of the directive `d` makes of its arguments. -/
inductive Yields (strings : Strings) (d : Directive) : UInt8 → List Arg → List UInt8 → Prop where
  | string {addr : UInt32} {str : List UInt8} (h : stringArg strings addr = some str) :
      Yields strings d (byte 's') [.ptr addr] (renderString d str)
  | char (v : BitVec 32) :
      Yields strings d (byte 'c') [.int v] (renderString d [UInt8.ofBitVec (v.setWidth 8)])
  | signed {ch : UInt8} {arg : Arg} {val : Nat} (hch : ch = byte 'd' ∨ ch = byte 'i')
      (h : fetchSigned (canonicalRank d.rank) [arg] = some (val, [])) :
      Yields strings d ch [arg]
        (renderInt val { d.flags with signed := true } 10 (d.prec.getD 0) d.width)
  | unsigned {ch : UInt8} {arg : Arg} {val base : Nat} {upper : Bool}
      (hch : conversion ch = .unsigned base upper)
      (h : fetchUnsigned (canonicalRank d.rank) [arg] = some (val, [])) :
      Yields strings d ch [arg] (renderInt val { d.flags with upper := d.flags.upper || upper } base
        (d.prec.getD 0) d.width)
  | pointer {ch : UInt8} {upper : Bool} (addr : UInt32) (hch : conversion ch = .pointer upper) :
      Yields strings d ch [.ptr addr] (renderInt addr.toNat
        { d.flags with upper := d.flags.upper || upper, hash := true } 16 8 d.width)
  | other {ch : UInt8} (hch : conversion ch = .other) : Yields strings d ch [] [ch]

theorem Yields.feed {strings : Strings} {d : Directive} {ch : UInt8} {args : List Arg}
    {out : List UInt8} (h : Yields strings d ch args out) :
    feedConversion strings d ch args = some (out, []) := by
  cases h with
  | string h =>
      simp only [feedConversion, show conversion (byte 's') = .string from rfl, vaPtr]
      exact Option.bind_eq_some_iff.mpr ⟨_, rfl, Option.bind_eq_some_iff.mpr ⟨_, h, rfl⟩⟩
  | char v =>
      simp only [feedConversion, show conversion (byte 'c') = .char from rfl, vaInt]
      rfl
  | signed hch h =>
      have hconv : conversion ch = .signed := by rcases hch with rfl | rfl <;> rfl
      simp only [feedConversion, hconv, h]
      rfl
  | unsigned hch h =>
      simp only [feedConversion, hch, h]
      rfl
  | pointer addr hch =>
      simp only [feedConversion, hch, vaPtr]
      rfl
  | other hch => simp only [feedConversion, hch]

/-! ## The laws of the format language -/

/-- `vsnprintf` is compositional: formats can be put together, and what a piece prints is known. What
one directive prints is to be short enough for an `int`; how much is printed in all is not limited. -/
structure Compositional (strings : Strings) : Prop where
  append : ∀ {f g x y : List UInt8} {a b : List Arg} {mode : Mode}, (0 : UInt8) ∉ f →
    render strings .normal f a = some (.normal, x, []) → Short strings .normal f a →
    render strings .normal g b = some (mode, y, []) → Short strings .normal g b →
    Prints strings f a x .normal ∧ Prints strings g b y mode.state ∧
      Prints strings (f ++ g) (a ++ b) (x ++ y) mode.state
  literal : ∀ c : UInt8, c ≠ 0 → c ≠ byte '%' → Prints strings [c] [] [c] .normal
  directive : ∀ {body out : List UInt8} {a b : List Arg} {mode : Mode} {d : Directive} {ch : UInt8},
    (0 : UInt8) ∉ body → ch ≠ 0 →
    render strings .normal (byte '%' :: body) a = some (mode, [], []) → mode.Reads d →
    mode.Converts ch → Yields strings d ch b out → out.length < 2 ^ 31 →
    Prints strings (byte '%' :: body ++ [ch]) (a ++ b) out .normal

/-- **The laws hold of `vsnprintf`.** -/
theorem vsnprintf_compositional (strings : Strings) : Compositional strings where
  append := by
    intro f g x y a b mode hnul hf hshort hg hshort'
    refine ⟨prints_of_render hf hshort, prints_of_render hg hshort', ?_⟩
    exact prints_of_render (render_append hnul (render_more b hf) hg)
      ((hshort.more b hf).append hnul (render_more b hf) hshort')
  literal := by
    intro c hc hpercent
    have hrender : render strings .normal [c] [] = some (Mode.normal, [c], []) := by
      simp only [render, if_neg hc, feed, if_neg hpercent]
      rfl
    exact prints_of_render hrender
      (short_of_render hrender (by rw [List.length_singleton]; decide))
  directive := by
    intro body out a b mode d ch hbody hch hrender hreads hconv hyields hlen
    have hfeed := feed_of_converts hreads hconv hyields.feed
    have hlast : render strings mode [ch] b = some (.normal, out, []) := by
      rw [render, if_neg hch, hfeed]
      exact congrArg some (by rw [List.append_nil])
    have hnul : (0 : UInt8) ∉ byte '%' :: body := by
      rw [List.mem_cons, not_or]
      exact ⟨by decide, hbody⟩
    have hall := render_append hnul (render_more b hrender) hlast
    exact prints_of_render hall (short_of_render hall hlen)

/-- `"%d"` on 42, followed by `"%s"` on a null pointer. -/
theorem number_then_null_prints :
    Prints (fun _ => none) (['%', 'd'].map byte ++ ['%', 's'].map byte) ([.int 42] ++ [.ptr 0])
      (['4', '2'].map byte ++ nullText) .normal := by
  have hnul : 0 ∉ ['%', 'd'].map byte := by decide
  have hnumber : render (fun _ => none) .normal (['%', 'd'].map byte) [.int 42] =
      some (.normal, ['4', '2'].map byte, []) := by decide
  have hnull : render (fun _ => none) .normal (['%', 's'].map byte) [.ptr 0] =
      some (.normal, nullText, []) := by decide
  exact ((vsnprintf_compositional (fun _ => none)).append hnul hnumber
    (short_of_render hnumber (by decide)) hnull (short_of_render hnull (by decide))).2.2

/-! ### A precision that no `int` can hold -/

def abc : CString := ⟨['a', 'b', 'c'].map byte, by simp [byte], by decide⟩

/-- `"%.4294967296s"` -/
def hugePrecision : List UInt8 :=
  ['%', '.', '4', '2', '9', '4', '9', '6', '7', '2', '9', '6', 's'].map byte

/-- `"abc"` cut to 2 ^ 32 characters is `"abc"`, but the precision wraps to zero. -/
theorem hugePrecision_prints_nothing :
    (∃ s, vsnprintf (fun _ => some abc) (fun _ => 0xFF) 8 hugePrecision [.ptr 1] = some (0, s) ∧
      s.sink.buffer 0 = 0) ∧ cutTo (some (2 ^ 32)) abc.bytes = abc.bytes := by
  have hrun : (vsnprintf (fun _ => some abc) (fun _ => 0xFF) 8 hugePrecision [.ptr 1]).map
      (fun r => (r.1, r.2.sink.buffer 0)) = some (0, 0) := by
    decide +kernel
  obtain ⟨⟨ret, s⟩, hs, heq⟩ := Option.map_eq_some_iff.mp hrun
  obtain ⟨rfl, hbuffer⟩ := Prod.mk.inj heq
  exact ⟨⟨s, hs, hbuffer⟩, by decide⟩

end Neutrino.Stdio
