import Neutrino.System.Irq
import Neutrino.System.Terminal

/-!
# Messages

The kernel prints as it works. Here its state has a console, and kernel code may print between what it does
(`SessionM`). `Tells` is the rule for such code: from a kernel state it leads to another one and shows a
text, whatever was on the screen before, and texts add up (`Tells.bind`).

A message is put together of pieces (`Piece`), texts and directives, which each know what they print.
-/

namespace Neutrino.System

open Neutrino.Lib Neutrino.Drivers Neutrino.Stdio

/-! ## Pieces of a format -/

structure Piece (strings : Strings) where
  format : List UInt8
  args : List Arg
  out : List UInt8
  nul : (0 : UInt8) ∉ format
  renders : render strings .normal format args = some (.normal, out, [])
  short : out.length ≤ 64

namespace Piece

variable {strings : Strings}

/-- A text without directives. -/
def text (s : String) (hplain : ∀ c ∈ literal s, c ≠ 0 ∧ c ≠ byte '%') (hshort : (literal s).length ≤ 64) :
    Piece strings where
  format := literal s
  args := []
  out := literal s
  nul := fun h => (hplain 0 h).1 rfl
  renders := render_literal hplain []
  short := hshort

/-- The flags of `%d` and `%i`. -/
def signedFlags : Flags := { Flags.none with signed := true }

/-- The flags of `%p`. -/
def pointerFlags : Flags := { Flags.none with hash := true }

/-- The flags of `%08x`. -/
def zeroFlags : Flags := { Flags.none with zero := true }

/-- `%d` or `%i`. -/
def signed (c : Char) (v : UInt32) (hc : c = 'd' ∨ c = 'i') : Piece strings where
  format := ['%', c].map byte
  args := [.int v.toBitVec]
  out := renderInt v.toNat signedFlags 10 0 0
  nul := by rcases hc with rfl | rfl <;> decide
  renders := by
    rcases hc with rfl | rfl
    · exact render_directive [byte '%'] Directive.fresh (by decide) (by decide) rfl rfl
        ⟨rfl, rfl, by decide, by decide, rfl⟩ (.signed (.inl rfl) rfl)
    · exact render_directive [byte '%'] Directive.fresh (by decide) (by decide) rfl rfl
        ⟨rfl, rfl, by decide, by decide, rfl⟩ (.signed (.inr rfl) rfl)
  short := Nat.le_trans (length_renderInt_le v.toNat_lt (by decide) rfl) (by decide)

/-- `%u` -/
def unsigned (v : UInt32) : Piece strings where
  format := ['%', 'u'].map byte
  args := [.int v.toBitVec]
  out := renderInt v.toNat Flags.none 10 0 0
  nul := by decide
  renders := render_unsigned v
  short := Nat.le_trans (length_renderInt_le v.toNat_lt (by decide) rfl) (by decide)

/-- `%p` -/
def pointer (addr : UInt32) : Piece strings where
  format := ['%', 'p'].map byte
  args := [.ptr addr]
  out := renderInt addr.toNat pointerFlags 16 8 0
  nul := by decide
  renders := render_directive [byte '%'] Directive.fresh (by decide) (by decide) rfl rfl
    ⟨rfl, rfl, by decide, by decide, rfl⟩ (@Yields.pointer _ _ (byte 'p') false addr rfl)
  short := Nat.le_trans (length_renderInt_le addr.toNat_lt (by decide) rfl) (by decide)

/-- `%x` -/
def hex (v : UInt32) : Piece strings where
  format := ['%', 'x'].map byte
  args := [.int v.toBitVec]
  out := renderInt v.toNat Flags.none 16 0 0
  nul := by decide
  renders := render_directive [byte '%'] Directive.fresh (by decide) (by decide) rfl rfl
    ⟨rfl, rfl, by decide, by decide, rfl⟩ (.unsigned rfl rfl)
  short := Nat.le_trans (length_renderInt_le v.toNat_lt (by decide) rfl) (by decide)

/-- `%08x` -/
def fullHex (v : UInt32) : Piece strings where
  format := ['%', '0', '8', 'x'].map byte
  args := [.int v.toBitVec]
  out := renderInt v.toNat zeroFlags 16 0 8
  nul := by decide
  renders := render_directive (['%', '0', '8'].map byte) ⟨zeroFlags, 0, 8, none⟩ (by decide) (by decide)
    rfl rfl ⟨rfl, by decide, by decide, rfl⟩ (.unsigned rfl rfl)
  short := Nat.le_trans (length_renderInt_le v.toNat_lt (by decide) rfl) (by decide)

/-- `%s`, of a short string. -/
def string {addr : UInt32} {str : CString} (hstr : strings addr = some str) (hnull : addr ≠ 0)
    (hshort : str.bytes.length ≤ 64) : Piece strings where
  format := ['%', 's'].map byte
  args := [.ptr addr]
  out := str.bytes
  nul := by decide
  renders := by
    have harg : stringArg strings addr = some str.bytes := by
      unfold stringArg
      rw [if_neg hnull, hstr]
      rfl
    have hout : renderString Directive.fresh str.bytes = str.bytes := by
      unfold renderString
      simp [cutTo, Directive.fresh, padding]
    have hrender := @render_directive strings [byte '%'] Directive.fresh _ _ _ (byte 's') (by decide)
      (by decide) rfl rfl ⟨rfl, rfl, by decide, by decide, rfl⟩ (.string harg)
    rwa [hout] at hrender
  short := hshort

end Piece

/-- **A format of pieces** prints what they print. -/
theorem render_pieces {strings : Strings} (ps : List (Piece strings)) :
    render strings .normal (ps.flatMap Piece.format) (ps.flatMap Piece.args) =
      some (.normal, ps.flatMap Piece.out, []) := by
  induction ps with
  | nil => rfl
  | cons p ps ih => exact render_append p.nul (render_more _ p.renders) ih

theorem length_pieces {strings : Strings} (ps : List (Piece strings)) :
    (ps.flatMap Piece.out).length ≤ 64 * ps.length := by
  induction ps with
  | nil => exact Nat.zero_le _
  | cons p ps ih =>
      have hp := p.short
      rw [List.flatMap_cons, List.length_append, List.length_cons]
      omega

/-! ## Kernel code that prints -/

/-- How colours are blended, the strings in memory, and what is in the buffer of `printf` when it is called
for the `n`th time. -/
structure Output where
  lerp : UInt8 → UInt8 → UInt32 → UInt8
  exact : ExactLerp lerp
  strings : Strings
  stack : Nat → Int → UInt8

/-- `calls` counts the calls of `printf`. -/
structure Session where
  kernel : Kernel
  con : Console
  calls : Nat

abbrev SessionM := StateT Session Option

/-- Code that prints nothing. -/
def silent {α : Type} (x : KernelM α) : SessionM α := fun s => do
  let (r, kernel) ← x s.kernel
  return (r, { s with kernel })

/-- A call of `printf`. -/
def say (m : VideoMode) (o : Output) (format : String) (args : List Arg) : SessionM Unit := fun s => do
  let (_, con) ← printf m o.lerp o.strings (o.stack s.calls) (literal format) args s.con
  return ((), ⟨s.kernel, con, s.calls + 1⟩)

/-! ## What it shows -/

/-- From `k` the code leads to `k'`, and shows `text`. -/
def Tells {α : Type} (m : VideoMode) (k : Kernel) (x : SessionM α) (r : α) (k' : Kernel)
    (text : List Int8) : Prop :=
  ∀ (s : Session) (before : List Int8), s.kernel = k → Displays m s.con before →
    ∃ s', x s = some (r, s') ∧ s'.kernel = k' ∧ Displays m s'.con (before ++ text)

section Rules

variable {α β : Type} {m : VideoMode} {o : Output} {k k₁ k₂ : Kernel}

theorem Tells.pure (r : α) : Tells m k (pure r) r k [] := by
  intro s before hk hs
  exact ⟨s, rfl, hk, by rwa [List.append_nil]⟩

/-- **One after the other.** -/
theorem Tells.bind {x : SessionM α} {f : α → SessionM β} {r : α} {r' : β} {text text' : List Int8}
    (hx : Tells m k x r k₁ text) (hf : Tells m k₁ (f r) r' k₂ text') :
    Tells m k (x >>= f) r' k₂ (text ++ text') := by
  intro s before hk hs
  obtain ⟨s₁, hrun₁, hk₁, hs₁⟩ := hx s before hk hs
  obtain ⟨s₂, hrun₂, hk₂, hs₂⟩ := hf s₁ _ hk₁ hs₁
  refine ⟨s₂, Option.bind_eq_some_iff.mpr ⟨_, hrun₁, hrun₂⟩, hk₂, ?_⟩
  rwa [← List.append_assoc]

theorem Tells.silent {x : KernelM α} {r : α} (h : x k = some (r, k₁)) :
    Tells m k (System.silent x) r k₁ [] := by
  intro s before hk hs
  refine ⟨{ s with kernel := k₁ }, ?_, rfl, by rwa [List.append_nil]⟩
  unfold System.silent
  rw [hk, h]
  rfl

/-- The text is that of the second step if the first prints nothing. -/
theorem Tells.quiet {x : SessionM α} {f : α → SessionM β} {r : α} {r' : β} {text : List Int8}
    (hx : Tells m k x r k₁ []) (hf : Tells m k₁ (f r) r' k₂ text) : Tells m k (x >>= f) r' k₂ text :=
  hx.bind hf

/-- Code that prints nothing, and what comes then. -/
theorem Tells.after {x : KernelM α} {f : α → SessionM β} {r : α} {r' : β} {text : List Int8}
    (hx : x k = some (r, k₁)) (hf : Tells m k₁ (f r) r' k₂ text) :
    Tells m k (System.silent x >>= f) r' k₂ text :=
  (Tells.silent hx).quiet hf

/-- And then a value is returned. -/
theorem Tells.returns {x : SessionM Unit} {text : List Int8} (hx : Tells m k x () k₁ text) (r : α) :
    Tells m k (do
      x
      return r) r k₁ text := by
  have hboth := hx.bind (f := fun _ => Pure.pure r) (Tells.pure r)
  rwa [List.append_nil] at hboth

/-- **A message.** What is left of the arguments is not looked at. -/
theorem Tells.say (ps : List (Piece o.strings)) (more : List Arg) {format : String} {args : List Arg}
    (hformat : literal format = ps.flatMap Piece.format) (hargs : args = ps.flatMap Piece.args ++ more)
    (hshort : ps.length < 2 ^ 24) :
    Tells m k (System.say m o format args) () k (printed (ps.flatMap Piece.out)) := by
  intro s before hk hs
  have hrender := render_more more (render_pieces ps)
  rw [← hformat, ← hargs] at hrender
  have hlen : (ps.flatMap Piece.out).length < 2 ^ 31 := by
    have hpieces := length_pieces ps
    omega
  refine ⟨⟨s.kernel, _, s.calls + 1⟩, ?_, hk, hs.puts o.exact _⟩
  unfold System.say
  rw [printf_eq hrender hlen]
  rfl

/-- A message without directives. -/
theorem Tells.plain {format : String} (hplain : ∀ c ∈ literal format, c ≠ 0 ∧ c ≠ byte '%')
    (hshort : (literal format).length ≤ 64) :
    Tells m k (System.say m o format []) () k (printed (literal format)) := by
  have hformat : literal format = literal format ++ [] := (List.append_nil _).symm
  have hsay := @Tells.say m o k [Piece.text format hplain hshort] [] format [] hformat rfl (by simp)
  rwa [show [Piece.text format hplain hshort].flatMap Piece.out = literal format from
    List.append_nil _] at hsay

end Rules

end Neutrino.System
