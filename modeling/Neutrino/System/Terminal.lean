import Mathlib.Data.List.GetD
import Mathlib.Data.List.TakeWhile
import Neutrino.Drivers.Keyboard
import Neutrino.Stdio.Compositional
import Neutrino.Stdio.IntegerFormat
import Neutrino.Stdio.Printf

/-!
# The terminal

`vga_init` takes the video mode from the block that the boot loader got from the BIOS, clears the
framebuffer and greets. From then on calls of `printf`, keys and exceptions share the screen. Handlers run
with interrupts off, so it is an event at a time, and what is seen is one text: the greeting and what each
event shows (`terminal_session`).
-/

namespace Neutrino.System

open Neutrino.Lib Neutrino.Drivers Neutrino.Stdio

/-! ## The code -/

/-- What is read of `mode_info_block`. -/
structure ModeInfoBlock where
  resolutionX : UInt16
  resolutionY : UInt16
  bpp : UInt8
  framebuffer : UInt32

namespace ModeInfoBlock

/-- `__vesaWidth`, `__vesaHeight` and `__vesaBPP` -/
def mode (b : ModeInfoBlock) : Drivers.Mode :=
  ⟨b.resolutionX.toUInt32, b.resolutionY.toUInt32, (b.bpp / 8).toUInt32⟩

/-- A mode the console can work in. -/
structure Usable (b : ModeInfoBlock) : Prop where
  width : 8 ≤ b.mode.width.toNat
  height : 9 ≤ b.mode.height.toNat
  bpp : b.mode.bpp = 3 ∨ b.mode.bpp = 4
  size : b.mode.size < 2 ^ 31

def Usable.videoMode {b : ModeInfoBlock} (h : b.Usable) : VideoMode where
  toMode := b.mode
  width_pos := Nat.lt_of_lt_of_le (by decide) h.width
  height_ge := h.height
  bpp_eq := h.bpp
  size_lt := h.size

end ModeInfoBlock

/-- The bytes of a string literal. -/
def literal (s : String) : List UInt8 := s.toList.map byte

/-- `"Initialized VESA with Width: %u, Height: %u, BPP: %u, Framebuffer: 0x%08X\n"` -/
def greetingFormat : List UInt8 :=
  literal "Initialized VESA with Width: " ++ (['%', 'u'].map byte ++
    (literal ", Height: " ++ (['%', 'u'].map byte ++
      (literal ", BPP: " ++ (['%', 'u'].map byte ++
        (literal ", Framebuffer: 0x" ++ (['%', '0', '8', 'X'].map byte ++ literal "\n")))))))

theorem clear_fits (m : VideoMode) : m.scrollEnd.toNat + (1 : UInt32).toNat ≤ 2 ^ 32 := by
  have hsize := m.size_lt
  have h1 : (1 : UInt32).toNat = 1 := rfl
  rw [m.scrollEnd_toNat]
  omega

section Code

variable (m : VideoMode) (lerp : UInt8 → UInt8 → UInt32 → UInt8) (strings : Strings)

/-- `temp` is the start of the framebuffer plus the counter. -/
def vgaClearscreen (s : Screen) : Screen :=
  strideLoop m.scrollEnd 1 (by decide) (clear_fits m) Screen.zero 0 s

/-- The address of the framebuffer is read as an `unsigned int`, too. -/
def greetingArgs (b : ModeInfoBlock) : List Arg :=
  [.int b.mode.width.toBitVec, .int b.mode.height.toBitVec, .int b.mode.bpp.toBitVec,
    .int b.framebuffer.toBitVec]

/-- The console when it greets. `bytes` were in the framebuffer; the cursor and the colours are static
variables. -/
def clearedConsole (bytes : Nat → UInt8) : Console :=
  let con := Console.start bytes 0xFFFFFFFF 0x00000000
  { con with screen := vgaClearscreen m con.screen }

def vgaInit {b : ModeInfoBlock} (h : b.Usable) (stack : Int → UInt8) (bytes : Nat → UInt8) :
    Option Console := do
  let (_, con) ← printf h.videoMode lerp strings stack greetingFormat (greetingArgs b)
    (clearedConsole h.videoMode bytes)
  return con

def exceptionMessages : List String :=
  ["Division By Zero", "Debug", "Non Maskable Interrupt", "Breakpoint", "Into Detected Overflow",
    "Out of Bounds", "Invalid Opcode", "No Coprocessor", "Double Fault", "Coprocessor Segment Overrun",
    "Bad TSS", "Segment Not Present", "Stack Fault", "General Protection Fault", "Page Fault",
    "Unknown Interrupt", "Coprocessor Fault", "Alignment Check", "Machine Check", "Reserved", "Reserved",
    "Reserved", "Reserved", "Reserved", "Reserved", "Reserved", "Reserved", "Reserved", "Reserved",
    "Reserved", "Reserved", "Reserved"]

/-- `puts` of a string literal, which a NUL follows. -/
def putsLiteral (s : String) (con : Console) : Option Console :=
  puts m lerp (fun i => (literal s).getD i.toNat 0) ((literal s).length + 1) 0 con

/-- It prints, and returns to the instruction that failed. -/
def faultHandler (intNo : UInt32) (con : Console) : Option Console := do
  let con ← putsLiteral m lerp "\rReceived Interrupt: " con
  let message ← exceptionMessages[intNo.toNat]?
  let con ← putsLiteral m lerp message con
  return putc m lerp (byte '\n') con

structure Terminal where
  keyboard : Keyboard
  con : Console

/-- A call of `printf`, a code from the keyboard, or an exception. -/
inductive Event where
  | print (call : Call)
  | key (code : UInt8)
  | fault (intNo : UInt32)

/-- The handler puts the character of an ordinary key. -/
def keyPressed (code : UInt8) (s : Terminal) : Terminal :=
  let keyboard := keyboardHandler s.keyboard code
  ⟨keyboard, if isOrdinary code then putc m lerp keyboard.keyChar s.con else s.con⟩

def Event.run (stack : Int → UInt8) (s : Terminal) : Event → Option Terminal
  | .print call => do
      let (_, con) ← printf m lerp strings stack call.format call.args s.con
      return { s with con }
  | .key code => some (keyPressed m lerp code s)
  | .fault intNo => do
      let con ← faultHandler m lerp intNo s.con
      return { s with con }

/-- What is on the stack differs from event to event. -/
def runEvents (stack : Nat → Int → UInt8) : List Event → Terminal → Option Terminal
  | [], s => some s
  | e :: es, s => do
      let s ← e.run m lerp strings (stack es.length) s
      runEvents stack es s

end Code

/-! ## The text -/

/-- The flags of `%08X`. -/
def hexFlags : Flags := { Flags.none with zero := true, upper := true }

/-- The greeting as it is printed. -/
def greeting (b : ModeInfoBlock) : List UInt8 :=
  literal "Initialized VESA with Width: " ++ (renderInt b.mode.width.toNat Flags.none 10 0 0 ++
    (literal ", Height: " ++ (renderInt b.mode.height.toNat Flags.none 10 0 0 ++
      (literal ", BPP: " ++ (renderInt b.mode.bpp.toNat Flags.none 10 0 0 ++
        (literal ", Framebuffer: 0x" ++
          (renderInt b.framebuffer.toNat hexFlags 16 0 8 ++
            literal "\n")))))))

/-- What an event shows. A call has to have a rendering short enough to be counted, an exception one of the
messages. -/
def Event.text (strings : Strings) (k : Keyboard) : Event → Option (List Int8)
  | .print call => do
      let (_, out, _) ← render strings .normal call.format call.args
      if out.length < 2 ^ 31 then some (printed out) else none
  | .key code =>
      some (if isOrdinary code then [(kbdus (keyCodeOf k.shift k.caps code).toNat).toInt8] else [])
  | .fault intNo => do
      let message ← exceptionMessages[intNo.toNat]?
      return (literal "\rReceived Interrupt: " ++ (literal message ++ [byte '\n'])).map UInt8.toInt8

def Event.keyboard (k : Keyboard) : Event → Keyboard
  | .print _ => k
  | .key code => keyboardHandler k code
  | .fault _ => k

/-- What a sequence of events shows. Keys depend on those before them. -/
def script (strings : Strings) : Keyboard → List Event → Option (List Int8)
  | _, [] => some []
  | k, e :: es => do
      let text ← e.text strings k
      let rest ← script strings (e.keyboard k) es
      return text ++ rest

/-! ### The greeting -/

section Greeting

variable {strings : Strings}

theorem render_literal {text : List UInt8} (h : ∀ c ∈ text, c ≠ 0 ∧ c ≠ byte '%')
    (args : List Arg) : render strings .normal text args = some (.normal, text, args) := by
  induction text with
  | nil => rfl
  | cons c text ih =>
      obtain ⟨hnul, hpercent⟩ := h c List.mem_cons_self
      rw [render, if_neg hnul, feed, if_neg hpercent, Option.bind_eq_bind, Option.bind_some]
      show (render strings .normal text args).bind _ = _
      rw [ih fun c hc => h c (List.mem_cons_of_mem _ hc)]
      rfl

/-- Text, and a directive for one argument. -/
theorem render_piece {text spec format x y : List UInt8} {arg : Arg} {args : List Arg}
    (htext : ∀ c ∈ text, c ≠ 0 ∧ c ≠ byte '%') (hnul : (0 : UInt8) ∉ spec)
    (hspec : render strings .normal spec [arg] = some (.normal, x, []))
    (hrest : render strings .normal format args = some (.normal, y, [])) :
    render strings .normal (text ++ (spec ++ format)) (arg :: args) =
      some (.normal, text ++ (x ++ y), []) := by
  have htextNul : (0 : UInt8) ∉ text := fun h => (htext 0 h).1 rfl
  exact render_append htextNul (render_literal htext _)
    (render_append hnul (render_more args hspec) hrest)

/-- The directive `d`, and its conversion. -/
theorem render_directive (spec : List UInt8) (d : Directive) {out : List UInt8} {args : List Arg}
    {mode : Stdio.Mode} {ch : UInt8} (hnul : (0 : UInt8) ∉ spec) (hch : ch ≠ 0)
    (hspec : render strings .normal spec [] = some (mode, [], [])) (hreads : mode.Reads d)
    (hconv : mode.Converts ch) (hyields : Yields strings d ch args out) :
    render strings .normal (spec ++ [ch]) args = some (.normal, out, []) := by
  have hlast : render strings mode [ch] args = some (.normal, out, []) := by
    rw [render, if_neg hch, feed_of_converts hreads hconv hyields.feed]
    exact congrArg some (by rw [List.append_nil])
  exact render_append hnul (render_more args hspec) hlast

theorem render_unsigned (v : UInt32) : render strings .normal (['%', 'u'].map byte)
    [.int v.toBitVec] = some (.normal, renderInt v.toNat Flags.none 10 0 0, []) :=
  render_directive [byte '%'] Directive.fresh (by decide) (by decide) rfl rfl
    ⟨rfl, rfl, by decide, by decide, rfl⟩ (.unsigned rfl rfl)

theorem render_hex (v : UInt32) : render strings .normal (['%', '0', '8', 'X'].map byte)
    [.int v.toBitVec] =
      some (.normal, renderInt v.toNat hexFlags 16 0 8, []) :=
  render_directive (['%', '0', '8'].map byte) ⟨{ Flags.none with zero := true }, 0, 8, none⟩
    (by decide) (by decide) rfl rfl ⟨rfl, by decide, by decide, rfl⟩ (.unsigned rfl rfl)

theorem render_greeting (b : ModeInfoBlock) :
    render strings .normal greetingFormat (greetingArgs b) = some (.normal, greeting b, []) := by
  apply render_piece (by decide +kernel) (by decide) (render_unsigned _)
  apply render_piece (by decide +kernel) (by decide) (render_unsigned _)
  apply render_piece (by decide +kernel) (by decide) (render_unsigned _)
  apply render_piece (by decide +kernel) (by decide) (render_hex _)
  exact render_literal (by decide +kernel) []

/-- Without tick marks nothing stands between the digits. -/
theorem length_renderInt_le {val base prec width : Nat} (hval : val < 2 ^ 32) (hbase : 2 ≤ base)
    {flags : Flags} (htick : flags.tick = false) :
    (renderInt val flags base prec width).length ≤ max width (36 + prec) := by
  have hdigits := length_digits_le hbase (magnitude_lt hval flags)
  have hpos := digitCount_pos val flags base prec
  have hcount : digitCount val flags base prec ≤ 33 + prec := by
    unfold digitCount
    dsimp only
    split <;> omega
  have hnumber : (number val flags base prec).length ≤ 33 + prec := by
    unfold number groupSize
    rw [length_numeral, htick, if_neg (by decide), Nat.div_eq_of_lt (Nat.sub_lt hpos Nat.one_pos)]
    omega
  have hsign : (sign val flags).length ≤ 1 := by
    unfold sign
    split_ifs <;> simp
  have hprefix : (hexPrefix flags base).length ≤ 2 := by
    unfold hexPrefix
    split_ifs <;> simp
  rw [number_eq hbase] at hnumber
  rw [renderInt_eq hbase, length_integerField]
  unfold bareLength
  omega

theorem length_greeting (b : ModeInfoBlock) : (greeting b).length < 2 ^ 31 := by
  have hdec (v : UInt32) := @length_renderInt_le v.toNat 10 0 0 v.toNat_lt (by decide) Flags.none rfl
  have hhex := @length_renderInt_le b.framebuffer.toNat 16 0 8 b.framebuffer.toNat_lt (by decide)
    hexFlags rfl
  have hw := hdec b.mode.width
  have hh := hdec b.mode.height
  have hb := hdec b.mode.bpp
  have htexts : (literal "Initialized VESA with Width: ").length = 29 ∧
      (literal ", Height: ").length = 10 ∧ (literal ", BPP: ").length = 7 ∧
      (literal ", Framebuffer: 0x").length = 17 ∧ (literal "\n").length = 1 := by
    decide +kernel
  obtain ⟨h1, h2, h3, h4, h5⟩ := htexts
  unfold greeting
  simp only [List.length_append, h1, h2, h3, h4, h5]
  omega

end Greeting

/-! ## The screen -/

section Screen

variable {m : VideoMode} {lerp : UInt8 → UInt8 → UInt32 → UInt8} {strings : Strings}

/-- After `k` rounds. -/
structure Blank (s : Screen) (k : Nat) (s' : Screen) : Prop where
  fg : s'.fg = s.fg
  bg : s'.bg = s.bg
  glyphs : s'.glyphs = s.glyphs
  bytes : ∀ a < k, s'.bytes a = 0
  touched : ∀ a ∈ s'.touched, a ∈ s.touched ∨ a < k

theorem Blank.round {s s' : Screen} {k : Nat} {i : UInt32} (h : Blank s k s') (hi : i.toNat = k) :
    Blank s (k + 1) (s'.zero i) where
  fg := h.fg
  bg := h.bg
  glyphs := h.glyphs
  bytes := by
    intro a ha
    show Function.update s'.bytes i.toNat 0 a = 0
    rw [hi, Function.update_apply]
    split
    · rfl
    · exact h.bytes a (by omega)
  touched := by
    intro a ha
    rcases List.mem_cons.mp ha with rfl | ha
    · exact .inr (by omega)
    · exact (h.touched a ha).imp id Nat.lt_succ_of_lt

theorem vgaClearscreen_blank (m : VideoMode) (s : Screen) :
    Blank s m.size (vgaClearscreen m s) := by
  apply strideLoop_rule (I := fun k s' => Blank s k s')
  · rw [m.scrollEnd_toNat, UInt32.toNat_zero, UInt32.toNat_one]
    omega
  · exact ⟨rfl, rfl, rfl, fun a ha => absurd ha (Nat.not_lt_zero a), fun a ha => .inl ha⟩
  · intro k i s' _ hi h
    apply h.round
    rw [hi, UInt32.toNat_zero, UInt32.toNat_one]
    omega

theorem textOf_append (m : VideoMode) (cs cs' : List Int8) :
    textOf m (cs ++ cs') = gridPuts m.cols m.rows cs' (textOf m cs) := List.foldl_append ..

/-- What the two simulations of the console say about a state. -/
structure Displays (m : VideoMode) (con : Console) (text : List Int8) : Prop where
  fits : (textOf m text).Fits m.cols m.rows
  accesses : Refines (fun s _ => Accesses m s) con (textOf m text)
  depicts : Refines (fun s cells => Depicts m s (picture cells)) con (textOf m text)

theorem Displays.cleared (hcols : 0 < m.cols) (bytes : Nat → UInt8) :
    Displays m (clearedConsole m bytes) [] := by
  have hblank : Blank (Console.start bytes 0xFFFFFFFF 0x00000000).screen m.size
      (clearedConsole m bytes).screen := vgaClearscreen_blank m _
  refine ⟨TextGrid.fits_clear hcols m.rows_pos, ⟨rfl, rfl, ?_, ?_⟩,
    ⟨rfl, rfl, hblank.fg, hblank.bg, ?_⟩⟩
  · intro c hc
    rw [hblank.glyphs] at hc
    exact absurd hc List.not_mem_nil
  · intro off hoff
    exact (hblank.touched off hoff).resolve_left List.not_mem_nil
  · intro x y b hx hy hb
    have hdark : picture (textOf m []).cells x y = false := Bool.and_false _
    rw [hdark]
    exact hblank.bytes _ (byteAt_lt hx hy hb)

theorem Displays.puts {con : Console} {text : List Int8} (h : Displays m con text) (hlerp : ExactLerp lerp)
    (cs : List Int8) : Displays m (vgaPuts m lerp cs con) (text ++ cs) := by
  obtain ⟨hfits, haccesses⟩ := vgaPuts_refines (accesses_simulates m lerp) cs h.fits h.accesses
  obtain ⟨-, hdepicts⟩ := vgaPuts_refines (depicts_simulates m hlerp) cs h.fits h.depicts
  rw [← textOf_append] at hfits haccesses hdepicts
  exact ⟨hfits, haccesses, hdepicts⟩

/-- **`vga_init`** greets on a blank screen. -/
theorem vgaInit_shows {b : ModeInfoBlock} (h : b.Usable) (hlerp : ExactLerp lerp)
    (stack : Int → UInt8) (bytes : Nat → UInt8) :
    ∃ con, vgaInit lerp strings h stack bytes = some con ∧
      Displays h.videoMode con (printed (greeting b)) := by
  have hcols : 0 < h.videoMode.cols := Nat.div_pos h.width (by decide)
  refine ⟨_, ?_, (Displays.cleared hcols bytes).puts hlerp (printed (greeting b))⟩
  rw [vgaInit, printf_eq (render_greeting b) (length_greeting b) stack]
  rfl

/-! ## Events -/

theorem keyboardHandler_keyChar {k : Keyboard} {code : UInt8} (h : isOrdinary code) :
    (keyboardHandler k code).keyChar = kbdus (keyCodeOf k.shift k.caps code).toNat := by
  unfold isOrdinary isModifier at h
  unfold keyboardHandler
  grind

theorem putsLiteral_eq {s : String} (h : (0 : UInt8) ∉ literal s) (con : Console) :
    putsLiteral m lerp s con = some (vgaPuts m lerp ((literal s).map UInt8.toInt8) con) := by
  have hall : (literal s).takeWhile (fun c => c ≠ 0) = literal s :=
    List.takeWhile_eq_self_iff.mpr fun c hc => by simpa using ne_of_mem_of_not_mem hc h
  unfold putsLiteral
  rw [@puts_eq _ _ _ (literal s) _ _ _ _ _ (Nat.lt_succ_self _), hall]
  · intro j hj
    rw [Nat.zero_add]
    exact List.getD_eq_getElem _ _ hj
  · rw [Nat.zero_add]
    exact List.getD_eq_default _ _ (Nat.le_refl _)

theorem exceptionMessages_plain : ∀ message ∈ exceptionMessages, (0 : UInt8) ∉ literal message := by
  decide +kernel

theorem faultHandler_eq {intNo : UInt32} {message : String}
    (h : exceptionMessages[intNo.toNat]? = some message) (con : Console) :
    faultHandler m lerp intNo con = some (vgaPuts m lerp
      ((literal "\rReceived Interrupt: " ++ (literal message ++ [byte '\n'])).map UInt8.toInt8) con) := by
  have hplain := exceptionMessages_plain message (List.mem_of_getElem? h)
  have hprefix : (0 : UInt8) ∉ literal "\rReceived Interrupt: " := by decide +kernel
  unfold faultHandler
  rw [putsLiteral_eq hprefix, h]
  simp only [Option.bind_eq_bind, Option.bind_some]
  rw [putsLiteral_eq hplain, List.map_append, List.map_append]
  unfold vgaPuts
  rw [List.foldl_append, List.foldl_append]
  rfl

/-- **One event** shows its text behind the others. -/
theorem Displays.event {s : Terminal} {before text : List Int8} {e : Event} (h : Displays m s.con before)
    (hlerp : ExactLerp lerp) (htext : e.text strings s.keyboard = some text) (stack : Int → UInt8) :
    ∃ s', e.run m lerp strings stack s = some s' ∧ s'.keyboard = e.keyboard s.keyboard ∧
      Displays m s'.con (before ++ text) := by
  cases e with
  | print call =>
      obtain ⟨⟨mode, out, rest⟩, hrender, hout⟩ := Option.bind_eq_some_iff.mp htext
      obtain ⟨hlen, hprinted⟩ := Option.ite_none_right_eq_some.mp hout
      cases hprinted
      refine ⟨{ s with con := vgaPuts m lerp (printed out) s.con }, ?_, rfl, h.puts hlerp _⟩
      rw [Event.run, printf_eq hrender hlen stack]
      rfl
  | key code =>
      cases htext
      refine ⟨_, rfl, rfl, ?_⟩
      show Displays m (if isOrdinary code then _ else _) _
      by_cases hord : isOrdinary code
      · rw [if_pos hord, if_pos hord, keyboardHandler_keyChar hord]
        exact h.puts hlerp [_]
      · rw [if_neg hord, if_neg hord, List.append_nil]
        exact h
  | fault intNo =>
      obtain ⟨message, hmessage, htext⟩ := Option.bind_eq_some_iff.mp htext
      cases htext
      refine ⟨{ s with con := vgaPuts m lerp _ s.con }, ?_, rfl, h.puts hlerp _⟩
      rw [Event.run, faultHandler_eq hmessage]
      rfl

/-- **Any sequence of events.** -/
theorem Displays.events {stack : Nat → Int → UInt8} (hlerp : ExactLerp lerp) :
    ∀ {es : List Event} {s : Terminal} {before text : List Int8}, Displays m s.con before →
      script strings s.keyboard es = some text →
      ∃ s', runEvents m lerp strings stack es s = some s' ∧ Displays m s'.con (before ++ text)
  | [], s, before, _, h, htext => by
      cases htext
      exact ⟨s, rfl, by rwa [List.append_nil]⟩
  | e :: es, s, before, _, h, htext => by
      obtain ⟨text, hfirst, htext⟩ := Option.bind_eq_some_iff.mp htext
      obtain ⟨rest, hrest, htext⟩ := Option.bind_eq_some_iff.mp htext
      cases htext
      obtain ⟨s₁, hrun, hkeyboard, h₁⟩ := h.event hlerp hfirst (stack es.length)
      rw [← hkeyboard] at hrest
      obtain ⟨s', hruns, h'⟩ := Displays.events hlerp h₁ hrest
      rw [List.append_assoc] at h'
      exact ⟨s', by rw [runEvents, hrun]; exact hruns, h'⟩

theorem Displays.inBounds {con : Console} {text : List Int8} (h : Displays m con text) :
    InBounds m con where
  csrX := by
    rw [UInt32.lt_iff_toNat_lt, h.accesses.col, UInt32.toNat_div]
    exact h.fits.col
  csrY := by
    rw [UInt32.lt_iff_toNat_lt, h.accesses.row, UInt32.toNat_div]
    exact h.fits.row
  glyphs := h.accesses.screen.glyphs
  touched := h.accesses.screen.touched

/-- **From `vga_init` on.** Whatever was in the framebuffer, and in whatever order calls, keys and
exceptions come, the screen shows the glyphs of one text: the greeting and what each of them shows. Neither
cursor nor accesses leave the screen. -/
theorem terminal_session {b : ModeInfoBlock} (h : b.Usable) (hlerp : ExactLerp lerp)
    (stack : Int → UInt8) (stack' : Nat → Int → UInt8) (bytes : Nat → UInt8) {es : List Event}
    {text : List Int8} (htext : script strings Keyboard.boot es = some text) :
    ∃ con s, vgaInit lerp strings h stack bytes = some con ∧
      runEvents h.videoMode lerp strings stack' es ⟨Keyboard.boot, con⟩ = some s ∧
      InBounds h.videoMode s.con ∧ Depicts h.videoMode s.con.screen
        (picture (textOf h.videoMode (printed (greeting b) ++ text)).cells) := by
  obtain ⟨con, hinit, hgreeted⟩ := @vgaInit_shows lerp strings b h hlerp stack bytes
  obtain ⟨s, hrun, hs⟩ := @Displays.events _ _ _ stack' hlerp es ⟨Keyboard.boot, con⟩ _ _ hgreeted htext
  exact ⟨con, s, hinit, hrun, hs.inBounds, hs.depicts.screen⟩

end Screen

/-- A display of 16 by 9 pixels. -/
def tinyDisplay : ModeInfoBlock := ⟨16, 9, 24, 0xFD000000⟩

theorem tinyDisplay_usable : tinyDisplay.Usable := ⟨by decide, by decide, by decide, by decide⟩

/-- A number is printed, and `A` typed. -/
theorem number_and_key : ∃ con s,
    vgaInit lerpByte (fun _ => none) tinyDisplay_usable (fun _ => 0xFF) (fun _ => 0x77) = some con ∧
      runEvents tinyDisplay_usable.videoMode lerpByte (fun _ => none) (fun _ _ => 0xFF)
        [.print ⟨numberFormat, [.int 42]⟩, .key 0x2A, .key 0x1E] ⟨Keyboard.boot, con⟩ = some s ∧
      InBounds tinyDisplay_usable.videoMode s.con ∧
      Depicts tinyDisplay_usable.videoMode s.con.screen
        (picture (textOf tinyDisplay_usable.videoMode
          (printed (greeting tinyDisplay) ++ (numberText.map UInt8.toInt8 ++ [0x41]))).cells) :=
  terminal_session tinyDisplay_usable lerpByte_exact _ _ _ (by decide +kernel)

end Neutrino.System
