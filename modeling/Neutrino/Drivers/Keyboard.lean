import Mathlib.Data.List.Induction

/-!
# The keyboard

`keyboard_handler` turns scancodes into characters. It remembers shift and caps lock, each as one
boolean. There are two shift keys: the boolean says whether the last code of either was a make code
(`shift_run`), not whether one of them is held. The two differ when one shift key is released while
the other is held, and `translates_iff` says when that is seen.
-/

namespace Neutrino.Drivers

/-! ## The code -/

/-- The two halves of the table, without and with shift. -/
def kbdusLower : String :=
  "??1234567890-=\x08\tqwertyuiop[]\n?asdfghjkl;'`?\\zxcvbnm,./?*? ??????????????????????????????????????????????????????????????????????"

def kbdusUpper : String :=
  "??!@#$%^&*()_+\x08\tQWERTYUIOP\x7b\x7d\n?ASDFGHJKL:\"~?|ZXCVBNM<>??*? ??????????????????????????????????????????????????????????????????????"

def kbdusTable : List Char := kbdusLower.toList ++ kbdusUpper.toList

def kbdus (keyCode : Nat) : UInt8 := (kbdusTable.getD keyCode '\x00').toUInt8

/-- `isalpha` of `ctype.c`. -/
def isalpha (c : Int) : Bool := (c ≥ 0x41 && c ≤ 0x5A) || (c ≥ 0x61 && c ≤ 0x7A)

/-- The static variables, and the characters given to `putc` so far. -/
structure Keyboard where
  shift : Bool
  ctrl : Bool
  alt : Bool
  caps : Bool
  keyChar : UInt8
  keyCode : UInt32
  typed : List UInt8
  deriving DecidableEq, Repr

def Keyboard.boot : Keyboard := ⟨false, false, false, false, 0, 0, []⟩

/-- The code of the character an ordinary key stands for. -/
def keyCodeOf (shift caps : Bool) (scancode : UInt8) : UInt32 :=
  if shift then
    if caps && isalpha (kbdus scancode.toNat).toNat then scancode.toUInt32
    else scancode.toUInt32 + 128
  else if caps && isalpha (kbdus scancode.toNat).toNat then scancode.toUInt32 + 128
  else scancode.toUInt32

/-- The handler, on what it has read from port 0x60. -/
def keyboardHandler (k : Keyboard) (scancode : UInt8) : Keyboard :=
  if scancode = 0x2A then { k with shift := true }
  else if scancode = 0x36 then { k with shift := true }
  else if scancode = 0x1D then { k with ctrl := true }
  else if scancode = 0x38 then { k with alt := true }
  else if scancode = 0x3A then { k with caps := !k.caps }
  else if scancode = 0xAA then { k with shift := false }
  else if scancode = 0xB6 then { k with shift := false }
  else if scancode = 0x9D then { k with ctrl := false }
  else if scancode = 0xB8 then { k with alt := false }
  else if scancode < 128 then
    let keyCode := keyCodeOf k.shift k.caps scancode
    let keyChar := kbdus keyCode.toNat
    { k with keyCode := keyCode, keyChar := keyChar, typed := k.typed ++ [keyChar] }
  else
    { k with keyCode := scancode.toUInt32 }

/-- The keyboard after a sequence of scancodes. -/
def typing (codes : List UInt8) : Keyboard := codes.foldl keyboardHandler Keyboard.boot

/-! ## Keys -/

/-- The key is down: of its two codes the last one was the make code. -/
def held (codes : List UInt8) (key : UInt8) : Bool :=
  (codes.filter fun c => c = key || c = key + 0x80).getLast? = some key

def shiftHeld (codes : List UInt8) : Bool := held codes 0x2A || held codes 0x36

def capsOn (codes : List UInt8) : Bool := codes.count 0x3A % 2 = 1

/-- The last code of a shift key was a make code. -/
def shiftLast (codes : List UInt8) : Bool :=
  (codes.filter fun c => c = 0x2A || c = 0x36 || c = 0xAA || c = 0xB6).getLast?.any
    fun c => c = 0x2A || c = 0x36

def isModifier (key : UInt8) : Bool :=
  key = 0x2A || key = 0x36 || key = 0x1D || key = 0x38 || key = 0x3A

/-- A make code of a key that types. -/
def isOrdinary (code : UInt8) : Bool := code < 128 && !isModifier code

/-- The codes are those of keys pressed and released: a break code comes while its key is down. -/
def Consistent (codes : List UInt8) : Prop :=
  ∀ before code after, codes = before ++ code :: after → 128 ≤ code → held before (code - 128)

/-! ## What should be typed -/

/-- The second half of the table is meant: for a letter when just one of shift and caps lock is on, for
any other key when shift is. -/
def wantsUpper (before : List UInt8) (code : UInt8) : Bool :=
  if isalpha (kbdus code.toNat).toNat then shiftHeld before != capsOn before
  else shiftHeld before

/-- What `code` should type after the codes `before`. -/
def expected (before : List UInt8) (code : UInt8) : List UInt8 :=
  if isOrdinary code then
    [if wantsUpper before code then kbdus (code.toNat + 128) else kbdus code.toNat]
  else
    []

/-- Each code types what it should. -/
def Translates (codes : List UInt8) : Prop :=
  ∀ before code after, codes = before ++ code :: after →
    (keyboardHandler (typing before) code).typed = (typing before).typed ++ expected before code

/-! ## The handler, one code at a time -/

theorem typing_snoc (codes : List UInt8) (code : UInt8) :
    typing (codes ++ [code]) = keyboardHandler (typing codes) code := by
  unfold typing
  rw [List.foldl_append]
  rfl

theorem keyboardHandler_shift (k : Keyboard) (code : UInt8) :
    (keyboardHandler k code).shift =
      if code = 0x2A ∨ code = 0x36 then true
      else if code = 0xAA ∨ code = 0xB6 then false else k.shift := by
  unfold keyboardHandler
  grind

theorem keyboardHandler_caps (k : Keyboard) (code : UInt8) :
    (keyboardHandler k code).caps = if code = 0x3A then !k.caps else k.caps := by
  unfold keyboardHandler
  simp only [apply_ite Keyboard.caps, ite_self]
  by_cases hcaps : code = 0x3A
  · rw [hcaps]
    rfl
  · simp only [hcaps, if_false, ite_self]

/-- Only ordinary keys type. -/
theorem keyboardHandler_typed (k : Keyboard) (code : UInt8) :
    (keyboardHandler k code).typed =
      k.typed ++ if isOrdinary code then [kbdus (keyCodeOf k.shift k.caps code).toNat] else [] := by
  unfold keyboardHandler
  simp only [apply_ite Keyboard.typed]
  by_cases hord : isOrdinary code
  · rw [if_pos hord]
    unfold isOrdinary isModifier at hord
    grind
  · rw [if_neg hord, List.append_nil]
    unfold isOrdinary isModifier at hord
    grind

/-! ## Histories, one code at a time -/

section Snoc

variable {codes : List UInt8} {code key : UInt8}

theorem held_snoc (hkey : key ≠ key + 0x80) :
    held (codes ++ [code]) key =
      if code = key then true else if code = key + 0x80 then false else held codes key := by
  unfold held
  rw [List.filter_append]
  by_cases hmake : code = key
  · rw [if_pos hmake, hmake]
    simp
  · rw [if_neg hmake]
    by_cases hbreak : code = key + 0x80
    · rw [if_pos hbreak, hbreak]
      simp [hkey.symm]
    · rw [if_neg hbreak]
      simp [hmake, hbreak]

theorem shiftLast_snoc :
    shiftLast (codes ++ [code]) =
      if code = 0x2A ∨ code = 0x36 then true
      else if code = 0xAA ∨ code = 0xB6 then false else shiftLast codes := by
  unfold shiftLast
  rw [List.filter_append]
  by_cases hmake : code = 0x2A ∨ code = 0x36
  · rw [if_pos hmake]
    cases hmake with
    | inl h => simp [h]
    | inr h => simp [h]
  · rw [if_neg hmake]
    by_cases hbreak : code = 0xAA ∨ code = 0xB6
    · rw [if_pos hbreak]
      cases hbreak with
      | inl h => simp [h]
      | inr h => simp [h]
    · rw [if_neg hbreak]
      rw [not_or] at hmake hbreak
      simp [hmake, hbreak]

theorem capsOn_snoc :
    capsOn (codes ++ [code]) = if code = 0x3A then !capsOn codes else capsOn codes := by
  unfold capsOn
  rw [List.count_append, List.count_singleton]
  by_cases h : code = 0x3A
  · rw [if_pos h, if_pos (beq_iff_eq.mpr h), ← decide_not]
    apply decide_eq_decide.mpr
    omega
  · rw [if_neg h, if_neg (by simpa using h), Nat.add_zero]

end Snoc

/-! ## What the handler remembers -/

/-- **The shift flag** is the last code of a shift key. -/
theorem shift_run (codes : List UInt8) : (typing codes).shift = shiftLast codes := by
  induction codes using List.reverseRecOn with
  | nil => rfl
  | append_singleton codes code ih => rw [typing_snoc, keyboardHandler_shift, ih, shiftLast_snoc]

theorem caps_run (codes : List UInt8) : (typing codes).caps = capsOn codes := by
  induction codes using List.reverseRecOn with
  | nil => rfl
  | append_singleton codes code ih => rw [typing_snoc, keyboardHandler_caps, ih, capsOn_snoc]

/-- If the last code was a make code, that key is still down. -/
theorem shiftHeld_of_shiftLast {codes : List UInt8} (h : shiftLast codes) : shiftHeld codes := by
  induction codes using List.reverseRecOn with
  | nil => cases h
  | append_singleton codes code ih =>
      rw [shiftLast_snoc] at h
      unfold shiftHeld
      rw [held_snoc (by decide), held_snoc (by decide)]
      by_cases hleft : code = 0x2A
      · rw [if_pos hleft, Bool.true_or]
      by_cases hright : code = 0x36
      · rw [if_pos hright, Bool.or_true]
      rw [if_neg (not_or.mpr ⟨hleft, hright⟩)] at h
      by_cases hbreak : code = 0xAA ∨ code = 0xB6
      · rw [if_pos hbreak] at h
        cases h
      · rw [if_neg hbreak] at h
        rw [not_or] at hbreak
        have hleft' : code ≠ 0x2A + 0x80 := hbreak.1
        have hright' : code ≠ 0x36 + 0x80 := hbreak.2
        rw [if_neg hleft, if_neg hright, if_neg hleft', if_neg hright']
        exact ih h

/-! ## Translation -/

/-- Which half of the table the handler uses. -/
theorem kbdus_keyCodeOf (shift caps : Bool) {code : UInt8} (h : code < 128) :
    kbdus (keyCodeOf shift caps code).toNat =
      if (if isalpha (kbdus code.toNat).toNat then shift != caps else shift)
      then kbdus (code.toNat + 128) else kbdus code.toNat := by
  have hlt : code.toNat < 128 := UInt8.lt_iff_toNat_lt.mp h
  have hupper : (code.toUInt32 + 128).toNat = code.toNat + 128 := by
    rw [UInt32.toNat_add, UInt8.toNat_toUInt32, show (128 : UInt32).toNat = 128 from rfl]
    omega
  unfold keyCodeOf
  cases shift with
  | false =>
      cases caps with
      | false =>
          simp only [Bool.false_eq_true, if_false, Bool.false_and, UInt8.toNat_toUInt32,
            bne_self_eq_false, ite_self]
      | true =>
          cases isalpha (kbdus code.toNat).toNat with
          | false => simp only [Bool.false_eq_true, if_false, Bool.and_false, UInt8.toNat_toUInt32]
          | true =>
              simp only [Bool.false_eq_true, if_false, if_true, Bool.and_self, hupper, Bool.bne_true,
                Bool.not_false]
  | true =>
      cases caps with
      | false =>
          simp only [if_true, Bool.false_and, Bool.false_eq_true, if_false, hupper, Bool.bne_false,
            ite_self]
      | true =>
          cases isalpha (kbdus code.toNat).toNat with
          | false => simp only [if_true, Bool.and_false, Bool.false_eq_true, if_false, hupper]
          | true =>
              simp only [if_true, Bool.and_self, UInt8.toNat_toUInt32, bne_self_eq_false,
                Bool.false_eq_true, if_false]

/-- **One code** types what it should, unless it is that of a key whose two characters differ, and the
flag is off although a shift key is down. -/
theorem typed_expected_iff (before : List UInt8) (code : UInt8) :
    (keyboardHandler (typing before) code).typed = (typing before).typed ++ expected before code ↔
      (isOrdinary code → kbdus code.toNat ≠ kbdus (code.toNat + 128) → shiftHeld before →
        shiftLast before) := by
  rw [keyboardHandler_typed, List.append_cancel_left_eq, shift_run, caps_run]
  unfold expected
  by_cases hord : isOrdinary code
  · have hlt : code < 128 := of_decide_eq_true (Bool.and_eq_true_iff.mp hord).1
    rw [if_pos hord, if_pos hord, forall_prop_of_true hord, List.singleton_inj,
      kbdus_keyCodeOf _ _ hlt]
    unfold wantsUpper
    by_cases hsame : kbdus code.toNat = kbdus (code.toNat + 128)
    · rw [← hsame, ite_self, ite_self]
      exact ⟨fun _ hne => absurd rfl hne, fun _ => rfl⟩
    rw [forall_prop_of_true hsame]
    have hheld := @shiftHeld_of_shiftLast before
    cases hflag : shiftLast before with
    | true =>
        rw [hheld hflag]
        exact ⟨fun _ _ => rfl, fun _ => rfl⟩
    | false =>
        cases shiftHeld before with
        | false => exact ⟨fun _ h => h, fun _ => rfl⟩
        | true =>
            -- the flag is off, a key is down: the wrong half, for letters and other keys alike
            cases isalpha (kbdus code.toNat).toNat with
            | false => simp [hsame]
            | true =>
                cases capsOn before with
                | false => simp [hsame]
                | true => simp [Ne.symm hsame]
  · rw [if_neg hord, if_neg hord]
    exact ⟨fun _ h => absurd h hord, fun _ => rfl⟩

/-- **Every code of a sequence types what it should** exactly when no key whose two characters differ
is pressed while one shift key is down and the other was released last. -/
theorem translates_iff (codes : List UInt8) :
    Translates codes ↔ ∀ before code after, codes = before ++ code :: after → isOrdinary code →
      kbdus code.toNat ≠ kbdus (code.toNat + 128) → shiftHeld before → shiftLast before := by
  unfold Translates
  exact forall_congr' fun before => forall_congr' fun code => forall_congr' fun after =>
    imp_congr_right fun _ => typed_expected_iff before code

theorem consistent_snoc {codes : List UInt8} {code : UInt8} (h : Consistent codes)
    (hcode : 128 ≤ code → held codes (code - 128)) : Consistent (codes ++ [code]) := by
  intro before c after heq hc
  cases after using List.reverseRecOn with
  | nil =>
      obtain ⟨rfl, hlast⟩ := List.append_inj' heq rfl
      cases hlast
      exact hcode hc
  | append_singleton after last =>
      rw [← List.cons_append, ← List.append_assoc] at heq
      exact h before c after (List.append_inj' heq rfl).1 hc

/-- Left shift down, right shift down, right shift up, A: left shift is still down, but the key types
a small letter. -/
theorem bothShifts_not_translated : Consistent [0x2A, 0x36, 0xB6, 0x1E] ∧
    ¬ Translates [0x2A, 0x36, 0xB6, 0x1E] := by
  constructor
  · have hnil : Consistent [] := by
      intro before code after heq
      exact absurd heq.symm (List.append_ne_nil_of_right_ne_nil _ (List.cons_ne_nil _ _))
    have hleft : Consistent [0x2A] := consistent_snoc hnil (by decide)
    have hright : Consistent [0x2A, 0x36] := consistent_snoc hleft (by decide)
    have hup : Consistent [0x2A, 0x36, 0xB6] := consistent_snoc hright (by decide)
    exact consistent_snoc hup (by decide)
  · intro h
    have htyped := h [0x2A, 0x36, 0xB6] 0x1E [] rfl
    revert htyped
    decide +kernel

end Neutrino.Drivers
