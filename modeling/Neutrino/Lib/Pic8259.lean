import Mathlib.Data.Fin.Tuple.Basic
import Mathlib.Logic.Function.Basic
import Mathlib.Order.Lattice
import Mathlib.Tactic.Common

/-!
# Two cascaded interrupt controllers

An 8259A with edge-triggered inputs and fixed priorities, and the pair of a PC: eight lines on the
master, of which number 2 is the output of the slave, and eight on the slave. Writes to the four ports
go through the initialization sequence (`Chip.writeCommand`, `Chip.writeData`); of the commands after
it the one modelled is the non-specific end of interrupt.

`Pair.acknowledge` is what the processor does when it takes an interrupt. For a pair that has been set
up (`Pair.Ready`) and has nothing in service (`Pair.Idle`) it takes the line of the highest priority
among those with a request (`acknowledge_iff`), and nothing is in service again after the
end-of-interrupt commands for it, however many of them there are (`InService.ends`).
-/

namespace Neutrino.Lib.Pic

/-! ## One controller -/

/-- What the data port expects. -/
inductive Phase where
  | icw2 (single needsIcw4 : Bool)
  | icw3 (needsIcw4 : Bool)
  | icw4
  | ready
  deriving DecidableEq, Repr

structure Chip where
  phase : Phase
  /-- The vector of line 0. -/
  base : UInt8
  /-- For the master the lines slaves are on, for a slave the number of its line. -/
  links : UInt8
  masked : Fin 8 → Bool
  requests : Fin 8 → Bool
  inService : Fin 8 → Bool
  autoEoi : Bool
  x86Mode : Bool

namespace Chip

/-- The request that the controller would pass on next; line 0 goes first. One that is in service keeps
back those behind it. -/
def next (c : Chip) (lines : Fin 8 → Bool) : Option (Fin 8) :=
  match Fin.find? (fun i => lines i && !c.masked i), Fin.find? c.inService with
  | some i, none => some i
  | some i, some j => if i < j then some i else none
  | none, _ => none

/-- The vector of line `i`, which only a controller that was told of its processor puts on the bus. -/
def vector (c : Chip) (i : Fin 8) : Option UInt8 :=
  if c.x86Mode then some (c.base + UInt8.ofNat i) else none

/-- The processor takes the interrupt of line `i`. -/
def accept (c : Chip) (i : Fin 8) : Chip :=
  { c with requests := Function.update c.requests i false,
           inService := if c.autoEoi then c.inService else Function.update c.inService i true }

/-- The one of the highest priority is not in service any more. -/
def endOfInterrupt (c : Chip) : Chip :=
  match Fin.find? c.inService with
  | some i => { c with inService := Function.update c.inService i false }
  | none => c

/-- The first initialization word resets the edge detectors and the mask. -/
def writeCommand (c : Chip) (data : UInt8) : Chip :=
  if data &&& 0x10 ≠ 0 then
    { c with phase := .icw2 (data &&& 0x02 ≠ 0) (data &&& 0x01 ≠ 0),
             masked := fun _ => false,
             requests := fun _ => false,
             autoEoi := c.autoEoi && data &&& 0x01 ≠ 0,
             x86Mode := c.x86Mode && data &&& 0x01 ≠ 0 }
  else if data = 0x20 then
    c.endOfInterrupt
  else
    c

def writeData (c : Chip) (data : UInt8) : Chip :=
  match c.phase with
  | .icw2 single needsIcw4 =>
      { c with base := data &&& 0xF8,
               phase := if !single then .icw3 needsIcw4 else if needsIcw4 then .icw4 else .ready }
  | .icw3 needsIcw4 => { c with links := data, phase := if needsIcw4 then .icw4 else .ready }
  | .icw4 =>
      { c with autoEoi := data &&& 0x02 ≠ 0, x86Mode := data &&& 0x01 ≠ 0, phase := .ready }
  | .ready => { c with masked := fun i => data &&& (1 <<< UInt8.ofNat i) ≠ 0 }

end Chip

/-! ## The pair -/

structure Pair where
  master : Chip
  slave : Chip

namespace Pair

def write (p : Pair) (port : UInt16) (data : UInt8) : Pair :=
  if port = 0x20 then { p with master := p.master.writeCommand data }
  else if port = 0x21 then { p with master := p.master.writeData data }
  else if port = 0xA0 then { p with slave := p.slave.writeCommand data }
  else if port = 0xA1 then { p with slave := p.slave.writeData data }
  else p

def writes (p : Pair) (ws : List (UInt16 × UInt8)) : Pair :=
  ws.foldl (fun p w => p.write w.1 w.2) p

/-- A device raises its line. There is none on line 2. -/
def raise (p : Pair) (irq : Fin 16) : Pair :=
  if h : irq.val < 8 then
    { p with master :=
        { p.master with requests := Function.update p.master.requests ⟨irq, h⟩ true } }
  else
    { p with slave :=
        { p.slave with requests := Function.update p.slave.requests ⟨irq - 8, by omega⟩ true } }

/-- What the master sees: on line 2, whether the slave has something to pass on. -/
def lines (p : Pair) : Fin 8 → Bool :=
  Function.update p.master.requests 2 (p.slave.next p.slave.requests).isSome

/-- The processor takes an interrupt, if there is one, and is told its vector, by the slave if the master
asks for it by its number. -/
def acknowledge (p : Pair) : Option (Pair × UInt8) := do
  let i ← p.master.next p.lines
  if p.master.links &&& (1 <<< UInt8.ofNat i) = 0 then
    let vector ← p.master.vector i
    return ({ p with master := p.master.accept i }, vector)
  else if p.slave.links = UInt8.ofNat i then
    let j ← p.slave.next p.slave.requests
    let vector ← p.slave.vector j
    return (⟨p.master.accept i, p.slave.accept j⟩, vector)
  else
    none

/-- The line has a request that was not taken yet. -/
def pending (p : Pair) (irq : Fin 16) : Bool :=
  if h : irq.val < 8 then irq.val ≠ 2 && p.master.requests ⟨irq, h⟩
  else p.slave.requests ⟨irq - 8, by omega⟩

/-- The order in which lines are served: those of the slave come in place of line 2. -/
def rank (irq : Fin 16) : Nat :=
  if irq.val < 2 then irq.val else if irq.val < 8 then irq.val + 8 else irq.val - 6

end Pair

/-! ## Which line is next -/

/-- The register with at most one bit set. -/
def only : Option (Fin 8) → Fin 8 → Bool
  | none => fun _ => false
  | some i => Function.update (fun _ => false) i true

theorem find?_only (i : Option (Fin 8)) : Fin.find? (only i) = i := by
  cases i with
  | none => decide
  | some i =>
      revert i
      decide

theorem update_only (i : Fin 8) : Function.update (only (some i)) i false = only none := by
  unfold only
  rw [Function.update_idem]
  exact Function.update_eq_self i _

namespace Chip

variable {c : Chip} {lines : Fin 8 → Bool}

/-- **The first of the lines** with a request, when nothing is masked or in service. -/
theorem next_eq_some_iff (hmask : ∀ i, c.masked i = false) (hidle : c.inService = only none)
    {i : Fin 8} : c.next lines = some i ↔ lines i = true ∧ ∀ j, j < i → lines j = false := by
  have hlines : (fun i => lines i && !c.masked i) = lines := by
    funext i
    rw [hmask, Bool.not_false, Bool.and_true]
  have hnext : c.next lines = Fin.find? lines := by
    unfold next
    rw [hidle, find?_only, hlines]
    split
    · next h _ => exact h.symm
    · next h => cases h
    · next h => exact h.symm
  rw [hnext, Fin.find?_eq_some_iff]

theorem next_eq_none (hnone : ∀ i, lines i = false) : c.next lines = none := by
  have hfind : Fin.find? (fun i => lines i && !c.masked i) = none := by
    rw [Fin.find?_eq_none_iff]
    intro i
    rw [hnone i, Bool.false_and]
  unfold next
  rw [hfind]

theorem accept_eq (heoi : c.autoEoi = false) (hidle : c.inService = only none) (i : Fin 8) :
    c.accept i =
      { c with requests := Function.update c.requests i false, inService := only (some i) } := by
  unfold accept
  rw [heoi, hidle]
  rfl

/-- Whatever was in service, nothing is after it. -/
theorem endOfInterrupt_eq {i : Option (Fin 8)} (h : c.inService = only i) :
    c.endOfInterrupt = { c with inService := only none } := by
  unfold endOfInterrupt
  rw [h, find?_only]
  cases i with
  | none =>
      rw [← h]
  | some i =>
      show { c with inService := Function.update (only (some i)) i false } = _
      rw [update_only]

/-- The four initialization words, and no mask. -/
theorem setup_eq (c : Chip) (base links : UInt8) :
    ((((c.writeCommand 0x11).writeData base).writeData links).writeData 0x01).writeData 0x00 =
      { phase := .ready, base := base &&& 0xF8, links := links, masked := fun _ => false,
        requests := fun _ => false, inService := c.inService, autoEoi := false, x86Mode := true } := by
  have hmask : (fun i : Fin 8 => decide ((0x00 : UInt8) &&& (1 <<< UInt8.ofNat i) ≠ 0)) =
      fun _ => false := by
    funext i
    revert i
    decide
  have hrun : ((((c.writeCommand 0x11).writeData base).writeData links).writeData 0x01).writeData 0x00 =
      { phase := .ready, base := base &&& 0xF8, links := links,
        masked := fun i => (0x00 : UInt8) &&& (1 <<< UInt8.ofNat i) ≠ 0, requests := fun _ => false,
        inService := c.inService, autoEoi := false, x86Mode := true } := rfl
  rw [hrun, hmask]

end Chip

/-! ## A pair that was set up -/

namespace Pair

/-- Set up to deliver lines 0 to 7 as `base` and up, the others as `base'` and up. -/
structure Ready (p : Pair) (base base' : UInt8) : Prop where
  masterBase : p.master.base = base
  slaveBase : p.slave.base = base'
  masterLinks : p.master.links = 0x04
  slaveLinks : p.slave.links = 0x02
  masterMask : ∀ i, p.master.masked i = false
  slaveMask : ∀ i, p.slave.masked i = false
  masterEoi : p.master.autoEoi = false
  slaveEoi : p.slave.autoEoi = false
  masterMode : p.master.x86Mode = true
  slaveMode : p.slave.x86Mode = true

/-- The processor is in none of the handlers. -/
structure Idle (p : Pair) : Prop where
  master : p.master.inService = only none
  slave : p.slave.inService = only none

/-- Which lines of the two are in service while `irq` is. -/
def masterLine (irq : Fin 16) : Fin 8 := if h : irq.val < 8 then ⟨irq, h⟩ else 2

def slaveLine (irq : Fin 16) : Option (Fin 8) :=
  if irq.val < 8 then none else some ⟨irq - 8, by omega⟩

/-- It is in the handler for `irq`. -/
structure InService (p : Pair) (irq : Fin 16) : Prop where
  master : p.master.inService = only (some (masterLine irq))
  slave : p.slave.inService = only (slaveLine irq)

/-- The request of a line is taken back. -/
def withdraw (p : Pair) (irq : Fin 16) : Pair :=
  if h : irq.val < 8 then
    { p with master :=
        { p.master with requests := Function.update p.master.requests ⟨irq, h⟩ false } }
  else
    ⟨{ p.master with requests := Function.update p.master.requests 2 false },
      { p.slave with requests := Function.update p.slave.requests ⟨irq - 8, by omega⟩ false }⟩

/-- These lines are in service. -/
def serving (p : Pair) (i j : Option (Fin 8)) : Pair :=
  ⟨{ p.master with inService := only i }, { p.slave with inService := only j }⟩

def vectorOf (base base' : UInt8) (irq : Fin 16) : UInt8 :=
  if irq.val < 8 then base + UInt8.ofNat irq else base' + UInt8.ofNat (irq - 8)

/-! ### Lines of the master and lines of the slave -/

def low (i : Fin 8) : Fin 16 := ⟨i, by omega⟩

def high (j : Fin 8) : Fin 16 := ⟨j + 8, by omega⟩

theorem low_or_high (irq : Fin 16) : (∃ i, irq = low i) ∨ ∃ j, irq = high j := by
  by_cases h : irq.val < 8
  · exact .inl ⟨⟨irq, h⟩, rfl⟩
  · exact .inr ⟨⟨irq - 8, by omega⟩, Fin.ext (by show _ = irq.val - 8 + 8; omega)⟩

theorem high_not_low (j : Fin 8) : ¬ (high j).val < 8 := Nat.not_lt.mpr (Nat.le_add_left 8 j)

theorem high_sub (j : Fin 8) (h : (high j).val - 8 < 8) : (⟨(high j).val - 8, h⟩ : Fin 8) = j :=
  Fin.ext (Nat.add_sub_cancel (n := j.val) (m := 8))

section Ready

variable {p : Pair} {base base' : UInt8} {irq : Fin 16} {i j : Fin 8}

theorem low_ne_two (i : Fin 8) : (low i).val ≠ 2 ↔ i ≠ 2 := by
  revert i
  decide

theorem pending_low (p : Pair) (i : Fin 8) :
    p.pending (low i) = (decide (i ≠ 2) && p.master.requests i) := by
  unfold pending
  rw [dif_pos (show (low i).val < 8 from i.isLt), decide_eq_decide.mpr (low_ne_two i)]
  rfl

theorem pending_high (p : Pair) (j : Fin 8) : p.pending (high j) = p.slave.requests j := by
  unfold pending
  rw [dif_neg (high_not_low j), high_sub]

/-- Lines are served from the lowest to the highest, those of the slave in place of line 2. -/
theorem rank_low_low {k i : Fin 8} : k < i → rank (low k) < rank (low i) := by
  revert k i
  decide

theorem rank_high_high {k j : Fin 8} : k < j → rank (high k) < rank (high j) := by
  revert k j
  decide

theorem rank_low_high {k : Fin 8} (j : Fin 8) : k < 2 → rank (low k) < rank (high j) := by
  revert k j
  decide

theorem rank_high_low {i : Fin 8} (j : Fin 8) : 2 < i → rank (high j) < rank (low i) := by
  revert i j
  decide

theorem withdraw_low (p : Pair) (i : Fin 8) :
    p.withdraw (low i) =
      { p with master := { p.master with requests := Function.update p.master.requests i false } } :=
  dif_pos (show (low i).val < 8 from i.isLt)

theorem withdraw_high (p : Pair) (j : Fin 8) :
    p.withdraw (high j) =
      ⟨{ p.master with requests := Function.update p.master.requests 2 false },
        { p.slave with requests := Function.update p.slave.requests j false }⟩ := by
  unfold withdraw
  rw [dif_neg (high_not_low j), high_sub]

theorem masterLine_low (i : Fin 8) : masterLine (low i) = i := dif_pos (show (low i).val < 8 from i.isLt)

theorem masterLine_high (j : Fin 8) : masterLine (high j) = 2 := dif_neg (high_not_low j)

theorem slaveLine_low (i : Fin 8) : slaveLine (low i) = none := if_pos (show (low i).val < 8 from i.isLt)

theorem slaveLine_high (j : Fin 8) : slaveLine (high j) = some j := by
  unfold slaveLine
  rw [if_neg (high_not_low j), high_sub]

theorem vectorOf_low (base base' : UInt8) (i : Fin 8) :
    vectorOf base base' (low i) = base + UInt8.ofNat i :=
  if_pos (show (low i).val < 8 from i.isLt)

theorem vectorOf_high (base base' : UInt8) (j : Fin 8) :
    vectorOf base base' (high j) = base' + UInt8.ofNat j := by
  unfold vectorOf
  rw [if_neg (high_not_low j)]
  exact congrArg (fun n => base' + UInt8.ofNat n) (Nat.add_sub_cancel (n := j.val) (m := 8))

theorem lines_ne (h : i ≠ 2) : p.lines i = p.master.requests i := Function.update_of_ne h _ _

theorem lines_two (p : Pair) : p.lines 2 = (p.slave.next p.slave.requests).isSome :=
  Function.update_self _ _ _

/-- Only the links to the slave lead to it. -/
theorem link_iff (i : Fin 8) : (0x04 : UInt8) &&& (1 <<< UInt8.ofNat i) = 0 ↔ i ≠ 2 := by
  revert i
  decide

/-- **The master asks for its first line**, where that is not the slave. -/
theorem master_next_low (h : p.Ready base base') (hidle : p.Idle)
    (hpending : p.pending (low i) = true)
    (hfirst : ∀ irq, p.pending irq = true → rank (low i) ≤ rank irq) :
    i ≠ 2 ∧ p.master.next p.lines = some i := by
  rw [pending_low, Bool.and_eq_true, decide_eq_true_eq] at hpending
  obtain ⟨hne, hreq⟩ := hpending
  refine ⟨hne, ?_⟩
  rw [Chip.next_eq_some_iff h.masterMask hidle.master, lines_ne hne]
  refine ⟨hreq, fun k hk => ?_⟩
  by_contra hline
  rw [Bool.not_eq_false] at hline
  by_cases hk2 : k = 2
  · rw [hk2, lines_two] at hline
    obtain ⟨j, hj⟩ := Option.isSome_iff_exists.mp hline
    have hjreq := ((Chip.next_eq_some_iff h.slaveMask hidle.slave).mp hj).1
    rw [← pending_high] at hjreq
    exact absurd (rank_high_low j (hk2 ▸ hk)) (Nat.not_lt.mpr (hfirst _ hjreq))
  · have hkreq : p.pending (low k) = true := by
      rw [lines_ne hk2] at hline
      rw [pending_low, hline, decide_eq_true hk2]
      rfl
    exact absurd (rank_low_low hk) (Nat.not_lt.mpr (hfirst _ hkreq))

/-- **The master asks for the slave**, and the slave for its first line. -/
theorem master_next_high (h : p.Ready base base') (hidle : p.Idle)
    (hpending : p.pending (high j) = true)
    (hfirst : ∀ irq, p.pending irq = true → rank (high j) ≤ rank irq) :
    p.slave.next p.slave.requests = some j ∧ p.master.next p.lines = some 2 := by
  rw [pending_high] at hpending
  have hslave : p.slave.next p.slave.requests = some j := by
    rw [Chip.next_eq_some_iff h.slaveMask hidle.slave]
    refine ⟨hpending, fun k hk => ?_⟩
    by_contra hreq
    rw [Bool.not_eq_false, ← pending_high] at hreq
    exact absurd (rank_high_high hk) (Nat.not_lt.mpr (hfirst _ hreq))
  refine ⟨hslave, ?_⟩
  rw [Chip.next_eq_some_iff h.masterMask hidle.master, lines_two, hslave]
  refine ⟨rfl, fun k hk => ?_⟩
  have hne : k ≠ 2 := Fin.ne_of_lt hk
  by_contra hline
  rw [Bool.not_eq_false, lines_ne hne] at hline
  have hkreq : p.pending (low k) = true := by
    rw [pending_low, hline, decide_eq_true hne]
    rfl
  exact absurd (rank_low_high j hk) (Nat.not_lt.mpr (hfirst _ hkreq))

/-- **Taking an interrupt.** -/
theorem acknowledge_of_first (h : p.Ready base base') (hidle : p.Idle) (hpending : p.pending irq = true)
    (hfirst : ∀ irq', p.pending irq' = true → rank irq ≤ rank irq') :
    p.acknowledge = some ((p.withdraw irq).serving (some (masterLine irq)) (slaveLine irq),
      vectorOf base base' irq) := by
  rcases low_or_high irq with ⟨i, rfl⟩ | ⟨j, rfl⟩
  · obtain ⟨hne, hnext⟩ := master_next_low h hidle hpending hfirst
    have hslave : { p.slave with inService := only none } = p.slave := by rw [← hidle.slave]
    unfold acknowledge
    rw [hnext, Option.bind_eq_bind, Option.bind_some]
    rw [h.masterLinks, if_pos ((link_iff i).mpr hne), Chip.vector, if_pos h.masterMode, h.masterBase,
      Chip.accept_eq h.masterEoi hidle.master, withdraw_low, masterLine_low, slaveLine_low, vectorOf_low,
      serving, hslave]
    rfl
  · obtain ⟨hslave, hnext⟩ := master_next_high h hidle hpending hfirst
    unfold acknowledge
    rw [hnext, Option.bind_eq_bind, Option.bind_some]
    rw [h.masterLinks, if_neg (by decide), h.slaveLinks, if_pos (by decide), hslave,
      Option.bind_eq_bind, Option.bind_some]
    rw [Chip.vector, if_pos h.slaveMode, h.slaveBase, Chip.accept_eq h.masterEoi hidle.master,
      Chip.accept_eq h.slaveEoi hidle.slave, withdraw_high, masterLine_high, slaveLine_high,
      vectorOf_high]
    rfl

theorem acknowledge_none (hnone : ∀ irq, p.pending irq = false) : p.acknowledge = none := by
  have hlines : ∀ i, p.lines i = false := by
    intro i
    by_cases hi : i = 2
    · rw [hi, lines_two, Chip.next_eq_none fun j => (pending_high p j).symm.trans (hnone _)]
      rfl
    · have hlow := hnone (low i)
      rw [pending_low, decide_eq_true hi, Bool.true_and] at hlow
      rw [lines_ne hi, hlow]
  unfold acknowledge
  rw [Chip.next_eq_none hlines]
  rfl

/-- There is a first line, where there is one at all. -/
theorem exists_first (hpending : p.pending irq = true) :
    ∃ irq, p.pending irq = true ∧ ∀ irq', p.pending irq' = true → rank irq ≤ rank irq' := by
  induction hn : rank irq using Nat.strongRecOn generalizing irq with
  | ind n ih =>
      by_cases hmin : ∀ irq', p.pending irq' = true → rank irq ≤ rank irq'
      · exact ⟨irq, hpending, hmin⟩
      · push Not at hmin
        obtain ⟨irq', hpending', hlt⟩ := hmin
        exact ih _ (hn ▸ hlt) hpending' rfl

/-- **Which interrupt is taken**: the one of the first line that has a request. -/
theorem acknowledge_iff (h : p.Ready base base') (hidle : p.Idle) {out : Pair × UInt8} :
    p.acknowledge = some out ↔ ∃ irq, p.pending irq = true ∧
      (∀ irq', p.pending irq' = true → rank irq ≤ rank irq') ∧
      out = ((p.withdraw irq).serving (some (masterLine irq)) (slaveLine irq),
        vectorOf base base' irq) := by
  constructor
  · intro hack
    have hsome : ∃ irq, p.pending irq = true := by
      by_contra hnone
      push Not at hnone
      rw [acknowledge_none fun irq => Bool.not_eq_true _ ▸ hnone irq] at hack
      cases hack
    obtain ⟨irq, hpending⟩ := hsome
    obtain ⟨irq, hpending, hfirst⟩ := exists_first hpending
    rw [acknowledge_of_first h hidle hpending hfirst] at hack
    exact ⟨irq, hpending, hfirst, (Option.some.inj hack).symm⟩
  · rintro ⟨irq, hpending, hfirst, rfl⟩
    exact acknowledge_of_first h hidle hpending hfirst

/-! ### What stays set up -/

theorem Ready.with (h : p.Ready base base') (r s r' s' : Fin 8 → Bool) :
    Pair.Ready ⟨{ p.master with requests := r, inService := s },
      { p.slave with requests := r', inService := s' }⟩ base base' :=
  ⟨h.masterBase, h.slaveBase, h.masterLinks, h.slaveLinks, h.masterMask, h.slaveMask, h.masterEoi,
    h.slaveEoi, h.masterMode, h.slaveMode⟩

theorem raise_low (p : Pair) (i : Fin 8) :
    p.raise (low i) =
      { p with master := { p.master with requests := Function.update p.master.requests i true } } :=
  dif_pos (show (low i).val < 8 from i.isLt)

theorem raise_high (p : Pair) (j : Fin 8) :
    p.raise (high j) =
      { p with slave := { p.slave with requests := Function.update p.slave.requests j true } } := by
  unfold raise
  rw [dif_neg (high_not_low j), high_sub]

theorem Ready.raise (h : p.Ready base base') (irq : Fin 16) : (p.raise irq).Ready base base' := by
  rcases low_or_high irq with ⟨i, rfl⟩ | ⟨j, rfl⟩
  · rw [raise_low]
    exact h.with _ p.master.inService p.slave.requests p.slave.inService
  · rw [raise_high]
    exact h.with p.master.requests p.master.inService _ p.slave.inService

theorem Ready.withdraw (h : p.Ready base base') (irq : Fin 16) : (p.withdraw irq).Ready base base' := by
  rcases low_or_high irq with ⟨i, rfl⟩ | ⟨j, rfl⟩
  · rw [withdraw_low]
    exact h.with _ p.master.inService p.slave.requests p.slave.inService
  · rw [withdraw_high]
    exact h.with _ p.master.inService _ p.slave.inService

theorem Idle.raise (h : p.Idle) (irq : Fin 16) : (p.raise irq).Idle := by
  rcases low_or_high irq with ⟨i, rfl⟩ | ⟨j, rfl⟩
  · rw [raise_low]
    exact ⟨h.master, h.slave⟩
  · rw [raise_high]
    exact ⟨h.master, h.slave⟩

theorem InService.raise (h : p.InService irq) (irq' : Fin 16) : (p.raise irq').InService irq := by
  rcases low_or_high irq' with ⟨i, rfl⟩ | ⟨j, rfl⟩
  · rw [raise_low]
    exact ⟨h.master, h.slave⟩
  · rw [raise_high]
    exact ⟨h.master, h.slave⟩

theorem inService_serving (p : Pair) (irq : Fin 16) :
    (p.serving (some (masterLine irq)) (slaveLine irq)).InService irq := ⟨rfl, rfl⟩

theorem idle_serving (p : Pair) : (p.serving none none).Idle := ⟨rfl, rfl⟩

theorem Ready.serving (h : p.Ready base base') (a b : Option (Fin 8)) :
    (p.serving a b).Ready base base' :=
  h.with p.master.requests (only a) p.slave.requests (only b)

/-! ### What is pending -/

theorem low_ne_high (i j : Fin 8) : low i ≠ high j := by
  revert i j
  decide

theorem low_inj {i k : Fin 8} : low i = low k ↔ i = k := by
  revert i k
  decide

theorem high_inj {j k : Fin 8} : high j = high k ↔ j = k := by
  revert j k
  decide

theorem high_ne_two (j : Fin 8) : (high j).val ≠ 2 := by
  revert j
  decide

/-- A new request. -/
theorem pending_raise (p : Pair) (irq irq' : Fin 16) :
    (p.raise irq).pending irq' = if irq' = irq then decide (irq.val ≠ 2) else p.pending irq' := by
  rcases low_or_high irq with ⟨i, rfl⟩ | ⟨j, rfl⟩
  · rw [raise_low]
    rcases low_or_high irq' with ⟨k, rfl⟩ | ⟨k, rfl⟩
    · rw [pending_low, pending_low]
      change (decide (k ≠ 2) && Function.update p.master.requests i true k) = _
      rw [Function.update_apply]
      by_cases hk : k = i
      · rw [hk, if_pos rfl, if_pos rfl, Bool.and_true, decide_eq_decide.mpr (low_ne_two i).symm]
      · rw [if_neg hk, if_neg fun h => hk (low_inj.mp h)]
    · rw [if_neg (low_ne_high i k).symm, pending_high, pending_high]
  · rw [raise_high]
    rcases low_or_high irq' with ⟨k, rfl⟩ | ⟨k, rfl⟩
    · rw [if_neg (low_ne_high k j), pending_low, pending_low]
    · rw [pending_high, pending_high]
      change Function.update p.slave.requests j true k = _
      rw [Function.update_apply]
      by_cases hk : k = j
      · rw [hk, if_pos rfl, if_pos rfl, decide_eq_true (high_ne_two j)]
      · rw [if_neg hk, if_neg fun h => hk (high_inj.mp h)]

theorem pending_withdraw (p : Pair) (irq irq' : Fin 16) :
    (p.withdraw irq).pending irq' = if irq' = irq then false else p.pending irq' := by
  rcases low_or_high irq with ⟨i, rfl⟩ | ⟨j, rfl⟩
  · rw [withdraw_low]
    rcases low_or_high irq' with ⟨k, rfl⟩ | ⟨k, rfl⟩
    · rw [pending_low, pending_low]
      change (decide (k ≠ 2) && Function.update p.master.requests i false k) = _
      rw [Function.update_apply]
      by_cases hk : k = i
      · rw [hk, if_pos rfl, if_pos rfl, Bool.and_false]
      · rw [if_neg hk, if_neg fun h => hk (low_inj.mp h)]
    · rw [if_neg (low_ne_high i k).symm, pending_high, pending_high]
  · rw [withdraw_high]
    rcases low_or_high irq' with ⟨k, rfl⟩ | ⟨k, rfl⟩
    · rw [if_neg (low_ne_high k j), pending_low, pending_low]
      change (decide (k ≠ 2) && Function.update p.master.requests 2 false k) = _
      rw [Function.update_apply]
      by_cases hk : k = 2
      · rw [hk]
        rfl
      · rw [if_neg hk]
    · rw [pending_high, pending_high]
      change Function.update p.slave.requests j false k = _
      rw [Function.update_apply]
      by_cases hk : k = j
      · rw [hk, if_pos rfl, if_pos rfl]
      · rw [if_neg hk, if_neg fun h => hk (high_inj.mp h)]

theorem pending_serving (p : Pair) (a b : Option (Fin 8)) : (p.serving a b).pending = p.pending := rfl

/-! ## Ends of interrupts -/

/-- The two commands, with the ports they go to. -/
def masterEoi : UInt16 × UInt8 := (0x20, 0x20)

def slaveEoi : UInt16 × UInt8 := (0xA0, 0x20)

theorem eoi_command (c : Chip) : c.writeCommand 0x20 = c.endOfInterrupt := rfl

theorem write_masterEoi (p : Pair) (a b : Option (Fin 8)) :
    (p.serving a b).write 0x20 0x20 = p.serving none b := by
  show ({ p.serving a b with master := (p.serving a b).master.writeCommand 0x20 } : Pair) = _
  rw [eoi_command, Chip.endOfInterrupt_eq rfl]
  rfl

theorem write_slaveEoi (p : Pair) (a b : Option (Fin 8)) :
    (p.serving a b).write 0xA0 0x20 = p.serving a none := by
  show ({ p.serving a b with slave := (p.serving a b).slave.writeCommand 0x20 } : Pair) = _
  rw [eoi_command, Chip.endOfInterrupt_eq rfl]
  rfl

/-- **Any number of these commands**, in any order: a controller that got one has nothing in service. -/
theorem writes_eois (p : Pair) (ws : List (UInt16 × UInt8)) :
    ∀ (a b : Option (Fin 8)), (∀ w ∈ ws, w = masterEoi ∨ w = slaveEoi) →
      (p.serving a b).writes ws =
        p.serving (if masterEoi ∈ ws then none else a) (if slaveEoi ∈ ws then none else b) := by
  induction ws with
  | nil =>
      intro a b _
      rfl
  | cons w ws ih =>
      intro a b hws
      obtain ⟨hw, hrest⟩ := List.forall_mem_cons.mp hws
      have hcons : (p.serving a b).writes (w :: ws) = ((p.serving a b).write w.1 w.2).writes ws := rfl
      have hne : masterEoi ≠ slaveEoi := by decide
      rw [hcons]
      rcases hw with rfl | rfl
      · show ((p.serving a b).write 0x20 0x20).writes ws = _
        rw [write_masterEoi, ih none b hrest, ite_self, if_pos List.mem_cons_self]
        simp only [List.mem_cons, hne.symm, false_or]
      · show ((p.serving a b).write 0xA0 0x20).writes ws = _
        rw [write_slaveEoi, ih a none hrest, ite_self, if_pos (List.mem_cons_self (a := slaveEoi))]
        simp only [List.mem_cons, hne, false_or]

theorem serving_self {a b : Option (Fin 8)} (hmaster : p.master.inService = only a)
    (hslave : p.slave.inService = only b) : p.serving a b = p := by
  have hmaster' : { p.master with inService := only a } = p.master := by rw [← hmaster]
  have hslave' : { p.slave with inService := only b } = p.slave := by rw [← hslave]
  unfold serving
  rw [hmaster', hslave']

/-- **After an interrupt nothing is in service**, if each controller it came through was sent a command. -/
theorem InService.ends (h : p.InService irq) {ws : List (UInt16 × UInt8)}
    (hws : ∀ w ∈ ws, w = masterEoi ∨ w = slaveEoi) (hmaster : masterEoi ∈ ws)
    (hslave : 8 ≤ irq.val → slaveEoi ∈ ws) : p.writes ws = p.serving none none := by
  have hnone : (if slaveEoi ∈ ws then none else slaveLine irq) = none := by
    split
    · rfl
    · next hnot =>
        unfold slaveLine
        rw [if_pos (Nat.lt_of_not_le fun h => hnot (hslave h))]
  rw [← serving_self h.master h.slave, writes_eois _ ws _ _ hws, if_pos hmaster, hnone]
  rfl

/-- Writes to other ports do not reach the controllers. -/
theorem writes_elsewhere (ws : List (UInt16 × UInt8)) :
    ∀ {p : Pair}, (∀ w ∈ ws, w.1 ≠ 0x20 ∧ w.1 ≠ 0x21 ∧ w.1 ≠ 0xA0 ∧ w.1 ≠ 0xA1) → p.writes ws = p := by
  induction ws with
  | nil => exact fun _ => rfl
  | cons w ws ih =>
      intro p hws
      obtain ⟨⟨h20, h21, hA0, hA1⟩, hrest⟩ := List.forall_mem_cons.mp hws
      show (p.write w.1 w.2).writes ws = p
      rw [write, if_neg h20, if_neg h21, if_neg hA0, if_neg hA1]
      exact ih hrest

end Ready

end Pair

end Neutrino.Lib.Pic
