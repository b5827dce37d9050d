import Neutrino.Drivers.Keyboard
import Neutrino.Drivers.Timer
import Neutrino.Lib.Run
import Neutrino.System.Ports

/-!
# Interrupt requests and their acknowledgement

`irq_handler` runs the routine installed for a request and then acknowledges it: at the master
controller, and for the requests 8 to 15 at the slave first. The two routines of the ATA driver
acknowledge the request themselves before that. So the controllers get one acknowledgement for each
request, except for 14 and 15, which get two (`acknowledged_iff`).

The ports record what is written to them; the reads of port 0x60 give the codes the keyboard sends.
-/

namespace Neutrino.System

open Neutrino.Lib Neutrino.Drivers

/-! ## The machine -/

/-- What was written to the ports, and what the keyboard has still to send. -/
structure PortLog where
  writes : List (UInt16 × UInt8)
  scancodes : List UInt8

/-- No code modelled here reads or writes words, or reads a port other than 0x60. -/
def portLog : Bus PortLog where
  inb port w :=
    if port = 0x60 then (w.scancodes.headD 0, { w with scancodes := w.scancodes.tail })
    else (0xFF, w)
  outb port data w := { w with writes := w.writes ++ [(port, data)] }
  inw _ w := (0xFFFF, w)
  outw _ _ w := w

/-- The functions `irq_routines` points to. -/
inductive IrqRoutine where
  | timerHandler
  | keyboardHandler
  | primaryIrq
  | secondaryIrq
  deriving DecidableEq, Repr

structure Kernel where
  machine : Machine PortLog
  irqRoutines : SlotTable IrqRoutine 16
  clock : Clock
  keyboard : Keyboard

/-- Kernel code, which stops where it goes through a bad pointer. -/
abbrev KernelM := StateT Kernel Option

/-- Port instructions. -/
def io {α : Type} (x : MachineM PortLog α) : KernelM α := fun k =>
  match x k.machine with
  | .ok (r, machine) => some (r, { k with machine := machine })
  | .error _ => none

/-! ## The code -/

def picMasterCmd : UInt16 := 0x20
def picSlaveCmd : UInt16 := 0xA0
def picCmdEoi : UInt8 := 0x20

def irqSendEoi (irq : UInt8) : KernelM Unit := do
  if irq ≥ 8 then
    io (outportb portLog picSlaveCmd picCmdEoi)
  io (outportb portLog picMasterCmd picCmdEoi)

def ataPrimaryIrq : UInt8 := 14
def ataSecondaryIrq : UInt8 := 15

/-- The routines. The state of the CPU they are given is not used by any. -/
def IrqRoutine.run (stray : StrayStore) : IrqRoutine → KernelM Unit
  | .timerHandler => fun k => do
      let clock ← Drivers.timerHandler stray k.clock
      return ((), { k with clock := clock })
  | .keyboardHandler => do
      let scancode ← io (inportb portLog 0x60)
      modify fun k => { k with keyboard := Drivers.keyboardHandler k.keyboard scancode }
  | .primaryIrq => irqSendEoi ataPrimaryIrq
  | .secondaryIrq => irqSendEoi ataSecondaryIrq

def irqInstallHandler (irq : Nat) (handler : IrqRoutine) (routines : SlotTable IrqRoutine 16) :
    SlotTable IrqRoutine 16 :=
  routines.put irq (some handler)

def timerInstall (routines : SlotTable IrqRoutine 16) : SlotTable IrqRoutine 16 :=
  irqInstallHandler 0 .timerHandler routines

def keyboardInstall (routines : SlotTable IrqRoutine 16) : SlotTable IrqRoutine 16 :=
  irqInstallHandler 1 .keyboardHandler routines

/-- What `ata_install` does to the table. -/
def ataInstall (routines : SlotTable IrqRoutine 16) : SlotTable IrqRoutine 16 :=
  irqInstallHandler ataSecondaryIrq.toNat .secondaryIrq
    (irqInstallHandler ataPrimaryIrq.toNat .primaryIrq routines)

/-- `irq_routines` after the three have been called. -/
def installed : SlotTable IrqRoutine 16 :=
  ataInstall (keyboardInstall (timerInstall (SlotTable.empty IrqRoutine 16)))

/-- The call of the handler, if there is one. -/
def callHandler (stray : StrayStore) (intNo : UInt32) : KernelM Unit := fun k =>
  match k.irqRoutines.slot (intNo - 32).toNat with
  | some handler => handler.run stray k
  | none => some ((), k)

/-- Of the saved state the dispatcher uses `int_no` only. -/
def irqHandler (stray : StrayStore) (intNo : UInt32) : KernelM Unit := do
  callHandler stray intNo
  if intNo ≥ 40 then
    io (outportb portLog 0xA0 0x20)
  io (outportb portLog 0x20 0x20)

/-! ## Acknowledgements -/

def Kernel.writes (k : Kernel) : List (UInt16 × UInt8) := k.machine.dev.writes

def masterEois (k : Kernel) : Nat := k.writes.count (picMasterCmd, picCmdEoi)

def slaveEois (k : Kernel) : Nat := k.writes.count (picSlaveCmd, picCmdEoi)

/-- The kernel, and the requests it has handled so far. -/
structure Served where
  kernel : Kernel
  handled : List (Fin 16)

/-- The dispatcher handles request `irq`, which the controllers deliver as vector `32 + irq`. -/
def Dispatch (stray : StrayStore) (s : Served) (irq : Fin 16) (s' : Served) : Prop :=
  irqHandler stray (32 + UInt32.ofNat irq) s.kernel = some ((), s'.kernel) ∧
    s'.handled = s.handled ++ [irq]

/-- Each request was acknowledged once, at each controller it came through. -/
structure Acknowledged (s : Served) : Prop where
  master : masterEois s.kernel = s.handled.length
  slave : slaveEois s.kernel = s.handled.countP fun irq => 8 ≤ irq.val

/-- The request is not one that the ATA driver has a routine for. -/
def NotAta (_ : Served) (irq : Fin 16) (_ : Served) : Prop := irq ≠ 14 ∧ irq ≠ 15

/-- After the installation, in any state of the timer, the tasks and the keyboard. -/
def Served.start (clock : Clock) (keyboard : Keyboard) (mem : ByteMemory) (scancodes : List UInt8) :
    Served :=
  ⟨⟨⟨mem, ⟨[], scancodes⟩, []⟩, installed, clock, keyboard⟩, []⟩

/-! ## What a routine writes -/

section Writes

variable {stray : StrayStore} {k k' : Kernel}

/-- From `k`, `x` adds `new` to what was written, and leaves the table of routines. -/
def Writes (k : Kernel) (x : KernelM Unit) (new : List (UInt16 × UInt8)) : Prop :=
  ∀ k', x k = some ((), k') → k'.writes = k.writes ++ new ∧ k'.irqRoutines = k.irqRoutines

theorem Writes.nil {x : KernelM Unit}
    (h : ∀ k', x k = some ((), k') → k'.machine.dev.writes = k.machine.dev.writes ∧
      k'.irqRoutines = k.irqRoutines) : Writes k x [] := by
  intro k' hrun
  rw [List.append_nil]
  exact h k' hrun

theorem Writes.seq {x y : KernelM Unit} {new new' : List (UInt16 × UInt8)} (hx : Writes k x new)
    (hy : ∀ k', Writes k' y new') : Writes k (do x; y) (new ++ new') := by
  intro k' h
  obtain ⟨⟨⟨⟩, k₁⟩, h₁, h₂⟩ := Option.bind_eq_some_iff.mp h
  obtain ⟨hw₁, ht₁⟩ := hx k₁ h₁
  obtain ⟨hw₂, ht₂⟩ := hy k₁ k' h₂
  refine ⟨?_, ht₂.trans ht₁⟩
  rw [hw₂, hw₁, List.append_assoc]

theorem Writes.outportb (port : UInt16) (data : UInt8) :
    Writes k (io (System.outportb portLog port data)) [(port, data)] := by
  intro k' h
  cases h
  exact ⟨rfl, rfl⟩

/-- The acknowledgements of a request, at the slave if it came through it, and at the master. -/
def eois (atSlave : Bool) : List (UInt16 × UInt8) :=
  (if atSlave then [(picSlaveCmd, picCmdEoi)] else []) ++ [(picMasterCmd, picCmdEoi)]

/-- Both functions that acknowledge end like this. -/
theorem Writes.acknowledge {c : Prop} [Decidable c] :
    Writes k (do
      if c then
        io (System.outportb portLog picSlaveCmd picCmdEoi)
      io (System.outportb portLog picMasterCmd picCmdEoi)) (eois (decide c)) := by
  by_cases hc : c
  · rw [if_pos hc, decide_eq_true hc]
    exact Writes.seq (Writes.outportb _ _) fun _ => Writes.outportb _ _
  · rw [if_neg hc, decide_eq_false hc]
    exact Writes.outportb _ _

theorem irqSendEoi_writes (irq : UInt8) : Writes k (irqSendEoi irq) (eois (8 ≤ irq)) :=
  Writes.acknowledge

/-- Which acknowledgements a routine sends itself. -/
def IrqRoutine.eois : IrqRoutine → List (UInt16 × UInt8)
  | .timerHandler => []
  | .keyboardHandler => []
  | .primaryIrq => System.eois true
  | .secondaryIrq => System.eois true

theorem IrqRoutine.run_writes (handler : IrqRoutine) :
    Writes k (handler.run stray) handler.eois := by
  cases handler with
  | timerHandler =>
      apply Writes.nil
      intro k' h
      obtain ⟨clock, -, hk⟩ := Option.bind_eq_some_iff.mp h
      cases hk
      exact ⟨rfl, rfl⟩
  | keyboardHandler =>
      apply Writes.nil
      intro k' h
      cases h
      exact ⟨rfl, rfl⟩
  | primaryIrq => exact irqSendEoi_writes ataPrimaryIrq
  | secondaryIrq => exact irqSendEoi_writes ataSecondaryIrq

/-- **One dispatch** writes what the routine writes, then one acknowledgement. -/
theorem irqHandler_writes (intNo : UInt32) :
    Writes k (irqHandler stray intNo)
      ((k.irqRoutines.slot (intNo - 32).toNat).elim [] IrqRoutine.eois ++ eois (40 ≤ intNo)) := by
  apply Writes.seq _ fun _ => Writes.acknowledge
  intro k' h
  unfold callHandler at h
  cases hslot : k.irqRoutines.slot (intNo - 32).toNat with
  | none =>
      rw [hslot] at h
      cases h
      exact ⟨(List.append_nil _).symm, rfl⟩
  | some handler =>
      rw [hslot] at h
      exact handler.run_writes k' h

end Writes

/-! ## Runs of interrupts -/

/-- What the controllers are sent for a request, once the routines are installed. -/
def sent (irq : Fin 16) : List (UInt16 × UInt8) :=
  (installed.slot (32 + UInt32.ofNat irq - 32).toNat).elim [] IrqRoutine.eois ++
    eois (40 ≤ 32 + UInt32.ofNat irq)

theorem sent_count (irq : Fin 16) :
    (sent irq).count (picMasterCmd, picCmdEoi) = (if irq = 14 ∨ irq = 15 then 2 else 1) ∧
      (sent irq).count (picSlaveCmd, picCmdEoi) =
        (if irq = 14 ∨ irq = 15 then 2 else if 8 ≤ irq.val then 1 else 0) := by
  revert irq
  decide +kernel

/-- The state runs start in, and lead to as long as all goes well. -/
structure Sound (s : Served) : Prop where
  routines : s.kernel.irqRoutines = installed
  acknowledged : Acknowledged s

theorem Sound.start (clock : Clock) (keyboard : Keyboard) (mem : ByteMemory)
    (scancodes : List UInt8) : Sound (Served.start clock keyboard mem scancodes) where
  routines := rfl
  acknowledged := ⟨rfl, rfl⟩

section Step

variable {stray : StrayStore} {s s' : Served} {irq : Fin 16}

/-- **One request**: what the controllers have been sent after it. -/
theorem Sound.dispatch (h : Sound s) (hstep : Dispatch stray s irq s') :
    s'.kernel.irqRoutines = installed ∧
      masterEois s'.kernel = s.handled.length + (if irq = 14 ∨ irq = 15 then 2 else 1) ∧
      slaveEois s'.kernel = s.handled.countP (fun irq => 8 ≤ irq.val) +
        (if irq = 14 ∨ irq = 15 then 2 else if 8 ≤ irq.val then 1 else 0) := by
  obtain ⟨hwrites, hroutines⟩ := irqHandler_writes _ s'.kernel hstep.1
  rw [h.routines] at hwrites hroutines
  change s'.kernel.writes = s.kernel.writes ++ sent irq at hwrites
  obtain ⟨hmaster, hslave⟩ := sent_count irq
  refine ⟨hroutines, ?_, ?_⟩
  · unfold masterEois
    rw [hwrites, List.count_append, hmaster, ← h.acknowledged.master]
    rfl
  · unfold slaveEois
    rw [hwrites, List.count_append, hslave, ← h.acknowledged.slave]
    rfl

theorem Sound.step (h : Sound s) (hstep : Dispatch stray s irq s') (hok : irq ≠ 14 ∧ irq ≠ 15) :
    Sound s' := by
  obtain ⟨hroutines, hmaster, hslave⟩ := h.dispatch hstep
  rw [if_neg (not_or.mpr hok)] at hmaster hslave
  refine ⟨hroutines, ?_, ?_⟩
  · rw [hmaster, hstep.2, List.length_append]
    rfl
  · rw [hslave, hstep.2, List.countP_append, List.countP_singleton]
    simp only [decide_eq_true_eq]

/-- The two routines of the ATA driver acknowledge once too often. -/
theorem Sound.twice (h : Sound s) (hstep : Dispatch stray s irq s')
    (hata : ¬ (irq ≠ 14 ∧ irq ≠ 15)) : ¬ Acknowledged s' := by
  intro hack
  obtain ⟨-, hmaster, -⟩ := h.dispatch hstep
  rw [if_pos (by tauto), hack.master, hstep.2, List.length_append, List.length_singleton] at hmaster
  omega

end Step

/-- **Every request is acknowledged once**, after every request of a run, exactly when none of them is
14 or 15. -/
theorem acknowledged_iff (stray : StrayStore) (clock : Clock) (keyboard : Keyboard)
    (mem : ByteMemory) (scancodes : List UInt8) (tr : List (Fin 16 × Served))
    (hrun : Steps (Dispatch stray) (Served.start clock keyboard mem scancodes) tr) :
    (∀ s ∈ states (Served.start clock keyboard mem scancodes) tr, Acknowledged s) ↔
      Steps NotAta (Served.start clock keyboard mem scancodes) tr :=
  Steps.forall_states_iff (fun _ h => h.acknowledged) (fun _ _ _ h hstep hok => h.step hstep hok)
    (fun _ _ _ h hstep hata => h.twice hstep hata) (Sound.start clock keyboard mem scancodes) hrun

/-! ## Requests that return -/

section Returns

variable {stray : StrayStore} {k : Kernel}

theorem timer_routine (irq : Fin 16) :
    installed.slot (32 + UInt32.ofNat irq - 32).toNat = some .timerHandler → irq = 0 := by
  revert irq
  decide +kernel

theorem irqSendEoi_returns (irq : UInt8) : ∃ k', irqSendEoi irq k = some ((), k') := by
  unfold irqSendEoi
  split
  · exact ⟨_, rfl⟩
  · exact ⟨_, rfl⟩

theorem irqHandler_returns {intNo : UInt32} {k₁ : Kernel}
    (h : callHandler stray intNo k = some ((), k₁)) :
    ∃ k', irqHandler stray intNo k = some ((), k') := by
  have hrun : irqHandler stray intNo k = (do
      if intNo ≥ 40 then
        io (outportb portLog 0xA0 0x20)
      io (outportb portLog 0x20 0x20) : KernelM Unit) k₁ := by
    show (callHandler stray intNo k).bind _ = _
    rw [h]
    rfl
  rw [hrun]
  split
  · exact ⟨_, rfl⟩
  · exact ⟨_, rfl⟩

/-- Every request is handled to the end; the timer's, when no task is left to be called. -/
theorem dispatch_returns {s : Served} (h : s.kernel.irqRoutines = installed) (irq : Fin 16)
    (hidle : irq = 0 → s.kernel.clock.threads.remTasks = 0) : ∃ s', Dispatch stray s irq s' := by
  have hcall : ∃ k₁, callHandler stray (32 + UInt32.ofNat irq) s.kernel = some ((), k₁) := by
    unfold callHandler
    rw [h]
    cases hslot : installed.slot (32 + UInt32.ofNat irq - 32).toNat with
    | none => exact ⟨_, rfl⟩
    | some handler =>
        cases handler with
        | timerHandler =>
            refine ⟨_, Option.bind_eq_some_iff.mpr ⟨_, timerHandler_idle ?_, rfl⟩⟩
            exact hidle (timer_routine irq hslot)
        | keyboardHandler => exact ⟨_, rfl⟩
        | primaryIrq => exact irqSendEoi_returns ataPrimaryIrq
        | secondaryIrq => exact irqSendEoi_returns ataSecondaryIrq
  obtain ⟨k₁, hk₁⟩ := hcall
  obtain ⟨k', hk'⟩ := irqHandler_returns hk₁
  exact ⟨⟨k', s.handled ++ [irq]⟩, hk', rfl⟩

end Returns

/-- The machine before anything happened. -/
def Served.quiet : Served := Served.start ⟨0, Threads.boot, 0⟩ Keyboard.boot (fun _ => 0) []

theorem keyboard_acknowledged : ∃ s, Steps (Dispatch .faults) Served.quiet [((1 : Fin 16), s)] ∧
    ((∀ t ∈ states Served.quiet [((1 : Fin 16), s)], Acknowledged t) ↔
      Steps NotAta Served.quiet [((1 : Fin 16), s)]) := by
  obtain ⟨s, hstep⟩ := @dispatch_returns .faults Served.quiet rfl 1 fun _ => rfl
  have hrun : Steps (Dispatch .faults) Served.quiet [((1 : Fin 16), s)] := ⟨hstep, trivial⟩
  exact ⟨s, hrun, acknowledged_iff .faults _ _ _ _ _ hrun⟩

/-- One interrupt of the primary ATA channel. -/
theorem primaryAta_not_acknowledged : ∃ s, Steps (Dispatch .faults) Served.quiet [((14 : Fin 16), s)] ∧
    ¬ ∀ t ∈ states Served.quiet [((14 : Fin 16), s)], Acknowledged t := by
  obtain ⟨s, hstep⟩ := @dispatch_returns .faults Served.quiet rfl 14 fun _ => rfl
  refine ⟨s, ⟨hstep, trivial⟩, fun hall => ?_⟩
  have hsound : Sound Served.quiet := Sound.start _ _ _ _
  exact hsound.twice hstep (by decide) (hall s (List.mem_cons_of_mem _ List.mem_cons_self))

end Neutrino.System
