import Neutrino.Lib.Pic8259
import Neutrino.System.Idt
import Neutrino.System.Irq

/-!
# Request lines

`irq_remap` sets the controllers up to deliver their sixteen lines as the vectors 32 to 47, from whatever
state they were in (`ready_of_remap`), so that a request leads through the descriptor table and its stub to
its own entry of `irq_routines` (`request_routed`).

Together the controllers and the dispatcher are a queue of sixteen lines (`Queue`): a request waits
until it is the first in the order of priorities, nothing else is taken, and after each handler the next one
can be. This is so for every run from the installation on (`lines_refine`), with any routines installed:
those of the ATA driver acknowledge twice, but by the second time nothing is in service that could be
acknowledged by mistake, as handlers do not interrupt each other.
-/

namespace Neutrino.System

open Neutrino.Lib Neutrino.Lib.Pic

/-! ## The code -/

def irqRemap : KernelM Unit := do
  io (outportb portLog 0x20 0x11)
  io (outportb portLog 0xA0 0x11)
  io (outportb portLog 0x21 0x20)
  io (outportb portLog 0xA1 0x28)
  io (outportb portLog 0x21 0x04)
  io (outportb portLog 0xA1 0x02)
  io (outportb portLog 0x21 0x01)
  io (outportb portLog 0xA1 0x01)
  io (outportb portLog 0x21 0x0)
  io (outportb portLog 0xA1 0x0)

/-- Code that works on memory only. -/
def onMemory {α : Type} (f : ByteMemory → α × ByteMemory) : KernelM α := fun k =>
  some ((f k.machine.mem).1, { k with machine := { k.machine with mem := (f k.machine.mem).2 } })

def irqInstall (idt : Nat) (irq : Fin 16 → UInt32) : KernelM Unit := do
  irqRemap
  onMemory fun m => ((), irqGates idt irq m)

/-- The three calls in `main`, and what `lidt` has loaded. -/
def interruptsInstall (l : IdtLayout) (isr : Fin 32 → UInt32) (irq : Fin 16 → UInt32) :
    KernelM Idtr := do
  let idtr ← onMemory (idtInstall l)
  onMemory fun m => ((), isrsInstall l.idt isr m)
  irqInstall l.idt irq
  return idtr

/-! ## The controllers -/

/-- What `irq_remap` writes. -/
def remapWrites : List (UInt16 × UInt8) :=
  [(0x20, 0x11), (0xA0, 0x11), (0x21, 0x20), (0xA1, 0x28), (0x21, 0x04), (0xA1, 0x02), (0x21, 0x01),
    (0xA1, 0x01), (0x21, 0x0), (0xA1, 0x0)]

theorem irqRemap_writes (k : Kernel) : Writes k irqRemap remapWrites :=
  Writes.seq (Writes.outportb _ _) fun _ => Writes.seq (Writes.outportb _ _) fun _ =>
    Writes.seq (Writes.outportb _ _) fun _ => Writes.seq (Writes.outportb _ _) fun _ =>
    Writes.seq (Writes.outportb _ _) fun _ => Writes.seq (Writes.outportb _ _) fun _ =>
    Writes.seq (Writes.outportb _ _) fun _ => Writes.seq (Writes.outportb _ _) fun _ =>
    Writes.seq (Writes.outportb _ _) fun _ => Writes.outportb _ _

/-- **The controllers after `irq_remap`**, whatever they were doing before. -/
theorem ready_of_remap (p : Pair) :
    (p.writes remapWrites).Ready 0x20 0x28 ∧ (∀ irq, (p.writes remapWrites).pending irq = false) ∧
      (p.writes remapWrites).master.inService = p.master.inService ∧
      (p.writes remapWrites).slave.inService = p.slave.inService := by
  have hrun : p.writes remapWrites =
      ⟨((((p.master.writeCommand 0x11).writeData 0x20).writeData 0x04).writeData 0x01).writeData 0x00,
        ((((p.slave.writeCommand 0x11).writeData 0x28).writeData 0x02).writeData 0x01).writeData 0x00⟩ :=
    rfl
  rw [hrun, Chip.setup_eq, Chip.setup_eq]
  refine ⟨⟨rfl, rfl, rfl, rfl, fun _ => rfl, fun _ => rfl, rfl, rfl, rfl, rfl⟩, fun irq => ?_, rfl, rfl⟩
  rcases Pair.low_or_high irq with ⟨i, rfl⟩ | ⟨j, rfl⟩
  · rw [Pair.pending_low]
    exact Bool.and_false _
  · rw [Pair.pending_high]

/-- The vector of a line. -/
def irqVector (irq : Fin 16) : UInt8 := 32 + UInt8.ofNat irq.val

theorem vectorOf_eq (irq : Fin 16) : Pair.vectorOf 0x20 0x28 irq = irqVector irq := by
  revert irq
  decide

/-! ## The way of a request -/

/-- The vector of a line, as one of those that have a stub. -/
def lineVector (irq : Fin 16) : Fin 48 := ⟨32 + irq, by omega⟩

section Route

variable {l : IdtLayout} {isr : Fin 32 → UInt32} {irq : Fin 16 → UInt32} {k k' : Kernel} {idtr : Idtr}

theorem irqRemap_mem : ∃ k', irqRemap k = some ((), k') ∧ k'.machine.mem = k.machine.mem ∧
    k'.writes = k.writes ++ remapWrites := by
  have hrun : ∃ k', irqRemap k = some ((), k') ∧ k'.machine.mem = k.machine.mem := ⟨_, rfl, rfl⟩
  obtain ⟨k', hremap, hmem⟩ := hrun
  exact ⟨k', hremap, hmem, (irqRemap_writes k k' hremap).1⟩

/-- What the three calls do. -/
theorem interruptsInstall_spec (l : IdtLayout) (isr : Fin 32 → UInt32) (irq : Fin 16 → UInt32)
    (k : Kernel) :
    ∃ k', interruptsInstall l isr irq k = some ((installInterrupts l isr irq k.machine.mem).1, k') ∧
      k'.machine.mem = (installInterrupts l isr irq k.machine.mem).2 ∧
      k'.writes = k.writes ++ remapWrites := by
  obtain ⟨k₁, hremap, hmem, hwrites⟩ := @irqRemap_mem
    { k with machine := { k.machine with
        mem := isrsInstall l.idt isr (idtInstall l k.machine.mem).2 } }
  refine ⟨{ k₁ with machine := { k₁.machine with mem := irqGates l.idt irq k₁.machine.mem } }, ?_, ?_,
    hwrites⟩
  · unfold interruptsInstall irqInstall
    simp only [bind, StateT.bind, onMemory, Option.bind_some]
    rw [hremap]
    rfl
  · show irqGates l.idt irq k₁.machine.mem = _
    rw [hmem]
    rfl

/-- Through the gate the processor comes to the stub of the line, as the handler of all lines is told
which of the routines to call; afterwards the interrupted code goes on as if nothing had been. -/
structure Routed (labels : Labels) (callee : UInt32 → Cpu → Cpu) (g : Gate) (stub : UInt32)
    (n : Fin 16) (c : Cpu) : Prop where
  present : g.present = true
  interrupt : g.isInterrupt = true
  stub : g.offset = stub
  handler : handlerOf labels (lineVector n) = labels.irqHandler
  routine : ((Regs.read (atHandler labels callee (lineVector n)
      (delivered (lineVector n) 0 g.selector g.offset c)).mem
    (argument (atHandler labels callee (lineVector n)
      (delivered (lineVector n) 0 g.selector g.offset c)))).intNo - 32).toNat = n
  transparent : Transparent labels callee (lineVector n)
    (delivered (lineVector n) 0 g.selector g.offset c) c

theorem lineVector_facts (n : Fin 16) : lineVector n ≠ 17 ∧ ¬ (lineVector n).val < 32 ∧
    (irqVector n).toNat = (lineVector n).val ∧ (UInt32.ofNat (lineVector n).val - 32).toNat = n.val := by
  revert n
  decide

theorem routed_of_gate (labels : Labels) (callee : UInt32 → Cpu → Cpu) (n : Fin 16) (c : Cpu)
    (hcallee : PreservesFrame (callee labels.irqHandler) (frameWords (lineVector n))) :
    Routed labels callee (stubGate isr irq (lineVector n)) (irq n) n c := by
  obtain ⟨hne, hge, -, hslot⟩ := lineVector_facts n
  have hhandler : handlerOf labels (lineVector n) = labels.irqHandler := if_neg hge
  have htransparent : Transparent labels callee (lineVector n)
      (delivered (lineVector n) 0 (stubGate isr irq (lineVector n)).selector
        (stubGate isr irq (lineVector n)).offset c) c :=
    transparent_of_ne hne (hhandler.symm ▸ hcallee)
  obtain ⟨hpresent, hinterrupt⟩ := stubGate_present isr irq (lineVector n)
  refine ⟨hpresent, hinterrupt, ?_, hhandler, ?_, htransparent⟩
  · show stubAddress isr irq (lineVector n) = irq n
    unfold stubAddress
    rw [dif_neg hge]
    exact congrArg irq (Fin.ext (Nat.add_sub_cancel_left (n := 32) (m := n.val)))
  · rw [htransparent.shows.intNo]
    exact hslot

end Route

/-- **A request reaches its routine.** After the installation, from any state of the controllers with
nothing in service: a request alone is delivered as the vector of its line, whose gate leads to the stub of
the line. -/
theorem request_routed (l : IdtLayout) (isr : Fin 32 → UInt32) (irq : Fin 16 → UInt32)
    (k k' : Kernel) (idtr : Idtr) (p : Pair) (labels : Labels) (callee : UInt32 → Cpu → Cpu)
    (n : Fin 16) (c : Cpu) (hrun : interruptsInstall l isr irq k = some (idtr, k'))
    (hidle : p.Idle) (hn : n.val ≠ 2)
    (hcallee : PreservesFrame (callee labels.irqHandler) (frameWords (lineVector n))) :
    (∃ taken, ((p.writes (k'.writes.drop k.writes.length)).raise n).acknowledge =
        some (taken, irqVector n)) ∧
      ∃ g, idtr.gate k'.machine.mem (irqVector n) = some g ∧ Routed labels callee g (irq n) n c := by
  obtain ⟨k₁, hspec, hmem, hwrites⟩ := interruptsInstall_spec l isr irq k
  rw [hrun] at hspec
  obtain ⟨rfl, rfl⟩ := Prod.mk.inj (Option.some.inj hspec)
  obtain ⟨hready, hpending, hmaster, hslave⟩ := ready_of_remap p
  constructor
  · rw [hwrites, List.drop_left]
    have hidle' : ((p.writes remapWrites).raise n).Idle :=
      Pair.Idle.raise ⟨hmaster.trans hidle.master, hslave.trans hidle.slave⟩ n
    have hline : ∀ irq', ((p.writes remapWrites).raise n).pending irq' = decide (irq' = n) := by
      intro irq'
      rw [Pair.pending_raise]
      by_cases heq : irq' = n
      · rw [if_pos heq, decide_eq_true heq, decide_eq_true hn]
      · rw [if_neg heq, decide_eq_false heq, hpending]
    have hack := Pair.acknowledge_of_first (hready.raise n) hidle' ((hline n).trans (decide_eq_true rfl))
      fun irq' hirq' => by
        rw [hline, decide_eq_true_eq] at hirq'
        exact Nat.le_of_eq (congrArg Pair.rank hirq'.symm)
    rw [vectorOf_eq] at hack
    exact ⟨_, hack⟩
  · obtain ⟨-, -, hvector, -⟩ := lineVector_facts n
    have hlt : (irqVector n).toNat < 48 := hvector ▸ (lineVector n).isLt
    have hline : (⟨(irqVector n).toNat, hlt⟩ : Fin 48) = lineVector n := Fin.ext hvector
    refine ⟨stubGate isr irq (lineVector n), ?_, routed_of_gate labels callee n c hcallee⟩
    rw [hmem, installInterrupts_gate, dif_pos hlt, hline]

/-! ## Controllers and dispatcher -/

/-- The controllers, the kernel, and the vector of the interrupt being handled. While there is one the
interrupt flag is clear. -/
structure Board where
  pics : Pair
  kernel : Kernel
  handling : Option UInt8

inductive BoardEvent where
  /-- A device raises its line. -/
  | request (irq : Fin 16)
  /-- The processor takes an interrupt. -/
  | enter (vector : UInt8)
  /-- The dispatcher runs and returns. -/
  | leave
  /-- Other code of the kernel runs. -/
  | other
  deriving DecidableEq

/-- What was written to the ports between the two. -/
def writesBetween (k k' : Kernel) : List (UInt16 × UInt8) := k'.writes.drop k.writes.length

def toController (port : UInt16) : Prop := port = 0x20 ∨ port = 0x21 ∨ port = 0xA0 ∨ port = 0xA1

/-- Code outside the handlers may do anything but write to the controllers: install a routine or take
one away, for example. -/
def BoardStep (stray : StrayStore) (b : Board) : BoardEvent → Board → Prop
  | .request irq, b' => b' = { b with pics := b.pics.raise irq }
  | .enter vector, b' =>
      b.handling = none ∧ ∃ pics, b.pics.acknowledge = some (pics, vector) ∧
        b' = { b with pics := pics, handling := some vector }
  | .leave, b' =>
      ∃ vector, b.handling = some vector ∧
        irqHandler stray vector.toUInt32 b.kernel = some ((), b'.kernel) ∧
        b'.pics = b.pics.writes (writesBetween b.kernel b'.kernel) ∧ b'.handling = none
  | .other, b' =>
      b.handling = none ∧ b'.handling = none ∧
        (∃ new, b'.kernel.writes = b.kernel.writes ++ new ∧ ∀ w ∈ new, ¬ toController w.1) ∧
        b'.pics = b.pics.writes (writesBetween b.kernel b'.kernel)

/-! ## What they are for -/

/-- Requests that wait, and the one that is served. -/
structure Queue where
  waiting : Fin 16 → Bool
  served : Option (Fin 16)

/-- No line waits that comes before this one. -/
def Queue.First (q : Queue) (irq : Fin 16) : Prop :=
  q.waiting irq = true ∧ ∀ irq', q.waiting irq' = true → Pair.rank irq ≤ Pair.rank irq'

/-- The steps of the queue. There is no device on line 2. -/
def QueueStep (q : Queue) : BoardEvent → Queue → Prop
  | .request irq, q' =>
      q' = { q with waiting := fun irq' => if irq' = irq then decide (irq.val ≠ 2) else q.waiting irq' }
  | .enter vector, q' =>
      q.served = none ∧ ∃ irq, q.First irq ∧ vector = irqVector irq ∧
        q' = ⟨fun irq' => if irq' = irq then false else q.waiting irq', some irq⟩
  | .leave, q' => q.served.isSome ∧ q' = { q with served := none }
  | .other, q' => q.served = none ∧ q' = q

/-- The line that has a vector. -/
def lineOf (vector : UInt8) : Fin 16 := ⟨vector.toNat % 16, Nat.mod_lt _ (Nat.succ_pos 15)⟩

def Board.queue (b : Board) : Queue := ⟨b.pics.pending, b.handling.map lineOf⟩

/-! ## One step -/

theorem lineOf_irqVector (irq : Fin 16) : lineOf (irqVector irq) = irq := by
  revert irq
  decide

theorem intNo_ge (irq : Fin 16) : 40 ≤ (irqVector irq).toUInt32 ↔ 8 ≤ irq.val := by
  revert irq
  decide

/-- The controllers are set up, and have in service what the processor is handling. -/
structure Wired (b : Board) : Prop where
  ready : b.pics.Ready 0x20 0x28
  idle : b.handling = none → b.pics.Idle
  busy : ∀ vector, b.handling = some vector →
    ∃ irq, vector = irqVector irq ∧ b.pics.InService irq

theorem mem_eois {w : UInt16 × UInt8} {atSlave : Bool} :
    w ∈ eois atSlave ↔ w = Pair.masterEoi ∨ atSlave = true ∧ w = Pair.slaveEoi := by
  unfold eois
  cases atSlave with
  | true =>
      simp only [if_true, List.mem_append, List.mem_singleton, true_and]
      exact Or.comm
  | false =>
      simp only [Bool.false_eq_true, if_false, List.nil_append, List.mem_singleton, false_and, or_false]
      rfl

theorem mem_routine_eois {w : UInt16 × UInt8} (handler : IrqRoutine) (h : w ∈ handler.eois) :
    w = Pair.masterEoi ∨ w = Pair.slaveEoi := by
  cases handler with
  | timerHandler => exact absurd h List.not_mem_nil
  | keyboardHandler => exact absurd h List.not_mem_nil
  | primaryIrq => exact (mem_eois.mp h).imp_right And.right
  | secondaryIrq => exact (mem_eois.mp h).imp_right And.right

/-- **What a handler sends the controllers**: end-of-interrupt commands, and one to each that the request
came through. -/
theorem handler_writes {stray : StrayStore} {k k' : Kernel} {irq : Fin 16}
    (h : irqHandler stray (irqVector irq).toUInt32 k = some ((), k')) :
    (∀ w ∈ writesBetween k k', w = Pair.masterEoi ∨ w = Pair.slaveEoi) ∧
      Pair.masterEoi ∈ writesBetween k k' ∧ (8 ≤ irq.val → Pair.slaveEoi ∈ writesBetween k k') := by
  obtain ⟨hwrites, -⟩ := irqHandler_writes _ k' h
  have hnew : writesBetween k k' =
      (k.irqRoutines.slot ((irqVector irq).toUInt32 - 32).toNat).elim [] IrqRoutine.eois ++
        eois (40 ≤ (irqVector irq).toUInt32) := by
    unfold writesBetween
    rw [hwrites, List.drop_left]
  rw [hnew]
  refine ⟨fun w hw => ?_, ?_, fun hirq => ?_⟩
  · rcases List.mem_append.mp hw with hw | hw
    · cases hslot : k.irqRoutines.slot ((irqVector irq).toUInt32 - 32).toNat with
      | none =>
          rw [hslot] at hw
          exact absurd hw List.not_mem_nil
      | some handler =>
          rw [hslot] at hw
          exact mem_routine_eois handler hw
    · exact (mem_eois.mp hw).imp_right And.right
  · exact List.mem_append_right _ (mem_eois.mpr (.inl rfl))
  · exact List.mem_append_right _ (mem_eois.mpr (.inr ⟨decide_eq_true ((intNo_ge irq).mpr hirq), rfl⟩))

section Step

variable {stray : StrayStore} {b b' : Board}

theorem Wired.request (h : Wired b) (irq : Fin 16) :
    Wired { b with pics := b.pics.raise irq } ∧
      QueueStep b.queue (.request irq) (Board.queue { b with pics := b.pics.raise irq }) := by
  refine ⟨⟨h.ready.raise irq, fun hnone => (h.idle hnone).raise irq, fun vector hv => ?_⟩, ?_⟩
  · obtain ⟨irq', hvector, hservice⟩ := h.busy vector hv
    exact ⟨irq', hvector, hservice.raise irq⟩
  · show (⟨(b.pics.raise irq).pending, _⟩ : Queue) = _
    rw [show (b.pics.raise irq).pending = _ from funext (Pair.pending_raise b.pics irq)]
    rfl

theorem Wired.enter (h : Wired b) {vector : UInt8} (hstep : BoardStep stray b (.enter vector) b') :
    Wired b' ∧ QueueStep b.queue (.enter vector) b'.queue := by
  obtain ⟨hnone, pics, hack, rfl⟩ := hstep
  obtain ⟨irq, hpending, hfirst, hout⟩ := (Pair.acknowledge_iff h.ready (h.idle hnone)).mp hack
  obtain ⟨rfl, rfl⟩ := Prod.mk.inj hout
  rw [vectorOf_eq]
  refine ⟨⟨(h.ready.withdraw irq).serving _ _, fun hv => ?_, fun v hv => ?_⟩, ?_⟩
  · cases hv
  · cases hv
    exact ⟨irq, rfl, Pair.inService_serving _ irq⟩
  · refine ⟨congrArg (Option.map lineOf) hnone, irq, ⟨hpending, hfirst⟩, rfl, ?_⟩
    show (⟨((b.pics.withdraw irq).serving _ _).pending, some (lineOf (irqVector irq))⟩ : Queue) = _
    rw [Pair.pending_serving, lineOf_irqVector]
    rw [show (b.pics.withdraw irq).pending = _ from funext (Pair.pending_withdraw b.pics irq)]
    rfl

theorem Wired.leave (h : Wired b) (hstep : BoardStep stray b .leave b') :
    Wired b' ∧ QueueStep b.queue .leave b'.queue := by
  obtain ⟨vector, hv, hrun, hpics, hnone⟩ := hstep
  obtain ⟨irq, rfl, hservice⟩ := h.busy vector hv
  obtain ⟨heois, hmaster, hslave⟩ := handler_writes hrun
  rw [hservice.ends heois hmaster hslave] at hpics
  refine ⟨⟨?_, fun _ => ?_, fun v hv' => ?_⟩, ?_, ?_⟩
  · rw [hpics]
    exact h.ready.serving none none
  · rw [hpics]
    exact Pair.idle_serving b.pics
  · rw [hnone] at hv'
    cases hv'
  · show (b.handling.map lineOf).isSome
    rw [hv]
    rfl
  · unfold Board.queue
    rw [hpics, hnone]
    rfl

theorem Wired.other (h : Wired b) (hstep : BoardStep stray b .other b') :
    Wired b' ∧ QueueStep b.queue .other b'.queue := by
  obtain ⟨hnone, hnone', ⟨new, hwrites, hnew⟩, hpics⟩ := hstep
  have hsame : b'.pics = b.pics := by
    rw [hpics, writesBetween, hwrites, List.drop_left]
    apply Pair.writes_elsewhere
    intro w hw
    have hport := hnew w hw
    unfold toController at hport
    push Not at hport
    exact hport
  refine ⟨⟨hsame ▸ h.ready, fun _ => hsame ▸ h.idle hnone, fun v hv => ?_⟩, ?_, ?_⟩
  · rw [hnone'] at hv
    cases hv
  · exact congrArg (Option.map lineOf) hnone
  · unfold Board.queue
    rw [hsame, hnone, hnone']

/-- **One step** of the board is one of the queue. -/
theorem Wired.step (h : Wired b) {e : BoardEvent} (hstep : BoardStep stray b e b') :
    Wired b' ∧ QueueStep b.queue e b'.queue := by
  cases e with
  | request irq =>
      cases hstep
      exact h.request irq
  | enter vector => exact h.enter hstep
  | leave => exact h.leave hstep
  | other => exact h.other hstep

/-- **Nothing is kept back**: where no handler runs, the first line that waits can be served. -/
theorem Wired.takes (h : Wired b) (hnone : b.handling = none) {irq : Fin 16}
    (hfirst : b.queue.First irq) : ∃ b', BoardStep stray b (.enter (irqVector irq)) b' := by
  have hack := Pair.acknowledge_of_first h.ready (h.idle hnone) hfirst.1 hfirst.2
  rw [vectorOf_eq] at hack
  exact ⟨_, hnone, _, hack, rfl⟩

end Step

/-! ## Runs -/

/-- After `irq_remap`, and before the first interrupt. -/
def Board.start (p : Pair) (k k' : Kernel) : Board := ⟨p.writes (writesBetween k k'), k', none⟩

theorem Wired.start {p : Pair} (hidle : p.Idle) {k k' : Kernel} (hremap : irqRemap k = some ((), k')) :
    Wired (Board.start p k k') ∧ (Board.start p k k').queue = ⟨fun _ => false, none⟩ := by
  obtain ⟨hwrites, -⟩ := irqRemap_writes k k' hremap
  have hnew : writesBetween k k' = remapWrites := by
    unfold writesBetween
    rw [hwrites, List.drop_left]
  obtain ⟨hready, hpending, hmaster, hslave⟩ := ready_of_remap p
  unfold Board.start
  rw [hnew]
  refine ⟨⟨hready, fun _ => ⟨hmaster.trans hidle.master, hslave.trans hidle.slave⟩, fun v hv => ?_⟩, ?_⟩
  · cases hv
  · unfold Board.queue
    rw [funext hpending]
    rfl

/-- **The lines are a queue**: in every run, and after each handler the first request that waits can be
served. -/
theorem lines_refine (stray : StrayStore) (p : Pair) (k k' : Kernel) (tr : List (BoardEvent × Board))
    (hidle : p.Idle) (hremap : irqRemap k = some ((), k'))
    (hrun : Steps (BoardStep stray) (Board.start p k k') tr) :
    Steps (fun b e b' => QueueStep b.queue e b'.queue) (Board.start p k k') tr ∧
      ∀ b ∈ states (Board.start p k k') tr, b.handling = none → ∀ irq, b.queue.First irq →
        ∃ b', BoardStep stray b (.enter (irqVector irq)) b' := by
  have hstart := (Wired.start hidle hremap).1
  have keep : ∀ b e b', Wired b → BoardStep stray b e b' → Wired b' :=
    fun b e b' h hstep => (h.step hstep).1
  refine ⟨Steps.forall_step keep (fun b e b' h hstep => (h.step hstep).2) hstart hrun, ?_⟩
  intro b hb hnone irq hfirst
  exact (Steps.invariant keep hstart hrun b hb).takes hnone hfirst

section Accounts

variable {irq : Fin 16} {b : Board} {tr : List (BoardEvent × Board)}

/-- How often an event occurs. -/
def occurrences (e : BoardEvent) (tr : List (BoardEvent × Board)) : Nat := (tr.map Prod.fst).count e

theorem irqVector_inj {irq irq' : Fin 16} (h : irqVector irq = irqVector irq') : irq = irq' := by
  rw [← lineOf_irqVector irq, h, lineOf_irqVector]

/-- One step, for one line. -/
theorem QueueStep.account {q q' : Queue} {e : BoardEvent} (h : QueueStep q e q') (irq : Fin 16) :
    (if e = .enter (irqVector irq) then 1 else 0) + (q'.waiting irq).toNat ≤
      (if e = .request irq then 1 else 0) + (q.waiting irq).toNat := by
  cases e with
  | request irq' =>
      cases h
      simp only [reduceCtorEq, if_false, BoardEvent.request.injEq, Nat.zero_add]
      by_cases heq : irq = irq'
      · rw [if_pos heq, if_pos heq.symm]
        exact Nat.le_add_right_of_le (Bool.toNat_le _)
      · rw [if_neg heq, if_neg (Ne.symm heq), Nat.zero_add]
  | enter vector =>
      obtain ⟨-, irq', hfirst, rfl, rfl⟩ := h
      simp only [reduceCtorEq, if_false, BoardEvent.enter.injEq, Nat.zero_add]
      by_cases heq : irq = irq'
      · rw [heq, if_pos rfl, if_pos rfl, hfirst.1]
        exact Nat.le_refl 1
      · rw [if_neg fun hv => heq (irqVector_inj hv).symm, if_neg heq, Nat.zero_add]
  | leave =>
      obtain ⟨-, rfl⟩ := h
      exact Nat.le_refl _
  | other =>
      obtain ⟨-, rfl⟩ := h
      exact Nat.le_refl _

/-- **A line is served no more often than it asked.** -/
theorem served_account (irq : Fin 16) :
    ∀ {b : Board} {tr : List (BoardEvent × Board)},
      Steps (fun b e b' => QueueStep b.queue e b'.queue) b tr →
      occurrences (.enter (irqVector irq)) tr + ((final b tr).queue.waiting irq).toNat ≤
        occurrences (.request irq) tr + (b.queue.waiting irq).toNat
  | _, [], _ => Nat.le_refl _
  | b, (e, b') :: tr, hrun => by
      have hstep := QueueStep.account hrun.1 irq
      have hrest := served_account irq hrun.2
      unfold occurrences at hrest ⊢
      rw [List.map_cons, List.count_cons, List.count_cons, final]
      simp only [beq_iff_eq]
      omega

theorem QueueStep.waits {q q' : Queue} {e : BoardEvent} (h : QueueStep q e q') (hirq : irq.val ≠ 2)
    (hwaiting : q.waiting irq = true) : e = .enter (irqVector irq) ∨ q'.waiting irq = true := by
  cases e with
  | request irq' =>
      cases h
      right
      show (if irq = irq' then decide (irq'.val ≠ 2) else q.waiting irq) = true
      split
      · next heq => exact decide_eq_true (heq ▸ hirq)
      · exact hwaiting
  | enter vector =>
      obtain ⟨-, irq', -, rfl, rfl⟩ := h
      by_cases heq : irq = irq'
      · exact .inl (by rw [heq])
      · exact .inr ((if_neg heq).trans hwaiting)
  | leave =>
      obtain ⟨-, rfl⟩ := h
      exact .inr hwaiting
  | other =>
      obtain ⟨-, rfl⟩ := h
      exact .inr hwaiting

/-- **A request is served, or waits still.** -/
theorem request_kept (hirq : irq.val ≠ 2) :
    ∀ {b : Board} {tr : List (BoardEvent × Board)},
      Steps (fun b e b' => QueueStep b.queue e b'.queue) b tr → b.queue.waiting irq = true →
      .enter (irqVector irq) ∈ tr.map Prod.fst ∨ (final b tr).queue.waiting irq = true
  | _, [], _, hwaiting => .inr hwaiting
  | b, (e, b') :: tr, hrun, hwaiting => by
      rcases QueueStep.waits hrun.1 hirq hwaiting with rfl | hwaiting'
      · exact .inl List.mem_cons_self
      · exact (request_kept hirq hrun.2 hwaiting').imp_left (List.mem_cons_of_mem _)

end Accounts

/-- **No request is lost and none is served twice**: in every run a line is served no more often than it
has made requests, and after each of them it is served, or waits still at the end. -/
theorem requests_served (stray : StrayStore) (p : Pair) (k k' : Kernel)
    (tr : List (BoardEvent × Board)) (irq : Fin 16) (hidle : p.Idle)
    (hremap : irqRemap k = some ((), k')) (hrun : Steps (BoardStep stray) (Board.start p k k') tr)
    (hirq : irq.val ≠ 2) :
    occurrences (.enter (irqVector irq)) tr ≤ occurrences (.request irq) tr ∧
      ∀ before b after, tr = before ++ (.request irq, b) :: after →
        .enter (irqVector irq) ∈ after.map Prod.fst ∨
          (final (Board.start p k k') tr).queue.waiting irq = true := by
  obtain ⟨hstart, hqueue⟩ := Wired.start hidle hremap
  have hsteps : Steps (fun b e b' => QueueStep b.queue e b'.queue) (Board.start p k k') tr :=
    Steps.forall_step (fun b e b' h hstep => (h.step hstep).1) (fun b e b' h hstep => (h.step hstep).2)
      hstart hrun
  constructor
  · have haccount := served_account irq hsteps
    rw [hqueue] at haccount
    exact Nat.le_of_add_right_le haccount
  · rintro before b after rfl
    obtain ⟨hstep, hafter, hfinal⟩ := Steps.split _ before hsteps
    rw [hfinal]
    have hwaiting : b.queue.waiting irq = true := by
      rw [hstep]
      exact (if_pos rfl).trans (decide_eq_true hirq)
    exact request_kept hirq hafter hwaiting

/-! ### One interrupt of the primary ATA channel -/

def quietChip : Chip where
  phase := .ready
  base := 0
  links := 0
  masked := fun _ => true
  requests := fun _ => false
  inService := only none
  autoEoi := false
  x86Mode := false

def quietPair : Pair := ⟨quietChip, quietChip⟩

theorem quietPair_idle : quietPair.Idle := ⟨rfl, rfl⟩

/-- The request is made, taken and handled. -/
def oneRequest (irq : Fin 16) (b₁ b₂ b₃ : Board) : List (BoardEvent × Board) :=
  [(.request irq, b₁), (.enter (irqVector irq), b₂), (.leave, b₃)]

theorem ata_run (k' : Kernel) (hroutines : k'.irqRoutines = installed)
    (hremap : irqRemap Served.quiet.kernel = some ((), k')) :
    ∃ b₁ b₂ b₃, Steps (BoardStep .faults) (Board.start quietPair Served.quiet.kernel k')
      (oneRequest 14 b₁ b₂ b₃) := by
  obtain ⟨hwired, hqueue⟩ := Wired.start quietPair_idle hremap
  obtain ⟨hwired₁, hstep₁⟩ := hwired.request 14
  have hfirst : (Board.queue { Board.start quietPair Served.quiet.kernel k' with
      pics := (Board.start quietPair Served.quiet.kernel k').pics.raise 14 }).First 14 := by
    rw [hstep₁, hqueue]
    unfold Queue.First
    decide
  obtain ⟨b₂, hstep₂⟩ := @Wired.takes .faults _ hwired₁ rfl 14 hfirst
  have hb₂ : b₂.kernel = k' ∧ b₂.handling = some (irqVector 14) := by
    obtain ⟨-, pics, -, rfl⟩ := hstep₂
    exact ⟨rfl, rfl⟩
  have hcall : ∃ k₁, callHandler .faults (irqVector 14).toUInt32 b₂.kernel = some ((), k₁) := by
    unfold callHandler
    rw [hb₂.1, hroutines]
    exact irqSendEoi_returns ataPrimaryIrq
  obtain ⟨k₁, hk₁⟩ := hcall
  obtain ⟨k₂, hk₂⟩ := irqHandler_returns hk₁
  exact ⟨_, b₂, ⟨b₂.pics.writes (writesBetween b₂.kernel k₂), k₂, none⟩, rfl, hstep₂,
    ⟨_, hb₂.2, hk₂, rfl, rfl⟩, trivial⟩

theorem irqRemap_quiet : ∃ k', irqRemap Served.quiet.kernel = some ((), k') ∧
    k'.irqRoutines = installed :=
  ⟨_, rfl, rfl⟩

theorem ata_lines : ∃ k' b₁ b₂ b₃, Steps (fun b e b' => QueueStep b.queue e b'.queue)
      (Board.start quietPair Served.quiet.kernel k') (oneRequest 14 b₁ b₂ b₃) ∧
    ∀ b ∈ states (Board.start quietPair Served.quiet.kernel k') (oneRequest 14 b₁ b₂ b₃),
      b.handling = none → ∀ irq, b.queue.First irq →
        ∃ b', BoardStep .faults b (.enter (irqVector irq)) b' := by
  obtain ⟨k', hremap, hroutines⟩ := irqRemap_quiet
  obtain ⟨b₁, b₂, b₃, hrun⟩ := ata_run k' hroutines hremap
  exact ⟨k', b₁, b₂, b₃, lines_refine .faults quietPair _ k' _ quietPair_idle hremap hrun⟩

theorem ata_served : ∃ k' b₁ b₂ b₃,
    occurrences (.enter (irqVector 14)) (oneRequest 14 b₁ b₂ b₃) ≤
      occurrences (.request 14) (oneRequest 14 b₁ b₂ b₃) ∧
    ∀ before b after, oneRequest 14 b₁ b₂ b₃ = before ++ (BoardEvent.request 14, b) :: after →
      .enter (irqVector 14) ∈ after.map Prod.fst ∨
        (final (Board.start quietPair Served.quiet.kernel k') (oneRequest 14 b₁ b₂ b₃)).queue.waiting 14 =
          true := by
  obtain ⟨k', hremap, hroutines⟩ := irqRemap_quiet
  obtain ⟨b₁, b₂, b₃, hrun⟩ := ata_run k' hroutines hremap
  exact ⟨k', b₁, b₂, b₃, requests_served .faults quietPair _ k' _ 14 quietPair_idle hremap hrun
    (by decide)⟩

/-- A table at 0x10000, and stubs 16 bytes apart. -/
def someTable : IdtLayout := ⟨0x10000, 0x10800, by decide, by decide⟩

theorem ata_routed : ∃ (idtr : Idtr) (k' : Kernel),
    (∃ taken, ((quietPair.writes (k'.writes.drop Served.quiet.kernel.writes.length)).raise 14).acknowledge
      = some (taken, irqVector 14)) ∧
    ∃ g, idtr.gate k'.machine.mem (irqVector 14) = some g ∧
      Routed someLabels idleHandler g 0x5E0 14 someCpu := by
  obtain ⟨k', hrun, -, -⟩ := interruptsInstall_spec someTable (fun n => 0x300 + 16 * UInt32.ofNat n)
    (fun n => 0x500 + 16 * UInt32.ofNat n) Served.quiet.kernel
  exact ⟨_, k', request_routed someTable _ (fun n => 0x500 + 16 * UInt32.ofNat n) _ k' _ quietPair
    someLabels idleHandler 14 someCpu hrun quietPair_idle (by decide) (idleHandler_preserves _ _)⟩

end Neutrino.System
