import Neutrino.Lib.I386

/-!
# Interrupt entry

Each of the 48 vectors has a stub that pushes an error code, unless the processor has pushed one, and
the vector; the two common stubs save the registers, call the C handler with a pointer to them, and
restore them. What is on the stack is followed word by word: `saveState_spec` says what the handler
finds there, `restoreState_spec` what the way back makes of it.

The stub of vector 17 pushes an error code although the processor has: everything the way back pops is
then one word off (`transparent_iff`).
-/

namespace Neutrino.System

open Neutrino.Lib

/-! ## The code -/

/-- A stub that pushes an error code. -/
def dummyStub (vector : UInt8) : List Instr := [.cli, .pushByte 0, .pushByte vector]

/-- A stub for which the processor has pushed one. -/
def errorStub (vector : UInt8) : List Instr := [.cli, .pushByte vector]

def isr0 : List Instr := dummyStub 0
def isr1 : List Instr := dummyStub 1
def isr2 : List Instr := dummyStub 2
def isr3 : List Instr := dummyStub 3
def isr4 : List Instr := dummyStub 4
def isr5 : List Instr := dummyStub 5
def isr6 : List Instr := dummyStub 6
def isr7 : List Instr := dummyStub 7
def isr8 : List Instr := errorStub 8
def isr9 : List Instr := dummyStub 9
def isr10 : List Instr := errorStub 10
def isr11 : List Instr := errorStub 11
def isr12 : List Instr := errorStub 12
def isr13 : List Instr := errorStub 13
def isr14 : List Instr := errorStub 14
def isr15 : List Instr := dummyStub 15
def isr16 : List Instr := dummyStub 16
def isr17 : List Instr := dummyStub 17
def isr18 : List Instr := dummyStub 18
def isr19 : List Instr := dummyStub 19
def isr20 : List Instr := dummyStub 20
def isr21 : List Instr := dummyStub 21
def isr22 : List Instr := dummyStub 22
def isr23 : List Instr := dummyStub 23
def isr24 : List Instr := dummyStub 24
def isr25 : List Instr := dummyStub 25
def isr26 : List Instr := dummyStub 26
def isr27 : List Instr := dummyStub 27
def isr28 : List Instr := dummyStub 28
def isr29 : List Instr := dummyStub 29
def isr30 : List Instr := dummyStub 30
def isr31 : List Instr := dummyStub 31

def irq0 : List Instr := dummyStub 32
def irq1 : List Instr := dummyStub 33
def irq2 : List Instr := dummyStub 34
def irq3 : List Instr := dummyStub 35
def irq4 : List Instr := dummyStub 36
def irq5 : List Instr := dummyStub 37
def irq6 : List Instr := dummyStub 38
def irq7 : List Instr := dummyStub 39
def irq8 : List Instr := dummyStub 40
def irq9 : List Instr := dummyStub 41
def irq10 : List Instr := dummyStub 42
def irq11 : List Instr := dummyStub 43
def irq12 : List Instr := dummyStub 44
def irq13 : List Instr := dummyStub 45
def irq14 : List Instr := dummyStub 46
def irq15 : List Instr := dummyStub 47

/-- The stubs, in the order of their vectors. -/
def entryStubs : List (List Instr) :=
  [isr0, isr1, isr2, isr3, isr4, isr5, isr6, isr7, isr8, isr9, isr10, isr11, isr12, isr13, isr14,
    isr15, isr16, isr17, isr18, isr19, isr20, isr21, isr22, isr23, isr24, isr25, isr26, isr27,
    isr28, isr29, isr30, isr31, irq0, irq1, irq2, irq3, irq4, irq5, irq6, irq7, irq8, irq9,
    irq10, irq11, irq12, irq13, irq14, irq15]

def entryStub (vector : Fin 48) : List Instr := entryStubs.getD vector.val []

/-- The common stubs up to the call; they differ in the function called. -/
def saveState (handler : UInt32) : List Instr :=
  [.pusha, .pushSeg .ds, .pushSeg .es, .pushSeg .fs, .pushSeg .gs, .movAx 0x10, .movSegAx .ds,
    .movSegAx .es, .movSegAx .fs, .movSegAx .gs, .movEaxEsp, .pushEax, .movEax handler]

/-- The common stubs behind the call. -/
def restoreState : List Instr :=
  [.popEax, .popSeg .gs, .popSeg .fs, .popSeg .es, .popSeg .ds, .popa, .addEsp 8, .iret]

def commonStub (handler next : UInt32) : List Instr :=
  saveState handler ++ [.callEax next] ++ restoreState

/-- Where the linker has put the C functions, and the instructions behind the two calls. -/
structure Labels where
  faultHandler : UInt32
  irqHandler : UInt32
  isrNext : UInt32
  irqNext : UInt32

def isrCommonStub (l : Labels) : List Instr := commonStub l.faultHandler l.isrNext

def irqCommonStub (l : Labels) : List Instr := commonStub l.irqHandler l.irqNext

def handlerOf (l : Labels) (vector : Fin 48) : UInt32 :=
  if vector.val < 32 then l.faultHandler else l.irqHandler

def nextOf (l : Labels) (vector : Fin 48) : UInt32 :=
  if vector.val < 32 then l.isrNext else l.irqNext

/-- The stub of a vector, and the common stub it jumps to. -/
def interruptCode (l : Labels) (vector : Fin 48) : List Instr :=
  entryStub vector ++ if vector.val < 32 then isrCommonStub l else irqCommonStub l

/-- `struct regs`. -/
structure Regs where
  gs : UInt32
  fs : UInt32
  es : UInt32
  ds : UInt32
  edi : UInt32
  esi : UInt32
  ebp : UInt32
  esp : UInt32
  ebx : UInt32
  edx : UInt32
  ecx : UInt32
  eax : UInt32
  intNo : UInt32
  errCode : UInt32
  eip : UInt32
  cs : UInt32
  eflags : UInt32
  useresp : UInt32
  ss : UInt32
  deriving DecidableEq, Repr

/-- The packed structure at `r`. -/
def Regs.read (m : Memory32) (r : UInt32) : Regs :=
  let word (i : Nat) : UInt32 := m.load (r + 4 * UInt32.ofNat i)
  ⟨word 0, word 1, word 2, word 3, word 4, word 5, word 6, word 7, word 8, word 9, word 10, word 11,
    word 12, word 13, word 14, word 15, word 16, word 17, word 18⟩

/-! ## Transparency -/

/-- The vectors for which the processor pushes an error code. -/
def hasErrorCode (vector : Fin 48) : Bool :=
  vector = 8 || (10 ≤ vector.val && vector.val ≤ 14) || vector = 17

/-- The processor takes the interrupt. Where the gate leads does not matter below: the code run is the
stub of the vector. -/
def delivered (vector : Fin 48) (errorCode : UInt32) (selector : UInt16) (entry : UInt32) (c : Cpu) :
    Cpu :=
  c.deliver (if hasErrorCode vector then some errorCode else none) selector entry

/-- The words pushed before the pointer to them is: twelve registers, what the stub pushes, and what
the processor did. -/
def frameWords (vector : Fin 48) : Nat :=
  12 + ((entryStub vector).length - 1) + if hasErrorCode vector then 4 else 3

/-- A C function of one argument that returns, and leaves the words its argument points to. On entry
the return address and the argument lie on top of them. -/
def PreservesFrame (f : Cpu → Cpu) (words : Nat) : Prop :=
  ∀ c, (f c).esp = c.esp + 4 ∧ ∀ i, i < words →
    (f c).mem.load (c.esp + 8 + 4 * UInt32.ofNat i) = c.mem.load (c.esp + 8 + 4 * UInt32.ofNat i)

/-- The structure the handler is given a pointer to shows the vector and the interrupted registers. For
`esp` that is the value `pusha` saves: five words have been pushed by then. -/
structure Shows (r : Regs) (vector : Fin 48) (c : Cpu) : Prop where
  intNo : r.intNo = UInt32.ofNat vector
  gs : r.gs = c.gs.toUInt32
  fs : r.fs = c.fs.toUInt32
  es : r.es = c.es.toUInt32
  ds : r.ds = c.ds.toUInt32
  edi : r.edi = c.edi
  esi : r.esi = c.esi
  ebp : r.ebp = c.ebp
  esp : r.esp = c.esp - 20
  ebx : r.ebx = c.ebx
  edx : r.edx = c.edx
  ecx : r.ecx = c.ecx
  eax : r.eax = c.eax
  eip : r.eip = c.eip
  cs : r.cs = c.cs.toUInt32
  eflags : r.eflags = c.eflags

/-- All registers are those of `c` again. -/
structure Restored (out c : Cpu) : Prop where
  eax : out.eax = c.eax
  ecx : out.ecx = c.ecx
  edx : out.edx = c.edx
  ebx : out.ebx = c.ebx
  esp : out.esp = c.esp
  ebp : out.ebp = c.ebp
  esi : out.esi = c.esi
  edi : out.edi = c.edi
  ds : out.ds = c.ds
  es : out.es = c.es
  fs : out.fs = c.fs
  gs : out.gs = c.gs
  eip : out.eip = c.eip
  cs : out.cs = c.cs
  eflags : out.eflags = c.eflags

/-- The processor at the first instruction of the handler. -/
def atHandler (l : Labels) (callee : UInt32 → Cpu → Cpu) (vector : Fin 48) (start : Cpu) : Cpu :=
  (execAll callee (entryStub vector ++ saveState (handlerOf l vector)) start).push (nextOf l vector)

/-- The argument of a C function that is about to run. -/
def argument (c : Cpu) : UInt32 := c.mem.load (c.esp + 4)

/-- The interrupt leaves no trace in the interrupted code, and the handler sees what it interrupted. -/
structure Transparent (l : Labels) (callee : UInt32 → Cpu → Cpu) (vector : Fin 48)
    (start c : Cpu) : Prop where
  restored : Restored (execAll callee (interruptCode l vector) start) c
  shows : Shows (Regs.read (atHandler l callee vector start).mem
    (argument (atHandler l callee vector start))) vector c

/-! ## Saving and restoring -/

/-- Everything but the stack, the flags and the place in the code is as in `c`. -/
structure SameRegisters (c' c : Cpu) : Prop where
  eax : c'.eax = c.eax
  ecx : c'.ecx = c.ecx
  edx : c'.edx = c.edx
  ebx : c'.ebx = c.ebx
  ebp : c'.ebp = c.ebp
  esi : c'.esi = c.esi
  edi : c'.edi = c.edi
  ds : c'.ds = c.ds
  es : c'.es = c.es
  fs : c'.fs = c.fs
  gs : c'.gs = c.gs

section Stubs

variable {callee : UInt32 → Cpu → Cpu} {c : Cpu} {ws : List UInt32}

/-- The twelve registers as they lie on the stack. -/
def savedRegisters (c : Cpu) : List UInt32 :=
  [c.gs.toUInt32, c.fs.toUInt32, c.es.toUInt32, c.ds.toUInt32, c.edi, c.esi, c.ebp, c.esp, c.ebx,
    c.edx, c.ecx, c.eax]

/-- **The way in**: the registers lie on what was there, and a pointer to them on top. -/
theorem saveState_spec (handler : UInt32) (h : c.Holds ws) (hlen : 4 * ws.length + 52 ≤ 2 ^ 32) :
    (execAll callee (saveState handler) c).Holds ((c.esp - 48) :: (savedRegisters c ++ ws)) ∧
      (execAll callee (saveState handler) c).esp = c.esp - 52 ∧
      (execAll callee (saveState handler) c).eax = handler := by
  have hpusha := h.pusha (by omega)
  have hds := hpusha.push c.ds.toUInt32 (by simp only [List.length_cons]; omega)
  have hes := hds.push c.es.toUInt32 (by simp only [List.length_cons]; omega)
  have hfs := hes.push c.fs.toUInt32 (by simp only [List.length_cons]; omega)
  have hgs := hfs.push c.gs.toUInt32 (by simp only [List.length_cons]; omega)
  have harg := hgs.push (c.esp - 48) (by simp only [List.length_cons]; omega)
  have hbase : c.esp - 4 - 4 - 4 - 4 - 4 - 4 - 4 - 4 - 4 - 4 - 4 - 4 = c.esp - 48 := by grind
  have htop : c.esp - 48 - 4 = c.esp - 52 := by grind
  simp only [Cpu.Holds, Cpu.pusha, Cpu.push, hbase, htop] at harg
  simp only [Cpu.Holds, execAll, saveState, List.foldl, exec, Cpu.pusha, Cpu.push, Cpu.seg,
    Cpu.setSeg, hbase, htop]
  exact ⟨harg, trivial, trivial⟩

/-- **The way back** from a stack that starts with the argument. -/
theorem restoreState_spec {arg gs fs es ds edi esi ebp esp ebx edx ecx eax n e ip cs flags : UInt32}
    (h : c.Holds (arg :: gs :: fs :: es :: ds :: edi :: esi :: ebp :: esp :: ebx :: edx :: ecx ::
      eax :: n :: e :: ip :: cs :: flags :: ws)) :
    execAll callee restoreState c =
      { c with gs := gs.toUInt16, fs := fs.toUInt16, es := es.toUInt16, ds := ds.toUInt16, edi := edi,
               esi := esi, ebp := ebp, ebx := ebx, edx := edx, ecx := ecx, eax := eax, eip := ip,
               cs := cs.toUInt16, eflags := flags, esp := c.esp + 72 } := by
  unfold Cpu.Holds at h
  simp only [Stack, UInt32.add_assoc, UInt32.reduceAdd] at h
  obtain ⟨-, hgs, hfs, hes, hds, hedi, hesi, hebp, -, hebx, hedx, hecx, heax, -, -, hip, hcs, hflags,
    -⟩ := h
  simp only [execAll, restoreState, List.foldl, exec, Cpu.popa, Cpu.iret, Cpu.drop, Cpu.top,
    Cpu.setSeg, UInt32.add_assoc, UInt32.reduceAdd, hgs, hfs, hes, hds, hedi, hesi, hebp, hebx, hedx,
    hecx, heax, hip, hcs, hflags]

/-- What the handler finds: its argument points to the registers. -/
theorem call_spec (handler next : UInt32) (h : c.Holds ws) (hlen : 4 * ws.length + 56 ≤ 2 ^ 32) :
    ((execAll callee (saveState handler) c).push next).esp = c.esp - 56 ∧
      argument ((execAll callee (saveState handler) c).push next) = c.esp - 48 ∧
      Stack ((execAll callee (saveState handler) c).push next).mem (c.esp - 48)
        (savedRegisters c ++ ws) := by
  obtain ⟨hsaved, hesp, -⟩ := @saveState_spec callee c ws handler h (by omega)
  generalize execAll callee (saveState handler) c = saved at hsaved hesp
  have hentry := hsaved.push next (by
    simp only [savedRegisters, List.length_cons, List.length_append, List.length_nil]
    omega)
  have hpushed : (saved.push next).esp = c.esp - 56 := by
    show saved.esp - 4 = _
    rw [hesp]
    grind
  obtain ⟨-, harg, hframe⟩ := hentry
  rw [hpushed] at harg hframe
  refine ⟨hpushed, ?_, ?_⟩
  · unfold argument
    rw [hpushed]
    exact harg
  · rwa [show c.esp - 56 + 4 + 4 = c.esp - 48 by grind] at hframe

/-- **The common stub** around a handler that leaves the frame alone. -/
theorem commonStub_spec {handler next n e ip cs flags : UInt32} {rest : List UInt32}
    (h : c.Holds (n :: e :: ip :: cs :: flags :: rest)) (hrest : rest.length ≤ 1)
    (hcallee : PreservesFrame (callee handler) (17 + rest.length)) :
    SameRegisters (execAll callee (commonStub handler next) c) c ∧
      (execAll callee (commonStub handler next) c).esp = c.esp + 20 ∧
      (execAll callee (commonStub handler next) c).eip = ip ∧
      (execAll callee (commonStub handler next) c).cs = cs.toUInt16 ∧
      (execAll callee (commonStub handler next) c).eflags = flags := by
  have hlen : 4 * (n :: e :: ip :: cs :: flags :: rest).length + 56 ≤ 2 ^ 32 := by
    simp only [List.length_cons]
    omega
  obtain ⟨hesp, -, hframe⟩ := @call_spec callee c _ handler next h hlen
  obtain ⟨-, -, heax⟩ := @saveState_spec callee c _ handler h (by omega)
  have hrun : execAll callee (commonStub handler next) c = execAll callee restoreState
      (callee handler ((execAll callee (saveState handler) c).push next)) := by
    rw [commonStub, execAll_append, execAll_append]
    show execAll callee restoreState (callee (execAll callee (saveState handler) c).eax _) = _
    rw [heax]
  generalize (execAll callee (saveState handler) c).push next = entry at hrun hesp hframe
  obtain ⟨hret, hkept⟩ := hcallee entry
  rw [hesp] at hret hkept
  -- back from the handler the argument is on top, and the frame below it as it was
  have hback : (callee handler entry).Holds
      ((callee handler entry).top :: (savedRegisters c ++ n :: e :: ip :: cs :: flags :: rest)) := by
    refine ⟨rfl, ?_⟩
    rw [hret, show c.esp - 56 + 4 + 4 = c.esp - 48 by grind]
    apply hframe.congr
    intro i hi
    have hword := hkept i (by
      simp only [savedRegisters, List.length_cons, List.length_append, List.length_nil] at hi
      omega)
    rwa [show c.esp - 56 + 8 = c.esp - 48 by grind] at hword
  rw [hrun, restoreState_spec hback]
  refine ⟨?_, ?_, rfl, rfl, rfl⟩
  · constructor
    all_goals first | rfl | exact UInt16.toUInt16_toUInt32 _
  · show (callee handler entry).esp + 72 = _
    rw [hret]
    grind

end Stubs

/-! ## The stubs of the vectors -/

theorem entryStub_eq (vector : Fin 48) :
    entryStub vector =
      if hasErrorCode vector && vector ≠ 17 then errorStub (UInt8.ofNat vector)
      else dummyStub (UInt8.ofNat vector) := by
  revert vector
  decide

/-- `push byte` extends the sign of its operand; the vectors have none. -/
theorem vector_extended (vector : Fin 48) :
    (UInt8.ofNat vector).toInt8.toInt32.toUInt32 = UInt32.ofNat vector := by
  revert vector
  decide

section Entry

variable {callee : UInt32 → Cpu → Cpu} {vector : Fin 48} {errorCode entry : UInt32}
  {selector : UInt16} {c : Cpu}

/-- What the processor pushes. -/
theorem deliver_holds (c : Cpu) :
    ((c.push c.eflags).push c.cs.toUInt32 |>.push c.eip).Holds [c.eip, c.cs.toUInt32, c.eflags] := by
  have hnil : c.Holds [] := trivial
  have hflags := hnil.push c.eflags (by simp)
  have hcs := hflags.push c.cs.toUInt32 (by simp)
  exact hcs.push c.eip (by simp)

/-- **Five words**, for every vector but one. -/
theorem entryStub_spec (hv : vector ≠ 17) :
    ∃ err, (execAll callee (entryStub vector) (delivered vector errorCode selector entry c)).Holds
        [UInt32.ofNat vector, err, c.eip, c.cs.toUInt32, c.eflags] ∧
      (execAll callee (entryStub vector) (delivered vector errorCode selector entry c)).esp =
        c.esp - 20 ∧
      SameRegisters (execAll callee (entryStub vector) (delivered vector errorCode selector entry c))
        c := by
  have hesp : c.esp - 4 - 4 - 4 - 4 - 4 = c.esp - 20 := by grind
  rw [entryStub_eq]
  unfold delivered Cpu.deliver
  cases herr : hasErrorCode vector with
  | true =>
      have hpushed := ((deliver_holds c).push errorCode (by simp)).push (UInt32.ofNat vector) (by simp)
      refine ⟨errorCode, ?_⟩
      simp only [Cpu.Holds, Cpu.push, hesp] at hpushed
      simp only [hv, ne_eq, not_false_eq_true, decide_true, Bool.and_self, if_true, errorStub, execAll,
        List.foldl, exec, Option.elim, Cpu.push, Cpu.Holds, vector_extended, hesp]
      exact ⟨hpushed, trivial, rfl, rfl, rfl, rfl, rfl, rfl, rfl, rfl, rfl, rfl, rfl⟩
  | false =>
      have hpushed := ((deliver_holds c).push 0 (by simp)).push (UInt32.ofNat vector) (by simp)
      refine ⟨0, ?_⟩
      simp only [Cpu.Holds, Cpu.push, hesp] at hpushed
      simp only [Bool.false_and, Bool.false_eq_true, if_false, dummyStub, execAll, List.foldl, exec,
        Option.elim, Cpu.push, Cpu.Holds, vector_extended, hesp]
      exact ⟨hpushed, trivial, rfl, rfl, rfl, rfl, rfl, rfl, rfl, rfl, rfl, rfl, rfl⟩

/-- **Six words** for vector 17, the error code of the processor below the one of the stub. -/
theorem isr17_spec :
    (execAll callee (entryStub 17) (delivered 17 errorCode selector entry c)).Holds
        [17, 0, errorCode, c.eip, c.cs.toUInt32, c.eflags] ∧
      (execAll callee (entryStub 17) (delivered 17 errorCode selector entry c)).esp = c.esp - 24 := by
  have hesp : c.esp - 4 - 4 - 4 - 4 - 4 - 4 = c.esp - 24 := by grind
  have hpushed := (((deliver_holds c).push errorCode (by simp)).push 0 (by simp)).push 17 (by simp)
  have hstub : entryStub 17 = dummyStub 17 := rfl
  have herr : hasErrorCode 17 = true := rfl
  have hextended : (17 : UInt8).toInt8.toInt32.toUInt32 = 17 := rfl
  unfold delivered Cpu.deliver
  simp only [Cpu.Holds, Cpu.push, hesp] at hpushed
  simp only [hstub, herr, if_true, dummyStub, execAll, List.foldl, exec, Option.elim, Cpu.push,
    Cpu.Holds, hextended, hesp]
  exact ⟨hpushed, trivial⟩

end Entry

/-! ## The whole way -/

section Whole

variable {l : Labels} {callee : UInt32 → Cpu → Cpu} {vector : Fin 48} {errorCode entry : UInt32}
  {selector : UInt16} {c : Cpu}

theorem interruptCode_eq (l : Labels) (vector : Fin 48) :
    interruptCode l vector = entryStub vector ++ commonStub (handlerOf l vector) (nextOf l vector) := by
  unfold interruptCode handlerOf nextOf isrCommonStub irqCommonStub
  split
  · rfl
  · rfl

theorem frameWords_eq (hv : vector ≠ 17) : frameWords vector = 17 := by
  revert vector
  decide

theorem transparent_of_ne (hv : vector ≠ 17)
    (hcallee : PreservesFrame (callee (handlerOf l vector)) (frameWords vector)) :
    Transparent l callee vector (delivered vector errorCode selector entry c) c := by
  obtain ⟨err, hholds, hesp, hsame⟩ := @entryStub_spec callee vector errorCode entry selector c hv
  rw [frameWords_eq hv] at hcallee
  generalize hs : execAll callee (entryStub vector) (delivered vector errorCode selector entry c) =
    start at hholds hesp hsame
  refine ⟨?_, ?_⟩
  · obtain ⟨hregs, hout, hip, hcs, hflags⟩ :=
      @commonStub_spec callee start _ (nextOf l vector) _ _ _ _ _ _ hholds (Nat.zero_le 1) hcallee
    rw [interruptCode_eq, execAll_append, hs]
    refine ⟨hregs.eax.trans hsame.eax, hregs.ecx.trans hsame.ecx, hregs.edx.trans hsame.edx,
      hregs.ebx.trans hsame.ebx, ?_, hregs.ebp.trans hsame.ebp, hregs.esi.trans hsame.esi,
      hregs.edi.trans hsame.edi, hregs.ds.trans hsame.ds, hregs.es.trans hsame.es,
      hregs.fs.trans hsame.fs, hregs.gs.trans hsame.gs, hip, ?_, hflags⟩
    · rw [hout, hesp, UInt32.sub_add_cancel]
    · rw [hcs, UInt16.toUInt16_toUInt32]
  · obtain ⟨-, harg, hframe⟩ :=
      @call_spec callee start _ (handlerOf l vector) (nextOf l vector) hholds (by simp)
    unfold atHandler
    rw [execAll_append, hs, harg]
    constructor
    · exact hframe.get (i := 12) rfl
    · exact (hframe.get (i := 0) rfl).trans (congrArg UInt16.toUInt32 hsame.gs)
    · exact (hframe.get (i := 1) rfl).trans (congrArg UInt16.toUInt32 hsame.fs)
    · exact (hframe.get (i := 2) rfl).trans (congrArg UInt16.toUInt32 hsame.es)
    · exact (hframe.get (i := 3) rfl).trans (congrArg UInt16.toUInt32 hsame.ds)
    · exact (hframe.get (i := 4) rfl).trans hsame.edi
    · exact (hframe.get (i := 5) rfl).trans hsame.esi
    · exact (hframe.get (i := 6) rfl).trans hsame.ebp
    · exact (hframe.get (i := 7) rfl).trans hesp
    · exact (hframe.get (i := 8) rfl).trans hsame.ebx
    · exact (hframe.get (i := 9) rfl).trans hsame.edx
    · exact (hframe.get (i := 10) rfl).trans hsame.ecx
    · exact (hframe.get (i := 11) rfl).trans hsame.eax
    · exact hframe.get (i := 14) rfl
    · exact hframe.get (i := 15) rfl
    · exact hframe.get (i := 16) rfl

/-- Vector 17 comes back with the stack pointer one word short. -/
theorem isr17_esp (l : Labels) (callee : UInt32 → Cpu → Cpu) (errorCode entry : UInt32)
    (selector : UInt16) (c : Cpu)
    (hcallee : PreservesFrame (callee (handlerOf l 17)) (frameWords 17)) :
    (execAll callee (interruptCode l 17) (delivered 17 errorCode selector entry c)).esp =
        c.esp - 4 ∧
      (execAll callee (interruptCode l 17) (delivered 17 errorCode selector entry c)).eip =
        errorCode := by
  obtain ⟨hholds, hesp⟩ := @isr17_spec callee errorCode entry selector c
  rw [interruptCode_eq, execAll_append]
  generalize execAll callee (entryStub 17) (delivered 17 errorCode selector entry c) = start
    at hholds hesp
  obtain ⟨-, hout, hip, -, -⟩ :=
    @commonStub_spec callee start _ (nextOf l 17) _ _ _ _ _ _ hholds (Nat.le_refl 1) hcallee
  refine ⟨?_, hip⟩
  rw [hout, hesp]
  grind

/-- **Interrupts are transparent**, for all vectors but 17: for every state of the processor, and every
handler that returns and leaves the saved frame alone. -/
theorem transparent_iff (l : Labels) (callee : UInt32 → Cpu → Cpu) (vector : Fin 48)
    (errorCode entry : UInt32) (selector : UInt16) (c : Cpu)
    (hcallee : PreservesFrame (callee (handlerOf l vector)) (frameWords vector)) :
    Transparent l callee vector (delivered vector errorCode selector entry c) c ↔ vector ≠ 17 := by
  constructor
  · intro htransparent hv
    subst hv
    have hshort := (isr17_esp l callee errorCode entry selector c hcallee).1
    rw [htransparent.restored.esp] at hshort
    have hne : c.esp ≠ c.esp - 4 := by
      intro heq
      have hzero : (4 : UInt32) = 0 := by grind
      exact absurd hzero (by decide)
    exact hne hshort
  · exact fun hv => transparent_of_ne hv hcallee

end Whole

/-! ### A handler that does nothing -/

def idleHandler : UInt32 → Cpu → Cpu := fun _ c => c.drop

theorem idleHandler_preserves (a : UInt32) (words : Nat) : PreservesFrame (idleHandler a) words :=
  fun _ => ⟨rfl, fun _ _ => rfl⟩

def someLabels : Labels := ⟨0x1000, 0x2000, 0x3000, 0x4000⟩

def someCpu : Cpu where
  eax := 1
  ecx := 2
  edx := 3
  ebx := 4
  esp := 0x9000
  ebp := 5
  esi := 6
  edi := 7
  ds := 0x10
  es := 0x10
  fs := 0x10
  gs := 0x10
  cs := 0x08
  eip := 0x100
  eflags := 0x202
  mem := fun _ => 0

theorem timer_transparent :
    Transparent someLabels idleHandler 32 (delivered 32 0 0x08 0x5000 someCpu) someCpu ↔
      (32 : Fin 48) ≠ 17 :=
  transparent_iff someLabels idleHandler 32 0 0x5000 0x08 someCpu (idleHandler_preserves _ _)

/-- An alignment check, with error code 0. -/
theorem alignmentCheck_not_transparent :
    ¬ Transparent someLabels idleHandler 17 (delivered 17 0 0x08 0x5000 someCpu) someCpu := by
  intro h
  have hshort :=
    (isr17_esp someLabels idleHandler 0 0x5000 0x08 someCpu (idleHandler_preserves _ _)).1
  rw [h.restored.esp] at hshort
  exact absurd hshort (by decide)

end Neutrino.System
