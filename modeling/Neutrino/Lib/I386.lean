import Neutrino.Lib.Stack32

/-!
# A fragment of the i386

The registers of the processor, and the instructions an interrupt entry consists of. Execution is a
straight line: jumps to code known beforehand are resolved by writing that code in their place, and
a called function is a parameter, which says what happens from its first instruction to its `ret`.

Segment registers hold selectors, and are pushed as words with a zero upper half. `deliver` is what
the processor does when it takes an interrupt at the current privilege level.
-/

namespace Neutrino.Lib

structure Cpu where
  eax : UInt32
  ecx : UInt32
  edx : UInt32
  ebx : UInt32
  esp : UInt32
  ebp : UInt32
  esi : UInt32
  edi : UInt32
  ds : UInt16
  es : UInt16
  fs : UInt16
  gs : UInt16
  cs : UInt16
  eip : UInt32
  eflags : UInt32
  mem : Memory32

inductive SegReg where
  | ds
  | es
  | fs
  | gs
  deriving DecidableEq, Repr

inductive Instr where
  | cli
  | pushByte (imm : UInt8)
  | pusha
  -- a 32-bit push of a segment register is filled up with zeros, which newer processors do
  | pushSeg (seg : SegReg)
  | movAx (imm : UInt16)
  | movSegAx (seg : SegReg)
  | movEaxEsp
  | pushEax
  | movEax (imm : UInt32)
  -- the address of the instruction behind the call is pushed
  | callEax (next : UInt32)
  | popEax
  | popSeg (seg : SegReg)
  | popa
  | addEsp (imm : UInt32)
  | iret
  deriving DecidableEq, Repr

namespace Cpu

def seg (c : Cpu) : SegReg → UInt16
  | .ds => c.ds
  | .es => c.es
  | .fs => c.fs
  | .gs => c.gs

def setSeg (c : Cpu) (v : UInt16) : SegReg → Cpu
  | .ds => { c with ds := v }
  | .es => { c with es := v }
  | .fs => { c with fs := v }
  | .gs => { c with gs := v }

def push (v : UInt32) (c : Cpu) : Cpu :=
  { c with esp := c.esp - 4, mem := c.mem.store (c.esp - 4) v }

/-- The word on top of the stack. -/
def top (c : Cpu) : UInt32 := c.mem.load c.esp

def drop (c : Cpu) : Cpu := { c with esp := c.esp + 4 }

/-- All general registers, with the stack pointer as it was before the first push. -/
def pusha (c : Cpu) : Cpu :=
  c.push c.eax |>.push c.ecx |>.push c.edx |>.push c.ebx |>.push c.esp |>.push c.ebp
    |>.push c.esi |>.push c.edi

/-- All general registers but the stack pointer, whose word is skipped. -/
def popa (c : Cpu) : Cpu :=
  let c := { c.drop with edi := c.top }
  let c := { c.drop with esi := c.top }
  let c := { c.drop with ebp := c.top }
  let c := c.drop
  let c := { c.drop with ebx := c.top }
  let c := { c.drop with edx := c.top }
  let c := { c.drop with ecx := c.top }
  { c.drop with eax := c.top }

def iret (c : Cpu) : Cpu :=
  let c := { c.drop with eip := c.top }
  let c := { c.drop with cs := c.top.toUInt16 }
  { c.drop with eflags := c.top }

/-- The processor takes an interrupt: flags, code segment and instruction pointer are pushed, and the
error code if there is one. The gate clears the interrupt flag, and the entry is at `entry`. -/
def deliver (errorCode : Option UInt32) (selector : UInt16) (entry : UInt32) (c : Cpu) : Cpu :=
  let pushed := c.push c.eflags |>.push c.cs.toUInt32 |>.push c.eip
  let pushed := errorCode.elim pushed pushed.push
  { pushed with cs := selector, eip := entry, eflags := c.eflags &&& ~~~0x200 }

end Cpu

/-- One instruction. `callee` says what the function at an address does, from its first instruction to
its `ret`. -/
def exec (callee : UInt32 → Cpu → Cpu) (c : Cpu) : Instr → Cpu
  | .cli => { c with eflags := c.eflags &&& ~~~0x200 }
  | .pushByte imm => c.push imm.toInt8.toInt32.toUInt32
  | .pusha => c.pusha
  | .pushSeg s => c.push (c.seg s).toUInt32
  | .movAx imm => { c with eax := (c.eax &&& 0xFFFF0000) ||| imm.toUInt32 }
  | .movSegAx s => c.setSeg c.eax.toUInt16 s
  | .movEaxEsp => { c with eax := c.esp }
  | .pushEax => c.push c.eax
  | .movEax imm => { c with eax := imm }
  | .callEax next => callee c.eax (c.push next)
  | .popEax => { c.drop with eax := c.top }
  | .popSeg s => (c.drop).setSeg c.top.toUInt16 s
  | .popa => c.popa
  | .addEsp imm => { c with esp := c.esp + imm }
  | .iret => c.iret

def execAll (callee : UInt32 → Cpu → Cpu) (code : List Instr) (c : Cpu) : Cpu :=
  code.foldl (exec callee) c

theorem execAll_append (callee : UInt32 → Cpu → Cpu) (code code' : List Instr) (c : Cpu) :
    execAll callee (code ++ code') c = execAll callee code' (execAll callee code c) :=
  List.foldl_append

/-! ## Stacks -/

namespace Cpu

/-- `ws` lie on top of the stack. -/
def Holds (c : Cpu) (ws : List UInt32) : Prop := Stack c.mem c.esp ws

theorem Holds.push {c : Cpu} {ws : List UInt32} (h : c.Holds ws) (v : UInt32)
    (hlen : 4 * ws.length + 4 ≤ 2 ^ 32) : (c.push v).Holds (v :: ws) :=
  Stack.push h v hlen

theorem Holds.pop {c : Cpu} {w : UInt32} {ws : List UInt32} (h : c.Holds (w :: ws)) :
    c.top = w ∧ c.drop.Holds ws :=
  ⟨h.top, Stack.pop h⟩

/-- **`pusha`** leaves the eight registers on the stack. -/
theorem Holds.pusha {c : Cpu} {ws : List UInt32} (h : c.Holds ws)
    (hlen : 4 * ws.length + 32 ≤ 2 ^ 32) :
    c.pusha.Holds (c.edi :: c.esi :: c.ebp :: c.esp :: c.ebx :: c.edx :: c.ecx :: c.eax :: ws) := by
  have heax := h.push c.eax (by omega)
  have hecx := heax.push c.ecx (by rw [List.length_cons]; omega)
  have hedx := hecx.push c.edx (by simp only [List.length_cons]; omega)
  have hebx := hedx.push c.ebx (by simp only [List.length_cons]; omega)
  have hesp := hebx.push c.esp (by simp only [List.length_cons]; omega)
  have hebp := hesp.push c.ebp (by simp only [List.length_cons]; omega)
  have hesi := hebp.push c.esi (by simp only [List.length_cons]; omega)
  exact hesi.push c.edi (by simp only [List.length_cons]; omega)

theorem esp_popa (a : UInt32) : a + 4 + 4 + 4 + 4 + 4 + 4 + 4 + 4 = a + 32 := by grind

/-- **`popa`** takes them from there, but for the stack pointer. -/
theorem Holds.popa {c : Cpu} {edi esi ebp esp ebx edx ecx eax : UInt32} {ws : List UInt32}
    (h : c.Holds (edi :: esi :: ebp :: esp :: ebx :: edx :: ecx :: eax :: ws)) :
    c.popa = { c with edi := edi, esi := esi, ebp := ebp, ebx := ebx, edx := edx, ecx := ecx,
                      eax := eax, esp := c.esp + 32 } ∧ c.popa.Holds ws := by
  obtain ⟨h₁, h₂, h₃, -, h₅, h₆, h₇, h₈, hrest⟩ := h
  rw [esp_popa] at hrest
  have hpopa : c.popa = { c with edi := edi, esi := esi, ebp := ebp, ebx := ebx, edx := edx,
                                 ecx := ecx, eax := eax, esp := c.esp + 32 } := by
    simp only [Cpu.popa, Cpu.drop, Cpu.top, h₁, h₂, h₃, h₅, h₆, h₇, h₈, esp_popa]
  refine ⟨hpopa, ?_⟩
  rw [hpopa]
  exact hrest

end Cpu

end Neutrino.Lib
