import Neutrino.Lib.RealMode

/-!
# The boot loader's tables

Before it leaves real mode the boot loader asks the BIOS for the hard disks and for the memory map, and
leaves the answers in a data area that the kernel reads. This file is the code of the two loops, with the
data they work on; what the BIOS does is a parameter.
-/

namespace Neutrino.Boot

open Neutrino.Lib RealMode

/-! ## Data -/

/-- The data from `__temppointer` to the end of `__drive_data`, as the assembler lays it out. -/
structure Layout where
  base : Nat
  fits : base + 528 ≤ 2 ^ 16

namespace Layout

variable (l : Layout)

def tempPointer : Nat := l.base

def tempCont : Nat := l.base + 4

def e820Size : Nat := l.base + 8

/-- 16 entries of 20 bytes. -/
def e820Data : Nat := l.base + 12

def driveCount : Nat := l.base + 332

/-- 16 entries of 12 bytes. -/
def driveData : Nat := l.base + 336

/-- Address `a` is in the data. -/
def Holds (a : Nat) : Prop := l.base ≤ a ∧ a < l.base + 528

end Layout

/-- The data of an image that starts with it, and is loaded at 0x7E00. -/
def imageLayout : Layout := ⟨0x7E00, by decide⟩

/-- No register is set, and the data is zero. -/
def imageCpu : Cpu := ⟨fun _ => 0, false, false, fun _ => 0⟩

/-- The data is the same in both states. -/
def SameData (l : Layout) (c c' : Cpu) : Prop := ∀ a, l.Holds a → c'.mem a = c.mem a

theorem SameData.load {l : Layout} {c c' : Cpu} (h : SameData l c c') {a : Nat} (hlo : l.base ≤ a)
    (hhi : a + 4 ≤ l.base + 528) : c'.load a = c.load a :=
  load_congr fun x hx hx' => h x ⟨by omega, by omega⟩

/-! ## The drive table -/

section Drives

variable (l : Layout)

/-- From `.read_drives` on. -/
def readDrives : List Instr :=
  [.movImm (.full .eax) 0,
   .store l.driveCount .eax,
   .movImm (.full .eax) (UInt32.ofNat l.driveData),
   .store l.tempPointer .eax,
   .movImm (.low .edx) 0x80,
   .movImm (.high .eax) 0x08,
   .movImm (.word .edi) 0]

/-- From `.drive_loop` to the `jc`. -/
def driveQuery : List Instr :=
  [.movImm (.high .eax) 0x08,
   .int 0x13]

def countDrive : List Instr :=
  [.load .eax l.driveCount,
   .inc (.full .eax),
   .store l.driveCount .eax,
   .load .ebx l.tempPointer]

def storeHeads : List Instr :=
  [.mov (.full .eax) (.high .edx),
   .addImm (.full .eax) 1,
   .storeAt .ebx 0 .eax]

def storeSectors : List Instr :=
  [.mov (.full .eax) (.word .ecx),
   .andImm (.full .eax) 0x3F,
   .storeAt .ebx 8 .eax]

def storeCylinders : List Instr :=
  [.mov (.full .eax) (.word .ecx),
   .shrImm (.full .eax) 6,
   .andImm (.full .eax) 0x3FF,
   .addImm (.full .eax) 1,
   .storeAt .ebx 4 .eax]

def nextDrive : List Instr :=
  [.inc (.low .edx),
   .addImm (.full .ebx) 3,
   .store l.tempPointer .ebx]

/-- From the `jc` to the `jmp`. -/
def driveRecord : List Instr :=
  countDrive l ++ storeHeads ++ storeSectors ++ storeCylinders ++ nextDrive l

variable (bios : UInt8 → Cpu → Cpu)

def driveRound (c : Cpu) : Round Cpu :=
  let c := run bios driveQuery c
  if c.cf then .leave c
  else .again (run bios (driveRecord l) c)

/-- The state at `.drives_found`. -/
def driveLoop (fuel : Nat) (c : Cpu) : Option Cpu :=
  loop (driveRound l bios) fuel (run bios (readDrives l) c)

end Drives

/-! ## The memory map -/

section Map

variable (l : Layout)

/-- From `.drives_found` to `.e820_loop`. -/
def getE820 : List Instr :=
  [.storeImm l.tempPointer 0,
   .movImm (.word .edi) (UInt32.ofNat l.e820Data)]

/-- From `.e820_loop` to the `jc`. -/
def e820Query : List Instr :=
  [.movImm (.full .eax) 0xE820,
   .load .ebx l.tempCont,
   .movImm (.full .ecx) 20,
   .movImm (.full .edx) 0x534D4150,
   .int 0x15,
   .store l.tempCont .ebx]

/-- Between the two jumps out of the loop. -/
def e820Test : List Instr :=
  [.or (.full .ebx) (.full .ebx)]

/-- From the `jz` to the `jmp`. -/
def e820Count : List Instr :=
  [.load .eax l.e820Size,
   .inc (.full .eax),
   .store l.e820Size .eax,
   .mov (.word .eax) (.word .edi),
   .addImm (.word .eax) 20,
   .mov (.word .edi) (.word .eax)]

variable (bios : UInt8 → Cpu → Cpu)

def e820Round (c : Cpu) : Round Cpu :=
  let c := run bios (e820Query l) c
  if c.cf then .leave c
  else
    let c := run bios e820Test c
    if c.zf then .leave c
    else .again (run bios (e820Count l) c)

/-- The state at `.e820_found`. -/
def e820Loop (fuel : Nat) (c : Cpu) : Option Cpu :=
  loop (e820Round l bios) fuel (run bios (getE820 l) c)

end Map

end Neutrino.Boot
