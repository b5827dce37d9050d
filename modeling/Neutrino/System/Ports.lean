import Neutrino.Lib.PortMachine

/-!
# Port I/O
-/

namespace Neutrino.System

open Neutrino.Lib

variable {W β : Type}

def inportb (bus : Bus W) (port : UInt16) : MachineM W UInt8 :=
  MachineM.inb bus port

def outportb (bus : Bus W) (port : UInt16) (data : UInt8) : MachineM W Unit :=
  MachineM.outb bus port data

def inportw (bus : Bus W) (port : UInt16) : MachineM W UInt16 := do
  let ax ← MachineM.inw bus port
  -- `result` is declared `uint8_t`, so only `al` of the word reaches it
  let result := ax.toUInt8
  return result.toUInt16

def outportw (bus : Bus W) (port : UInt16) (data : UInt16) : MachineM W Unit :=
  MachineM.outw bus port data

theorem inportb_bind (bus : Bus W) (port : UInt16) (k : UInt8 → MachineM W β) (s : Machine W) :
    (inportb bus port >>= k) s =
      k (bus.inb port s.dev).1 { s with dev := (bus.inb port s.dev).2 } := (rfl)

theorem outportb_bind (bus : Bus W) (port : UInt16) (data : UInt8) (k : Unit → MachineM W β)
    (s : Machine W) :
    (outportb bus port data >>= k) s = k () { s with dev := bus.outb port data s.dev } := (rfl)

theorem outportb_run (bus : Bus W) (port : UInt16) (data : UInt8) (s : Machine W) :
    outportb bus port data s = .ok ((), { s with dev := bus.outb port data s.dev }) := (rfl)

/-- **The high byte of an input word is lost.** -/
theorem inportw_bind (bus : Bus W) (port : UInt16) (k : UInt16 → MachineM W β) (s : Machine W) :
    (inportw bus port >>= k) s =
      k (bus.inw port s.dev).1.toUInt8.toUInt16
        { s with dev := (bus.inw port s.dev).2 } := (rfl)

theorem outportw_run (bus : Bus W) (port : UInt16) (data : UInt16) (s : Machine W) :
    outportw bus port data s = .ok ((), { s with dev := bus.outw port data s.dev }) := (rfl)

end Neutrino.System
