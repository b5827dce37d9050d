import Neutrino.System.Ports

/-!
# The ATA driver: PIO sector reads and writes

`_ata_read_one` and `_ata_write_one` program the task file, poll the drive and move one sector as 256
words through the data port; `_ata_read` and `_ata_write` do that for a run of sectors. What answers
on the ports is a parameter. It may depend on the lba a call was given, which is how a drive that
serves that lba, whatever the registers say, is expressed: hence `bus : UInt32 → Bus W`.

The private data of the device (`dev->_priv`) is passed by value. The poll loops wait for the drive
and take a fuel argument.
-/

namespace Neutrino.Drivers

open Neutrino.Lib Neutrino.System

variable {W : Type}

/-! ## Constants -/

def ataSrBsy : UInt8 := 0x80
def ataSrDrq : UInt8 := 0x08
def ataSrErr : UInt8 := 0x01

def ataCmdReadPioExt : UInt8 := 0x24
def ataCmdWritePioExt : UInt8 := 0x34
def ataCmdCacheFlushExt : UInt8 := 0xEA

def ataMaster : UInt8 := 0x00
def ataSlave : UInt8 := 0x01

def ataRegData : UInt16 := 0x00
def ataRegSeccount0 : UInt16 := 0x02
def ataRegLba0 : UInt16 := 0x03
def ataRegLba1 : UInt16 := 0x04
def ataRegLba2 : UInt16 := 0x05
def ataRegHddevsel : UInt16 := 0x06
def ataRegCommand : UInt16 := 0x07
def ataRegStatus : UInt16 := 0x07
def ataRegAltstatus : UInt16 := 0x0C

def ataPrimary : UInt8 := 0x00
def ataSecondary : UInt8 := 0x01

def ataPrimaryIo : UInt16 := 0x1F0
def ataSecondaryIo : UInt16 := 0x170

/-- `struct ata_drive`, what `_priv` points to. -/
structure AtaDrive where
  drive : UInt8
  deriving DecidableEq, Repr

/-! ## Waiting for the drive -/

def ataDelay400ns (bus : Bus W) (io : UInt16) : MachineM W Unit :=
  MachineM.forLoop (fun _ => do
    let _ ← inportb bus (io + ataRegAltstatus)) 4 0

/-- The loop at `retry2`. -/
def ataPollDrq (bus : Bus W) (io : UInt16) : Nat → MachineM W Unit
  | 0 => MachineM.stop .outOfFuel
  | fuel + 1 => do
      let status ← inportb bus (io + ataRegStatus)
      if status &&& ataSrErr ≠ 0 then
        MachineM.stop (.panic "ERR set, device failure!\n")
      else if status &&& ataSrDrq = 0 then
        ataPollDrq bus io fuel
      else
        return ()

/-- The loop at `retry`. -/
def ataPollBsy (bus : Bus W) (io : UInt16) : Nat → MachineM W Unit
  | 0 => MachineM.stop .outOfFuel
  | fuel + 1 => do
      let status ← inportb bus (io + ataRegStatus)
      if status &&& ataSrBsy ≠ 0 then
        ataPollBsy bus io fuel
      else
        return ()

def ataPoll (bus : Bus W) (io : UInt16) (fuel : Nat) : MachineM W Unit := do
  MachineM.forLoop (fun _ => do
    let _ ← inportb bus (io + ataRegAltstatus)) 4 0
  ataPollBsy bus io fuel
  ataPollDrq bus io fuel

def ataFlush (bus : Bus W) (io : UInt16) : MachineM W Unit :=
  outportb bus (io + ataRegCommand) ataCmdCacheFlushExt

/-! ## One sector -/

/-- The `switch` on the drive number: the channel's ports, and which drive on it. -/
def selectDrive (drive : UInt8) : Option (UInt16 × UInt8) :=
  if drive = ataPrimary <<< 1 ||| ataMaster then some (ataPrimaryIo, ataMaster)
  else if drive = ataPrimary <<< 1 ||| ataSlave then some (ataPrimaryIo, ataSlave)
  else if drive = ataSecondary <<< 1 ||| ataMaster then some (ataSecondaryIo, ataMaster)
  else if drive = ataSecondary <<< 1 ||| ataSlave then some (ataSecondaryIo, ataSlave)
  else none

/-- The writes to the task file, which differ only in the sector counts and the command. A shift by
32 or more takes its count modulo 32, as the processor does. -/
def issueCommand (bus : Bus W) (io : UInt16) (drive : UInt8) (lba : UInt32)
    (seccountFirst seccountSecond command : UInt8) : MachineM W Unit := do
  let cmd : UInt8 := if drive = ataMaster then 0xE0 else 0xF0
  outportb bus (io + ataRegHddevsel) (cmd ||| (lba >>> 24 &&& 0x0F).toUInt8)
  outportb bus (io + 1) 0x00
  outportb bus (io + ataRegSeccount0) seccountFirst
  outportb bus (io + ataRegLba0) (lba >>> 24).toUInt8
  outportb bus (io + ataRegLba1) (lba >>> 32).toUInt8
  outportb bus (io + ataRegLba2) (lba >>> 40).toUInt8
  outportb bus (io + ataRegSeccount0) seccountSecond
  outportb bus (io + ataRegLba0) lba.toUInt8
  outportb bus (io + ataRegLba1) (lba >>> 8).toUInt8
  outportb bus (io + ataRegLba2) (lba >>> 16).toUInt8
  outportb bus (io + ataRegCommand) command

def readWord (bus : Bus W) (io : UInt16) (buf i : Nat) : MachineM W Unit := do
  let data ← inportw bus (io + ataRegData)
  MachineM.storeWord (buf + i * 2) data

def writeWord (bus : Bus W) (io : UInt16) (buf i : Nat) : MachineM W Unit := do
  let data ← MachineM.loadWord (buf + i * 2)
  outportw bus (io + ataRegData) data

def ataReadOne (bus : Bus W) (fuel buf : Nat) (lba : UInt32) (priv : AtaDrive) :
    MachineM W UInt8 :=
  match selectDrive priv.drive with
  | none => do
      MachineM.print "FATAL: unknown drive!\n"
      return 0
  | some (io, drive) => do
      issueCommand bus io drive lba 1 0 ataCmdReadPioExt
      ataPoll bus io fuel
      MachineM.forLoop (readWord bus io buf) 256 0
      ataDelay400ns bus io
      return 1

def ataWriteOne (bus : Bus W) (fuel buf : Nat) (lba : UInt32) (priv : AtaDrive) :
    MachineM W UInt8 :=
  match selectDrive priv.drive with
  | none => do
      MachineM.print "FATAL: unknown drive!\n"
      return 0
  | some (io, drive) => do
      issueCommand bus io drive lba 0 1 ataCmdWritePioExt
      ataPoll bus io fuel
      MachineM.forLoop (writeWord bus io buf) 256 0
      ataDelay400ns bus io
      ataFlush bus io
      return 1

/-! ## A run of sectors

`buf += 512` after each sector: in round `i` the pointer is `buf + 512 * i`. -/

def ataRead (bus : UInt32 → Bus W) (fuel buf : Nat) (lba numsects : UInt32) (priv : AtaDrive) :
    MachineM W Unit :=
  MachineM.forLoop (fun i => do
    let sector := lba + UInt32.ofNat i
    let _ ← ataReadOne (bus sector) fuel (buf + 512 * i) sector priv) numsects.toNat 0

def ataWrite (bus : UInt32 → Bus W) (fuel buf : Nat) (lba numsects : UInt32) (priv : AtaDrive) :
    MachineM W Unit :=
  MachineM.forLoop (fun i => do
    let sector := lba + UInt32.ofNat i
    let _ ← ataWriteOne (bus sector) fuel (buf + 512 * i) sector priv) numsects.toNat 0

end Neutrino.Drivers
