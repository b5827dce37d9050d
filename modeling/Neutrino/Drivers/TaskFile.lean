import Neutrino.Drivers.IdealDrive

/-!
# The task file of a drive

For a 48-bit command each of four registers of the drive takes two bytes, the high-order one first.
`FrontEnd` is the side of a drive that the port writes reach: it latches the bytes and, when a command
is written, hands it on with the address and the sector count they stand for. What the drive does with
a command, and how it answers, is left open.

`_ata_read_one` and `_ata_write_one` write the same address, with the shifts by 32 and 40 going round
to the low bytes, and their counts in opposite order (`received_eq`).
-/

namespace Neutrino.Drivers

open Neutrino.Lib Neutrino.System MachineM

/-! ## Latches -/

/-- A register that keeps the last two bytes written. -/
structure Latch where
  previous : UInt8
  current : UInt8
  deriving DecidableEq, Repr

def Latch.write (l : Latch) (byte : UInt8) : Latch := ⟨l.current, byte⟩

structure TaskFile where
  seccount0 : Latch
  lba0 : Latch
  lba1 : Latch
  lba2 : Latch
  deriving DecidableEq, Repr

namespace TaskFile

/-- The 16-bit sector count. -/
def count (f : TaskFile) : Nat := 2 ^ 8 * f.seccount0.previous.toNat + f.seccount0.current.toNat

/-- The 48-bit address. -/
def address (f : TaskFile) : Nat :=
  f.lba0.current.toNat + 2 ^ 8 * f.lba1.current.toNat + 2 ^ 16 * f.lba2.current.toNat +
    2 ^ 24 * f.lba0.previous.toNat + 2 ^ 32 * f.lba1.previous.toNat +
    2 ^ 40 * f.lba2.previous.toNat

/-- A write to one of the drive's registers. -/
def write (f : TaskFile) (reg : UInt16) (data : UInt8) : TaskFile :=
  if reg = ataRegSeccount0 then { f with seccount0 := f.seccount0.write data }
  else if reg = ataRegLba0 then { f with lba0 := f.lba0.write data }
  else if reg = ataRegLba1 then { f with lba1 := f.lba1.write data }
  else if reg = ataRegLba2 then { f with lba2 := f.lba2.write data }
  else f

end TaskFile

/-! ## The drive -/

/-- A command with the parameters latched when it was written. -/
structure Received where
  command : UInt8
  address : Nat
  count : Nat
  deriving DecidableEq, Repr

/-- A drive: its registers, the commands it got, and all the rest. -/
structure FrontEnd (W : Type) where
  file : TaskFile
  received : List Received
  rest : W

variable {W : Type}

/-- The drive on the channel `io`; `bus` says how the rest of it answers. -/
def latching (io : UInt16) (bus : Bus W) : Bus (FrontEnd W) where
  inb port d := ((bus.inb port d.rest).1, { d with rest := (bus.inb port d.rest).2 })
  outb port data d :=
    { file := d.file.write (port - io) data
      received :=
        if port - io = ataRegCommand then
          d.received ++ [⟨data, d.file.address, d.file.count⟩]
        else d.received
      rest := bus.outb port data d.rest }
  inw port d := ((bus.inw port d.rest).1, { d with rest := (bus.inw port d.rest).2 })
  outw port data d := { d with rest := bus.outw port data d.rest }

/-- The two functions that transfer a sector. -/
inductive Direction where
  | read
  | write
  deriving DecidableEq, Repr

def Direction.command : Direction → UInt8
  | .read => ataCmdReadPioExt
  | .write => ataCmdWritePioExt

def transferOne (dir : Direction) (bus : Bus W) (fuel buf : Nat) (lba : UInt32) (priv : AtaDrive) :
    MachineM W UInt8 :=
  match dir with
  | .read => ataReadOne bus fuel buf lba priv
  | .write => ataWriteOne bus fuel buf lba priv

/-- The first command the drive gets from a call is the one meant, for one sector at `lba`. -/
def Encodes (dir : Direction) (lba : UInt32) (priv : AtaDrive) : Prop :=
  ∀ (W : Type) (bus : Bus W) (io : UInt16) (slave : UInt8), selectDrive priv.drive = some (io, slave) →
    ∀ fuel buf s r s', transferOne dir (latching io bus) fuel buf lba priv s = .ok (r, s') →
      ∃ more, s'.dev.received = s.dev.received ++ ⟨dir.command, lba.toNat, 1⟩ :: more

/-! ## What is written -/

/-- The registers after the writes of `issueCommand`. -/
def fileFor (lba : UInt32) (seccountFirst seccountSecond : UInt8) : TaskFile where
  seccount0 := ⟨seccountFirst, seccountSecond⟩
  lba0 := ⟨(lba >>> 24).toUInt8, lba.toUInt8⟩
  lba1 := ⟨(lba >>> 32).toUInt8, (lba >>> 8).toUInt8⟩
  lba2 := ⟨(lba >>> 40).toUInt8, (lba >>> 16).toUInt8⟩

theorem issueCommand_received (bus : Bus W) {io : UInt16} (hio : IsChannel io) (drive : UInt8)
    (lba : UInt32) (first second command : UInt8) (s : Machine (FrontEnd W)) :
    ∃ rest, issueCommand (latching io bus) io drive lba first second command s =
      .ok ((), { s with dev := {
        file := fileFor lba first second
        received := s.dev.received ++
          [⟨command, (fileFor lba first second).address, (fileFor lba first second).count⟩]
        rest := rest } }) := by
  unfold issueCommand
  simp only [outportb_bind, outportb_run]
  rcases hio with rfl | rfl
  · exact ⟨_, rfl⟩
  · exact ⟨_, rfl⟩

/-! ## What follows takes nothing back -/

/-- Commands the drive got stay. -/
def Grows (s s' : Machine (FrontEnd W)) : Prop := s.dev.received <+: s'.dev.received

section Grows

theorem Grows.refl (s : Machine (FrontEnd W)) : Grows s s := List.prefix_refl _

theorem Grows.trans {s s' s'' : Machine (FrontEnd W)} (h : Grows s s') (h' : Grows s' s'') :
    Grows s s'' :=
  List.IsPrefix.trans h h'

/-- A sequence of instructions that take nothing back. -/
theorem grows_bind {α β : Type} {x : MachineM (FrontEnd W) α} {k : α → MachineM (FrontEnd W) β}
    (hx : Keeps Grows x) (hk : ∀ r, Keeps Grows (k r)) : Keeps Grows (x >>= k) :=
  Keeps.bind (R := Grows) (fun _ _ _ => Grows.trans) hx hk

theorem grows_forLoop {body : Nat → MachineM (FrontEnd W) Unit} (hbody : ∀ i, Keeps Grows (body i))
    (n i : Nat) : Keeps Grows (MachineM.forLoop body n i) :=
  Keeps.forLoop (R := Grows) Grows.refl (fun _ _ _ => Grows.trans) hbody n i

variable (bus : Bus W) (io port : UInt16)

theorem grows_inportb : Keeps Grows (inportb (latching io bus) port) := by
  intro s r s' hrun
  cases hrun
  exact List.prefix_refl _

theorem grows_inportw : Keeps Grows (inportw (latching io bus) port) := by
  intro s r s' hrun
  cases hrun
  exact List.prefix_refl _

theorem grows_outportw (data : UInt16) : Keeps Grows (outportw (latching io bus) port data) := by
  intro s r s' hrun
  cases hrun
  exact List.prefix_refl _

theorem grows_outportb (data : UInt8) : Keeps Grows (outportb (latching io bus) port data) := by
  intro s r s' hrun
  cases hrun
  show s.dev.received <+: if port - io = ataRegCommand then s.dev.received ++ _ else s.dev.received
  split
  · exact List.prefix_append _ _
  · exact List.prefix_refl _

theorem grows_loadWord (a : Nat) : Keeps (W := FrontEnd W) Grows (loadWord a) := by
  intro s r s' hrun
  cases hrun
  exact List.prefix_refl _

theorem grows_storeWord (a : Nat) (v : UInt16) : Keeps (W := FrontEnd W) Grows (storeWord a v) := by
  intro s r s' hrun
  cases hrun
  exact List.prefix_refl _

theorem grows_ataDelay400ns : Keeps Grows (ataDelay400ns (latching io bus) io) :=
  grows_forLoop (fun _ => grows_bind (grows_inportb bus io _) fun _ => Keeps.pure Grows.refl _) 4 0

theorem grows_ataPollBsy (fuel : Nat) : Keeps Grows (ataPollBsy (latching io bus) io fuel) := by
  induction fuel with
  | zero => exact Keeps.stop _
  | succ fuel ih =>
      apply grows_bind (grows_inportb bus io _)
      intro status
      split
      · exact ih
      · exact Keeps.pure Grows.refl _

theorem grows_ataPollDrq (fuel : Nat) : Keeps Grows (ataPollDrq (latching io bus) io fuel) := by
  induction fuel with
  | zero => exact Keeps.stop _
  | succ fuel ih =>
      apply grows_bind (grows_inportb bus io _)
      intro status
      split
      · exact Keeps.stop _
      · split
        · exact ih
        · exact Keeps.pure Grows.refl _

theorem grows_ataPoll (fuel : Nat) : Keeps Grows (ataPoll (latching io bus) io fuel) := by
  apply grows_bind (grows_ataDelay400ns bus io)
  intro _
  apply grows_bind (grows_ataPollBsy bus io fuel)
  intro _
  exact grows_ataPollDrq bus io fuel

theorem grows_readWord (buf i : Nat) : Keeps Grows (readWord (latching io bus) io buf i) :=
  grows_bind (grows_inportw bus io _) fun _ => grows_storeWord _ _

theorem grows_writeWord (buf i : Nat) : Keeps Grows (writeWord (latching io bus) io buf i) :=
  grows_bind (grows_loadWord _) fun _ => grows_outportw bus io _ _

end Grows

/-- The registers when a call writes its command. -/
def Direction.file (lba : UInt32) : Direction → TaskFile
  | .read => fileFor lba 1 0
  | .write => fileFor lba 0 1

theorem grows_readTail (bus : Bus W) (io : UInt16) (fuel buf : Nat) :
    Keeps Grows (do
      ataPoll (latching io bus) io fuel
      MachineM.forLoop (readWord (latching io bus) io buf) 256 0
      ataDelay400ns (latching io bus) io
      return (1 : UInt8)) := by
  apply grows_bind (grows_ataPoll bus io fuel)
  intro _
  apply grows_bind (grows_forLoop (grows_readWord bus io buf) 256 0)
  intro _
  exact grows_bind (grows_ataDelay400ns bus io) fun _ => Keeps.pure Grows.refl _

theorem grows_writeTail (bus : Bus W) (io : UInt16) (fuel buf : Nat) :
    Keeps Grows (do
      ataPoll (latching io bus) io fuel
      MachineM.forLoop (writeWord (latching io bus) io buf) 256 0
      ataDelay400ns (latching io bus) io
      ataFlush (latching io bus) io
      return (1 : UInt8)) := by
  apply grows_bind (grows_ataPoll bus io fuel)
  intro _
  apply grows_bind (grows_forLoop (grows_writeWord bus io buf) 256 0)
  intro _
  apply grows_bind (grows_ataDelay400ns bus io)
  intro _
  exact grows_bind (grows_outportb bus io _ _) fun _ => Keeps.pure Grows.refl _

/-- **The first command received**, of a call that returns. -/
theorem transferOne_received {dir : Direction} {bus : Bus W} {io : UInt16} {slave : UInt8}
    {fuel buf : Nat} {lba : UInt32} {priv : AtaDrive} {s s' : Machine (FrontEnd W)} {r : UInt8}
    (hdrive : selectDrive priv.drive = some (io, slave)) (hio : IsChannel io)
    (hrun : transferOne dir (latching io bus) fuel buf lba priv s = .ok (r, s')) :
    ∃ more, s'.dev.received = s.dev.received ++
      ⟨dir.command, (dir.file lba).address, (dir.file lba).count⟩ :: more := by
  cases dir with
  | read =>
      obtain ⟨rest, hissue⟩ := issueCommand_received bus hio slave lba 1 0 ataCmdReadPioExt s
      unfold transferOne ataReadOne at hrun
      rw [hdrive] at hrun
      dsimp only at hrun
      rw [bind_run_ok hissue] at hrun
      obtain ⟨more, hmore⟩ := grows_readTail bus io fuel buf _ _ _ hrun
      exact ⟨more, by rw [← hmore, List.append_assoc]; rfl⟩
  | write =>
      obtain ⟨rest, hissue⟩ := issueCommand_received bus hio slave lba 0 1 ataCmdWritePioExt s
      unfold transferOne ataWriteOne at hrun
      rw [hdrive] at hrun
      dsimp only at hrun
      rw [bind_run_ok hissue] at hrun
      obtain ⟨more, hmore⟩ := grows_writeTail bus io fuel buf _ _ _ hrun
      exact ⟨more, by rw [← hmore, List.append_assoc]; rfl⟩

/-! ## Calls that return -/

/-- A drive that is always ready. -/
def readyBus : Bus Unit where
  inb _ d := (ataSrDrq, d)
  outb _ _ d := d
  inw _ d := (0, d)
  outw _ _ d := d

theorem inb_ready (io port : UInt16) (d : FrontEnd Unit) :
    (latching io readyBus).inb port d = (ataSrDrq, d) := rfl

theorem delay_ready (io : UInt16) (s : Machine (FrontEnd Unit)) :
    Ends (ataDelay400ns (latching io readyBus) io) s fun _ _ => True :=
  Ends.forLoop (I := fun _ _ => True) (fun _ _ _ _ _ => ⟨(), _, rfl, trivial⟩) trivial

theorem ataPoll_ready (io : UInt16) (s : Machine (FrontEnd Unit)) :
    Ends (ataPoll (latching io readyBus) io 1) s fun _ _ => True := by
  apply Ends.bind (delay_ready io s)
  intro _ s' _
  have hbsy : ataPollBsy (latching io readyBus) io 1 s' = .ok ((), s') := by
    rw [ataPollBsy, inportb_bind, inb_ready,
      if_neg (show ¬ ataSrDrq &&& ataSrBsy ≠ 0 by decide), MachineM.pure_run]
  rw [Ends, bind_run_ok hbsy]
  refine ⟨(), s', ?_, trivial⟩
  rw [ataPollDrq, inportb_bind, inb_ready, if_neg (show ¬ ataSrDrq &&& ataSrErr ≠ 0 by decide),
    if_neg (show ¬ ataSrDrq &&& ataSrDrq = 0 by decide), MachineM.pure_run]

/-- On that drive both functions return. -/
theorem transferOne_ready (dir : Direction) {io : UInt16} {slave : UInt8} {priv : AtaDrive}
    (hdrive : selectDrive priv.drive = some (io, slave)) (hio : IsChannel io) (lba : UInt32)
    (s : Machine (FrontEnd Unit)) :
    Ends (transferOne dir (latching io readyBus) 1 0 lba priv) s fun _ _ => True := by
  have hissue : ∀ first second command,
      Ends (issueCommand (latching io readyBus) io slave lba first second command) s
        fun _ _ => True := by
    intro first second command
    obtain ⟨rest, hrun⟩ := issueCommand_received readyBus hio slave lba first second command s
    exact ⟨(), _, hrun, trivial⟩
  cases dir with
  | read =>
      unfold transferOne ataReadOne
      rw [hdrive]
      apply Ends.bind (hissue _ _ _)
      intro _ s₁ _
      apply Ends.bind (ataPoll_ready io s₁)
      intro _ s₂ _
      apply Ends.bind (Ends.forLoop (I := fun _ _ => True)
        (fun _ _ _ _ _ => ⟨(), _, rfl, trivial⟩) trivial)
      intro _ s₃ _
      apply Ends.bind (delay_ready io s₃)
      intro _ s₄ _
      exact ⟨1, s₄, rfl, trivial⟩
  | write =>
      unfold transferOne ataWriteOne
      rw [hdrive]
      apply Ends.bind (hissue _ _ _)
      intro _ s₁ _
      apply Ends.bind (ataPoll_ready io s₁)
      intro _ s₂ _
      apply Ends.bind (Ends.forLoop (I := fun _ _ => True)
        (fun _ _ _ _ _ => ⟨(), _, rfl, trivial⟩) trivial)
      intro _ s₃ _
      apply Ends.bind (delay_ready io s₃)
      intro _ s₄ _
      exact ⟨1, _, rfl, trivial⟩

/-! ## The encoding -/

theorem encodes_iff_file {dir : Direction} {lba : UInt32} {priv : AtaDrive}
    (hdrive : priv.drive < 4) :
    Encodes dir lba priv ↔
      (dir.file lba).address = lba.toNat ∧ (dir.file lba).count = 1 := by
  obtain ⟨io, slave, hselect, hio⟩ := selectDrive_valid hdrive
  constructor
  · intro h
    obtain ⟨r, s', hrun, -⟩ := transferOne_ready dir hselect hio lba
      ⟨fun _ => 0, ⟨⟨⟨0, 0⟩, ⟨0, 0⟩, ⟨0, 0⟩, ⟨0, 0⟩⟩, [], ()⟩, []⟩
    obtain ⟨more, hmore⟩ := h Unit readyBus io slave hselect 1 0 _ r s' hrun
    obtain ⟨more', hmore'⟩ := transferOne_received hselect hio hrun
    rw [hmore] at hmore'
    have hhead := (List.cons.inj (List.append_cancel_left hmore')).1
    injection hhead with _ haddress hcount
    exact ⟨haddress.symm, hcount.symm⟩
  · rintro ⟨haddress, hcount⟩ W bus io' slave' hselect' fuel buf s r s' hrun
    rw [hselect] at hselect'
    cases hselect'
    obtain ⟨more, hmore⟩ := transferOne_received hselect hio hrun
    rw [haddress, hcount] at hmore
    exact ⟨more, hmore⟩

/-- The address, with the low two bytes once more at the top. -/
theorem file_address (dir : Direction) (lba : UInt32) :
    (dir.file lba).address = lba.toNat + 2 ^ 32 * (lba.toNat % 2 ^ 16) := by
  have hlt := lba.toNat_lt
  have hfile : (dir.file lba).address = (fileFor lba 0 0).address := by
    cases dir <;> rfl
  rw [hfile]
  simp only [fileFor, TaskFile.address, UInt32.toNat_toUInt8, UInt32.toNat_shiftRight,
    UInt32.reduceToNat, Nat.shiftRight_eq_div_pow, Nat.reduceMod, Nat.reducePow]
  omega

/-- **Only a write to a sector whose number has no low bits is encoded right**: the count of a read is
256, and the two low bytes of the address come back as its two highest. -/
theorem encodes_iff (dir : Direction) (lba : UInt32) (priv : AtaDrive) (hdrive : priv.drive < 4) :
    Encodes dir lba priv ↔ dir = .write ∧ lba.toNat % 2 ^ 16 = 0 := by
  rw [encodes_iff_file hdrive, file_address]
  cases dir with
  | read =>
      have hcount : (Direction.read.file lba).count = 256 := rfl
      rw [hcount]
      exact iff_of_false (fun h => absurd h.2 (by decide)) fun h => nomatch h.1
  | write =>
      have hcount : (Direction.write.file lba).count = 1 := rfl
      rw [hcount]
      refine ⟨fun h => ⟨rfl, ?_⟩, fun h => ⟨?_, rfl⟩⟩
      · omega
      · omega

theorem encodes_write_65536 : Encodes .write 65536 ⟨2⟩ :=
  (encodes_iff .write 65536 ⟨2⟩ (by decide)).mpr ⟨rfl, by decide⟩

/-- Sector 0 is read with a count of 256, and sector 1 written at `1 + 2 ^ 32`. -/
theorem not_encodes : ¬ Encodes .read 0 ⟨0⟩ ∧ ¬ Encodes .write 1 ⟨0⟩ := by
  rw [encodes_iff_file (by decide), encodes_iff_file (by decide)]
  decide

end Neutrino.Drivers
