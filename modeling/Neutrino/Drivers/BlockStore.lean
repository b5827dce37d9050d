import Neutrino.Drivers.TaskFile
import Neutrino.Drivers.WriteThenRead
import Neutrino.Lib.PortSimulation

/-!
# The disk as a store of sectors

The drive of this file takes the sector of a command from its registers, where the driver has put the low
bytes of the number twice (`file_address`). So sector `lba` of the kernel is another sector on the disk
(`addressOf`). As no two share one, that drive does under other numbers what the ideal drive does
(`ataRead_follows`, `ataWrite_follows`), and any sequence of requests finds a store of sectors in it
(`requests_stored`).
-/

namespace Neutrino.Drivers

open Neutrino.Lib Neutrino.System MachineM

/-! ## A drive that decodes its registers -/

/-- The sector on the disk for a sector of the kernel. -/
def addressOf (lba : Nat) : Nat := lba + 2 ^ 32 * (lba % 2 ^ 16)

theorem addressOf_inj {n n' : Nat} (h : n < 2 ^ 32) (h' : n' < 2 ^ 32)
    (heq : addressOf n = addressOf n') : n = n' := by
  unfold addressOf at heq
  omega

/-- The registers, the sector of the last command, and the drive behind them. -/
structure Decoder where
  file : TaskFile
  sector : Nat
  drive : Drive

/-- A drive on the channel `io`. Like the ideal one it transfers a single sector for a command, whatever
the sector count in its registers says (256 sectors, before a read). -/
def decoding (t : Timing) (io : UInt16) : Bus Decoder where
  inb port d :=
    let out := (idealBus t d.sector).inb port d.drive
    (out.1, { d with drive := out.2 })
  outb port data d :=
    let file := d.file.write (port - io) data
    let sector := if port - io = ataRegCommand then file.address else d.sector
    ⟨file, sector, (idealBus t sector).outb port data d.drive⟩
  inw port d :=
    let out := (idealBus t d.sector).inw port d.drive
    (out.1, { d with drive := out.2 })
  outw port data d := { d with drive := (idealBus t d.sector).outw port data d.drive }

/-! ## Seen by the kernel -/

/-- `disk'` has the sectors of `disk` in the kernel's order; the others are those of `outside`. -/
structure Renumbered (outside disk disk' : Nat → Nat → UInt8) : Prop where
  inside : ∀ n < 2 ^ 32, disk (addressOf n) = disk' n
  rest : ∀ n, (∀ lba < 2 ^ 32, n ≠ addressOf lba) → disk n = outside n

/-- But for the order of its sectors the drive is `e`. -/
def Renumbers (outside : Nat → Nat → UInt8) (d : Decoder) (e : Drive) : Prop :=
  ∃ disk, d.drive = { e with disk := disk } ∧ Renumbered outside disk e.disk

/-- While the sector of the registers `f` is transferred. -/
def Serves (outside : Nat → Nat → UInt8) (f : TaskFile) (d : Decoder) (e : Drive) : Prop :=
  (d.file = f ∧ d.sector = f.address) ∧ Renumbers outside d e

section Drives

variable (t : Timing) (e : Drive) (disk : Nat → Nat → UInt8)

theorem readStatus_with : ({ e with disk := disk } : Drive).readStatus t =
    ((e.readStatus t).1, { (e.readStatus t).2 with disk := disk }) ∧
      (e.readStatus t).2.disk = e.disk := by
  obtain ⟨disk', transfer, busy, seeking, commands⟩ := e
  cases busy with
  | succ busy => exact ⟨rfl, rfl⟩
  | zero =>
      cases seeking with
      | succ seeking => exact ⟨rfl, rfl⟩
      | zero => exact ⟨rfl, rfl⟩

theorem command_with (cmd : UInt8) : ({ e with disk := disk } : Drive).command t cmd =
    { e.command t cmd with disk := disk } ∧ (e.command t cmd).disk = e.disk := by
  unfold Drive.command
  repeat' split
  all_goals exact ⟨rfl, rfl⟩

theorem readData_with {sector sector' : Nat} (h : disk sector = e.disk sector') :
    ({ e with disk := disk } : Drive).readData sector =
      ((e.readData sector').1, { (e.readData sector').2 with disk := disk }) ∧
      (e.readData sector').2.disk = e.disk := by
  obtain ⟨disk', transfer, busy, seeking, commands⟩ := e
  cases transfer with
  | idle => exact ⟨rfl, rfl⟩
  | writing word => exact ⟨rfl, rfl⟩
  | reading word =>
      unfold Drive.readData
      by_cases hmoved : (⟨disk', .reading word, busy, seeking, commands⟩ : Drive).Ready ∧ word < 256
      · have hmoved' : (⟨disk, .reading word, busy, seeking, commands⟩ : Drive).Ready ∧ word < 256 :=
          hmoved
        simp only [if_pos hmoved, if_pos hmoved', h, and_self]
      · have hmoved' : ¬ ((⟨disk, .reading word, busy, seeking, commands⟩ : Drive).Ready ∧
          word < 256) := hmoved
        simp only [if_neg hmoved, if_neg hmoved', and_self]

variable {e disk} {outside : Nat → Nat → UInt8}

/-- No two sectors of the kernel are the same one. -/
theorem Renumbered.update (h : Renumbered outside disk e.disk) {n : Nat} (hn : n < 2 ^ 32)
    (f : (Nat → UInt8) → Nat → UInt8) :
    Renumbered outside (fun k => if k = addressOf n then f (disk k) else disk k)
      (fun k => if k = n then f (e.disk k) else e.disk k) where
  inside := by
    intro k hk
    by_cases heq : k = n
    · rw [if_pos (congrArg addressOf heq), if_pos heq, h.inside k hk]
    · rw [if_neg fun h => heq (addressOf_inj hk hn h), if_neg heq, h.inside k hk]
  rest := by
    intro k hk
    rw [if_neg (hk n hn), h.rest k hk]

theorem writeData_with (h : Renumbered outside disk e.disk) {n : Nat} (hn : n < 2 ^ 32)
    (data : UInt16) : ∃ disk', ({ e with disk := disk } : Drive).writeData (addressOf n) data =
      { e.writeData n data with disk := disk' } ∧
        Renumbered outside disk' (e.writeData n data).disk := by
  obtain ⟨disk₀, transfer, busy, seeking, commands⟩ := e
  cases transfer with
  | idle => exact ⟨disk, rfl, h⟩
  | reading word => exact ⟨disk, rfl, h⟩
  | writing word =>
      unfold Drive.writeData
      by_cases hmoved : (⟨disk₀, .writing word, busy, seeking, commands⟩ : Drive).Ready ∧ word < 256
      · have hmoved' : (⟨disk, .writing word, busy, seeking, commands⟩ : Drive).Ready ∧ word < 256 :=
          hmoved
        simp only [if_pos hmoved, if_pos hmoved']
        exact ⟨_, rfl, h.update hn fun bytes => Drive.setWord bytes word data⟩
      · have hmoved' : ¬ ((⟨disk, .writing word, busy, seeking, commands⟩ : Drive).Ready ∧
          word < 256) := hmoved
        simp only [if_neg hmoved, if_neg hmoved']
        exact ⟨disk, rfl, h⟩

end Drives

/-! ## The ports -/

section Ports

variable {outside : Nat → Nat → UInt8} {f : TaskFile} {lba : UInt32} {t : Timing} {io : UInt16}

theorem serves_inb (port : UInt16) : Follows (Serves outside f) (Serves outside f)
    (inportb (decoding t io) port) (inportb (idealDrive t lba) port) := by
  apply Follows.inb
  rintro ⟨file, sector, drive⟩ e ⟨hregs, disk, hdrive, hdisk⟩
  cases hdrive
  unfold decoding idealDrive idealBus
  dsimp only
  split
  · obtain ⟨hread, hsame⟩ := readStatus_with t e disk
    rw [hread]
    exact ⟨rfl, hregs, disk, rfl, hsame ▸ hdisk⟩
  · exact ⟨rfl, hregs, disk, rfl, hdisk⟩

theorem serves_inw (hf : f.address = addressOf lba.toNat) (port : UInt16) :
    Follows (Serves outside f) (Serves outside f) (inportw (decoding t io) port)
      (inportw (idealDrive t lba) port) := by
  refine Follows.bind (Follows.inw ?_) fun _ => Follows.pure _
  rintro ⟨file, sector, drive⟩ e ⟨⟨hfile, hsector⟩, disk, hdrive, hdisk⟩
  cases hdrive
  obtain rfl : sector = f.address := hsector
  unfold decoding idealDrive idealBus
  dsimp only
  split
  · obtain ⟨hread, hsame⟩ := readData_with e disk
      (hf ▸ hdisk.inside lba.toNat lba.toNat_lt : disk f.address = e.disk lba.toNat)
    rw [hread]
    exact ⟨rfl, ⟨hfile, rfl⟩, disk, rfl, hsame ▸ hdisk⟩
  · exact ⟨rfl, ⟨hfile, rfl⟩, disk, rfl, hdisk⟩

theorem serves_outw (hf : f.address = addressOf lba.toNat) (port data : UInt16) :
    Follows (Serves outside f) (Serves outside f) (outportw (decoding t io) port data)
      (outportw (idealDrive t lba) port data) := by
  apply Follows.outw
  rintro ⟨file, sector, drive⟩ e ⟨⟨hfile, hsector⟩, disk, hdrive, hdisk⟩
  cases hdrive
  obtain rfl : sector = f.address := hsector
  unfold decoding idealDrive idealBus
  dsimp only
  split
  · obtain ⟨disk', hwrite, hdisk'⟩ := writeData_with hdisk lba.toNat_lt data
    rw [hf, hwrite]
    exact ⟨⟨hfile, hf.symm⟩, disk', rfl, hdisk'⟩
  · exact ⟨⟨hfile, rfl⟩, disk, rfl, hdisk⟩

/-- A command without parameters leaves the drive where it is. -/
theorem serves_command (hio : IsChannel io) (cmd : UInt8) :
    Follows (Serves outside f) (Serves outside f)
      (outportb (decoding t io) (io + ataRegCommand) cmd)
      (outportb (idealDrive t lba) (io + ataRegCommand) cmd) := by
  apply Follows.outb
  rintro ⟨file, sector, drive⟩ e ⟨⟨hfile, hsector⟩, disk, hdrive, hdisk⟩
  cases hdrive
  obtain rfl : file = f := hfile
  obtain rfl : sector = file.address := hsector
  obtain ⟨hcommand, hsame⟩ := command_with t e disk cmd
  have hregs : (decoding t io).outb (io + ataRegCommand) cmd
      ⟨file, file.address, { e with disk := disk }⟩ =
      ⟨file, file.address, ({ e with disk := disk } : Drive).command t cmd⟩ := by
    rcases hio with rfl | rfl
    · rfl
    · rfl
  rw [hregs, hcommand, idealDrive, outb_command _ hio]
  exact ⟨⟨rfl, rfl⟩, disk, rfl, hsame ▸ hdisk⟩

/-! ## The driver -/

theorem serves_delay : Follows (Serves outside f) (Serves outside f)
    (ataDelay400ns (decoding t io) io) (ataDelay400ns (idealDrive t lba) io) :=
  Follows.forLoop (fun _ => (serves_inb _).bind fun _ => Follows.pure ()) 4 0

theorem serves_pollBsy (fuel : Nat) : Follows (Serves outside f) (Serves outside f)
    (ataPollBsy (decoding t io) io fuel) (ataPollBsy (idealDrive t lba) io fuel) := by
  induction fuel with
  | zero => exact Follows.stop .outOfFuel
  | succ fuel ih =>
      unfold ataPollBsy
      refine (serves_inb _).bind fun status => ?_
      split
      · exact ih
      · exact Follows.pure ()

theorem serves_pollDrq (fuel : Nat) : Follows (Serves outside f) (Serves outside f)
    (ataPollDrq (decoding t io) io fuel) (ataPollDrq (idealDrive t lba) io fuel) := by
  induction fuel with
  | zero => exact Follows.stop .outOfFuel
  | succ fuel ih =>
      unfold ataPollDrq
      refine (serves_inb _).bind fun status => ?_
      split
      · exact Follows.stop _
      · split
        · exact ih
        · exact Follows.pure ()

theorem serves_poll (fuel : Nat) : Follows (Serves outside f) (Serves outside f)
    (ataPoll (decoding t io) io fuel) (ataPoll (idealDrive t lba) io fuel) :=
  serves_delay.bind fun _ => (serves_pollBsy fuel).bind fun _ => serves_pollDrq fuel

/-- The writes to the registers, whatever was in them. -/
theorem issueCommand_decoding (hio : IsChannel io) (slave : UInt8) (first second cmd : UInt8)
    (s : Machine Decoder) : issueCommand (decoding t io) io slave lba first second cmd s =
      .ok ((), { s with dev := ⟨fileFor lba first second, (fileFor lba first second).address,
        s.dev.drive.command t cmd⟩ }) := by
  unfold issueCommand
  simp only [outportb_bind, outportb_run]
  rcases hio with rfl | rfl
  · rfl
  · rfl

theorem renumbers_issueCommand (hio : IsChannel io) (slave : UInt8) (first second cmd : UInt8) :
    Follows (Renumbers outside) (Serves outside (fileFor lba first second))
      (issueCommand (decoding t io) io slave lba first second cmd)
      (issueCommand (idealDrive t lba) io slave lba first second cmd) := by
  intro s s₀ hst r s' hrun
  obtain ⟨disk, hdrive, hdisk⟩ := hst.dev
  obtain rfl := (issueCommand_ends hio slave lba first second cmd s₀).of_run hrun
  obtain ⟨hcommand, hsame⟩ := command_with t s₀.dev disk cmd
  refine ⟨_, issueCommand_decoding hio slave first second cmd s, hst.mem, hst.console,
    ⟨rfl, rfl⟩, disk, ?_, hsame ▸ hdisk⟩
  show s.dev.drive.command t cmd = _
  rw [hdrive, hcommand]

variable {priv : AtaDrive} {slave : UInt8}

/-- **One sector read.** -/
theorem ataReadOne_follows (hdrive : selectDrive priv.drive = some (io, slave)) (hio : IsChannel io)
    (fuel buf : Nat) : Follows (Renumbers outside) (Renumbers outside)
      (ataReadOne (decoding t io) fuel buf lba priv) (ataReadOne (idealDrive t lba) fuel buf lba priv) := by
  have hf : (fileFor lba 1 0).address = addressOf lba.toNat := file_address .read lba
  unfold ataReadOne
  rw [hdrive]
  refine (renumbers_issueCommand hio slave 1 0 ataCmdReadPioExt).bind fun _ => ?_
  refine (serves_poll fuel).bind fun _ => ?_
  refine (Follows.forLoop (fun i => ?_) 256 0).bind fun _ => ?_
  · exact (serves_inw hf _).bind fun data => Follows.storeWord _ data
  · exact (serves_delay.bind fun _ => Follows.pure 1).mono (fun _ _ h => h) fun _ _ h => h.2

/-- **One sector written.** -/
theorem ataWriteOne_follows (hdrive : selectDrive priv.drive = some (io, slave))
    (hio : IsChannel io) (fuel buf : Nat) : Follows (Renumbers outside) (Renumbers outside)
      (ataWriteOne (decoding t io) fuel buf lba priv)
      (ataWriteOne (idealDrive t lba) fuel buf lba priv) := by
  have hf : (fileFor lba 0 1).address = addressOf lba.toNat := file_address .write lba
  unfold ataWriteOne
  rw [hdrive]
  refine (renumbers_issueCommand hio slave 0 1 ataCmdWritePioExt).bind fun _ => ?_
  refine (serves_poll fuel).bind fun _ => ?_
  refine (Follows.forLoop (fun i => ?_) 256 0).bind fun _ => ?_
  · exact (Follows.loadWord _).bind fun data => serves_outw hf _ data
  · exact (serves_delay.bind fun _ => (serves_command hio _).bind fun _ => Follows.pure 1).mono
      (fun _ _ h => h) fun _ _ h => h.2

/-- **A run of sectors** on this drive goes as on the ideal one. -/
theorem ataRead_follows (hdrive : selectDrive priv.drive = some (io, slave)) (hio : IsChannel io)
    (fuel buf : Nat) (k : UInt32) : Follows (Renumbers outside) (Renumbers outside)
      (ataRead (fun _ => decoding t io) fuel buf lba k priv)
      (ataRead (idealDrive t) fuel buf lba k priv) :=
  Follows.forLoop (fun _ => (ataReadOne_follows hdrive hio fuel _).bind fun _ => Follows.pure ())
    k.toNat 0

theorem ataWrite_follows (hdrive : selectDrive priv.drive = some (io, slave)) (hio : IsChannel io)
    (fuel buf : Nat) (k : UInt32) : Follows (Renumbers outside) (Renumbers outside)
      (ataWrite (fun _ => decoding t io) fuel buf lba k priv)
      (ataWrite (idealDrive t) fuel buf lba k priv) :=
  Follows.forLoop (fun _ => (ataWriteOne_follows hdrive hio fuel _).bind fun _ => Follows.pure ())
    k.toNat 0

end Ports

/-! ## A store of sectors -/

/-- What the kernel does with memory and disk. -/
inductive Request where
  | read (buf : Nat) (lba k : UInt32)
  | write (buf : Nat) (lba k : UInt32)
  | store (a : Nat) (b : UInt8)

/-- Memory, and the sectors under the kernel's numbers. -/
structure Store where
  mem : ByteMemory
  sectors : Nat → Nat → UInt8

/-- A read drops the odd bytes. -/
def Store.apply (st : Store) : Request → Store
  | .read buf lba k => { st with mem := readRun st.mem st.sectors buf lba.toNat k.toNat }
  | .write buf lba k =>
      { st with sectors := writtenRun st.mem st.sectors buf lba.toNat k.toNat }
  | .store a b => { st with mem := Function.update st.mem a b }

/-- The store of a machine, with the sectors in the kernel's order. -/
def storeOf (s : Machine Decoder) : Store := ⟨s.mem, fun n => s.dev.drive.disk (addressOf n)⟩

namespace Request

/-- The sectors have numbers. -/
def Valid : Request → Prop
  | .read _ lba k => lba.toNat + k.toNat ≤ 2 ^ 32
  | .write _ lba k => lba.toNat + k.toNat ≤ 2 ^ 32
  | .store _ _ => True

/-- The commands the drive gets. -/
def commands : Request → Nat
  | .read _ _ k => k.toNat
  | .write _ _ k => k.toNat
  | .store _ _ => 0

/-- Sector `n` is written. -/
def Overwrites (n : Nat) : Request → Prop
  | .read _ _ _ => False
  | .write _ lba k => lba.toNat ≤ n ∧ n < lba.toNat + k.toNat
  | .store _ _ => False

instance : DecidablePred Valid
  | .read _ _ _ => inferInstanceAs (Decidable (_ ≤ _))
  | .write _ _ _ => inferInstanceAs (Decidable (_ ≤ _))
  | .store _ _ => inferInstanceAs (Decidable True)

instance (n : Nat) : DecidablePred (Overwrites n)
  | .read _ _ _ => inferInstanceAs (Decidable False)
  | .write _ _ _ => inferInstanceAs (Decidable (_ ∧ _))
  | .store _ _ => inferInstanceAs (Decidable False)

variable {W : Type}

def run (bus : UInt32 → Bus W) (fuel : Nat) (priv : AtaDrive) : Request → MachineM W Unit
  | .read buf lba k => ataRead bus fuel buf lba k priv
  | .write buf lba k => ataWrite bus fuel buf lba k priv
  | .store a b => fun s => .ok ((), { s with mem := Function.update s.mem a b })

def runAll (bus : UInt32 → Bus W) (fuel : Nat) (priv : AtaDrive) : List Request → MachineM W Unit
  | [] => pure ()
  | r :: rs => do
      r.run bus fuel priv
      runAll bus fuel priv rs

end Request

theorem Store.sector_written (st : Store) (buf : Nat) (lba k : UInt32) {n j : Nat}
    (hn : lba.toNat ≤ n ∧ n < lba.toNat + k.toNat) (hj : j < 512) :
    (st.apply (.write buf lba k)).sectors n j = st.mem (buf + 512 * (n - lba.toNat) + j) := by
  show writtenRun st.mem st.sectors buf lba.toNat k.toNat n j = _
  unfold writtenRun
  rw [if_pos hn, writtenFrom, if_pos (by omega)]

theorem Store.sector_read (st : Store) (buf : Nat) (lba k : UInt32) {n j : Nat}
    (hn : lba.toNat ≤ n ∧ n < lba.toNat + k.toNat) (hj : j < 512) :
    (st.apply (.read buf lba k)).mem (buf + 512 * (n - lba.toNat) + j) =
      if j % 2 = 0 then st.sectors n j else 0 := by
  have hin : buf ≤ buf + 512 * (n - lba.toNat) + j ∧
      buf + 512 * (n - lba.toNat) + j < buf + 512 * k.toNat := by omega
  have hoffset : buf + 512 * (n - lba.toNat) + j - buf = 512 * (n - lba.toNat) + j := by omega
  show readRun st.mem st.sectors buf lba.toNat k.toNat _ = _
  unfold readRun
  rw [if_pos hin, hoffset, show (512 * (n - lba.toNat) + j) / 512 = n - lba.toNat by omega,
    show (512 * (n - lba.toNat) + j) % 512 = j by omega,
    show lba.toNat + (n - lba.toNat) = n by omega]
  congr 1
  apply propext
  omega

theorem sectors_kept {n : Nat} : ∀ (rs : List Request) (st : Store),
    (∀ r ∈ rs, ¬ r.Overwrites n) → (rs.foldl Store.apply st).sectors n = st.sectors n
  | [], _, _ => rfl
  | r :: rs, st, hkept => by
      rw [List.foldl_cons, sectors_kept rs _ fun r hr => hkept r (List.mem_cons_of_mem _ hr)]
      have hr := hkept r List.mem_cons_self
      cases r with
      | read buf lba k => rfl
      | write buf lba k => exact if_neg hr
      | store a b => rfl

section Requests

variable {t : Timing} {priv : AtaDrive} {fuel : Nat}

/-- **On the ideal drive**, one request. -/
theorem run_ends (hvalid : priv.drive < 4) {r : Request} (hr : r.Valid) {s : Machine Drive}
    (hfuel : t.patience (s.dev.commands + r.commands) < fuel) :
    Ends (r.run (idealDrive t) fuel priv) s fun _ s' =>
      (⟨s'.mem, s'.dev.disk⟩ : Store) = Store.apply ⟨s.mem, s.dev.disk⟩ r ∧
        s'.dev.commands = s.dev.commands + r.commands := by
  cases r with
  | read buf lba k =>
      refine (ataRead_ends hvalid hr hfuel).mono ?_
      rintro _ s' ⟨hmem, hdisk, hcommands⟩
      exact ⟨by rw [hmem, hdisk]; rfl, hcommands⟩
  | write buf lba k =>
      refine (ataWrite_ends hvalid hr hfuel).mono ?_
      rintro _ s' ⟨hmem, hdisk, hcommands⟩
      exact ⟨by rw [hmem, hdisk]; rfl, hcommands⟩
  | store a b => exact ⟨(), _, rfl, rfl, rfl⟩

theorem runAll_ends (hvalid : priv.drive < 4) : ∀ {rs : List Request} {s : Machine Drive},
    (∀ r ∈ rs, r.Valid) →
    t.patience (s.dev.commands + (rs.map Request.commands).sum) < fuel →
    Ends (Request.runAll (idealDrive t) fuel priv rs) s fun _ s' =>
      (⟨s'.mem, s'.dev.disk⟩ : Store) = rs.foldl Store.apply ⟨s.mem, s.dev.disk⟩
  | [], s, _, _ => ⟨(), s, rfl, rfl⟩
  | r :: rs, s, hrs, hfuel => by
      rw [List.map_cons, List.sum_cons] at hfuel
      have hone : t.patience (s.dev.commands + r.commands) < fuel :=
        Nat.lt_of_le_of_lt (t.patience_mono (by omega)) hfuel
      apply Ends.bind (run_ends hvalid (hrs r List.mem_cons_self) hone)
      rintro _ s' ⟨hstore, hcommands⟩
      rw [List.foldl_cons, ← hstore]
      apply runAll_ends hvalid (fun r hr => hrs r (List.mem_cons_of_mem _ hr))
      rwa [hcommands, Nat.add_assoc]

variable {outside : Nat → Nat → UInt8} {io : UInt16} {slave : UInt8}

theorem runAll_follows (hdrive : selectDrive priv.drive = some (io, slave)) (hio : IsChannel io) :
    ∀ rs : List Request, Follows (Renumbers outside) (Renumbers outside)
      (Request.runAll (fun _ => decoding t io) fuel priv rs)
      (Request.runAll (idealDrive t) fuel priv rs)
  | [] => Follows.pure ()
  | r :: rs => by
      refine Follows.bind ?_ fun _ => runAll_follows hdrive hio rs
      cases r with
      | read buf lba k => exact ataRead_follows hdrive hio fuel buf k
      | write buf lba k => exact ataWrite_follows hdrive hio fuel buf k
      | store a b =>
          intro s s₀ hst r s' hrun
          cases hrun
          exact ⟨_, rfl, congrArg (fun m => Function.update m a b) hst.mem, hst.console, hst.dev⟩

/-- On a drive that decodes its registers, any sequence of requests. -/
theorem runAll_stores (hvalid : priv.drive < 4) (hdrive : selectDrive priv.drive = some (io, slave))
    {rs : List Request} (hrs : ∀ r ∈ rs, r.Valid) {s : Machine Decoder}
    (hfuel : t.patience (s.dev.drive.commands + (rs.map Request.commands).sum) < fuel) :
    Ends (Request.runAll (fun _ => decoding t io) fuel priv rs) s fun _ s' =>
      s'.mem = (rs.foldl Store.apply (storeOf s)).mem ∧
        Renumbered s.dev.drive.disk s'.dev.drive.disk (rs.foldl Store.apply (storeOf s)).sectors := by
  obtain ⟨_, _, hdrive', hio⟩ := selectDrive_valid hvalid
  obtain ⟨rfl, rfl⟩ := Prod.mk.inj (Option.some.inj (hdrive'.symm.trans hdrive))
  have hst : Alike (Renumbers s.dev.drive.disk) s
      ⟨s.mem, { s.dev.drive with disk := (storeOf s).sectors }, s.console⟩ :=
    ⟨rfl, rfl, s.dev.drive.disk, rfl, fun _ _ => rfl, fun _ _ => rfl⟩
  refine ((runAll_follows hdrive hio rs).ends hst (runAll_ends hvalid hrs hfuel)).mono ?_
  rintro _ s' ⟨s₀, ⟨hmem, -, disk, hdev, hdisk⟩, hstore⟩
  have hsectors : s'.dev.drive.disk = disk := congrArg Drive.disk hdev
  have hstored : rs.foldl Store.apply (storeOf s) = ⟨s₀.mem, s₀.dev.disk⟩ := hstore.symm
  rw [hstored, hsectors]
  exact ⟨hmem, hdisk⟩

/-- **The disk is a store of sectors.** Any sequence of requests returns, with memory and the kernel's
sectors as they are in the store, and with no other sector of the disk changed. -/
theorem requests_stored (t : Timing) (priv : AtaDrive) (hvalid : priv.drive < 4) (io : UInt16)
    (slave : UInt8) (hdrive : selectDrive priv.drive = some (io, slave)) (rs : List Request)
    (hrs : ∀ r ∈ rs, r.Valid) (s : Machine Decoder) (fuel : Nat)
    (hfuel : t.patience (s.dev.drive.commands + (rs.map Request.commands).sum) < fuel) :
    Ends (Request.runAll (fun _ => decoding t io) fuel priv rs) s fun _ s' =>
      (storeOf s').mem = (rs.foldl Store.apply (storeOf s)).mem ∧
      (∀ n < 2 ^ 32, (storeOf s').sectors n = (rs.foldl Store.apply (storeOf s)).sectors n) ∧
      ∀ n, (∀ lba < 2 ^ 32, n ≠ addressOf lba) → s'.dev.drive.disk n = s.dev.drive.disk n := by
  apply (runAll_stores hvalid hdrive hrs hfuel).mono
  rintro _ s' ⟨hmem, hdisk⟩
  exact ⟨hmem, hdisk.inside, hdisk.rest⟩

/-- **What is written stays** until a request overwrites it: a later read finds the bytes that the buffer
had when it was written, but for the odd ones. -/
theorem written_read_back (t : Timing) (priv : AtaDrive) (hvalid : priv.drive < 4) (io : UInt16)
    (slave : UInt8) (hdrive : selectDrive priv.drive = some (io, slave)) (buf buf' : Nat)
    (lba lba' k k' : UInt32) (rs : List Request)
    (hrs : ∀ r ∈ .write buf lba k :: (rs ++ [.read buf' lba' k']), r.Valid) (n : Nat)
    (hwritten : lba.toNat ≤ n ∧ n < lba.toNat + k.toNat)
    (hread : lba'.toNat ≤ n ∧ n < lba'.toNat + k'.toNat)
    (hkept : ∀ r ∈ rs, ¬ r.Overwrites n) (s : Machine Decoder) (fuel : Nat)
    (hfuel : t.patience (s.dev.drive.commands +
      ((Request.write buf lba k :: (rs ++ [.read buf' lba' k'])).map Request.commands).sum) < fuel) :
    Ends (Request.runAll (fun _ => decoding t io) fuel priv
        (.write buf lba k :: (rs ++ [.read buf' lba' k']))) s fun _ s' =>
      ∀ j < 512, s'.mem (buf' + 512 * (n - lba'.toNat) + j) =
        if j % 2 = 0 then s.mem (buf + 512 * (n - lba.toNat) + j) else 0 := by
  apply (runAll_stores hvalid hdrive hrs hfuel).mono
  rintro _ s' ⟨hmem, -⟩ j hj
  rw [hmem, List.foldl_cons, List.foldl_append, List.foldl_cons, List.foldl_nil,
    Store.sector_read _ buf' lba' k' hread hj, sectors_kept rs _ hkept,
    Store.sector_written _ buf lba k hwritten hj]
  rfl

end Requests

/-! ### One sector, between requests for others -/

/-- A machine whose memory is `fill` everywhere, with an empty disk behind registers of zeros. -/
def filledDecoder (fill : UInt8) : Machine Decoder :=
  ⟨fun _ => fill, ⟨⟨⟨0, 0⟩, ⟨0, 0⟩, ⟨0, 0⟩, ⟨0, 0⟩⟩, 0, (filled fill).dev⟩, []⟩

/-- The next sector is read over the buffer, and then written. -/
def neighbour : List Request := [.read 0 8 1, .store 3 5, .write 0 8 1]

theorem neighbour_stored :
    Ends (Request.runAll (fun _ => decoding prompt ataPrimaryIo) 1 ⟨0⟩ neighbour)
      (filledDecoder 7) fun _ s' => (storeOf s').sectors 8 3 = 5 := by
  apply (requests_stored prompt ⟨0⟩ (by decide) ataPrimaryIo ataMaster rfl neighbour
    (by decide) (filledDecoder 7) 1 (by decide)).mono
  rintro _ s' ⟨-, hsectors, -⟩
  rw [hsectors 8 (by decide)]
  decide

theorem sevens_read_back :
    Ends (Request.runAll (fun _ => decoding prompt ataPrimaryIo) 1 ⟨0⟩
      (.write 0 7 1 :: (neighbour ++ [.read 512 7 1]))) (filledDecoder 7) fun _ s' =>
        s'.mem (512 + 2) = 7 := by
  apply (written_read_back prompt ⟨0⟩ (by decide) ataPrimaryIo ataMaster rfl 0 512 7 7 1 1 neighbour
    (by decide) 7 (by decide) (by decide) (by decide) (filledDecoder 7) 1 (by decide)).mono
  intro _ s' hback
  exact hback 2 (by decide)

end Neutrino.Drivers
