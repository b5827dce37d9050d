import Neutrino.Drivers.BlockStore
import Neutrino.Drivers.Identify
import Neutrino.Stdio.FormatInt
import Neutrino.System.Device

/-!
# The probe, and the drive it registers

`_ata_probe` fills in a `device_t` on its stack and registers it, but it does not set `_priv`. The functions
that move a sector look behind that pointer, each time, for the number of their drive. So what the registered
drive does depends on the byte that the pointer left on the stack leads to (`probed_drive`): if it is one of
the four numbers and stays, the drive on that channel is a store of sectors; if it is another, every sector
prints a message and nothing is moved.
-/

namespace Neutrino.Drivers

open Neutrino.Lib Neutrino.System Neutrino.Stdio MachineM

variable {W : Type}

/-! ## The probe -/

/-- The literal, as far as `strlen` counts it. -/
def probedName : List UInt8 := "ATA Drive Primary Master".toList.map byte

/-- `drive` when it is registered. `stack` is what was in its place before; `read` and `write` are the
addresses of `_ata_read` and `_ata_write`. -/
def probedDrive (stack : Device) (read write : UInt32) : Device :=
  { stack with
    dtype := .driveBlock
    name := Vector.ofFn fun i => probedName.getD i stack.name[i]
    read := read
    write := write
    uuid := 32 }

/-- The pointer is not set. -/
theorem probedDrive_priv (stack : Device) (read write : UInt32) :
    (probedDrive stack read write).priv = stack.priv := by
  simp only [probedDrive]

/-- What becomes of `_ata_pm` and of the registry. `none` where `device_add` stores outside its table. -/
def ataProbe (bus : Bus W) (fuel buffer : Nat) (stack : Device) (read write : UInt32) (ataPm : Bool)
    (r : Registry) : MachineM W (Option (Bool × Registry)) := do
  if ← ataIdentify bus fuel buffer ataPrimary ataMaster then
    match deviceAdd r (probedDrive stack read write) with
    | none => return none
    | some (_, r') => do
        print "Located Primary Master drive!\n"
        return some (true, r')
  else
    return some (ataPm, r)

/-! ## Requests to a device -/

/-- `*(ata_drive*)(dev->_priv)`. -/
def loadPriv (dev : Device) : MachineM W AtaDrive := do
  let drive ← loadByte dev.priv.toNat
  return ⟨drive⟩

/-- `_ata_read`, with the pointer followed for every sector. -/
def deviceRead (bus : UInt32 → Bus W) (fuel buf : Nat) (lba numsects : UInt32) (dev : Device) :
    MachineM W Unit :=
  MachineM.forLoop (fun i => do
    let sector := lba + UInt32.ofNat i
    let priv ← loadPriv dev
    let _ ← ataReadOne (bus sector) fuel (buf + 512 * i) sector priv) numsects.toNat 0

/-- `_ata_write`, likewise. -/
def deviceWrite (bus : UInt32 → Bus W) (fuel buf : Nat) (lba numsects : UInt32) (dev : Device) :
    MachineM W Unit :=
  MachineM.forLoop (fun i => do
    let sector := lba + UInt32.ofNat i
    let priv ← loadPriv dev
    let _ ← ataWriteOne (bus sector) fuel (buf + 512 * i) sector priv) numsects.toNat 0

namespace Request

def runOn (bus : UInt32 → Bus W) (fuel : Nat) (dev : Device) : Request → MachineM W Unit
  | .read buf lba k => deviceRead bus fuel buf lba k dev
  | .write buf lba k => deviceWrite bus fuel buf lba k dev
  | .store a b => fun s => .ok ((), { s with mem := Function.update s.mem a b })

def runAllOn (bus : UInt32 → Bus W) (fuel : Nat) (dev : Device) : List Request → MachineM W Unit
  | [] => pure ()
  | r :: rs => do
      r.runOn bus fuel dev
      runAllOn bus fuel dev rs

/-- The byte at `a` stays. -/
def Spares (a : Nat) : Request → Prop
  | .read buf _ k => a < buf ∨ buf + 512 * k.toNat ≤ a
  | .write _ _ _ => True
  | .store a' _ => a ≠ a'

instance (a : Nat) : DecidablePred (Spares a)
  | .read _ _ _ => inferInstanceAs (Decidable (_ ∨ _))
  | .write _ _ _ => inferInstanceAs (Decidable True)
  | .store _ _ => inferInstanceAs (Decidable (_ ≠ _))

/-- What a request does to memory when no sector is moved. -/
def stored (mem : ByteMemory) : Request → ByteMemory
  | .read _ _ _ => mem
  | .write _ _ _ => mem
  | .store a b => Function.update mem a b

end Request

/-! ## What a transfer does to memory -/

/-- The memory is the same. -/
def SameMemory (s s' : Machine W) : Prop := s'.mem = s.mem

section Frame

variable (bus : Bus W) (io port : UInt16)

theorem SameMemory.refl (s : Machine W) : SameMemory s s := rfl

theorem SameMemory.trans (s s' s'' : Machine W) (h : SameMemory s s') (h' : SameMemory s' s'') :
    SameMemory s s'' :=
  Eq.trans h' h

theorem sameMemory_bind {α β : Type} {x : MachineM W α} {k : α → MachineM W β}
    (hx : Keeps SameMemory x) (hk : ∀ r, Keeps SameMemory (k r)) : Keeps SameMemory (x >>= k) :=
  Keeps.bind SameMemory.trans hx hk

theorem sameMemory_inportb : Keeps SameMemory (inportb bus port) := by
  intro s r s' hrun
  cases hrun
  rfl

theorem sameMemory_outportb (data : UInt8) : Keeps SameMemory (outportb bus port data) := by
  intro s r s' hrun
  cases hrun
  rfl

theorem sameMemory_inportw : Keeps SameMemory (inportw bus port) := by
  intro s r s' hrun
  cases hrun
  rfl

theorem sameMemory_writeWord (buf i : Nat) : Keeps SameMemory (writeWord bus io buf i) := by
  intro s r s' hrun
  cases hrun
  rfl

theorem sameMemory_issueCommand (drive : UInt8) (lba : UInt32) (first second command : UInt8) :
    Keeps SameMemory (issueCommand bus io drive lba first second command) := by
  intro s r s' hrun
  cases hrun
  rfl

theorem sameMemory_ataDelay400ns : Keeps SameMemory (ataDelay400ns bus io) :=
  Keeps.forLoop SameMemory.refl SameMemory.trans
    (fun _ => sameMemory_bind (sameMemory_inportb bus _) fun _ => Keeps.pure SameMemory.refl _) 4 0

theorem sameMemory_ataPollBsy (fuel : Nat) : Keeps SameMemory (ataPollBsy bus io fuel) := by
  induction fuel with
  | zero => exact Keeps.stop _
  | succ fuel ih =>
      apply sameMemory_bind (sameMemory_inportb bus _)
      intro status
      split
      · exact ih
      · exact Keeps.pure SameMemory.refl _

theorem sameMemory_ataPollDrq (fuel : Nat) : Keeps SameMemory (ataPollDrq bus io fuel) := by
  induction fuel with
  | zero => exact Keeps.stop _
  | succ fuel ih =>
      apply sameMemory_bind (sameMemory_inportb bus _)
      intro status
      split
      · exact Keeps.stop _
      · split
        · exact ih
        · exact Keeps.pure SameMemory.refl _

theorem sameMemory_ataPoll (fuel : Nat) : Keeps SameMemory (ataPoll bus io fuel) := by
  apply sameMemory_bind (sameMemory_ataDelay400ns bus io)
  intro _
  apply sameMemory_bind (sameMemory_ataPollBsy bus io fuel)
  intro _
  exact sameMemory_ataPollDrq bus io fuel

theorem sameOutside_readWord {buf i : Nat} (hi : i < 256) :
    Keeps (SameOutside buf (buf + 512)) (readWord bus io buf i) := by
  apply Keeps.bind SameOutside.trans (Keeps.memory (sameMemory_inportw bus _))
  intro data
  exact keeps_storeWord data (Nat.le_add_right buf _) (by omega)

/-- **Reading a sector** writes to its own 512 bytes only. -/
theorem ataReadOne_outside (fuel buf : Nat) (lba : UInt32) (priv : AtaDrive) :
    Keeps (SameOutside buf (buf + 512)) (ataReadOne bus fuel buf lba priv) := by
  unfold ataReadOne
  split
  · intro s r s' hrun
    cases hrun
    exact SameOutside.refl s
  · next io drive _ =>
      apply Keeps.bind SameOutside.trans
        (Keeps.memory (sameMemory_issueCommand bus io drive lba 1 0 ataCmdReadPioExt))
      intro _
      apply Keeps.bind SameOutside.trans (Keeps.memory (sameMemory_ataPoll bus io fuel))
      intro _
      apply Keeps.bind SameOutside.trans
        (Keeps.forLoop_range SameOutside.refl SameOutside.trans fun i _ hi =>
          sameOutside_readWord bus io (by omega))
      intro _
      apply Keeps.bind SameOutside.trans (Keeps.memory (sameMemory_ataDelay400ns bus io))
      intro _
      exact Keeps.pure SameOutside.refl _

/-- **Writing a sector** leaves memory as it is. -/
theorem ataWriteOne_memory (fuel buf : Nat) (lba : UInt32) (priv : AtaDrive) :
    Keeps SameMemory (ataWriteOne bus fuel buf lba priv) := by
  unfold ataWriteOne
  split
  · intro s r s' hrun
    cases hrun
    rfl
  · next io drive _ =>
      apply sameMemory_bind (sameMemory_issueCommand bus io drive lba 0 1 ataCmdWritePioExt)
      intro _
      apply sameMemory_bind (sameMemory_ataPoll bus io fuel)
      intro _
      apply sameMemory_bind
        (Keeps.forLoop SameMemory.refl SameMemory.trans (sameMemory_writeWord bus io buf) 256 0)
      intro _
      apply sameMemory_bind (sameMemory_ataDelay400ns bus io)
      intro _
      apply sameMemory_bind (sameMemory_outportb bus _ _)
      intro _
      exact Keeps.pure SameMemory.refl _

end Frame

/-! ## The number of the drive stays -/

section Pointer

variable {bus : UInt32 → Bus W} {fuel : Nat} {dev : Device} {s : Machine W}

theorem loadPriv_bind {β : Type} (k : AtaDrive → MachineM W β) :
    (loadPriv dev >>= k) s = k ⟨s.mem dev.priv.toNat⟩ s := (rfl)

theorem deviceRead_eq {buf : Nat} {lba k : UInt32}
    (h : dev.priv.toNat < buf ∨ buf + 512 * k.toNat ≤ dev.priv.toNat) :
    deviceRead bus fuel buf lba k dev s =
      ataRead bus fuel buf lba k ⟨s.mem dev.priv.toNat⟩ s := by
  apply MachineM.forLoop_congr (I := fun s' => s'.mem dev.priv.toNat = s.mem dev.priv.toNat)
  · intro j s' _ _ hI
    rw [loadPriv_bind, hI]
  · intro j s' r s'' _ hj hI hrun
    obtain ⟨_, s₁, hone, hrest⟩ := bind_run_split hrun
    cases hrest
    have hout : dev.priv.toNat < buf + 512 * j ∨ buf + 512 * j + 512 ≤ dev.priv.toNat := by omega
    exact (ataReadOne_outside _ _ _ _ _ _ _ _ hone _ hout).trans hI
  · rfl

theorem deviceWrite_eq (buf : Nat) (lba k : UInt32) :
    deviceWrite bus fuel buf lba k dev s =
      ataWrite bus fuel buf lba k ⟨s.mem dev.priv.toNat⟩ s := by
  apply MachineM.forLoop_congr (I := fun s' => s'.mem dev.priv.toNat = s.mem dev.priv.toNat)
  · intro j s' _ _ hI
    rw [loadPriv_bind, hI]
  · intro j s' r s'' _ _ hI hrun
    obtain ⟨_, s₁, hone, hrest⟩ := bind_run_split hrun
    cases hrest
    exact (congrFun (ataWriteOne_memory _ _ _ _ _ _ _ _ hone) _).trans hI
  · rfl

theorem runOn_eq {r : Request} (h : r.Spares dev.priv.toNat) :
    r.runOn bus fuel dev s = r.run bus fuel ⟨s.mem dev.priv.toNat⟩ s := by
  cases r with
  | read buf lba k => exact deviceRead_eq h
  | write buf lba k => exact deviceWrite_eq buf lba k
  | store a b => rfl

/-- The byte at `a` is the same. -/
def SameByte (a : Nat) (s s' : Machine W) : Prop := s'.mem a = s.mem a

theorem SameByte.refl (a : Nat) (s : Machine W) : SameByte a s s := rfl

theorem SameByte.trans (a : Nat) (s s' s'' : Machine W) (h : SameByte a s s')
    (h' : SameByte a s' s'') : SameByte a s s'' :=
  Eq.trans h' h

/-- A request that spares a byte leaves it as it is. -/
theorem run_spares {r : Request} {a : Nat} (h : r.Spares a) (priv : AtaDrive) :
    Keeps (SameByte a) (r.run bus fuel priv) := by
  cases r with
  | read buf lba k =>
      apply Keeps.forLoop_range (SameByte.refl a) (SameByte.trans a)
      intro j _ hj
      apply Keeps.bind (SameByte.trans a)
      · intro s r s' hrun
        have hout : a < buf + 512 * j ∨ buf + 512 * j + 512 ≤ a := by
          change a < buf ∨ buf + 512 * k.toNat ≤ a at h
          omega
        exact ataReadOne_outside _ _ _ _ _ _ _ _ hrun a hout
      · exact fun _ => Keeps.pure (SameByte.refl a) ()
  | write buf lba k =>
      apply Keeps.forLoop_range (SameByte.refl a) (SameByte.trans a)
      intro j _ _
      apply Keeps.bind (SameByte.trans a)
      · intro s r s' hrun
        exact congrFun (ataWriteOne_memory _ _ _ _ _ _ _ _ hrun) a
      · exact fun _ => Keeps.pure (SameByte.refl a) ()
  | store a' b =>
      intro s r s' hrun
      cases hrun
      exact Function.update_of_ne h b s.mem

/-- **Requests to a device** are requests to the drive that its private byte numbers, if they spare that
byte. -/
theorem runAllOn_eq : ∀ {rs : List Request} {s : Machine W},
    (∀ r ∈ rs, r.Spares dev.priv.toNat) →
    Request.runAllOn bus fuel dev rs s =
      Request.runAll bus fuel ⟨s.mem dev.priv.toNat⟩ rs s
  | [], _, _ => rfl
  | r :: rs, s, h => by
      apply bind_run_congr (runOn_eq (h r List.mem_cons_self))
      intro _ s' hrun
      rw [runAllOn_eq fun r hr => h r (List.mem_cons_of_mem _ hr),
        show s'.mem _ = _ from run_spares (h r List.mem_cons_self) _ s _ s' hrun]

end Pointer

/-! ## Unknown drives -/

/-- What a function prints that knows no such drive. -/
def unknownDrive : String := "FATAL: unknown drive!\n"

section Unknown

variable {bus : UInt32 → Bus W} {fuel : Nat} {priv : AtaDrive}

theorem forLoop_prints {body : Nat → MachineM W Unit} {text : String}
    (hbody : ∀ i s, body i s = .ok ((), { s with console := s.console ++ [text] })) (n : Nat) :
    ∀ (i : Nat) (s : Machine W), forLoop body n i s =
      .ok ((), { s with console := s.console ++ List.replicate n text }) := by
  induction n with
  | zero =>
      intro i s
      rw [List.replicate_zero, List.append_nil]
      rfl
  | succ n ih =>
      intro i s
      rw [forLoop, bind_run_ok (hbody i s), ih, List.append_assoc]
      rfl

theorem run_unknown (h : selectDrive priv.drive = none) (r : Request) (s : Machine W) :
    r.run bus fuel priv s = .ok ((), { s with
      mem := r.stored s.mem
      console := s.console ++ List.replicate r.commands unknownDrive }) := by
  cases r with
  | read buf lba k =>
      apply forLoop_prints
      intro i s
      simp only [ataReadOne, h]
      rfl
  | write buf lba k =>
      apply forLoop_prints
      intro i s
      simp only [ataWriteOne, h]
      rfl
  | store a b =>
      rw [Request.commands, List.replicate_zero, List.append_nil]
      rfl

/-- **No sector is moved** to or from an unknown drive. -/
theorem runAll_unknown (h : selectDrive priv.drive = none) : ∀ (rs : List Request) (s : Machine W),
    Request.runAll bus fuel priv rs s = .ok ((), { s with
      mem := rs.foldl Request.stored s.mem
      console := s.console ++ List.replicate (rs.map Request.commands).sum unknownDrive })
  | [], s => by
      rw [List.map_nil, List.sum_nil, List.replicate_zero, List.append_nil]
      rfl
  | r :: rs, s => by
      rw [Request.runAll, bind_run_ok (run_unknown h r s), runAll_unknown h rs, List.append_assoc,
        List.replicate_append_replicate]
      rfl

end Unknown

/-! ## What the probe leaves -/

section Probe

variable {bus : Bus W} {fuel buffer : Nat} {stack : Device} {read write : UInt32} {r r' : Registry}
  {s s' : Machine W}

theorem ataProbe_run {id : UInt32}
    (hready : ataIdentify bus fuel buffer ataPrimary ataMaster s = .ok (true, s'))
    (hadd : deviceAdd r (probedDrive stack read write) = some (id, r')) (ataPm : Bool) :
    ataProbe bus fuel buffer stack read write ataPm r s = .ok (some (true, r'),
      { s' with console := s'.console ++ ["Located Primary Master drive!\n"] }) := by
  rw [ataProbe, bind_run_ok hready, if_pos rfl, hadd]
  rfl

/-- Where the probe has found a drive it has registered it. -/
theorem ataProbe_found
    (hrun : ataProbe bus fuel buffer stack read write false r s = .ok (some (true, r'), s')) :
    ∃ id, deviceAdd r (probedDrive stack read write) = some (id, r') := by
  obtain ⟨ready, s₁, hready, hrest⟩ := bind_run_split hrun
  cases ready with
  | false => cases hrest
  | true =>
      cases hadd : deviceAdd r (probedDrive stack read write) with
      | none =>
          rw [ataProbe, bind_run_ok hready, if_pos rfl, hadd] at hrun
          cases hrun
      | some added =>
          rw [ataProbe_run hready hadd] at hrun
          cases hrun
          exact ⟨added.1, rfl⟩

theorem selectDrive_lt {drive : UInt8} {io : UInt16} {slave : UInt8}
    (h : selectDrive drive = some (io, slave)) : drive < 4 := by
  unfold selectDrive at h
  split at h
  · next heq => exact heq ▸ (by decide)
  split at h
  · next heq => exact heq ▸ (by decide)
  split at h
  · next heq => exact heq ▸ (by decide)
  split at h
  · next heq => exact heq ▸ (by decide)
  · cases h

/-- With the number of a drive behind its pointer, the device is a store of sectors. -/
theorem runAllOn_stores {t : Timing} {dev : Device} {io : UInt16} {slave : UInt8} {rs : List Request}
    {s : Machine Decoder} (hdrive : selectDrive (s.mem dev.priv.toNat) = some (io, slave))
    (hspares : ∀ q ∈ rs, q.Spares dev.priv.toNat) (hrs : ∀ q ∈ rs, q.Valid)
    (hfuel : t.patience (s.dev.drive.commands + (rs.map Request.commands).sum) < fuel) :
    Ends (Request.runAllOn (fun _ => decoding t io) fuel dev rs) s fun _ s' =>
      (storeOf s').mem = (rs.foldl Store.apply (storeOf s)).mem ∧
      (∀ n < 2 ^ 32, (storeOf s').sectors n = (rs.foldl Store.apply (storeOf s)).sectors n) ∧
      ∀ n, (∀ lba < 2 ^ 32, n ≠ addressOf lba) → s'.dev.drive.disk n = s.dev.drive.disk n := by
  obtain ⟨_, s₁, hrun, hmem, hdisk⟩ :=
    @runAll_stores t ⟨s.mem dev.priv.toNat⟩ fuel io slave (selectDrive_lt hdrive) hdrive rs hrs s hfuel
  exact ⟨(), s₁, (runAllOn_eq hspares).trans hrun, hmem, hdisk.inside, hdisk.rest⟩

/-- **The drive that the probe registers** serves requests by the byte its pointer leads to, which is
wherever the stack was. With a drive's number there, and requests that spare it, the disk is a store of
sectors. With another byte there, nothing is moved, and each sector prints a message. -/
theorem probed_drive (bus : Bus W) (fuel buffer : Nat) (stack : Device) (read write : UInt32)
    (ds : List Device) (r r' : Registry) (s s' : Machine W) (hholds : r.Holds ds)
    (hprobe : ataProbe bus fuel buffer stack read write false r s = .ok (some (true, r'), s')) :
    ∃ dev, r'.Holds (ds ++ [dev]) ∧ deviceGet r' (deviceCount r) = some dev ∧
      dev.priv = stack.priv ∧ ∀ rs : List Request, (∀ q ∈ rs, q.Spares stack.priv.toNat) →
        (∀ (t : Timing) (io : UInt16) (slave : UInt8) (s : Machine Decoder) (fuel : Nat),
          selectDrive (s.mem stack.priv.toNat) = some (io, slave) → (∀ q ∈ rs, q.Valid) →
          t.patience (s.dev.drive.commands + (rs.map Request.commands).sum) < fuel →
          Ends (Request.runAllOn (fun _ => decoding t io) fuel dev rs) s fun _ s' =>
            (storeOf s').mem = (rs.foldl Store.apply (storeOf s)).mem ∧
            (∀ n < 2 ^ 32, (storeOf s').sectors n = (rs.foldl Store.apply (storeOf s)).sectors n) ∧
            ∀ n, (∀ lba < 2 ^ 32, n ≠ addressOf lba) → s'.dev.drive.disk n = s.dev.drive.disk n) ∧
        ∀ (V : Type) (bus : UInt32 → Bus V) (fuel : Nat) (s : Machine V),
          selectDrive (s.mem stack.priv.toNat) = none →
          Request.runAllOn bus fuel dev rs s = .ok ((), { s with
            mem := rs.foldl Request.stored s.mem
            console := s.console ++ List.replicate (rs.map Request.commands).sum unknownDrive }) := by
  obtain ⟨id, hadd⟩ := ataProbe_found hprobe
  have hroom : ds.length < 64 := by
    by_contra hfull
    rw [deviceAdd, dif_neg (by rw [hholds.count]; exact hfull)] at hadd
    cases hadd
  obtain ⟨id', r₁, hadd', -, hr₁⟩ := hholds.add hroom (probedDrive stack read write)
  rw [hadd] at hadd'
  cases hadd'
  refine ⟨probedDrive stack read write, hr₁, ?_, probedDrive_priv stack read write, ?_⟩
  · have hslot : (deviceCount r).toNat = ds.length := hholds.count
    rw [hr₁.get (by omega), hslot, List.getD_append_right _ _ _ _ (Nat.le_refl _), Nat.sub_self]
    rfl
  · intro rs hspares
    rw [← probedDrive_priv stack read write] at hspares
    refine ⟨?_, ?_⟩
    · intro t io slave s fuel hdrive hrs hfuel
      rw [← probedDrive_priv stack read write] at hdrive
      exact runAllOn_stores hdrive hspares hrs hfuel
    · intro V bus fuel s hunknown
      rw [← probedDrive_priv stack read write] at hunknown
      rw [runAllOn_eq hspares]
      exact runAll_unknown hunknown rs s

end Probe

/-! ### A pointer to a byte that stays, and one drive -/

/-- A stack with the pointer at 2000. -/
def leftStack : Device := { Device.zero with priv := 2000 }

theorem ready_probed : ∃ r' s', ataProbe (statusDrive ataPrimaryIo (fun _ => 0x48) fun _ => 0) 3 512
    leftStack 1 2 false Registry.boot unread = .ok (some (true, r'), s') := by
  obtain ⟨_, s₁, hrun, rfl, -⟩ := @ataIdentify_of_ends (fun _ => 0x48) (fun _ => 0) unread 512 ataPrimary
    ataMaster 1 2 rfl (by decide) ⟨FirstFrom.here (by decide), FirstFrom.here (by decide)⟩
  obtain ⟨_, r₁, hadd, -⟩ := Registry.boot_holds.add (by decide) (probedDrive leftStack 1 2)
  exact ⟨r₁, _, ataProbe_run hrun hadd false⟩

/-- The byte numbers the slave, and the slave gets the sector. -/
theorem left_probed : ∃ r' s' dev, ataProbe (statusDrive ataPrimaryIo (fun _ => 0x48) fun _ => 0) 3 512
      leftStack 1 2 false Registry.boot unread = .ok (some (true, r'), s') ∧
    deviceGet r' 0 = some dev ∧ dev.priv = 2000 ∧
    Ends (Request.runAllOn (fun _ => decoding prompt ataPrimaryIo) 1 dev [.store 3 5, .write 0 8 1])
      (filledDecoder 1) fun _ s' => (storeOf s').sectors 8 3 = 5 := by
  obtain ⟨r', s', hprobe⟩ := ready_probed
  obtain ⟨dev, -, hget, hpriv, hserves⟩ :=
    probed_drive _ 3 512 leftStack 1 2 [] _ r' _ s' Registry.boot_holds hprobe
  refine ⟨r', s', dev, hprobe, hget, hpriv, ((hserves [.store 3 5, .write 0 8 1] (by decide)).1 prompt
    ataPrimaryIo ataSlave (filledDecoder 1) 1 rfl (by decide) (by decide)).mono ?_⟩
  rintro _ s' ⟨-, hsectors, -⟩
  rw [hsectors 8 (by decide)]
  decide

end Neutrino.Drivers
