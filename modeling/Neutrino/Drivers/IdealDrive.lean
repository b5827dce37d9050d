import Neutrino.Drivers.Ata
import Mathlib.Order.Basic

/-!
# An ideal ATA drive

The drive does what a command asks: it transfers the one sector the call was made for, as 256 words.
It still takes its time. After a command it is busy for a number of status reads, then not busy and
not ready for some more, and only then moves data; the numbers are arbitrary and may differ from
command to command, and while the drive is busy the other status bits may be anything.

`ataPoll_ends` is where the waiting is dealt with. After it a transfer is a loop over words, and each
direction has one lemma about a sector: `ataReadOne_ends` and `ataWriteOne_ends`.
-/

namespace Neutrino.Drivers

open Neutrino.Lib Neutrino.System MachineM

/-! ## The drive -/

/-- What the drive is doing, and how many words it has moved. -/
inductive Transfer where
  | idle
  | reading (word : Nat)
  | writing (word : Nat)
  deriving DecidableEq, Repr

structure Drive where
  disk : Nat → Nat → UInt8
  transfer : Transfer
  busy : Nat
  seeking : Nat
  commands : Nat

/-- How long each command takes, and the status bits shown meanwhile. -/
structure Timing where
  busy : Nat → Nat
  seeking : Nat → Nat
  noise : Nat → UInt8

namespace Drive

/-- The drive is done preparing the transfer. -/
def Ready (d : Drive) : Prop := d.busy = 0 ∧ d.seeking = 0

instance (d : Drive) : Decidable d.Ready := inferInstanceAs (Decidable (_ ∧ _))

def readStatus (t : Timing) (d : Drive) : UInt8 × Drive :=
  match d.busy, d.seeking with
  | busy + 1, _ => (0x80 ||| t.noise busy, { d with busy := busy })
  | 0, seeking + 1 => (0x50, { d with seeking := seeking })
  | 0, 0 => (if d.transfer = .idle then 0x50 else 0x58, d)

def start (t : Timing) (d : Drive) (transfer : Transfer) : Drive :=
  { d with
    transfer := transfer
    busy := t.busy d.commands
    seeking := t.seeking d.commands
    commands := d.commands + 1 }

def command (t : Timing) (d : Drive) (cmd : UInt8) : Drive :=
  if cmd = ataCmdReadPioExt then d.start t (.reading 0)
  else if cmd = ataCmdWritePioExt then d.start t (.writing 0)
  else if cmd = ataCmdCacheFlushExt then { d with transfer := .idle }
  else d

/-- The `word`-th word of a sector, little-endian. -/
def sectorWord (bytes : Nat → UInt8) (word : Nat) : UInt16 :=
  UInt16.ofNat ((bytes (2 * word)).toNat + 256 * (bytes (2 * word + 1)).toNat)

def readData (sector : Nat) (d : Drive) : UInt16 × Drive :=
  match d.transfer with
  | .reading word =>
      if d.Ready ∧ word < 256 then
        (sectorWord (d.disk sector) word, { d with transfer := .reading (word + 1) })
      else (0, d)
  | _ => (0, d)

/-- A sector whose `word`-th word was overwritten. -/
def setWord (bytes : Nat → UInt8) (word : Nat) (data : UInt16) : Nat → UInt8 := fun j =>
  if j = 2 * word then data.toUInt8
  else if j = 2 * word + 1 then (data >>> 8).toUInt8
  else bytes j

def writeData (sector : Nat) (data : UInt16) (d : Drive) : Drive :=
  match d.transfer with
  | .writing word =>
      if d.Ready ∧ word < 256 then
        { d with
          transfer := .writing (word + 1)
          disk := fun n => if n = sector then setWord (d.disk n) word data else d.disk n }
      else d
  | _ => d

end Drive

/-- The drive on either channel, serving `sector`. -/
def idealBus (t : Timing) (sector : Nat) : Bus Drive where
  inb port d := if port &&& 0x0F = ataRegStatus then d.readStatus t else (0xFF, d)
  outb port data d := if port &&& 0x0F = ataRegCommand then d.command t data else d
  inw port d := if port &&& 0x0F = ataRegData then d.readData sector else (0, d)
  outw port data d := if port &&& 0x0F = ataRegData then d.writeData sector data else d

/-! ### The registers the driver uses -/

/-- The two channels. -/
def IsChannel (io : UInt16) : Prop := io = ataPrimaryIo ∨ io = ataSecondaryIo

theorem selectDrive_valid {drive : UInt8} (h : drive < 4) :
    ∃ io slave, selectDrive drive = some (io, slave) ∧ IsChannel io := by
  have hcases : drive = 0 ∨ drive = 1 ∨ drive = 2 ∨ drive = 3 := by
    rw [← UInt8.toNat_inj, ← UInt8.toNat_inj, ← UInt8.toNat_inj, ← UInt8.toNat_inj]
    have := UInt8.lt_iff_toNat_lt.mp h
    simp only [UInt8.reduceToNat] at this ⊢
    omega
  rcases hcases with rfl | rfl | rfl | rfl
  · exact ⟨_, _, rfl, Or.inl rfl⟩
  · exact ⟨_, _, rfl, Or.inl rfl⟩
  · exact ⟨_, _, rfl, Or.inr rfl⟩
  · exact ⟨_, _, rfl, Or.inr rfl⟩

section Registers

variable {t : Timing} {sector : Nat} {io : UInt16} (d : Drive)

theorem inb_status (hio : IsChannel io) :
    (idealBus t sector).inb (io + ataRegStatus) d = d.readStatus t := by
  rcases hio with rfl | rfl <;> rfl

theorem inb_altstatus (hio : IsChannel io) :
    (idealBus t sector).inb (io + ataRegAltstatus) d = (0xFF, d) := by
  rcases hio with rfl | rfl <;> rfl

theorem outb_command (hio : IsChannel io) (cmd : UInt8) :
    (idealBus t sector).outb (io + ataRegCommand) cmd d = d.command t cmd := by
  rcases hio with rfl | rfl <;> rfl

/-- The ideal drive ignores the rest of the task file. -/
theorem outb_taskFile (hio : IsChannel io) (data : UInt8) {reg : UInt16}
    (hreg : reg ∈ [1, ataRegSeccount0, ataRegLba0, ataRegLba1, ataRegLba2, ataRegHddevsel]) :
    (idealBus t sector).outb (io + reg) data d = d := by
  simp only [List.mem_cons, List.not_mem_nil, or_false] at hreg
  rcases hio with rfl | rfl <;> rcases hreg with rfl | rfl | rfl | rfl | rfl | rfl <;> rfl

theorem inw_data (hio : IsChannel io) :
    (idealBus t sector).inw (io + ataRegData) d = d.readData sector := by
  rcases hio with rfl | rfl <;> rfl

theorem outw_data (hio : IsChannel io) (data : UInt16) :
    (idealBus t sector).outw (io + ataRegData) data d = d.writeData sector data := by
  rcases hio with rfl | rfl <;> rfl

end Registers

/-! ## Polling -/

theorem bsy_of_noise (noise : UInt8) : (0x80 ||| noise) &&& ataSrBsy = ataSrBsy := by
  apply UInt8.eq_of_toBitVec_eq
  apply BitVec.eq_of_getLsbD_eq
  intro i hi
  simp only [ataSrBsy, UInt8.toBitVec_and, UInt8.toBitVec_or, BitVec.getLsbD_and,
    BitVec.getLsbD_or, UInt8.toBitVec_ofNat]
  cases (128#8).getLsbD i <;> simp

namespace Drive

variable {t : Timing} {d : Drive}

theorem readStatus_busy (h : 0 < d.busy) :
    ∃ status, d.readStatus t = (status, { d with busy := d.busy - 1 }) ∧
      status &&& ataSrBsy ≠ 0 := by
  obtain ⟨disk, transfer, busy, seeking, commands⟩ := d
  cases busy with
  | zero => exact absurd h (Nat.lt_irrefl 0)
  | succ busy =>
      refine ⟨0x80 ||| t.noise busy, rfl, ?_⟩
      rw [bsy_of_noise]
      decide

theorem readStatus_seeking (hbusy : d.busy = 0) (h : 0 < d.seeking) :
    d.readStatus t = (0x50, { d with seeking := d.seeking - 1 }) := by
  obtain ⟨disk, transfer, busy, seeking, commands⟩ := d
  cases hbusy
  cases seeking with
  | zero => exact absurd h (Nat.lt_irrefl 0)
  | succ seeking => rfl

theorem readStatus_ready (h : d.Ready) (htransfer : d.transfer ≠ .idle) :
    d.readStatus t = (0x58, d) := by
  obtain ⟨disk, transfer, busy, seeking, commands⟩ := d
  obtain ⟨hbusy, hseeking⟩ := h
  cases hbusy
  cases hseeking
  exact congrArg (·, _) (if_neg htransfer)

/-- The first status read that does not show BSY has used up one of the others. -/
theorem readStatus_not_busy (h : d.busy = 0) :
    ∃ status, d.readStatus t = (status, { d with busy := 0, seeking := d.seeking - 1 }) ∧
      status &&& ataSrBsy = 0 := by
  obtain ⟨disk, transfer, busy, seeking, commands⟩ := d
  cases h
  cases seeking with
  | zero =>
      refine ⟨if transfer = .idle then 0x50 else 0x58, rfl, ?_⟩
      split <;> rfl
  | succ seeking => exact ⟨0x50, rfl, rfl⟩

end Drive

section Sector

variable {t : Timing} {sector : Nat} {io : UInt16}

theorem delay_ends (hio : IsChannel io) (s : Machine Drive) :
    Ends (ataDelay400ns (idealBus t sector) io) s fun _ s' => s' = s := by
  apply Ends.forLoop (I := fun _ s' => s' = s)
  · intro j s' _ _ hs
    refine ⟨(), s', ?_, hs⟩
    rw [inportb_bind, inb_altstatus _ hio, MachineM.pure_run]
  · rfl

theorem ataPollBsy_ends (hio : IsChannel io) (fuel : Nat) :
    ∀ s : Machine Drive, s.dev.busy < fuel →
      Ends (ataPollBsy (idealBus t sector) io fuel) s fun _ s' =>
        s' = { s with dev := { s.dev with busy := 0, seeking := s.dev.seeking - 1 } } := by
  induction fuel with
  | zero => intro s h; omega
  | succ fuel ih =>
      intro s h
      unfold Ends
      rw [ataPollBsy, inportb_bind, inb_status _ hio]
      by_cases hbusy : 0 < s.dev.busy
      · obtain ⟨status, hread, hbsy⟩ := Drive.readStatus_busy (t := t) hbusy
        rw [hread, if_pos hbsy]
        exact ih { s with dev := { s.dev with busy := s.dev.busy - 1 } }
          (show s.dev.busy - 1 < fuel by omega)
      · obtain ⟨status, hread, hclear⟩ :=
          Drive.readStatus_not_busy (t := t) (show s.dev.busy = 0 by omega)
        rw [hread, if_neg (not_not.mpr hclear)]
        exact ⟨(), _, rfl, rfl⟩

theorem ataPollDrq_ends (hio : IsChannel io) (fuel : Nat) :
    ∀ s : Machine Drive, s.dev.busy = 0 → s.dev.seeking < fuel → s.dev.transfer ≠ .idle →
      Ends (ataPollDrq (idealBus t sector) io fuel) s fun _ s' =>
        s' = { s with dev := { s.dev with seeking := 0 } } := by
  induction fuel with
  | zero => intro s _ h; omega
  | succ fuel ih =>
      intro s hbusy h htransfer
      unfold Ends
      rw [ataPollDrq, inportb_bind, inb_status _ hio]
      by_cases hseek : 0 < s.dev.seeking
      · simp only [Drive.readStatus_seeking hbusy hseek]
        rw [if_neg (show ¬ (0x50 : UInt8) &&& ataSrErr ≠ 0 by decide),
          if_pos (show (0x50 : UInt8) &&& ataSrDrq = 0 by decide)]
        exact ih { s with dev := { s.dev with seeking := s.dev.seeking - 1 } } hbusy
          (show s.dev.seeking - 1 < fuel by omega) htransfer
      · have hzero : s.dev.seeking = 0 := by omega
        simp only [Drive.readStatus_ready ⟨hbusy, hzero⟩ htransfer]
        rw [if_neg (show ¬ (0x58 : UInt8) &&& ataSrErr ≠ 0 by decide),
          if_neg (show ¬ (0x58 : UInt8) &&& ataSrDrq = 0 by decide)]
        refine ⟨(), s, rfl, ?_⟩
        rw [← hzero]

/-- **The poll ends with the drive ready**, having changed nothing else. -/
theorem ataPoll_ends (hio : IsChannel io) {fuel : Nat} {s : Machine Drive}
    (hbusy : s.dev.busy < fuel) (hseek : s.dev.seeking < fuel)
    (htransfer : s.dev.transfer ≠ .idle) :
    Ends (ataPoll (idealBus t sector) io fuel) s fun _ s' =>
      s' = { s with dev := { s.dev with busy := 0, seeking := 0 } } := by
  apply Ends.bind (delay_ends hio s)
  rintro _ s rfl
  apply Ends.bind (ataPollBsy_ends hio fuel s hbusy)
  rintro _ _ rfl
  refine Ends.mono (ataPollDrq_ends hio fuel _ rfl ?_ htransfer) ?_
  · exact Nat.lt_of_le_of_lt (Nat.sub_le _ _) hseek
  · rintro _ _ rfl
    rfl

/-! ## One sector -/

theorem issueCommand_ends (hio : IsChannel io) (slave : UInt8) (lba : UInt32)
    (first second command : UInt8) (s : Machine Drive) :
    Ends (issueCommand (idealBus t sector) io slave lba first second command) s fun _ s' =>
      s' = { s with dev := s.dev.command t command } := by
  refine ⟨(), { s with dev := s.dev.command t command }, ?_, rfl⟩
  have hother : ∀ reg ∈ [1, ataRegSeccount0, ataRegLba0, ataRegLba1, ataRegLba2, ataRegHddevsel],
      ∀ (data : UInt8) (d : Drive), (idealBus t sector).outb (io + reg) data d = d :=
    fun reg hreg data d => outb_taskFile d hio data hreg
  simp only [List.forall_mem_cons] at hother
  obtain ⟨hfeatures, hseccount, hlba0, hlba1, hlba2, hhddevsel, -⟩ := hother
  simp only [issueCommand, outportb_bind, outportb_run, hfeatures, hseccount, hlba0, hlba1, hlba2,
    hhddevsel, outb_command _ hio]

theorem word_low (a b : UInt8) : (UInt16.ofNat (a.toNat + 256 * b.toNat)).toUInt8 = a := by
  have ha := a.toNat_lt
  have hb := b.toNat_lt
  rw [← UInt8.toNat_inj, UInt16.toNat_toUInt8, UInt16.toNat_ofNat']
  omega

theorem word_high (a b : UInt8) : (UInt16.ofNat (a.toNat + 256 * b.toNat) >>> 8).toUInt8 = b := by
  have ha := a.toNat_lt
  have hb := b.toNat_lt
  rw [← UInt8.toNat_inj, UInt16.toNat_toUInt8, UInt16.toNat_shiftRight, UInt16.toNat_ofNat']
  simp only [UInt16.reduceToNat, Nat.shiftRight_eq_div_pow, Nat.reduceMod, Nat.reducePow]
  omega

/-- The memory after the low bytes of the first `words` words of a sector were stored at `buf`. -/
def readInto (m : ByteMemory) (buf words : Nat) (bytes : Nat → UInt8) : ByteMemory := fun x =>
  if buf ≤ x ∧ x < buf + 2 * words then
    if (x - buf) % 2 = 0 then bytes (x - buf) else 0
  else m x

theorem store_readInto (m : ByteMemory) (buf word : Nat) (bytes : Nat → UInt8) :
    (readInto m buf word bytes).store (buf + word * 2) 2
      (Drive.sectorWord bytes word).toUInt8.toUInt16.toNat = readInto m buf (word + 1) bytes := by
  funext x
  rw [Drive.sectorWord, word_low, UInt8.toNat_toUInt16]
  by_cases hout : x < buf + word * 2 ∨ buf + word * 2 + 2 ≤ x
  · rw [ByteMemory.store_apply_of_outside hout]
    unfold readInto
    by_cases hin : buf ≤ x ∧ x < buf + 2 * word
    · have hnext : buf ≤ x ∧ x < buf + 2 * (word + 1) := by omega
      rw [if_pos hin, if_pos hnext]
    · have hnext : ¬ (buf ≤ x ∧ x < buf + 2 * (word + 1)) := by omega
      rw [if_neg hin, if_neg hnext]
  · obtain rfl | rfl : x = buf + word * 2 + 0 ∨ x = buf + word * 2 + 1 := by omega
    · rw [ByteMemory.store_apply_inside _ _ _ (by decide), readInto, if_pos (by omega),
        if_pos (by omega), show buf + word * 2 + 0 - buf = 2 * word by omega]
      simp
    · rw [ByteMemory.store_apply_inside _ _ _ (by decide), readInto, if_pos (by omega),
        if_neg (by omega)]
      have := (bytes (2 * word)).toNat_lt
      rw [Nat.pow_one, Nat.div_eq_of_lt this]
      rfl

/-- The sector after its first `words` words were taken from `buf`. -/
def writtenFrom (m : ByteMemory) (buf words : Nat) (bytes : Nat → UInt8) : Nat → UInt8 := fun j =>
  if j < 2 * words then m (buf + j) else bytes j

theorem setWord_writtenFrom (m : ByteMemory) (buf word : Nat) (bytes : Nat → UInt8) :
    Drive.setWord (writtenFrom m buf word bytes) word
      (UInt16.ofNat (m.load (buf + word * 2) 2)) = writtenFrom m buf (word + 1) bytes := by
  have hload : m.load (buf + word * 2) 2 =
      (m (buf + 2 * word)).toNat + 256 * (m (buf + (2 * word + 1))).toNat := by
    simp only [ByteMemory.load, Nat.mul_zero, Nat.add_zero, Nat.mul_comm word 2, Nat.add_assoc]
  funext j
  rw [Drive.setWord, hload, word_low, word_high]
  unfold writtenFrom
  split
  · next h => rw [if_pos (by omega), h]
  · split
    · next h => rw [if_pos (by omega), h]
    · by_cases hj : j < 2 * word
      · rw [if_pos hj, if_pos (by omega)]
      · rw [if_neg hj, if_neg (by omega)]

/-- The machine after `i` words of `sector` were read to `buf`. -/
def readingAt (s : Machine Drive) (sector buf i : Nat) : Machine Drive :=
  { s with
    mem := readInto s.mem buf i (s.dev.disk sector)
    dev := { s.dev with transfer := .reading i } }

/-- The machine after `i` words of `sector` were written from `buf`. -/
def writingAt (s : Machine Drive) (sector buf i : Nat) : Machine Drive :=
  { s with dev := { s.dev with
      transfer := .writing i
      disk := fun n =>
        if n = sector then writtenFrom s.mem buf i (s.dev.disk n) else s.dev.disk n } }

theorem readWords_ends (hio : IsChannel io) (buf : Nat) (s : Machine Drive)
    (hready : s.dev.Ready) (htransfer : s.dev.transfer = .reading 0) :
    Ends (forLoop (readWord (idealBus t sector) io buf) 256 0) s fun _ s' =>
      s' = readingAt s sector buf 256 := by
  apply Ends.forLoop (I := fun i s' => s' = readingAt s sector buf i)
  · rintro i _ - hi rfl
    refine ⟨(), readingAt s sector buf (i + 1), ?_, rfl⟩
    have hdata : (readingAt s sector buf i).dev.readData sector =
        (Drive.sectorWord (s.dev.disk sector) i, (readingAt s sector buf (i + 1)).dev) :=
      if_pos ⟨hready, by omega⟩
    rw [readWord, inportw_bind, inw_data _ hio, hdata, storeWord_run]
    simp only [readingAt, store_readInto]
  · have hmem : readInto s.mem buf 0 (s.dev.disk sector) = s.mem := by
      funext x
      exact if_neg (by omega)
    rw [readingAt, hmem, ← htransfer]

theorem writeWords_ends (hio : IsChannel io) (buf : Nat) (s : Machine Drive)
    (hready : s.dev.Ready) (htransfer : s.dev.transfer = .writing 0) :
    Ends (forLoop (writeWord (idealBus t sector) io buf) 256 0) s fun _ s' =>
      s' = writingAt s sector buf 256 := by
  apply Ends.forLoop (I := fun i s' => s' = writingAt s sector buf i)
  · rintro i _ - hi rfl
    refine ⟨(), writingAt s sector buf (i + 1), ?_, rfl⟩
    have hdata : (writingAt s sector buf i).dev.writeData sector
        (UInt16.ofNat (s.mem.load (buf + i * 2) 2)) = (writingAt s sector buf (i + 1)).dev := by
      have hmoved : (writingAt s sector buf i).dev.Ready ∧ i < 256 := ⟨hready, by omega⟩
      refine (if_pos hmoved).trans ?_
      simp only [writingAt, Drive.mk.injEq, and_true]
      funext n
      split
      · exact setWord_writtenFrom s.mem buf i (s.dev.disk n)
      · rfl
    rw [writeWord, loadWord_bind, outportw_run, outw_data _ hio]
    exact congrArg (fun d => Except.ok ((), { s with dev := d })) hdata
  · have hdisk : (fun n => if n = sector then writtenFrom s.mem buf 0 (s.dev.disk n)
          else s.dev.disk n) = s.dev.disk := by
      funext n
      split <;> rfl
    rw [writingAt, hdisk, ← htransfer]

theorem ataReadOne_ends {priv : AtaDrive} (hvalid : priv.drive < 4) {fuel : Nat} (buf : Nat)
    (lba : UInt32) {s : Machine Drive} (hbusy : t.busy s.dev.commands < fuel)
    (hseek : t.seeking s.dev.commands < fuel) :
    Ends (ataReadOne (idealBus t sector) fuel buf lba priv) s fun _ s' =>
      s'.mem = readInto s.mem buf 256 (s.dev.disk sector) ∧ s'.dev.disk = s.dev.disk ∧
        s'.dev.commands = s.dev.commands + 1 := by
  obtain ⟨io, slave, hselect, hio⟩ := selectDrive_valid hvalid
  simp only [ataReadOne, hselect]
  apply Ends.bind (issueCommand_ends hio slave lba 1 0 ataCmdReadPioExt s)
  rintro _ _ rfl
  refine Ends.bind (ataPoll_ends hio hbusy hseek (show Transfer.reading 0 ≠ .idle by decide)) ?_
  rintro _ _ rfl
  refine Ends.bind (readWords_ends hio buf _ ⟨rfl, rfl⟩ rfl) ?_
  rintro _ _ rfl
  apply Ends.bind (delay_ends hio _)
  rintro _ _ rfl
  exact ⟨1, _, rfl, rfl, rfl, rfl⟩

theorem ataFlush_ends (hio : IsChannel io) (s : Machine Drive) :
    Ends (ataFlush (idealBus t sector) io) s fun _ s' =>
      s' = { s with dev := s.dev.command t ataCmdCacheFlushExt } := by
  refine ⟨(), _, ?_, rfl⟩
  rw [ataFlush, outportb_run, outb_command _ hio]

theorem ataWriteOne_ends {priv : AtaDrive} (hvalid : priv.drive < 4) {fuel : Nat} (buf : Nat)
    (lba : UInt32) {s : Machine Drive} (hbusy : t.busy s.dev.commands < fuel)
    (hseek : t.seeking s.dev.commands < fuel) :
    Ends (ataWriteOne (idealBus t sector) fuel buf lba priv) s fun _ s' =>
      s'.mem = s.mem ∧
        s'.dev.disk = (fun n =>
          if n = sector then writtenFrom s.mem buf 256 (s.dev.disk n) else s.dev.disk n) ∧
        s'.dev.commands = s.dev.commands + 1 := by
  obtain ⟨io, slave, hselect, hio⟩ := selectDrive_valid hvalid
  simp only [ataWriteOne, hselect]
  apply Ends.bind (issueCommand_ends hio slave lba 0 1 ataCmdWritePioExt s)
  rintro _ _ rfl
  refine Ends.bind (ataPoll_ends hio hbusy hseek (show Transfer.writing 0 ≠ .idle by decide)) ?_
  rintro _ _ rfl
  refine Ends.bind (writeWords_ends hio buf _ ⟨rfl, rfl⟩ rfl) ?_
  rintro _ _ rfl
  apply Ends.bind (delay_ends hio _)
  rintro _ _ rfl
  apply Ends.bind (ataFlush_ends hio _)
  rintro _ _ rfl
  exact ⟨1, _, rfl, rfl, rfl, rfl⟩
end Sector

end Neutrino.Drivers
