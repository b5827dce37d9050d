import Neutrino.Drivers.IdealDrive

/-!
# Writing sectors and reading them back

The write path is right: `ataWrite_ends` puts the bytes of the buffer on the disk. The read path is
not. `inportw` drops the high byte of every word, so a sector reads back with zeros at its odd bytes
(`ataRead_ends`), and what was written comes back exactly when it had zeros there
(`writeThenRead_iff`).
-/

namespace Neutrino.Drivers

open Neutrino.Lib Neutrino.System MachineM

/-! ## A run of sectors -/

/-- As many status reads as any of the first `n` commands keeps the driver waiting. -/
def Timing.patience (t : Timing) : Nat → Nat
  | 0 => 0
  | n + 1 => max (t.patience n) (max (t.busy n) (t.seeking n))

theorem Timing.le_patience (t : Timing) {c n : Nat} (h : c < n) :
    t.busy c ≤ t.patience n ∧ t.seeking c ≤ t.patience n := by
  induction n with
  | zero => exact absurd h (Nat.not_lt_zero c)
  | succ n ih =>
      rw [Timing.patience]
      rcases Nat.lt_succ_iff_lt_or_eq.mp h with hlt | rfl
      · obtain ⟨hbusy, hseek⟩ := ih hlt
        exact ⟨le_max_of_le_left hbusy, le_max_of_le_left hseek⟩
      · exact ⟨le_max_of_le_right (le_max_left _ _), le_max_of_le_right (le_max_right _ _)⟩

theorem Timing.patience_mono (t : Timing) {n n' : Nat} (h : n ≤ n') :
    t.patience n ≤ t.patience n' := by
  induction h with
  | refl => exact Nat.le_refl _
  | step _ ih => exact le_max_of_le_left ih

theorem sector_toNat {lba : UInt32} {i k : Nat} (hi : i < k) (hk : lba.toNat + k ≤ 2 ^ 32) :
    (lba + UInt32.ofNat i).toNat = lba.toNat + i := by
  rw [UInt32.toNat_add, UInt32.toNat_ofNat']
  omega

/-- The memory after `i` sectors from `lba` were read to `buf`: the odd bytes are gone. -/
def readRun (m : ByteMemory) (disk : Nat → Nat → UInt8) (buf lba i : Nat) : ByteMemory := fun x =>
  if buf ≤ x ∧ x < buf + 512 * i then
    if (x - buf) % 2 = 0 then disk (lba + (x - buf) / 512) ((x - buf) % 512) else 0
  else m x

theorem readInto_readRun (m : ByteMemory) (disk : Nat → Nat → UInt8) (buf lba i : Nat) :
    readInto (readRun m disk buf lba i) (buf + 512 * i) 256 (disk (lba + i)) =
      readRun m disk buf lba (i + 1) := by
  funext x
  unfold readInto readRun
  by_cases hin : buf + 512 * i ≤ x ∧ x < buf + 512 * i + 2 * 256
  · have hnext : buf ≤ x ∧ x < buf + 512 * (i + 1) := by omega
    rw [if_pos hin, if_pos hnext, show (x - buf) / 512 = i by omega,
      show (x - buf) % 512 = x - (buf + 512 * i) by omega]
    congr 1
    rw [show x - (buf + 512 * i) = x - buf - 512 * i by omega]
    apply propext
    omega
  · rw [if_neg hin]
    by_cases hbefore : buf ≤ x ∧ x < buf + 512 * i
    · have hnext : buf ≤ x ∧ x < buf + 512 * (i + 1) := by omega
      rw [if_pos hbefore, if_pos hnext]
    · have hnext : ¬ (buf ≤ x ∧ x < buf + 512 * (i + 1)) := by omega
      rw [if_neg hbefore, if_neg hnext]

/-- The disk after `i` sectors from `lba` were written from `buf`. -/
def writtenRun (m : ByteMemory) (disk : Nat → Nat → UInt8) (buf lba i : Nat) :
    Nat → Nat → UInt8 := fun n =>
  if lba ≤ n ∧ n < lba + i then writtenFrom m (buf + 512 * (n - lba)) 256 (disk n) else disk n

theorem writtenRun_succ (m : ByteMemory) (disk : Nat → Nat → UInt8) (buf lba i : Nat) :
    (fun n => if n = lba + i then
        writtenFrom m (buf + 512 * i) 256 (writtenRun m disk buf lba i n)
      else writtenRun m disk buf lba i n) = writtenRun m disk buf lba (i + 1) := by
  funext n
  unfold writtenRun
  by_cases hn : n = lba + i
  · have hnext : lba ≤ n ∧ n < lba + (i + 1) := by omega
    rw [if_pos hn, if_neg (by omega), if_pos hnext, hn, Nat.add_sub_cancel_left]
  · rw [if_neg hn]
    by_cases hbefore : lba ≤ n ∧ n < lba + i
    · have hnext : lba ≤ n ∧ n < lba + (i + 1) := by omega
      rw [if_pos hbefore, if_pos hnext]
    · have hnext : ¬ (lba ≤ n ∧ n < lba + (i + 1)) := by omega
      rw [if_neg hbefore, if_neg hnext]

/-- Every sector is served by the ideal drive. -/
def idealDrive (t : Timing) (lba : UInt32) : Bus Drive := idealBus t lba.toNat

section Run

variable {t : Timing} {priv : AtaDrive} {fuel buf : Nat} {lba k : UInt32} {s : Machine Drive}

/-- **Writing a run of sectors** puts the bytes of the buffer on the disk. -/
theorem ataWrite_ends (hvalid : priv.drive < 4) (hk : lba.toNat + k.toNat ≤ 2 ^ 32)
    (hfuel : t.patience (s.dev.commands + k.toNat) < fuel) :
    Ends (ataWrite (idealDrive t) fuel buf lba k priv) s fun _ s' =>
      s'.mem = s.mem ∧ s'.dev.disk = writtenRun s.mem s.dev.disk buf lba.toNat k.toNat ∧
        s'.dev.commands = s.dev.commands + k.toNat := by
  refine Ends.mono (Ends.forLoop (I := fun i s' => s'.mem = s.mem ∧
    s'.dev.disk = writtenRun s.mem s.dev.disk buf lba.toNat i ∧
      s'.dev.commands = s.dev.commands + i) ?_ ?_) ?_
  · rintro i s' - hi ⟨hmem, hdisk, hcommands⟩
    obtain ⟨hbusy, hseek⟩ := t.le_patience (show s'.dev.commands < s.dev.commands + k.toNat by omega)
    refine Ends.bind (ataWriteOne_ends hvalid _ _ (Nat.lt_of_le_of_lt hbusy hfuel)
      (Nat.lt_of_le_of_lt hseek hfuel)) ?_
    rintro _ s'' ⟨hmem', hdisk', hcommands'⟩
    refine ⟨(), s'', rfl, hmem'.trans hmem, ?_, ?_⟩
    · rw [hdisk', hmem, hdisk, sector_toNat (by omega) hk, writtenRun_succ]
    · rw [hcommands', hcommands, Nat.add_assoc]
  · refine ⟨rfl, ?_, rfl⟩
    funext n
    exact (if_neg (by omega)).symm
  · rintro _ s' hs'
    rwa [Nat.zero_add] at hs'

/-- **Reading a run of sectors** stores their even bytes, and zeros between them. -/
theorem ataRead_ends (hvalid : priv.drive < 4) (hk : lba.toNat + k.toNat ≤ 2 ^ 32)
    (hfuel : t.patience (s.dev.commands + k.toNat) < fuel) :
    Ends (ataRead (idealDrive t) fuel buf lba k priv) s fun _ s' =>
      s'.mem = readRun s.mem s.dev.disk buf lba.toNat k.toNat ∧ s'.dev.disk = s.dev.disk ∧
        s'.dev.commands = s.dev.commands + k.toNat := by
  refine Ends.mono (Ends.forLoop (I := fun i s' =>
    s'.mem = readRun s.mem s.dev.disk buf lba.toNat i ∧ s'.dev.disk = s.dev.disk ∧
      s'.dev.commands = s.dev.commands + i) ?_ ?_) ?_
  · rintro i s' - hi ⟨hmem, hdisk, hcommands⟩
    obtain ⟨hbusy, hseek⟩ := t.le_patience (show s'.dev.commands < s.dev.commands + k.toNat by omega)
    refine Ends.bind (ataReadOne_ends hvalid _ _ (Nat.lt_of_le_of_lt hbusy hfuel)
      (Nat.lt_of_le_of_lt hseek hfuel)) ?_
    rintro _ s'' ⟨hmem', hdisk', hcommands'⟩
    refine ⟨(), s'', rfl, ?_, hdisk'.trans hdisk, ?_⟩
    · rw [hmem', hmem, hdisk, sector_toNat (by omega) hk, readInto_readRun]
    · rw [hcommands', hcommands, Nat.add_assoc]
  · refine ⟨?_, rfl, rfl⟩
    funext x
    exact (if_neg (by omega)).symm
  · rintro _ s' hs'
    rwa [Nat.zero_add] at hs'

/-! ## Write, then read -/

/-- Write `k` sectors from `buf` and read them back to `buf2`. -/
def writeThenRead (t : Timing) (fuel buf buf2 : Nat) (lba k : UInt32) (priv : AtaDrive) :
    MachineM Drive Unit := do
  ataWrite (idealDrive t) fuel buf lba k priv
  ataRead (idealDrive t) fuel buf2 lba k priv

theorem writeThenRead_ends {buf2 : Nat} (hvalid : priv.drive < 4)
    (hk : lba.toNat + k.toNat ≤ 2 ^ 32)
    (hfuel : t.patience (s.dev.commands + 2 * k.toNat) < fuel) :
    Ends (writeThenRead t fuel buf buf2 lba k priv) s fun _ s' =>
      (∀ j, j < 512 * k.toNat →
        s'.mem (buf2 + j) = if j % 2 = 0 then s.mem (buf + j) else 0) ∧
      ∀ n, n < lba.toNat ∨ lba.toNat + k.toNat ≤ n → s'.dev.disk n = s.dev.disk n := by
  have hless : t.patience (s.dev.commands + k.toNat) < fuel :=
    Nat.lt_of_le_of_lt (t.patience_mono (by omega)) hfuel
  apply Ends.bind (ataWrite_ends hvalid hk hless)
  rintro _ s' ⟨hmem, hdisk, hcommands⟩
  have hfuel' : t.patience (s'.dev.commands + k.toNat) < fuel := by
    rwa [hcommands, show s.dev.commands + k.toNat + k.toNat = s.dev.commands + 2 * k.toNat by omega]
  apply Ends.mono (ataRead_ends hvalid hk hfuel')
  rintro _ s'' ⟨hmem', hdisk', -⟩
  refine ⟨?_, ?_⟩
  · intro j hj
    have hin : buf2 ≤ buf2 + j ∧ buf2 + j < buf2 + 512 * k.toNat := by omega
    rw [hmem', hdisk, readRun, if_pos hin, Nat.add_sub_cancel_left]
    split
    · have hsector : lba.toNat ≤ lba.toNat + j / 512 ∧
          lba.toNat + j / 512 < lba.toNat + k.toNat := by omega
      rw [writtenRun, if_pos hsector, Nat.add_sub_cancel_left, writtenFrom, if_pos (by omega)]
      congr 1
      omega
    · rfl
  · intro n hn
    rw [hdisk', hdisk, writtenRun, if_neg (by omega)]

/-- **What was written is read back, and no other sector changes, exactly when the odd bytes of the
buffer are zero.** -/
theorem writeThenRead_iff (t : Timing) (priv : AtaDrive) (hvalid : priv.drive < 4)
    (buf buf2 : Nat) (lba k : UInt32) (hk : lba.toNat + k.toNat ≤ 2 ^ 32) (s : Machine Drive) :
    (∀ fuel, t.patience (s.dev.commands + 2 * k.toNat) < fuel →
      Ends (writeThenRead t fuel buf buf2 lba k priv) s fun _ s' =>
        (∀ j, j < 512 * k.toNat → s'.mem (buf2 + j) = s.mem (buf + j)) ∧
        ∀ n, n < lba.toNat ∨ lba.toNat + k.toNat ≤ n → s'.dev.disk n = s.dev.disk n) ↔
    ∀ j, j < 512 * k.toNat → j % 2 = 1 → s.mem (buf + j) = 0 := by
  constructor
  · intro h j hj hodd
    have hfuel := Nat.lt_succ_self (t.patience (s.dev.commands + 2 * k.toNat))
    obtain ⟨_, s', -, ⟨hback, -⟩, hspec, -⟩ :=
      (h _ hfuel).and (writeThenRead_ends hvalid hk hfuel)
    rw [← hback j hj, hspec j hj, if_neg (by omega)]
  · intro hzero fuel hfuel
    apply Ends.mono (writeThenRead_ends hvalid hk hfuel)
    rintro _ s' ⟨hback, hspared⟩
    refine ⟨?_, hspared⟩
    intro j hj
    rw [hback j hj]
    split
    · rfl
    · exact (hzero j hj (by omega)).symm

end Run

/-! ### Two buffers, and a drive that is never busy -/

/-- A machine whose memory is `fill` everywhere, with an empty disk. -/
def filled (fill : UInt8) : Machine Drive :=
  ⟨fun _ => fill, ⟨fun _ _ => 0, .idle, 0, 0, 0⟩, []⟩

def prompt : Timing := ⟨fun _ => 0, fun _ => 0, fun _ => 0⟩

/-- A byte that is not zero at every even address. -/
def stripes (j : Nat) : UInt8 := if j % 2 = 0 then 7 else 0

def striped : Machine Drive := ⟨stripes, ⟨fun _ _ => 0, .idle, 0, 0, 0⟩, []⟩

theorem stripes_read_back :
    Ends (writeThenRead prompt 1 0 1024 5 2 ⟨1⟩) striped fun _ s' =>
      (∀ j, j < 1024 → s'.mem (1024 + j) = stripes (0 + j)) ∧
        ∀ n, n < 5 ∨ 5 + 2 ≤ n → s'.dev.disk n = fun _ => 0 := by
  refine (writeThenRead_iff prompt ⟨1⟩ (by decide) 0 1024 5 2 (by decide) striped).mpr ?_ 1 (by decide)
  intro j _ hodd
  show stripes (0 + j) = 0
  rw [Nat.zero_add, stripes, if_neg (by omega)]

/-- A sector of ones reads back with a zero at its second byte. -/
theorem ones_not_read_back :
    Ends (writeThenRead prompt 1 0 512 0 1 ⟨0⟩) (filled 1) fun _ s' =>
      s'.mem (512 + 1) ≠ (filled 1).mem (0 + 1) := by
  apply Ends.mono (writeThenRead_ends (by decide) (by decide) (by decide))
  rintro _ s' ⟨hback, -⟩
  rw [hback 1 (by decide)]
  decide

end Neutrino.Drivers
