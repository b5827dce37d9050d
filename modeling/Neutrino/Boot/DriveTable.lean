import Neutrino.Boot.Loader

/-!
# The table of hard disks

The drive loop keeps the number of the next drive in `dl`, where the BIOS leaves the number of drives.
After the first drive it therefore asks for drive `k + 1`, which is not a hard disk, and is done: one
record at most is written. Its cylinder count is put together in the wrong order besides
(`cylinderField`). `recordsDrives_iff` says for which BIOSes the table is right all the same.
-/

namespace Neutrino.Boot

open Neutrino.Lib RealMode

/-! ## The BIOS -/

structure Geometry where
  lastHead : UInt8
  lastCylinder : Fin 1024
  sectors : Fin 64

/-- The registers of a call for drive `number`. -/
structure AsksDrive (number : Nat) (c : Cpu) : Prop where
  ah : (c.read (.high .eax)).toNat = 0x08
  dl : (c.read (.low .edx)).toNat = number

/-- A call that returns the geometry `g` and the number of drives `k`. -/
structure ReturnsDrive (l : Layout) (g : Geometry) (k : Nat) (c c' : Cpu) : Prop where
  cf : c'.cf = false
  dh : (c'.read (.high .edx)).toNat = g.lastHead.toNat
  dl : (c'.read (.low .edx)).toNat = k
  -- the low six bits, and the high two of the cylinder
  cl : (c'.read (.low .ecx)).toNat = g.sectors.val + 64 * (g.lastCylinder.val / 256)
  ch : (c'.read (.high .ecx)).toNat = g.lastCylinder.val % 256
  data : SameData l c c'

/-- A BIOS with `k` hard disks, numbered from 0x80 on. -/
structure HasDrives (l : Layout) (int13 : Cpu → Cpu) (k : Nat) (drive : Nat → Geometry) : Prop where
  existing : ∀ i < k, ∀ c, AsksDrive (0x80 + i) c → ReturnsDrive l (drive i) k c (int13 c)
  missing : ∀ n c, AsksDrive n c → (n < 0x80 ∨ 0x80 + k ≤ n) →
    (int13 c).cf = true ∧ SameData l c (int13 c)

/-! ## The table -/

/-- Record `i`: heads, cylinders and sectors. -/
structure RecordHolds (l : Layout) (g : Geometry) (i : Nat) (c : Cpu) : Prop where
  heads : (c.load (l.driveData + 12 * i)).toNat = g.lastHead.toNat + 1
  cylinders : (c.load (l.driveData + 12 * i + 4)).toNat = g.lastCylinder.val + 1
  sectors : (c.load (l.driveData + 12 * i + 8)).toNat = g.sectors.val

/-- The loop ends with all drives in the table. -/
def RecordsDrives (l : Layout) (bios : UInt8 → Cpu → Cpu) (k : Nat) (drive : Nat → Geometry)
    (c : Cpu) : Prop :=
  ∃ fuel c', driveLoop l bios fuel c = some c' ∧ (c'.load l.driveCount).toNat = k ∧
    ∀ i < k, RecordHolds l (drive i) i c'

/-- What the loop makes of `cx` for the last cylinder. -/
def cylinderField (g : Geometry) : Nat := g.lastCylinder.val % 256 * 4 + g.lastCylinder.val / 256

/-! ## The code -/

section Code

variable {l : Layout} {bios : UInt8 → Cpu → Cpu} {c : Cpu}

theorem driveCount_after_pointer : l.tempPointer + 4 ≤ l.driveCount :=
  Nat.add_le_add_left (show 4 ≤ 332 by decide) l.base

theorem SameData.driveCount {c' : Cpu} (h : SameData l c c') :
    c'.load l.driveCount = c.load l.driveCount :=
  h.load (Nat.le_add_right l.base 332) (Nat.add_le_add_left (show 336 ≤ 528 by decide) l.base)

theorem SameData.tempPointer {c' : Cpu} (h : SameData l c c') :
    c'.load l.tempPointer = c.load l.tempPointer :=
  h.load (Nat.le_refl l.base) (Nat.add_le_add_left (show 4 ≤ 528 by decide) l.base)

theorem readDrives_mem :
    (run bios (readDrives l) c).mem =
      ((c.store l.driveCount 0).store l.tempPointer (UInt32.ofNat l.driveData)).mem := (rfl)

theorem readDrives_dl : ((run bios (readDrives l) c).read (.low .edx)).toNat = 0x80 := by
  let before := run bios [.movImm (.full .eax) 0, .store l.driveCount .eax,
    .movImm (.full .eax) (UInt32.ofNat l.driveData), .store l.tempPointer .eax] c
  exact read_write before 0x80 (.low .edx)

/-- What a block of the round leaves alone: every register but `eax`. -/
def SameArguments (c c' : Cpu) : Prop := ∀ r, r ≠ .eax → c'.gpr r = c.gpr r

theorem countDrive_run :
    (run bios (countDrive l) c).mem = c.mem.store l.driveCount 4 (c.load l.driveCount + 1).toNat ∧
      (run bios (countDrive l) c).gpr .ebx =
        (c.store l.driveCount (c.load l.driveCount + 1)).load l.tempPointer ∧
      (run bios (countDrive l) c).gpr .ecx = c.gpr .ecx ∧
      (run bios (countDrive l) c).gpr .edx = c.gpr .edx := ⟨rfl, rfl, rfl, rfl⟩

theorem storeHeads_run :
    (run bios storeHeads c).mem =
        c.mem.store (c.gpr .ebx + 0).toNat 4 (c.read (.high .edx) + 1).toNat ∧
      SameArguments c (run bios storeHeads c) := by
  refine ⟨rfl, fun r hr => ?_⟩
  cases r <;> first | rfl | exact absurd rfl hr

theorem storeSectors_run :
    (run bios storeSectors c).mem =
        c.mem.store (c.gpr .ebx + 8).toNat 4 (c.read (.word .ecx) &&& 0x3F).toNat ∧
      SameArguments c (run bios storeSectors c) := by
  refine ⟨rfl, fun r hr => ?_⟩
  cases r <;> first | rfl | exact absurd rfl hr

theorem storeCylinders_run :
    (run bios storeCylinders c).mem =
        c.mem.store (c.gpr .ebx + 4).toNat 4 ((c.read (.word .ecx) >>> 6 &&& 0x3FF) + 1).toNat ∧
      SameArguments c (run bios storeCylinders c) := by
  refine ⟨rfl, fun r hr => ?_⟩
  cases r <;> first | rfl | exact absurd rfl hr

theorem nextDrive_run :
    (run bios (nextDrive l) c).mem = c.mem.store l.tempPointer 4 (c.gpr .ebx + 3).toNat ∧
      ((run bios (nextDrive l) c).read (.low .edx)).toNat =
        ((c.read (.low .edx)).toNat + 1) % 2 ^ 8 := by
  refine ⟨rfl, ?_⟩
  have hinc : ((run bios (nextDrive l) c).read (.low .edx)).toNat =
      (c.read (.low .edx) + 1).toNat % 2 ^ 8 := read_write c _ (.low .edx)
  rw [hinc, UInt32.toNat_add, UInt32.toNat_one]
  omega

/-- **What a round writes**, with the pointer at the first record. -/
theorem driveRecord_run (hpointer : c.load l.tempPointer = UInt32.ofNat l.driveData) :
    (run bios (driveRecord l) c).mem =
        (((((c.store l.driveCount (c.load l.driveCount + 1)).store l.driveData
          (c.read (.high .edx) + 1)).store (l.driveData + 8)
          (c.read (.word .ecx) &&& 0x3F)).store (l.driveData + 4)
          ((c.read (.word .ecx) >>> 6 &&& 0x3FF) + 1)).store l.tempPointer
          (UInt32.ofNat l.driveData + 3)).mem ∧
      ((run bios (driveRecord l) c).read (.low .edx)).toNat =
        ((c.read (.low .edx)).toNat + 1) % 2 ^ 8 := by
  have hfits := l.fits
  have hdata : l.driveData = l.base + 336 := rfl
  have hplace : ∀ d : UInt32, d.toNat < 12 →
      (UInt32.ofNat l.driveData + d).toNat = l.driveData + d.toNat := by
    intro d hd
    rw [UInt32.toNat_add, UInt32.toNat_ofNat_of_lt' (show l.driveData < 2 ^ 32 by omega)]
    omega
  let counted := run bios (countDrive l) c
  let headed := run bios storeHeads counted
  let sectored := run bios storeSectors headed
  let cylindered := run bios storeCylinders sectored
  have hrun : run bios (driveRecord l) c = run bios (nextDrive l) cylindered := by
    unfold driveRecord
    rw [run_append, run_append, run_append, run_append]
  obtain ⟨hcounted, hebx, hecx, hedx⟩ : counted.mem = _ ∧ counted.gpr .ebx = _ ∧
    counted.gpr .ecx = _ ∧ counted.gpr .edx = _ := countDrive_run
  obtain ⟨hheaded, hsame₁⟩ : headed.mem = _ ∧ SameArguments counted headed := storeHeads_run
  obtain ⟨hsectored, hsame₂⟩ : sectored.mem = _ ∧ SameArguments headed sectored := storeSectors_run
  obtain ⟨hcylindered, hsame₃⟩ : cylindered.mem = _ ∧ SameArguments sectored cylindered :=
    storeCylinders_run
  rw [load_store_of_disjoint (.inl driveCount_after_pointer), hpointer] at hebx
  -- the blocks leave `ebx`, `ecx` and `edx` alone
  have hebx₁ : headed.gpr .ebx = UInt32.ofNat l.driveData := (hsame₁ .ebx nofun).trans hebx
  have hebx₂ : sectored.gpr .ebx = UInt32.ofNat l.driveData := (hsame₂ .ebx nofun).trans hebx₁
  have hebx₃ : cylindered.gpr .ebx = UInt32.ofNat l.driveData := (hsame₃ .ebx nofun).trans hebx₂
  have hcx₁ : headed.read (.word .ecx) = c.read (.word .ecx) :=
    read_congr ((hsame₁ .ecx nofun).trans hecx)
  have hcx₂ : sectored.read (.word .ecx) = c.read (.word .ecx) :=
    (read_congr (hsame₂ .ecx nofun)).trans hcx₁
  have hdh : counted.read (.high .edx) = c.read (.high .edx) := read_congr hedx
  have hdl : cylindered.read (.low .edx) = c.read (.low .edx) :=
    read_congr ((((hsame₃ .edx nofun).trans (hsame₂ .edx nofun)).trans (hsame₁ .edx nofun)).trans hedx)
  obtain ⟨hmem, hnext⟩ : (run bios (nextDrive l) cylindered).mem = _ ∧ _ = _ := nextDrive_run
  rw [hrun, hmem, hnext, hcylindered, hsectored, hheaded, hcounted, hebx, hebx₁, hebx₂, hebx₃, hcx₁,
    hcx₂, hdh, hdl, hplace 0 (by decide), hplace 8 (by decide), hplace 4 (by decide)]
  exact ⟨rfl, rfl⟩

/-- The count and the three fields after a round. -/
theorem driveRecord_table (bios : UInt8 → Cpu → Cpu)
    (hpointer : c.load l.tempPointer = UInt32.ofNat l.driveData)
    (hcount : c.load l.driveCount = 0) :
    (run bios (driveRecord l) c).load l.driveCount = 1 ∧
      (run bios (driveRecord l) c).load l.driveData = c.read (.high .edx) + 1 ∧
      (run bios (driveRecord l) c).load (l.driveData + 4) =
        (c.read (.word .ecx) >>> 6 &&& 0x3FF) + 1 ∧
      (run bios (driveRecord l) c).load (l.driveData + 8) = c.read (.word .ecx) &&& 0x3F := by
  have hmem : (run bios (driveRecord l) c).mem = _ := (driveRecord_run hpointer).1
  have hpointer_before : l.tempPointer + 4 ≤ l.driveData :=
    Nat.add_le_add_left (show 4 ≤ 336 by decide) l.base
  have hcount_before : l.driveCount + 4 ≤ l.driveData := Nat.le_refl _
  refine ⟨?_, ?_, ?_, ?_⟩
  · rw [load_eq_of_mem hmem, load_store_of_disjoint (.inr driveCount_after_pointer),
      load_store_of_disjoint (.inl (by omega)), load_store_of_disjoint (.inl (by omega)),
      load_store_of_disjoint (.inl hcount_before), load_store, hcount]
    rfl
  · rw [load_eq_of_mem hmem, load_store_of_disjoint (.inr hpointer_before),
      load_store_of_disjoint (.inl (by omega)), load_store_of_disjoint (.inl (by omega)), load_store]
  · rw [load_eq_of_mem hmem, load_store_of_disjoint (.inr (by omega)), load_store]
  · rw [load_eq_of_mem hmem, load_store_of_disjoint (.inr (by omega)),
      load_store_of_disjoint (.inr (by omega)), load_store]

end Code

/-! ## Fields -/

section Fields

variable {l : Layout} {g : Geometry} {k : Nat} {c c' : Cpu}

theorem cylinderField_lt (g : Geometry) : cylinderField g < 1024 := by
  have hhigh : g.lastCylinder.val / 256 < 4 := Nat.div_lt_of_lt_mul g.lastCylinder.isLt
  have hlow : g.lastCylinder.val % 256 < 256 := Nat.mod_lt _ (by decide)
  unfold cylinderField
  omega

theorem ReturnsDrive.cx (h : ReturnsDrive l g k c c') :
    (c'.read (.word .ecx)).toNat = 64 * cylinderField g + g.sectors.val := by
  have hsectors := g.sectors.isLt
  unfold cylinderField
  rw [read_word, h.ch, h.cl]
  omega

theorem ReturnsDrive.heads (h : ReturnsDrive l g k c c') :
    (c'.read (.high .edx) + 1).toNat = g.lastHead.toNat + 1 := by
  have hhead := g.lastHead.toNat_lt
  rw [UInt32.toNat_add, h.dh, UInt32.toNat_one]
  omega

theorem ReturnsDrive.sectors (h : ReturnsDrive l g k c c') :
    (c'.read (.word .ecx) &&& 0x3F).toNat = g.sectors.val := by
  have hsectors := g.sectors.isLt
  rw [UInt32.toNat_and, h.cx, show (0x3F : UInt32).toNat = 2 ^ 6 - 1 from rfl,
    Nat.and_two_pow_sub_one_eq_mod]
  omega

/-- The cylinder count comes out as `cylinderField` has it. -/
theorem ReturnsDrive.cylinders (h : ReturnsDrive l g k c c') :
    ((c'.read (.word .ecx) >>> 6 &&& 0x3FF) + 1).toNat = cylinderField g + 1 := by
  have hsectors := g.sectors.isLt
  have hfield := cylinderField_lt g
  have hshift : (c'.read (.word .ecx) >>> 6).toNat = cylinderField g := by
    rw [UInt32.toNat_shiftRight, h.cx, show (6 : UInt32).toNat % 32 = 6 from rfl,
      Nat.shiftRight_eq_div_pow]
    omega
  rw [UInt32.toNat_add, UInt32.toNat_and, hshift, show (0x3FF : UInt32).toNat = 2 ^ 10 - 1 from rfl,
    Nat.and_two_pow_sub_one_eq_mod, UInt32.toNat_one]
  omega

end Fields

/-! ## Rounds -/

section Rounds

variable {l : Layout} {bios : UInt8 → Cpu → Cpu} {k : Nat} {drive : Nat → Geometry} {c : Cpu}

/-- The registers at the `int` of a round. -/
def askingDrive (c : Cpu) : Cpu := c.write 0x08 (.high .eax)

theorem asks_askingDrive {n : Nat} (hdl : (c.read (.low .edx)).toNat = n) :
    AsksDrive n (askingDrive c) where
  ah := read_write c 0x08 (.high .eax)
  dl := by
    have hread : (askingDrive c).read (.low .edx) = c.read (.low .edx) := read_write_of_ne c 0x08 nofun
    rw [hread, hdl]

theorem driveQuery_run : run bios driveQuery c = bios 0x13 (askingDrive c) := (rfl)

/-- A round that asks for a drive there is not. -/
theorem driveRound_missing (h : HasDrives l (bios 0x13) k drive) {n : Nat}
    (hdl : (c.read (.low .edx)).toNat = n) (hn : n < 0x80 ∨ 0x80 + k ≤ n) :
    ∃ c', driveRound l bios c = .leave c' ∧ SameData l c c' := by
  obtain ⟨hcf, hsame⟩ := h.missing n _ (asks_askingDrive hdl) hn
  refine ⟨run bios driveQuery c, ?_, hsame⟩
  unfold driveRound
  rw [driveQuery_run]
  simp only [hcf, if_true]

/-- The first round. The next one asks for drive `k + 1`. -/
theorem driveRound_first (h : HasDrives l (bios 0x13) k drive) (hpos : 0 < k) (hk : k ≤ 16)
    (hdl : (c.read (.low .edx)).toNat = 0x80) (hcount : c.load l.driveCount = 0)
    (hpointer : c.load l.tempPointer = UInt32.ofNat l.driveData) :
    ∃ c', driveRound l bios c = .again c' ∧ (c'.read (.low .edx)).toNat = k + 1 ∧
      (c'.load l.driveCount).toNat = 1 ∧
      (c'.load l.driveData).toNat = (drive 0).lastHead.toNat + 1 ∧
      (c'.load (l.driveData + 4)).toNat = cylinderField (drive 0) + 1 ∧
      (c'.load (l.driveData + 8)).toNat = (drive 0).sectors.val := by
  have hreturns := h.existing 0 hpos _ (asks_askingDrive hdl)
  have hsame : SameData l c (bios 0x13 (askingDrive c)) := hreturns.data
  have hcount' : (bios 0x13 (askingDrive c)).load l.driveCount = 0 :=
    hsame.driveCount.trans hcount
  have hpointer' : (bios 0x13 (askingDrive c)).load l.tempPointer = UInt32.ofNat l.driveData :=
    hsame.tempPointer.trans hpointer
  obtain ⟨hone, hheads, hcylinders, hsectors⟩ := driveRecord_table bios hpointer' hcount'
  refine ⟨run bios (driveRecord l) (bios 0x13 (askingDrive c)), ?_, ?_, ?_, ?_, ?_, ?_⟩
  · unfold driveRound
    rw [driveQuery_run]
    simp only [hreturns.cf, Bool.false_eq_true, if_false]
  · rw [(driveRecord_run hpointer').2, hreturns.dl]
    omega
  · rw [hone]
    rfl
  · rw [hheads, hreturns.heads]
  · rw [hcylinders, hreturns.cylinders]
  · rw [hsectors, hreturns.sectors]

end Rounds

/-! ## The loop -/

section Loop

variable {l : Layout} {bios : UInt8 → Cpu → Cpu} {k : Nat} {drive : Nat → Geometry} {c : Cpu}

/-- Without a drive the loop is left at once. -/
theorem driveLoop_none (h : HasDrives l (bios 0x13) 0 drive) :
    ∃ fuel c', driveLoop l bios fuel c = some c' ∧ (c'.load l.driveCount).toNat = 0 := by
  have hdl : ((run bios (readDrives l) c).read (.low .edx)).toNat = 0x80 := readDrives_dl
  obtain ⟨c', hround, hsame⟩ := driveRound_missing h hdl (.inr (Nat.le_refl _))
  refine ⟨1, c', ?_, ?_⟩
  · unfold driveLoop
    rw [loop, hround]
  · rw [hsame.driveCount, load_eq_of_mem readDrives_mem,
      load_store_of_disjoint (.inr driveCount_after_pointer), load_store]
    rfl

/-- With one or more, it is left after the first. -/
theorem driveLoop_first (h : HasDrives l (bios 0x13) k drive) (hpos : 0 < k) (hk : k ≤ 16) :
    ∃ fuel c', driveLoop l bios fuel c = some c' ∧ (c'.load l.driveCount).toNat = 1 ∧
      (c'.load l.driveData).toNat = (drive 0).lastHead.toNat + 1 ∧
      (c'.load (l.driveData + 4)).toNat = cylinderField (drive 0) + 1 ∧
      (c'.load (l.driveData + 8)).toNat = (drive 0).sectors.val := by
  have hcount : (run bios (readDrives l) c).load l.driveCount = 0 := by
    rw [load_eq_of_mem readDrives_mem, load_store_of_disjoint (.inr driveCount_after_pointer),
      load_store]
  have hpointer : (run bios (readDrives l) c).load l.tempPointer = UInt32.ofNat l.driveData := by
    rw [load_eq_of_mem readDrives_mem, load_store]
  obtain ⟨c₁, hfirst, hdl, hone, hheads, hcylinders, hsectors⟩ :=
    driveRound_first h hpos hk readDrives_dl hcount hpointer
  obtain ⟨c₂, hsecond, hsame⟩ := driveRound_missing h hdl (.inl (by omega))
  have hdata : l.driveData = l.base + 336 := rfl
  refine ⟨2, c₂, ?_, ?_, ?_, ?_, ?_⟩
  · unfold driveLoop
    simp only [loop, hfirst, hsecond]
  · rw [hsame.driveCount, hone]
  · rw [hsame.load (by omega) (by omega), hheads]
  · rw [hsame.load (by omega) (by omega), hcylinders]
  · rw [hsame.load (by omega) (by omega), hsectors]

/-- What a right table comes to, when there is a drive. -/
theorem recordsDrives_pos (h : HasDrives l (bios 0x13) k drive) (hpos : 0 < k) (hk : k ≤ 16)
    (hrecords : RecordsDrives l bios k drive c) :
    k = 1 ∧ cylinderField (drive 0) = (drive 0).lastCylinder.val := by
  obtain ⟨fuel, c', hloop, hcount, hrecords⟩ := hrecords
  obtain ⟨fuel', c'', hloop', hone, -, hcylinders, -⟩ := driveLoop_first (c := c) h hpos hk
  obtain rfl := loop_unique hloop hloop'
  have hfield := (hrecords 0 hpos).cylinders
  rw [Nat.mul_zero, Nat.add_zero, hcylinders] at hfield
  exact ⟨hcount.symm.trans hone, Nat.succ.inj hfield⟩

/-- **The drive table is right iff there is no hard disk, or one for which the order of the cylinder
bits does not matter.** -/
theorem recordsDrives_iff (h : HasDrives l (bios 0x13) k drive) (hk : k ≤ 16) :
    RecordsDrives l bios k drive c ↔
      k = 0 ∨ (k = 1 ∧
        (drive 0).lastCylinder.val % 256 = 85 * ((drive 0).lastCylinder.val / 256)) := by
  constructor
  case mp =>
    intro hrecords
    rcases Nat.eq_zero_or_pos k with hzero | hpos
    · exact .inl hzero
    · obtain ⟨hone, hfield⟩ := recordsDrives_pos h hpos hk hrecords
      unfold cylinderField at hfield
      exact .inr ⟨hone, by omega⟩
  case mpr =>
    rintro (rfl | ⟨rfl, hcylinder⟩)
    · obtain ⟨fuel, c', hloop, hcount⟩ := driveLoop_none (c := c) h
      exact ⟨fuel, c', hloop, hcount, fun i hi => absurd hi (Nat.not_lt_zero i)⟩
    · obtain ⟨fuel, c', hloop, hone, hheads, hcylinders, hsectors⟩ :=
        driveLoop_first (c := c) h Nat.one_pos hk
      refine ⟨fuel, c', hloop, hone, fun i hi => ?_⟩
      obtain rfl : i = 0 := Nat.lt_one_iff.mp hi
      refine ⟨hheads, hcylinders.trans ?_, hsectors⟩
      unfold cylinderField
      omega

end Loop

/-! ## A BIOS with disks of one kind -/

def diskBios (k : Nat) (g : Geometry) (_ : UInt8) (c : Cpu) : Cpu :=
  let dl := (c.read (.low .edx)).toNat
  let cl := g.sectors.val + 64 * (g.lastCylinder.val / 256)
  if 0x80 ≤ dl ∧ dl < 0x80 + k then
    { (c.setGpr .edx (UInt32.ofNat (k + 256 * g.lastHead.toNat))).setGpr .ecx
        (UInt32.ofNat (cl + 256 * (g.lastCylinder.val % 256))) with cf := false }
  else { c with cf := true }

/-- The two bytes of a word that was put together. -/
theorem bytes_toNat {low high : Nat} (hlow : low < 256) (hhigh : high < 256) :
    (UInt32.ofNat (low + 256 * high) % 256).toNat = low ∧
      (UInt32.ofNat (low + 256 * high) / 256 % 256).toNat = high := by
  have hword : (UInt32.ofNat (low + 256 * high)).toNat = low + 256 * high :=
    UInt32.toNat_ofNat_of_lt' (show low + 256 * high < 2 ^ 32 by omega)
  simp only [UInt32.toNat_mod, UInt32.toNat_div, hword, UInt32.reduceToNat]
  omega

theorem hasDrives_diskBios (l : Layout) {k : Nat} (hk : k ≤ 16) (g : Geometry) :
    HasDrives l (diskBios k g 0x13) k fun _ => g where
  existing := by
    intro i hi c hasks
    have hdl := hasks.dl
    have hsectors := g.sectors.isLt
    have hhigh : g.lastCylinder.val / 256 < 4 := Nat.div_lt_of_lt_mul g.lastCylinder.isLt
    have hrun : diskBios k g 0x13 c = _ := if_pos (by omega)
    have hdx := bytes_toNat (show k < 256 by omega) g.lastHead.toNat_lt
    have hcx := bytes_toNat (show g.sectors.val + 64 * (g.lastCylinder.val / 256) < 256 by omega)
      (Nat.mod_lt g.lastCylinder.val (show 0 < 256 by decide))
    rw [hrun]
    exact ⟨rfl, hdx.2, hdx.1, hcx.1, hcx.2, fun _ _ => rfl⟩
  missing := by
    intro n c hasks hn
    have hdl := hasks.dl
    have hrun : diskBios k g 0x13 c = { c with cf := true } := if_neg (by omega)
    rw [hrun]
    exact ⟨rfl, fun _ _ => rfl⟩

/-- One disk, whose last cylinder is 341, that is `0x55` with the high bits `01`. -/
theorem recordsDrives_one :
    RecordsDrives imageLayout (diskBios 1 ⟨15, 341, 63⟩) 1 (fun _ => ⟨15, 341, 63⟩) imageCpu :=
  (recordsDrives_iff (hasDrives_diskBios imageLayout (by decide) ⟨15, 341, 63⟩) (by decide)).mpr
    (.inr ⟨rfl, by decide⟩)

/-- Two disks of the same kind. -/
theorem not_recordsDrives_two :
    HasDrives imageLayout (diskBios 2 ⟨15, 341, 63⟩ 0x13) 2 (fun _ => ⟨15, 341, 63⟩) ∧
      ¬RecordsDrives imageLayout (diskBios 2 ⟨15, 341, 63⟩) 2 (fun _ => ⟨15, 341, 63⟩) imageCpu := by
  have hdrives := hasDrives_diskBios imageLayout (show 2 ≤ 16 by decide) ⟨15, 341, 63⟩
  refine ⟨hdrives, fun hrecords => ?_⟩
  exact absurd (recordsDrives_pos hdrives (by decide) (by decide) hrecords).1 (by decide)

end Neutrino.Boot
