import Neutrino.Boot.MemoryMap
import Neutrino.Memory.FirmwareMap

/-!
# From the BIOS to the heap

The loader leaves the memory map in its data as bytes, and the kernel reads them as an array of
`e820_desc`. This file joins the two: the table `memory_init` sees is what the BIOS reported, without the
last descriptor if the loop missed it (`map_handed_over`), and the memory that `malloc` then hands out is
memory the BIOS reported as usable (`booted_heap`).
-/

namespace Neutrino.Boot

open Neutrino.Lib (ByteMemory Steps states)
open Neutrino.Memory Neutrino.Lib.RealMode

/-! ## The table as the kernel sees it -/

/-- The `e820_desc` at `a`. -/
def readDesc (m : ByteMemory) (a : Nat) : Desc where
  baseAddr := UInt64.ofNat (m.load a 8)
  length := UInt64.ofNat (m.load (a + 8) 8)
  type := UInt32.ofNat (m.load (a + 16) 4)

/-- `__e820_map` and `__e820_size`, in the memory the loader leaves. -/
def kernelMap (l : Layout) (m : ByteMemory) : E820 where
  map := fun i => readDesc m (l.e820Data + 20 * i)
  size := m.load l.e820Size 4

/-- A descriptor of the BIOS. -/
def describe (d : Descriptor) : Desc := readDesc d 0

/-- The descriptors the loader counts. -/
def counted (ending : Ending) (ds : List Descriptor) : List Descriptor :=
  match ending with
  | .zero => ds.dropLast
  | .carry => ds

/-- The table is the same in both memories. -/
def SameTable (l : Layout) (m m' : ByteMemory) : Prop :=
  ∀ a, l.e820Size ≤ a → a < l.driveCount → m' a = m a

theorem readDesc_congr {m m' : ByteMemory} {a a' : Nat} (h : ∀ b < 20, m (a + b) = m' (a' + b)) :
    readDesc m a = readDesc m' a' := by
  have hload : ∀ k n, k + n ≤ 20 → m.load (a + k) n = m'.load (a' + k) n := by
    intro k n hfits
    apply ByteMemory.load_eq_of_bytes
    intro i hi
    rw [Nat.add_assoc, Nat.add_assoc]
    exact h (k + i) (by omega)
  have hbase : m.load a 8 = m'.load a' 8 := hload 0 8 (by decide)
  unfold readDesc
  rw [hbase, hload 8 8 (by decide), hload 16 4 (by decide)]

section HandOff

variable {l : Layout} {bios : UInt8 → Cpu → Cpu} {ds : List Descriptor} {ending : Ending}
  {cont : Nat → UInt32} {c c' : Cpu} {m : ByteMemory}

theorem counted_length (ending : Ending) (ds : List Descriptor) :
    (counted ending ds).length ≤ ds.length := by
  cases ending with
  | zero => exact List.length_dropLast ▸ Nat.sub_le ds.length 1
  | carry => exact Nat.le_refl _

theorem counted_getElem? {i : Nat} (hi : i < (counted ending ds).length) :
    (counted ending ds)[i]? = ds[i]? := by
  cases ending with
  | zero =>
      have hlt : i < ds.length - 1 := List.length_dropLast ▸ hi
      rw [counted, List.dropLast_eq_take, List.getElem?_take_of_lt hlt]
  | carry => rfl

/-- How the loop leaves the table, whichever way the BIOS signals the end. -/
theorem e820Loop_counts (h : ReportsMap l (bios 0x15) ds ending cont) (hpos : 0 < ds.length)
    (hlength : ds.length ≤ 16) (hfresh : Fresh l c) :
    ∃ fuel c', e820Loop l bios fuel c = some c' ∧
      c'.load l.e820Size = UInt32.ofNat (counted ending ds).length ∧
      Stored l ds (counted ending ds).length c' := by
  cases ending with
  | zero =>
      rw [counted, List.length_dropLast]
      exact e820Loop_zero h hpos hlength hfresh
  | carry => exact e820Loop_carry h hlength hfresh

/-- **What the kernel reads** of a table with `n` descriptors in it. -/
theorem descs_kernelMap (hlength : ds.length ≤ 16)
    (hsize : c'.load l.e820Size = UInt32.ofNat (counted ending ds).length)
    (hstored : Stored l ds (counted ending ds).length c') (hm : SameTable l c'.mem m) :
    (kernelMap l m).descs = (counted ending ds).map describe := by
  have hcounted := counted_length ending ds
  have hdata : l.e820Data = l.base + 12 := rfl
  have hcount : l.driveCount = l.base + 332 := rfl
  have hloaded : (kernelMap l m).size = (counted ending ds).length := by
    have hsame : m.load l.e820Size 4 = c'.mem.load l.e820Size 4 :=
      ByteMemory.load_congr fun x hlo hhi => hm x hlo (by
        have : l.e820Size = l.base + 8 := rfl
        omega)
    have hnat := congrArg UInt32.toNat hsize
    rw [UInt32.toNat_ofNat_of_lt' (show (counted ending ds).length < 2 ^ 32 by omega)] at hnat
    rw [← hnat]
    exact hsame.trans (UInt32.toNat_ofNat_of_lt' (ByteMemory.load_lt c'.mem 4 _)).symm
  apply List.ext_getElem?
  intro i
  unfold E820.descs
  rw [hloaded, List.getElem?_map, List.getElem?_map]
  rcases Nat.lt_or_ge i (counted ending ds).length with hi | hi
  · obtain ⟨d, hd⟩ : ∃ d, ds[i]? = some d := ⟨_, List.getElem?_eq_getElem (by omega)⟩
    rw [List.getElem?_range hi, counted_getElem? hi, hd]
    have hread : readDesc m (l.e820Data + 20 * i) = readDesc d 0 := by
      apply readDesc_congr
      intro b hb
      have hsize : l.e820Size = l.base + 8 := rfl
      rw [hm _ (by omega) (by omega), hstored i d hi hd b hb, Nat.zero_add]
    exact congrArg some hread
  · rw [List.getElem?_eq_none (by simpa using hi), List.getElem?_eq_none hi]
    rfl

/-- **The memory map reaches the kernel.** Whatever else was written in between, the kernel reads the
descriptors of the BIOS in their order, all of them or all but the last. -/
theorem map_handed_over (h : ReportsMap l (bios 0x15) ds ending cont) (hpos : 0 < ds.length)
    (hlength : ds.length ≤ 16) (hfresh : Fresh l c) :
    ∃ fuel c', e820Loop l bios fuel c = some c' ∧ ∀ m, SameTable l c'.mem m →
      (kernelMap l m).descs = (counted ending ds).map describe := by
  obtain ⟨fuel, c', hloop, hsize, hstored⟩ := e820Loop_counts h hpos hlength hfresh
  exact ⟨fuel, c', hloop, fun m hm => descs_kernelMap hlength hsize hstored hm⟩

/-- **From the BIOS to the heap.** If the counted descriptors make up a map the kernel's area can be
reserved in, then `memory_init` returns, and in every run after it the blocks lie in memory the BIOS
reported as usable, outside the kernel, and no other memory is written. -/
theorem booted_heap (h : ReportsMap l (bios 0x15) ds ending cont) (hlength : ds.length ≤ 16)
    (hfresh : Fresh l c) (hmap : Reservable 0x7C00 0xB8400 ((counted ending ds).map describe)) :
    ∃ fuel c', e820Loop l bios fuel c = some c' ∧ ∀ m, SameTable l c'.mem m →
      ∃ t h', memoryInit (kernelMap l m) ⟨m, 0, 0, []⟩ = some (t, h') ∧
        ∀ tr : List (Event × State), Steps Step ⟨h', []⟩ tr → ∀ s ∈ states ⟨h', []⟩ tr,
          Confined ((counted ending ds).map describe) m s := by
  have hcounted := counted_length ending ds
  have hpos : 0 < (counted ending ds).length := by
    obtain ⟨d, hd, -⟩ := hmap.loaded
    have hne := List.length_pos_of_mem hd
    rwa [List.length_map] at hne
  obtain ⟨fuel, c', hloop, hsize, hstored⟩ := e820Loop_counts h (by omega) hlength hfresh
  refine ⟨fuel, c', hloop, fun m hm => ?_⟩
  have hdescs := descs_kernelMap hlength hsize hstored hm
  obtain ⟨new, hinit⟩ := memoryInit_run (kernelMap l m) ⟨m, 0, 0, []⟩
  refine ⟨_, _, hinit, fun tr hrun => ?_⟩
  have hroom : (kernelMap l m).size + 1 < 2 ^ 32 := by
    have hlen := congrArg List.length hdescs
    rw [E820.descs, List.length_map, List.length_range, List.length_map] at hlen
    omega
  rw [← hdescs] at hmap ⊢
  exact hmap.confined hroom rfl hinit hrun

end HandOff

/-! ### A BIOS with one descriptor -/

/-- 636 KiB of usable memory at 4 KiB. -/
def lowMemory : Descriptor :=
  ((ByteMemory.store (fun _ => 0) 0 8 0x1000).store 8 8 0x9F000).store 16 4 1

theorem describe_lowMemory : [lowMemory].map describe = [⟨0x1000, 0x9F000, 1⟩] := by decide

theorem lowMemory_reservable : Reservable 0x7C00 0xB8400 ([lowMemory].map describe) := by
  rw [describe_lowMemory]
  exact ⟨.of_ends (by decide), by decide, by decide, by decide,
    ⟨⟨0x1000, 0x9F000, 1⟩, by decide, rfl, by decide, by decide⟩,
    by decide, by decide, by decide⟩

theorem lowMemory_handed_over :
    ∃ fuel c', e820Loop imageLayout (oneEntryBios lowMemory 1) fuel imageCpu = some c' ∧
      ∀ m, SameTable imageLayout c'.mem m →
        (kernelMap imageLayout m).descs = [lowMemory].map describe :=
  map_handed_over (reportsMap_oneEntry imageLayout lowMemory 1) (by decide) (by decide) fresh_image

theorem lowMemory_booted :
    ∃ fuel c', e820Loop imageLayout (oneEntryBios lowMemory 1) fuel imageCpu = some c' ∧
      ∀ m, SameTable imageLayout c'.mem m →
        ∃ t h', memoryInit (kernelMap imageLayout m) ⟨m, 0, 0, []⟩ = some (t, h') ∧
          ∀ tr : List (Event × State), Steps Step ⟨h', []⟩ tr → ∀ s ∈ states ⟨h', []⟩ tr,
            Confined ([lowMemory].map describe) m s :=
  booted_heap (reportsMap_oneEntry imageLayout lowMemory 1) (by decide) fresh_image
    lowMemory_reservable

end Neutrino.Boot
