import Neutrino.Strings.Copying
import Neutrino.System.InterruptStubs

/-!
# The interrupt descriptor table

`idt_set_gate` writes the five fields of a packed entry; `idt_install` clears the table and tells the
processor where it is; `isrs_install` and `irq_install` enter the 48 stubs. The processor reads the
entries back in its own format (`Idtr.gate`): after the three it finds the stub of each of these vectors,
behind a present 32-bit interrupt gate for ring 0, and under every other vector a gate that is not
present (`gates_installed`).
-/

namespace Neutrino.System

open Neutrino.Lib Neutrino.Strings

/-! ## The code -/

/-- Where the linker has put `idt` and `idtp`. -/
structure IdtLayout where
  idt : Nat
  idtp : Nat
  fits : idt + 2048 ≤ 2 ^ 32
  apart : idtp + 6 ≤ idt ∨ idt + 2048 ≤ idtp

def sizeofIdtEntry : Nat := 8

def idtSetGate (idt : Nat) (num : UInt8) (base : UInt32) (sel : UInt16) (flags : UInt8)
    (m : ByteMemory) : ByteMemory :=
  let entry := idt + sizeofIdtEntry * num.toNat
  let m := m.store entry 2 (base &&& 0xFFFF).toNat
  let m := m.store (entry + 6) 2 ((base >>> 16) &&& 0xFFFF).toNat
  let m := m.store (entry + 2) 2 sel.toNat
  let m := m.store (entry + 4) 1 0
  m.store (entry + 5) 1 flags.toNat

/-- The register that `lidt` loads. -/
structure Idtr where
  limit : UInt16
  base : UInt32
  deriving DecidableEq, Repr

def lidt (m : ByteMemory) (a : Nat) : Idtr :=
  ⟨UInt16.ofNat (m.load a 2), UInt32.ofNat (m.load (a + 2) 4)⟩

def idtInstall (l : IdtLayout) (m : ByteMemory) : Idtr × ByteMemory :=
  let m := m.store l.idtp 2 (sizeofIdtEntry * 256 - 1)
  let m := m.store (l.idtp + 2) 4 l.idt
  let m := (memset l.idt 0 (sizeofIdtEntry * 256) m).2
  (lidt m l.idtp, m)

/-- `idt_set_gate(first + n, (unsigned)stub_n, 0x08, 0x8E);` for each of the `n`. -/
def setGates {count : Nat} (idt first : Nat) (stub : Fin count → UInt32) (ns : List (Fin count))
    (m : ByteMemory) : ByteMemory :=
  ns.foldl (fun m n => idtSetGate idt (UInt8.ofNat (first + n.val)) (stub n) 0x08 0x8E m) m

/-- `isr` is where the linker has put `isr0` to `isr31`. -/
def isrsInstall (idt : Nat) (isr : Fin 32 → UInt32) (m : ByteMemory) : ByteMemory :=
  setGates idt 0 isr (List.finRange 32) m

/-- What `irq_install` does behind the call of `irq_remap`; `irq` is where `irq0` to `irq15` are. -/
def irqGates (idt : Nat) (irq : Fin 16 → UInt32) (m : ByteMemory) : ByteMemory :=
  setGates idt 32 irq (List.finRange 16) m

/-! ## What the processor makes of it -/

/-- A gate, as the processor reads it. -/
structure Gate where
  offset : UInt32
  selector : UInt16
  access : UInt8
  deriving DecidableEq, Repr

def Gate.present (g : Gate) : Bool := g.access &&& 0x80 ≠ 0

/-- A 32-bit interrupt gate that only ring 0 may call. -/
def Gate.isInterrupt (g : Gate) : Bool := g.access &&& 0x7F = 0x0E

def gateAt (m : ByteMemory) (a : Nat) : Gate :=
  ⟨UInt32.ofNat (m.load a 2 + 65536 * m.load (a + 6) 2), UInt16.ofNat (m.load (a + 2) 2), m (a + 5)⟩

/-- `none` where the vector lies beyond the limit. -/
def Idtr.gate (r : Idtr) (m : ByteMemory) (vector : UInt8) : Option Gate :=
  if 8 * vector.toNat + 7 ≤ r.limit.toNat then some (gateAt m (r.base.toNat + 8 * vector.toNat))
  else none

/-- The entry of `idt_install`. -/
def Gate.empty : Gate := ⟨0, 0, 0⟩

/-! ## One gate -/

section SetGate

variable {m : ByteMemory} {idt : Nat} {num num' : UInt8} {base : UInt32} {sel : UInt16} {flags : UInt8}

/-- Nothing outside the entry is written. -/
theorem idtSetGate_outside {x : Nat} (h : x < idt + 8 * num.toNat ∨ idt + 8 * num.toNat + 8 ≤ x) :
    idtSetGate idt num base sel flags m x = m x := by
  unfold idtSetGate sizeofIdtEntry
  rw [ByteMemory.store_apply_of_outside (by omega), ByteMemory.store_apply_of_outside (by omega),
    ByteMemory.store_apply_of_outside (by omega), ByteMemory.store_apply_of_outside (by omega),
    ByteMemory.store_apply_of_outside (by omega)]

theorem gateAt_congr {m' : ByteMemory} {a : Nat} (h : ∀ x, a ≤ x → x < a + 8 → m x = m' x) :
    gateAt m a = gateAt m' a := by
  unfold gateAt
  rw [ByteMemory.load_congr (n := 2) (a := a) fun x hlo hhi => h x hlo (by omega),
    ByteMemory.load_congr (n := 2) (a := a + 6) fun x hlo hhi => h x (by omega) (by omega),
    ByteMemory.load_congr (n := 2) (a := a + 2) fun x hlo hhi => h x (by omega) (by omega),
    h (a + 5) (by omega) (by omega)]

/-- The two halves of an address. -/
theorem halves (base : UInt32) :
    (base &&& 0xFFFF).toNat + 65536 * ((base >>> 16) &&& 0xFFFF).toNat = base.toNat := by
  have hlow : (base &&& 0xFFFF).toNat = base.toNat % 65536 := by
    rw [UInt32.toNat_and]
    exact Nat.and_two_pow_sub_one_eq_mod base.toNat 16
  have hhigh : ((base >>> 16) &&& 0xFFFF).toNat = base.toNat / 65536 % 65536 := by
    rw [UInt32.toNat_and, UInt32.toNat_shiftRight]
    have hshift : base.toNat >>> ((16 : UInt32).toNat % 32) = base.toNat / 65536 :=
      Nat.shiftRight_eq_div_pow base.toNat 16
    rw [hshift]
    exact Nat.and_two_pow_sub_one_eq_mod (base.toNat / 65536) 16
  have hlt : base.toNat < 2 ^ 32 := base.toNat_lt
  omega

/-- **The gate is read as it was set.** -/
theorem gateAt_idtSetGate (m : ByteMemory) (idt : Nat) (num : UInt8) (base : UInt32) (sel : UInt16)
    (flags : UInt8) :
    gateAt (idtSetGate idt num base sel flags m) (idt + 8 * num.toNat) = ⟨base, sel, flags⟩ := by
  unfold gateAt idtSetGate sizeofIdtEntry
  generalize idt + 8 * num.toNat = entry
  have hbase := halves base
  have hmask : ∀ x : UInt32, (x &&& 0xFFFF).toNat < 256 ^ 2 := by
    intro x
    rw [UInt32.toNat_and]
    exact Nat.lt_of_le_of_lt Nat.and_le_right (by decide)
  have hlo := hmask base
  have hhi := hmask (base >>> 16)
  congr 1
  · rw [ByteMemory.load_store_disjoint _ _ (by omega), ByteMemory.load_store_disjoint _ _ (by omega),
      ByteMemory.load_store_disjoint _ _ (by omega), ByteMemory.load_store_disjoint _ _ (by omega),
      ByteMemory.load_store_self]
    rw [ByteMemory.load_store_disjoint _ _ (by omega), ByteMemory.load_store_disjoint _ _ (by omega),
      ByteMemory.load_store_disjoint _ _ (by omega), ByteMemory.load_store_self, Nat.mod_eq_of_lt hlo,
      Nat.mod_eq_of_lt hhi, hbase, UInt32.ofNat_toNat]
  · rw [ByteMemory.load_store_disjoint _ _ (by omega), ByteMemory.load_store_disjoint _ _ (by omega),
      ByteMemory.load_store_self, Nat.mod_eq_of_lt (show _ < 256 ^ 2 from sel.toNat_lt), UInt16.ofNat_toNat]
  · rw [← Nat.add_zero (entry + 5), ByteMemory.store_apply_inside _ _ _ Nat.one_pos, Nat.pow_zero,
      Nat.div_one, UInt8.ofNat_toNat]

/-- Another entry is not touched. -/
theorem gateAt_idtSetGate_ne (h : num' ≠ num) :
    gateAt (idtSetGate idt num base sel flags m) (idt + 8 * num'.toNat) =
      gateAt m (idt + 8 * num'.toNat) := by
  have hne : num'.toNat ≠ num.toNat := fun heq => h (UInt8.toNat.inj heq)
  apply gateAt_congr
  intro x hlo hhi
  exact idtSetGate_outside (by omega)

end SetGate

/-! ## All gates -/

section SetGates

variable {count : Nat} {idt first : Nat} {stub : Fin count → UInt32} {m : ByteMemory} {vector : UInt8}

theorem setGates_other (ns : List (Fin count)) :
    ∀ {m : ByteMemory}, (∀ n ∈ ns, vector ≠ UInt8.ofNat (first + n.val)) →
      gateAt (setGates idt first stub ns m) (idt + 8 * vector.toNat) =
        gateAt m (idt + 8 * vector.toNat) := by
  induction ns with
  | nil => exact fun _ => rfl
  | cons n ns ih =>
      intro m h
      obtain ⟨hn, hrest⟩ := List.forall_mem_cons.mp h
      exact (ih hrest).trans (gateAt_idtSetGate_ne hn)

/-- Each of the gates is there, as they are all different. -/
theorem setGates_gate (hfit : first + count ≤ 256) (ns : List (Fin count)) (n : Fin count) :
    ∀ {m : ByteMemory}, n ∈ ns → ns.Nodup →
      gateAt (setGates idt first stub ns m) (idt + 8 * (UInt8.ofNat (first + n.val)).toNat) =
        ⟨stub n, 0x08, 0x8E⟩ := by
  have hdistinct : ∀ k : Fin count, k ≠ n → UInt8.ofNat (first + n.val) ≠ UInt8.ofNat (first + k.val) := by
    intro k hk heq
    have hval := congrArg UInt8.toNat heq
    rw [UInt8.toNat_ofNat', UInt8.toNat_ofNat', Nat.mod_eq_of_lt (by omega),
      Nat.mod_eq_of_lt (by omega)] at hval
    exact hk (Fin.ext (by omega))
  induction ns with
  | nil => exact fun h _ => absurd h List.not_mem_nil
  | cons k ns ih =>
      intro m hmem hnodup
      obtain ⟨hnot, hnodup⟩ := List.nodup_cons.mp hnodup
      by_cases hk : k = n
      · subst hk
        have hrest := @setGates_other count idt first stub (UInt8.ofNat (first + k.val)) ns
          (idtSetGate idt (UInt8.ofNat (first + k.val)) (stub k) 0x08 0x8E m)
          fun j hj => hdistinct j fun heq => hnot (heq ▸ hj)
        exact hrest.trans (gateAt_idtSetGate m idt _ _ _ _)
      · exact ih ((List.mem_cons.mp hmem).resolve_left (Ne.symm hk)) hnodup

theorem setGates_outside (ns : List (Fin count)) {x : Nat}
    (h : x < idt ∨ idt + 2048 ≤ x) : ∀ {m : ByteMemory}, setGates idt first stub ns m x = m x := by
  induction ns with
  | nil => exact rfl
  | cons n ns ih =>
      intro m
      have hlt := (UInt8.ofNat (first + n.val)).toNat_lt
      exact ih.trans (idtSetGate_outside (by omega))

end SetGates

/-! ## The table after the installation -/

/-- `idt_install(); isrs_install(); irq_install();` -/
def installInterrupts (l : IdtLayout) (isr : Fin 32 → UInt32) (irq : Fin 16 → UInt32)
    (m : ByteMemory) : Idtr × ByteMemory :=
  let s := idtInstall l m
  (s.1, irqGates l.idt irq (isrsInstall l.idt isr s.2))

/-- Where the stub of a vector is. -/
def stubAddress (isr : Fin 32 → UInt32) (irq : Fin 16 → UInt32) (vector : Fin 48) : UInt32 :=
  if h : vector.val < 32 then isr ⟨vector, h⟩ else irq ⟨vector - 32, by omega⟩

theorem sizeof_table : sizeofIdtEntry * 256 = 2048 := rfl

/-- The entries are cleared, and nothing else is written but the pointer. -/
theorem idtInstall_mem (l : IdtLayout) (m : ByteMemory) :
    (idtInstall l m).2 =
      filledWith ((m.store l.idtp 2 2047).store (l.idtp + 2) 4 l.idt) l.idt 2048 1 fun _ => 0 := by
  unfold idtInstall
  dsimp only
  rw [sizeof_table, memset_eq]

theorem idtInstall_cleared {l : IdtLayout} {m : ByteMemory} {x : Nat} (hlo : l.idt ≤ x)
    (hhi : x < l.idt + 2048) : (idtInstall l m).2 x = 0 := by
  rw [idtInstall_mem, filledWith, if_pos ⟨hlo, hhi⟩]

theorem idtInstall_apart {l : IdtLayout} {m : ByteMemory} {x : Nat}
    (h : x < l.idt ∨ l.idt + 2048 ≤ x) :
    (idtInstall l m).2 x = ((m.store l.idtp 2 2047).store (l.idtp + 2) 4 l.idt) x := by
  rw [idtInstall_mem, filledWith, if_neg (by omega)]

/-- **The processor is told** where the table is, and how long. -/
theorem idtInstall_idtr (l : IdtLayout) (m : ByteMemory) :
    (idtInstall l m).1 = ⟨2047, UInt32.ofNat l.idt⟩ := by
  have hfits := l.fits
  have hapart := l.apart
  have hlimit : (idtInstall l m).2.load l.idtp 2 = 2047 := by
    rw [ByteMemory.load_congr (n := 2) fun x hlo hhi => idtInstall_apart (by omega),
      ByteMemory.load_store_disjoint _ _ (by omega), ByteMemory.load_store_self]
    decide
  have hbase : (idtInstall l m).2.load (l.idtp + 2) 4 = l.idt := by
    rw [ByteMemory.load_congr (n := 4) fun x hlo hhi => idtInstall_apart (by omega),
      ByteMemory.load_store_self]
    exact Nat.mod_eq_of_lt (by omega)
  have hload : (idtInstall l m).1 = lidt (idtInstall l m).2 l.idtp := by
    unfold idtInstall
    dsimp only
  rw [hload, lidt, hlimit, hbase]
  rfl

theorem gateAt_zero {m : ByteMemory} {a : Nat} (h : ∀ x, a ≤ x → x < a + 8 → m x = 0) :
    gateAt m a = Gate.empty := by
  have hzero : gateAt m a = gateAt (fun _ => 0) a := gateAt_congr h
  rw [hzero]
  rfl

/-- The gate of a stub. -/
def stubGate (isr : Fin 32 → UInt32) (irq : Fin 16 → UInt32) (vector : Fin 48) : Gate :=
  ⟨stubAddress isr irq vector, 0x08, 0x8E⟩

section Installed

variable {l : IdtLayout} {isr : Fin 32 → UInt32} {irq : Fin 16 → UInt32} {m : ByteMemory}

theorem ofNat_ne {vector : UInt8} {k : Nat} (hk : k < 256) (h : vector.toNat ≠ k) :
    vector ≠ UInt8.ofNat k := by
  rintro rfl
  rw [UInt8.toNat_ofNat', Nat.mod_eq_of_lt hk] at h
  exact h rfl

theorem ofNat_eq {vector : UInt8} {k : Nat} (h : vector.toNat = k) : UInt8.ofNat k = vector := by
  rw [← h, UInt8.ofNat_toNat]

/-- The 48 entries hold the stubs, the others are as they were. -/
theorem gateAt_stubs (idt : Nat) (isr : Fin 32 → UInt32) (irq : Fin 16 → UInt32) (m : ByteMemory)
    (vector : UInt8) :
    gateAt (irqGates idt irq (isrsInstall idt isr m)) (idt + 8 * vector.toNat) =
      if h : vector.toNat < 48 then stubGate isr irq ⟨vector.toNat, h⟩
      else gateAt m (idt + 8 * vector.toNat) := by
  unfold irqGates isrsInstall
  by_cases hirq : 32 ≤ vector.toNat ∧ vector.toNat < 48
  · obtain ⟨hlo, hhi⟩ := hirq
    have hgate := @setGates_gate 16 idt 32 irq (by decide) (List.finRange 16)
      ⟨vector.toNat - 32, by omega⟩ (setGates idt 0 isr (List.finRange 32) m) (List.mem_finRange _)
      (List.nodup_finRange 16)
    rw [@ofNat_eq vector (32 + (vector.toNat - 32)) (by omega)] at hgate
    rw [hgate, dif_pos hhi, stubGate, stubAddress, dif_neg (show ¬ vector.toNat < 32 by omega)]
  · rw [setGates_other _ fun n _ => ofNat_ne (by omega) (by omega)]
    by_cases hisr : vector.toNat < 32
    · have hgate := @setGates_gate 32 idt 0 isr (by decide) (List.finRange 32)
        ⟨vector.toNat, hisr⟩ m (List.mem_finRange _) (List.nodup_finRange 32)
      rw [@ofNat_eq vector (0 + vector.toNat) (by omega)] at hgate
      rw [hgate, dif_pos (show vector.toNat < 48 by omega), stubGate, stubAddress, dif_pos hisr]
    · rw [setGates_other _ fun n _ => ofNat_ne (by omega) (by omega), dif_neg (by omega)]

theorem installInterrupts_gate (vector : UInt8) :
    (installInterrupts l isr irq m).1.gate (installInterrupts l isr irq m).2 vector =
      some (if h : vector.toNat < 48 then stubGate isr irq ⟨vector.toNat, h⟩ else Gate.empty) := by
  have hfits := l.fits
  have hlt := vector.toNat_lt
  have hbase : (UInt32.ofNat l.idt).toNat = l.idt := by
    rw [UInt32.toNat_ofNat']
    exact Nat.mod_eq_of_lt (by omega)
  have hlimit : 8 * vector.toNat + 7 ≤ (2047 : UInt16).toNat := by
    show 8 * vector.toNat + 7 ≤ 2047
    omega
  show (idtInstall l m).1.gate _ vector = _
  rw [idtInstall_idtr, Idtr.gate, if_pos hlimit, hbase]
  congr 1
  show gateAt (irqGates l.idt irq (isrsInstall l.idt isr (idtInstall l m).2)) _ = _
  rw [gateAt_stubs]
  split
  · rfl
  · exact gateAt_zero fun x hlo hhi => idtInstall_cleared (by omega) (by omega)

theorem installInterrupts_outside {x : Nat} (hidt : x < l.idt ∨ l.idt + 2048 ≤ x)
    (hidtp : x < l.idtp ∨ l.idtp + 6 ≤ x) : (installInterrupts l isr irq m).2 x = m x := by
  show irqGates l.idt irq (isrsInstall l.idt isr (idtInstall l m).2) x = _
  unfold irqGates isrsInstall
  rw [setGates_outside _ hidt, setGates_outside _ hidt, idtInstall_apart hidt,
    ByteMemory.store_apply_of_outside (by omega), ByteMemory.store_apply_of_outside (by omega)]

end Installed

/-- What the two kinds of gates are to the processor. -/
theorem stubGate_present (isr : Fin 32 → UInt32) (irq : Fin 16 → UInt32) (vector : Fin 48) :
    (stubGate isr irq vector).present = true ∧ (stubGate isr irq vector).isInterrupt = true :=
  ⟨decide_eq_true (show (0x8E : UInt8) &&& 0x80 ≠ 0 by decide),
    decide_eq_true (show (0x8E : UInt8) &&& 0x7F = 0x0E by decide)⟩

/-- **After the installation** the processor finds the stub of each vector below 48 behind an interrupt
gate, and no gate under the others; memory is otherwise as it was. -/
theorem gates_installed (l : IdtLayout) (isr : Fin 32 → UInt32) (irq : Fin 16 → UInt32)
    (m : ByteMemory) :
    (∀ vector : UInt8, ∃ g,
      (installInterrupts l isr irq m).1.gate (installInterrupts l isr irq m).2 vector = some g ∧
      (g.present = true ↔ vector.toNat < 48) ∧
      ∀ h : vector.toNat < 48, g.isInterrupt = true ∧ g.selector = 0x08 ∧
        g.offset = stubAddress isr irq ⟨vector.toNat, h⟩) ∧
    ∀ x, x < l.idt ∨ l.idt + 2048 ≤ x → x < l.idtp ∨ l.idtp + 6 ≤ x →
      (installInterrupts l isr irq m).2 x = m x := by
  refine ⟨fun vector => ⟨_, installInterrupts_gate vector, ?_⟩,
    fun x hidt hidtp => installInterrupts_outside hidt hidtp⟩
  by_cases h : vector.toNat < 48
  · obtain ⟨hpresent, hinterrupt⟩ := stubGate_present isr irq ⟨vector.toNat, h⟩
    rw [dif_pos h]
    exact ⟨iff_of_true hpresent h, fun _ => ⟨hinterrupt, rfl, rfl⟩⟩
  · rw [dif_neg h]
    exact ⟨iff_of_false (by decide) h, fun hlt => absurd hlt h⟩

end Neutrino.System
