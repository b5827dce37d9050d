import Neutrino.Lib.ByteMemory

/-!
# A fragment of the processor in real mode

What a boot loader runs on: five general registers, which can be read and written in part, the carry
and the zero flag, and memory. All segments are at 0. What a software interrupt does is a parameter,
`bios`, since the code behind it is not part of the program.

A straight piece of code is a list of instructions. A loop is a `Round`, which either leaves with a
state or goes back to the start, and a fuel argument; `loop_of_rounds` is the rule for the runs that end,
and `loop_unique` says that the fuel does not matter to what they end with.
-/

namespace Neutrino.Lib.RealMode

inductive Gpr where
  | eax
  | ebx
  | ecx
  | edx
  | edi
  deriving DecidableEq, Repr

/-- A register or a part of one: `eax`, `ax`, `al`, `ah`. -/
inductive Reg where
  | full (r : Gpr)
  | word (r : Gpr)
  | low (r : Gpr)
  | high (r : Gpr)
  deriving DecidableEq, Repr

/-- How many values it holds. -/
def Reg.modulus : Reg → Nat
  | .full _ => 2 ^ 32
  | .word _ => 2 ^ 16
  | .low _ => 2 ^ 8
  | .high _ => 2 ^ 8

structure Cpu where
  gpr : Gpr → UInt32
  cf : Bool
  zf : Bool
  mem : ByteMemory

namespace Cpu

def read (c : Cpu) : Reg → UInt32
  | .full r => c.gpr r
  | .word r => c.gpr r % 65536
  | .low r => c.gpr r % 256
  | .high r => c.gpr r / 256 % 256

def setGpr (c : Cpu) (r : Gpr) (v : UInt32) : Cpu :=
  { c with gpr := fun r' => if r' = r then v else c.gpr r' }

/-- Write a register, or the part of one; `v` is cut to its width. -/
def write (c : Cpu) (v : UInt32) : Reg → Cpu
  | .full r => c.setGpr r v
  | .word r => c.setGpr r (c.gpr r / 65536 * 65536 + v % 65536)
  | .low r => c.setGpr r (c.gpr r / 256 * 256 + v % 256)
  | .high r => c.setGpr r (c.gpr r / 65536 * 65536 + v % 256 * 256 + c.gpr r % 256)

/-- Write the result of an operation, with the flags it leaves. -/
def result (c : Cpu) (r : Reg) (v : UInt32) (carry : Bool) : Cpu :=
  let c := c.write v r
  { c with cf := carry, zf := c.read r == 0 }

def load (c : Cpu) (a : Nat) : UInt32 := UInt32.ofNat (c.mem.load a 4)

def store (c : Cpu) (a : Nat) (v : UInt32) : Cpu := { c with mem := c.mem.store a 4 v.toNat }

end Cpu

inductive Instr where
  | movImm (dst : Reg) (imm : UInt32)
  -- also `movzx`
  | mov (dst src : Reg)
  | load (dst : Gpr) (a : Nat)
  | store (a : Nat) (src : Gpr)
  | storeImm (a : Nat) (imm : UInt32)
  -- `mov [base + disp], src`
  | storeAt (base : Gpr) (disp : UInt32) (src : Gpr)
  | inc (dst : Reg)
  | addImm (dst : Reg) (imm : UInt32)
  | andImm (dst : Reg) (imm : UInt32)
  | shrImm (dst : Reg) (n : UInt32)
  | or (dst src : Reg)
  | int (n : UInt8)
  deriving DecidableEq, Repr

/-- One instruction. -/
def exec (bios : UInt8 → Cpu → Cpu) (c : Cpu) : Instr → Cpu
  | .movImm dst imm => c.write imm dst
  | .mov dst src => c.write (c.read src) dst
  | .load dst a => c.setGpr dst (c.load a)
  | .store a src => c.store a (c.gpr src)
  | .storeImm a imm => c.store a imm
  | .storeAt base disp src => c.store (c.gpr base + disp).toNat (c.gpr src)
  -- leaves the carry flag
  | .inc dst => c.result dst (c.read dst + 1) c.cf
  | .addImm dst imm =>
      c.result dst (c.read dst + imm) (dst.modulus ≤ (c.read dst).toNat + imm.toNat)
  | .andImm dst imm => c.result dst (c.read dst &&& imm) false
  | .shrImm dst n => c.result dst (c.read dst >>> n) ((c.read dst >>> (n - 1)) &&& 1 == 1)
  | .or dst src => c.result dst (c.read dst ||| c.read src) false
  | .int n => bios n c

def run (bios : UInt8 → Cpu → Cpu) (code : List Instr) (c : Cpu) : Cpu := code.foldl (exec bios) c

theorem run_append (bios : UInt8 → Cpu → Cpu) (code code' : List Instr) (c : Cpu) :
    run bios (code ++ code') c = run bios code' (run bios code c) :=
  List.foldl_append

/-! ## Registers -/

section Registers

variable (c : Cpu) (v : UInt32)

theorem gpr_setGpr (r : Gpr) : (c.setGpr r v).gpr r = v := if_pos rfl

theorem gpr_setGpr_of_ne {r r' : Gpr} (h : r' ≠ r) : (c.setGpr r v).gpr r' = c.gpr r' := if_neg h

/-- The general register a part belongs to. -/
def Reg.gpr : Reg → Gpr
  | .full r => r
  | .word r => r
  | .low r => r
  | .high r => r

theorem gpr_write_of_ne {r : Reg} {r' : Gpr} (h : r' ≠ r.gpr) : (c.write v r).gpr r' = c.gpr r' := by
  cases r <;> exact gpr_setGpr_of_ne c _ h

theorem read_congr {c c' : Cpu} {r : Reg} (h : c'.gpr r.gpr = c.gpr r.gpr) : c'.read r = c.read r := by
  cases r with
  | full r => exact h
  | word r => exact congrArg (· % 65536) h
  | low r => exact congrArg (· % 256) h
  | high r => exact congrArg (· / 256 % 256) h

theorem read_write_of_ne {r r' : Reg} (h : r'.gpr ≠ r.gpr) : (c.write v r).read r' = c.read r' :=
  read_congr (gpr_write_of_ne c v h)

/-- **Read what was written**, cut to the width. -/
theorem read_write (r : Reg) : ((c.write v r).read r).toNat = v.toNat % r.modulus := by
  have hv := v.toNat_lt
  cases r with
  | full r =>
      simp only [Cpu.write, Cpu.read, gpr_setGpr, Reg.modulus]
      exact (Nat.mod_eq_of_lt hv).symm
  | word r =>
      have hr := (c.gpr r).toNat_lt
      simp only [Cpu.write, Cpu.read, gpr_setGpr, Reg.modulus, UInt32.toNat_add, UInt32.toNat_mul,
        UInt32.toNat_div, UInt32.toNat_mod, UInt32.reduceToNat]
      omega
  | low r =>
      have hr := (c.gpr r).toNat_lt
      simp only [Cpu.write, Cpu.read, gpr_setGpr, Reg.modulus, UInt32.toNat_add, UInt32.toNat_mul,
        UInt32.toNat_div, UInt32.toNat_mod, UInt32.reduceToNat]
      omega
  | high r =>
      have hr := (c.gpr r).toNat_lt
      simp only [Cpu.write, Cpu.read, gpr_setGpr, Reg.modulus, UInt32.toNat_add, UInt32.toNat_mul,
        UInt32.toNat_div, UInt32.toNat_mod, UInt32.reduceToNat]
      omega

/-- `ax` is `ah` and `al`. -/
theorem read_word (r : Gpr) :
    (c.read (.word r)).toNat = 256 * (c.read (.high r)).toNat + (c.read (.low r)).toNat := by
  simp only [Cpu.read, UInt32.toNat_div, UInt32.toNat_mod, UInt32.reduceToNat]
  omega

end Registers

/-! ## Memory -/

section Memory

variable {c c' : Cpu} {a b : Nat} {v : UInt32}

theorem load_store : (c.store a v).load a = v := by
  unfold Cpu.load Cpu.store
  rw [ByteMemory.load_store_self, Nat.mod_eq_of_lt (show v.toNat < 256 ^ 4 from v.toNat_lt),
    UInt32.ofNat_toNat]

theorem load_store_of_disjoint (h : a + 4 ≤ b ∨ b + 4 ≤ a) : (c.store b v).load a = c.load a :=
  congrArg UInt32.ofNat (ByteMemory.load_store_disjoint c.mem v.toNat h)

theorem load_eq_of_mem (h : c'.mem = c.mem) : c'.load a = c.load a :=
  congrArg (fun m => UInt32.ofNat (ByteMemory.load m a 4)) h

theorem load_congr (h : ∀ x, a ≤ x → x < a + 4 → c'.mem x = c.mem x) : c'.load a = c.load a :=
  congrArg UInt32.ofNat (ByteMemory.load_congr h)

end Memory

/-! ## Loops -/

section Loops

variable {σ : Type}

/-- One round of a loop: it leaves with a state, or goes back to the start with one. -/
inductive Round (σ : Type) where
  | leave (s : σ)
  | again (s : σ)

def loop (round : σ → Round σ) : Nat → σ → Option σ
  | 0, _ => none
  | fuel + 1, s =>
      match round s with
      | .leave s' => some s'
      | .again s' => loop round fuel s'

variable {round : σ → Round σ}

theorem loop_succ {fuel : Nat} :
    ∀ {s s' : σ}, loop round fuel s = some s' → loop round (fuel + 1) s = some s' := by
  induction fuel with
  | zero => exact nofun
  | succ fuel ih =>
      intro s s' h
      unfold loop at h ⊢
      cases hround : round s with
      | leave t =>
          rw [hround] at h
          exact h
      | again t =>
          rw [hround] at h
          exact ih h

theorem loop_mono {fuel : Nat} (more : Nat) {s s' : σ} (h : loop round fuel s = some s') :
    loop round (fuel + more) s = some s' := by
  induction more with
  | zero => exact h
  | succ more ih => exact loop_succ ih

/-- **A loop ends with one state**, whatever the fuel. -/
theorem loop_unique {fuel fuel' : Nat} {s s' s'' : σ} (h : loop round fuel s = some s')
    (h' : loop round fuel' s = some s'') : s' = s'' := by
  have hmore := loop_mono fuel' h
  rw [Nat.add_comm, loop_mono fuel h'] at hmore
  exact (Option.some.inj hmore).symm

/-- **The loop rule.** `I i` holds after `i` rounds, and the round after the first `n` leaves. -/
theorem loop_of_rounds {I : Nat → σ → Prop} {Q : σ → Prop} (n : Nat) :
    ∀ {i : Nat} {s : σ}, I i s →
      (∀ j s, i ≤ j → j < i + n → I j s → ∃ s', round s = .again s' ∧ I (j + 1) s') →
      (∀ s, I (i + n) s → ∃ s', round s = .leave s' ∧ Q s') →
      ∃ s', loop round (n + 1) s = some s' ∧ Q s' := by
  induction n with
  | zero =>
      intro i s hI _ hlast
      obtain ⟨s', hround, hQ⟩ := hlast s hI
      exact ⟨s', by rw [loop, hround], hQ⟩
  | succ n ih =>
      intro i s hI hrounds hlast
      obtain ⟨s', hround, hI'⟩ := hrounds i s (Nat.le_refl i) (by omega) hI
      obtain ⟨t, hloop, hQ⟩ := ih hI' (fun j s hj hjn => hrounds j s (by omega) (by omega))
        (fun s hs => hlast s (by rwa [show i + 1 + n = i + (n + 1) by omega] at hs))
      refine ⟨t, ?_, hQ⟩
      rw [loop, hround]
      exact hloop

end Loops

end Neutrino.Lib.RealMode
