import Neutrino.Lib.ByteMemory
import Neutrino.Memory.E820

/-!
# The kernel heap: `alloc` headers, `split`, `merge`, `malloc`, `free`, `memory_init`

The heap lives in raw memory: a block is an `alloc` header followed by its payload, and the only
kernel variable the allocator keeps besides the headers is the cursor `_currentAlloc`. The model
reads and writes the headers byte by byte, through `Field`s at their i386 offsets, so that headers
that overlap payloads (or each other) behave as they do on the machine.

Every header access is recorded in `Heap.log`. The log is what the safety results speak about: which
bytes a call wrote, and which pointers it dereferenced. `malloc` calls itself after a loop, neither
of which needs to end, so both take a fuel argument; running out of it is `none`.
-/

namespace Neutrino.Memory

open Neutrino.Lib

/-! ## The header -/

/-- The fields of `struct alloc`. -/
inductive Field where
  | previousAlloc
  | nextAlloc
  | reserved
  | size
  deriving DecidableEq, Repr

/-- Byte offsets of the fields: i386 aligns a `uint64_t` member to four bytes. -/
@[simp] def Field.offset : Field → Nat
  | .previousAlloc => 0
  | .nextAlloc => 4
  | .reserved => 8
  | .size => 12

/-- Widths of the fields: two pointers, a `uint8_t`, a `uint64_t`. -/
@[simp] def Field.width : Field → Nat
  | .previousAlloc => 4
  | .nextAlloc => 4
  | .reserved => 1
  | .size => 8

/-- `sizeof(alloc)`. -/
def sizeofAlloc : Nat := 20

/-- The value of a field of the header at `a`. -/
def field (m : ByteMemory) (f : Field) (a : Nat) : Nat :=
  m.load (a + f.offset) f.width

/-- The memory after a field of the header at `a` was written. -/
def setField (m : ByteMemory) (f : Field) (a v : Nat) : ByteMemory :=
  m.store (a + f.offset) f.width v

/-! ### What one field write changes

The four lemmas below are all later proofs use: the field itself, another field of the same header,
any field of a header elsewhere, and any byte outside the header. -/

theorem field_setField_self (m : ByteMemory) (f : Field) (a v : Nat) :
    field (setField m f a v) f a = v % 256 ^ f.width :=
  ByteMemory.load_store_self m _ _ v

theorem field_setField_ne (m : ByteMemory) {f g : Field} (a v : Nat) (h : f ≠ g) :
    field (setField m g a v) f a = field m f a := by
  apply ByteMemory.load_store_disjoint
  cases f <;> cases g <;> first | exact absurd rfl h | (simp only [Field.offset, Field.width]; omega)

theorem field_setField_apart (m : ByteMemory) (f g : Field) {a b : Nat} (v : Nat)
    (h : a + 20 ≤ b ∨ b + 20 ≤ a) : field (setField m g b v) f a = field m f a := by
  apply ByteMemory.load_store_disjoint
  cases f <;> cases g <;> simp <;> omega

theorem setField_apply_of_outside (m : ByteMemory) (g : Field) {a x : Nat} (v : Nat)
    (h : x < a ∨ a + 20 ≤ x) : setField m g a v x = m x := by
  apply ByteMemory.store_apply_of_outside
  cases g <;> simp <;> omega

/-- A field only depends on the bytes of its header. -/
theorem field_congr {m m' : ByteMemory} (f : Field) {a : Nat}
    (h : ∀ x, a ≤ x → x < a + 20 → m x = m' x) : field m f a = field m' f a := by
  apply ByteMemory.load_congr
  intro x hlo hhi
  cases f <;> simp only [Field.offset, Field.width] at hlo hhi <;> exact h x (by omega) (by omega)

theorem field_lt (m : ByteMemory) (f : Field) (a : Nat) : field m f a < 256 ^ f.width :=
  ByteMemory.load_lt m _ _

/-! ## The heap state -/

/-- One access through a pointer to a header. -/
structure Access where
  write : Bool
  base : Nat
  field : Field
  deriving DecidableEq, Repr

/-- The access touches the byte at `x`. -/
def Access.Covers (c : Access) (x : Nat) : Prop :=
  c.base + c.field.offset ≤ x ∧ x < c.base + c.field.offset + c.field.width

theorem Access.Covers.mem_header {c : Access} {x : Nat} (h : c.Covers x) :
    c.base ≤ x ∧ x < c.base + 20 := by
  obtain ⟨hlo, hhi⟩ := h
  cases hf : c.field <;> simp only [hf, Field.offset, Field.width] at hlo hhi <;> omega

/-- Memory, the allocator's two variables, and the accesses made so far (latest first). -/
structure Heap where
  mem : ByteMemory
  currentAlloc : Nat
  totalMemory : Nat
  log : List Access

/-- Start recording the accesses of a call. -/
def Heap.fresh (h : Heap) : Heap := { h with log := [] }

@[simp] theorem Heap.fresh_mem (h : Heap) : h.fresh.mem = h.mem := rfl

@[simp] theorem Heap.fresh_currentAlloc (h : Heap) : h.fresh.currentAlloc = h.currentAlloc := rfl

@[simp] theorem Heap.fresh_log (h : Heap) : h.fresh.log = [] := rfl

/-- A heap of one free block, in memory that is zero elsewhere. -/
def Heap.oneBlock (base size : Nat) : Heap :=
  ⟨setField (fun _ => 0) .size base size, base, size, []⟩

/-- Code that runs on the heap; `none` is a run that has not ended within its fuel. -/
abbrev HeapM := StateT Heap Option

/-- `p->f` -/
def get (f : Field) (p : Nat) : HeapM Nat := fun h =>
  some (field h.mem f p, { h with log := ⟨false, p, f⟩ :: h.log })

/-- `p->f = v` -/
def set (f : Field) (p v : Nat) : HeapM Unit := fun h =>
  some ((), { h with
    mem := setField h.mem f p v
    log := ⟨true, p, f⟩ :: h.log })

/-- `_currentAlloc` -/
def getCurrent : HeapM Nat := fun h => some (h.currentAlloc, h)

/-- `_currentAlloc = p` -/
def setCurrent (p : Nat) : HeapM Unit := fun h => some ((), { h with currentAlloc := p })

/-- `totalMemory += v` -/
def addTotal (v : Nat) : HeapM Unit := fun h =>
  some ((), { h with totalMemory := (h.totalMemory + v) % 2 ^ 64 })

/-! ## The allocator -/

/-- Splits `a` into two blocks, one of `size` and the other with the memory left over. Returns `0`
if successful, `1` if the block is not large enough for the size, `2` if it is not large enough to
be split. `size` is a `uint32_t`, and so is the size of the remainder. -/
def split (a size : Nat) : HeapM Nat := do
  if (← get .size a) < size then
    return 1
  else if (← get .size a) - size < sizeofAlloc then
    return 2
  else
    let next ← get .nextAlloc a
    let splitSize := ((← get .size a) - size - sizeofAlloc) % 2 ^ 32
    set .nextAlloc a ((a + sizeofAlloc + size) % 2 ^ 32)
    set .previousAlloc (← get .nextAlloc a) a
    set .nextAlloc (← get .nextAlloc a) next
    set .reserved (← get .nextAlloc a) 0
    set .size (← get .nextAlloc a) splitSize
    set .reserved a 1
    set .size a size
    return 0

/-- Merges `second` into `first`, its neighbour in memory. Returns `0` if successful, `1` if either
is reserved, `2` if they are not contiguous. -/
def merge (first second : Nat) : HeapM Nat := do
  if (← get .reserved first) ≠ 0 then
    return 1
  else if (← get .reserved second) ≠ 0 then
    return 1
  else if (first + (← get .size first) + sizeofAlloc) % 2 ^ 32 ≠ second then
    return 2
  else
    set .size first
      (((← get .size first) + ((← get .size second) + sizeofAlloc) % 2 ^ 64) % 2 ^ 64)
    set .nextAlloc first (← get .nextAlloc second)
    return 0

/-- The loop of `malloc`: move the cursor on while the block after it is reserved. The block after
it is looked at before it is compared with `NULL`. -/
def advance : Nat → HeapM Unit
  | 0 => fun _ => none
  | fuel + 1 => do
    let next ← get .nextAlloc (← getCurrent)
    if (← get .reserved next) = 1 then
      if (← get .nextAlloc (← getCurrent)) ≠ 0 then
        setCurrent (← get .nextAlloc (← getCurrent))
        advance fuel
      else
        return ()
    else
      return ()

/-- `malloc`. The 64-bit size is cut to 32 bits where it is passed to `split`. -/
def malloc : Nat → Nat → HeapM Nat
  | 0, _ => fun _ => none
  | fuel + 1, size => do
    let result ← split (← getCurrent) (size % 2 ^ 32)
    if result = 1 ∨ result = 2 then
      advance fuel
      malloc fuel size
    else
      setCurrent (← get .nextAlloc (← getCurrent))
      return ((← get .previousAlloc (← getCurrent)) + sizeofAlloc) % 2 ^ 32

/-- `pointer - sizeof(alloc)`: the header in front of a payload. -/
def header (pointer : Nat) : Nat := (pointer + 2 ^ 32 - sizeofAlloc) % 2 ^ 32

/-- `free`. Returns what `merge` returned: any value but `0` is reported on the console. -/
def free (pointer : Nat) : HeapM Nat := do
  let block := header pointer
  set .reserved block 0
  merge block (← get .nextAlloc block)

/-! ## `memory_init` -/

/-- What the loop of `memory_init` does with a usable region. Returns the new value of `first`. -/
def initRegion (region : Desc) (first : Nat) : HeapM Nat := do
  let first ←
    if (← getCurrent) = 0 then do
      setCurrent (region.base % 2 ^ 32)
      set .nextAlloc (← getCurrent) 0
      getCurrent
    else do
      set .nextAlloc (← getCurrent) (region.base % 2 ^ 32)
      set .previousAlloc (← getCurrent) (← getCurrent)
      setCurrent (← get .nextAlloc (← getCurrent))
      pure first
  set .reserved (← getCurrent) 0
  set .size (← getCurrent) ((region.len + 2 ^ 64 - sizeofAlloc) % 2 ^ 64)
  addTotal (← get .size (← getCurrent))
  return first

/-- The loop of `memory_init`: `n` iterations from entry `i` on, `first` being the first block. The
cursor goes back to `first` after every entry. -/
def initLoop (t : E820) : Nat → Nat → Nat → HeapM Unit
  | 0, _, _ => return ()
  | n + 1, i, first => do
    let first ← if (t.map i).type = 1 then initRegion (t.map i) first else pure first
    setCurrent first
    initLoop t n (i + 1) first

/-- `memory_init`, with the table `_reserve_area` left. -/
def memoryInit (t : E820) : HeapM E820 := do
  let t := t.reserveArea 0x7C00 0xB8400
  setCurrent 0
  initLoop t t.size 0 0
  return t

end Neutrino.Memory
