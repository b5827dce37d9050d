import Mathlib.Algebra.Group.Nat.Defs
import Mathlib.Logic.Function.Basic

/-!
# The e820 memory map

`__e820_data` is an array of descriptors in the boot loader's image with `__e820_size` of them in
use. The code walks it with unchecked pointers, so the model keeps the cells past the end too: the
table is a total map from indices to descriptors, of which the first `size` count.

`_reserve_area` edits the table in place through `_shift_map` (make room for an entry) and
`_remove_index` (close a gap). All address arithmetic is on `uint64_t` and wraps.
-/

namespace Neutrino.Memory

/-- `e820_desc` -/
structure Desc where
  baseAddr : UInt64
  length : UInt64
  type : UInt32
  deriving DecidableEq, Repr, Inhabited

/-- `BaseAddr.Value`, as a number. -/
def Desc.base (d : Desc) : Nat := d.baseAddr.toNat

/-- `Length.Value`, as a number. -/
def Desc.len (d : Desc) : Nat := d.length.toNat

/-- `__e820_map` and `__e820_size`. -/
structure E820 where
  map : Nat → Desc
  size : Nat

namespace E820

/-- The table with the given entries. -/
def ofList (ds : List Desc) : E820 := ⟨fun i => ds.getD i default, ds.length⟩

/-- The descriptors in use. -/
def descs (t : E820) : List Desc := (List.range t.size).map t.map

/-- The descriptors of usable memory. -/
def usable (t : E820) : List Desc := t.descs.filter fun d => d.type = 1

/-- Overwrite one cell of the table. -/
def write (t : E820) (i : Nat) (d : Desc) : E820 :=
  { t with map := Function.update t.map i d }

/-- The loop of `_shift_map`: from index `i` down to `index + 1`, each cell takes the one before. -/
def shiftLoop (index : Nat) : Nat → (Nat → Desc) → (Nat → Desc)
  | 0, m => m
  | i + 1, m =>
    if i + 1 > index then shiftLoop index i (Function.update m (i + 1) (m i)) else m

/-- `_shift_map`: shifts all the entries from `index` on down the array by one. -/
def shiftMap (t : E820) (index : Nat) : E820 :=
  { map := shiftLoop index t.size t.map, size := (t.size + 1) % 2 ^ 32 }

/-- The loop of `_remove_index`, `n` iterations of it from index `i` on: each cell takes the next. -/
def removeLoop : Nat → Nat → (Nat → Desc) → (Nat → Desc)
  | 0, _, m => m
  | n + 1, i, m => removeLoop n (i + 1) (Function.update m i (m (i + 1)))

/-- `_remove_index`. The bound `__e820_size - 1` and the new size are `uint32_t`s. -/
def removeIndex (t : E820) (index : Nat) : E820 :=
  let last := (t.size + 2 ^ 32 - 1) % 2 ^ 32
  { map := removeLoop (last - index) index t.map, size := last }

/-- The loop of `_reserve_area` that removes the entries the new region overlaps. `next` is the
index `next_region` points at. Every round makes the table smaller and the guard fails on an empty
one, so `size` rounds are enough. -/
def removeOverlapped (nextAddress : UInt64) (i next : Nat) : Nat → E820 → E820
  | 0, t => t
  | n + 1, t =>
    if nextAddress > (t.map next).baseAddr + (t.map next).length ∧ t.size > i + 1 then
      removeOverlapped nextAddress i next n (removeIndex t next)
    else
      t

/-- What `_reserve_area` does after the overlapped entries are gone: cut the next entry, or else
(under the very same test) map the memory in front of it. -/
def adjustNext (nextAddress : UInt64) (i next : Nat) (t : E820) : E820 :=
  if nextAddress > (t.map next).baseAddr then
    t.write next { t.map next with
      length := (t.map next).length - (nextAddress - (t.map next).baseAddr)
      baseAddr := nextAddress }
  else if nextAddress > (t.map next).baseAddr then
    let t := shiftMap t next
    t.write next {
      baseAddr := nextAddress
      length := (t.map (next + 1)).baseAddr - nextAddress
      type := (t.map i).type }
  else
    t

/-- The body of `_reserve_area` for the entry `i` it edits. -/
def reserveAt (t : E820) (base length : UInt64) (i : Nat) : E820 :=
  let t := t.write i { t.map i with length := base - (t.map i).baseAddr }
  let t := shiftMap t (i + 1)
  let t := t.write (i + 1) { baseAddr := base, length := length, type := 2 }
  let nextAddress := (t.map (i + 1)).baseAddr + (t.map (i + 1)).length
  let t := removeOverlapped nextAddress i (i + 2) t.size t
  adjustNext nextAddress i (i + 2) t

/-- The search loop of `_reserve_area`, `n` iterations of it from index `i` on. -/
def reserveLoop (base length : UInt64) : Nat → Nat → E820 → E820
  | 0, _, t => t
  | n + 1, i, t =>
    if (t.map i).baseAddr + (t.map i).length > base then
      reserveAt t base length i
    else
      reserveLoop base length n (i + 1) t

/-- `_reserve_area` -/
def reserveArea (t : E820) (base length : UInt64) : E820 :=
  reserveLoop base length t.size 0 t

end E820

/-- The table of a PC with 128 MiB. -/
def pcRegions : E820 := .ofList
  [⟨0, 0x9FC00, 1⟩, ⟨0x9FC00, 0x400, 2⟩, ⟨0xF0000, 0x10000, 2⟩, ⟨0x100000, 0x7EE0000, 1⟩]

end Neutrino.Memory
