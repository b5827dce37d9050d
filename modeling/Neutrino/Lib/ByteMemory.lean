import Mathlib.Data.Nat.ModEq
import Mathlib.Data.Set.Basic
import Mathlib.Tactic.Ring

/-!
# Byte-addressed memory

A memory is a total map from addresses to bytes. Multi-byte values are little-endian:

* `load m a n` — the value of the `n` bytes at `a`;
* `store m a n v` — the memory after the low `n` bytes of `v` were written at `a`.

The two laws everything else rests on are `load_store_self` (what was written is read back) and
`load_store_disjoint` (a write elsewhere is not seen). Both follow from the bytewise description
`store_apply`.
-/

namespace Neutrino.Lib

/-- A byte-addressed memory. -/
abbrev ByteMemory := Nat → UInt8

namespace ByteMemory

/-- The little-endian value of the `n` bytes at `a`. -/
def load (m : ByteMemory) (a : Nat) : Nat → Nat
  | 0 => 0
  | n + 1 => (m a).toNat + 256 * load m (a + 1) n

/-- Write the low `n` bytes of `v` at `a`, lowest byte first. -/
def store (m : ByteMemory) (a n v : Nat) : ByteMemory := fun x =>
  if a ≤ x ∧ x < a + n then UInt8.ofNat (v / 256 ^ (x - a)) else m x

theorem store_apply_of_outside {m : ByteMemory} {a n v x : Nat} (h : x < a ∨ a + n ≤ x) :
    store m a n v x = m x := by
  unfold store
  rw [if_neg (by omega)]

theorem store_apply_inside (m : ByteMemory) (a v : Nat) {n i : Nat} (h : i < n) :
    store m a n v (a + i) = UInt8.ofNat (v / 256 ^ i) := by
  unfold store
  rw [if_pos (by omega), Nat.add_sub_cancel_left]

/-- `load` only looks at its own bytes. -/
theorem load_congr {m m' : ByteMemory} {n : Nat} :
    ∀ {a : Nat}, (∀ x, a ≤ x → x < a + n → m x = m' x) → load m a n = load m' a n := by
  induction n with
  | zero => intro a _; rfl
  | succ n ih =>
      intro a h
      rw [load, load, h a (Nat.le_refl a) (by omega)]
      rw [ih (fun x hlo hhi => h x (by omega) (by omega))]

theorem load_lt (m : ByteMemory) (n : Nat) : ∀ a : Nat, load m a n < 256 ^ n := by
  induction n with
  | zero => intro a; simp [load]
  | succ n ih =>
      intro a
      have hbyte : (m a).toNat < 256 := (m a).toNat_lt
      have hrest := ih (a + 1)
      rw [load, Nat.pow_succ]
      omega

/-- Bytes that spell `v` load as `v`, cut to the width. -/
theorem load_of_bytes {m : ByteMemory} {n : Nat} :
    ∀ {a v : Nat}, (∀ i, i < n → m (a + i) = UInt8.ofNat (v / 256 ^ i)) →
      load m a n = v % 256 ^ n := by
  induction n with
  | zero => intro a v _; simp [load, Nat.mod_one]
  | succ n ih =>
      intro a v h
      have hlow : (m a).toNat = v % 256 := by
        have h0 := h 0 (Nat.succ_pos n)
        rw [Nat.add_zero, Nat.pow_zero, Nat.div_one] at h0
        rw [h0, UInt8.toNat_ofNat']
      have hrest : load m (a + 1) n = v / 256 % 256 ^ n := by
        apply ih
        intro i hi
        have hnext := h (i + 1) (by omega)
        rw [Nat.add_assoc, Nat.add_comm 1 i, hnext, Nat.div_div_eq_div_mul, Nat.pow_succ,
          Nat.mul_comm]
      rw [load, hlow, hrest, Nat.pow_succ, Nat.mul_comm (256 ^ n) 256, Nat.mod_mul]

/-- The bytes of what `load` returns are those it has read. -/
theorem byte_of_load (m : ByteMemory) {n : Nat} :
    ∀ {a i : Nat}, i < n → UInt8.ofNat (load m a n / 256 ^ i) = m (a + i) := by
  induction n with
  | zero => exact fun hi => absurd hi (Nat.not_lt_zero _)
  | succ n ih =>
      intro a i hi
      have hbyte : (m a).toNat < 256 := (m a).toNat_lt
      cases i with
      | zero =>
          apply UInt8.toNat.inj
          rw [Nat.pow_zero, Nat.div_one, load, UInt8.toNat_ofNat', Nat.add_mul_mod_self_left,
            Nat.mod_eq_of_lt hbyte, Nat.add_zero]
      | succ i =>
          have hshift : load m a (n + 1) / 256 = load m (a + 1) n := by
            rw [load]
            omega
          rw [Nat.pow_succ', ← Nat.div_div_eq_div_mul, hshift, ih (Nat.lt_of_succ_lt_succ hi),
            Nat.add_assoc, Nat.add_comm 1 i]

/-- The same bytes load as the same value, wherever they are. -/
theorem load_eq_of_bytes {m m' : ByteMemory} {n a a' : Nat}
    (h : ∀ i < n, m (a + i) = m' (a' + i)) : load m a n = load m' a' n := by
  have hbytes : ∀ i < n, m (a + i) = UInt8.ofNat (load m' a' n / 256 ^ i) := fun i hi =>
    (h i hi).trans (byte_of_load m' hi).symm
  rw [load_of_bytes hbytes, Nat.mod_eq_of_lt (load_lt m' n a')]

/-- **A value moved** from `b` to `a`, byte by byte. -/
theorem store_load_apply (m : ByteMemory) (a b n x : Nat) :
    store m a n (load m b n) x = if a ≤ x ∧ x < a + n then m (b + (x - a)) else m x := by
  unfold store
  by_cases h : a ≤ x ∧ x < a + n
  · rw [if_pos h, if_pos h]
    exact byte_of_load m (by omega)
  · rw [if_neg h, if_neg h]

/-- **Read what was written**, cut to the width. -/
theorem load_store_self (m : ByteMemory) (a n v : Nat) :
    load (store m a n v) a n = v % 256 ^ n :=
  load_of_bytes fun _ hi => store_apply_inside m a v hi

/-- **A write elsewhere is not seen.** -/
theorem load_store_disjoint (m : ByteMemory) (v : Nat) {a n b k : Nat}
    (h : a + n ≤ b ∨ b + k ≤ a) : load (store m b k v) a n = load m a n :=
  load_congr fun _ hlo hhi => store_apply_of_outside (by omega)

end ByteMemory

end Neutrino.Lib
