import Mathlib.Algebra.Group.Nat.Defs

/-!
# A stack in a 32-bit address space

Memory maps 32-bit addresses to bytes, and addresses wrap around. A stack grows downwards:
`Stack m a ws` says that the words from `a` upwards are `ws`. It holds for every `a`, aligned or not,
and across the end of the address space. Pushing a word below `a` is `Stack.push`, which needs the
stack to be shorter than the address space; reading the top is `Stack.top` and dropping it
`Stack.pop`.
-/

namespace Neutrino.Lib

/-- Bytes at 32-bit addresses. -/
abbrev Memory32 := UInt32 → UInt8

namespace Memory32

/-- The little-endian word at `a`. -/
def load (m : Memory32) (a : UInt32) : UInt32 :=
  UInt32.ofNat ((m a).toNat + 256 * (m (a + 1)).toNat + 65536 * (m (a + 2)).toNat +
    16777216 * (m (a + 3)).toNat)

def store (m : Memory32) (a v : UInt32) : Memory32 := fun x =>
  if (x - a).toNat < 4 then UInt8.ofNat (v.toNat / 256 ^ (x - a).toNat) else m x

theorem store_apply_inside (m : Memory32) (a v : UInt32) {i : UInt32} (h : i.toNat < 4) :
    store m a v (a + i) = UInt8.ofNat (v.toNat / 256 ^ i.toNat) := by
  have hi : a + i - a = i := by
    rw [UInt32.add_comm, UInt32.add_sub_cancel]
  unfold store
  rw [hi, if_pos h]

theorem load_store_self (m : Memory32) (a v : UInt32) : load (store m a v) a = v := by
  have h0 := store_apply_inside m a v (i := 0) (by decide)
  have h1 := store_apply_inside m a v (i := 1) (by decide)
  have h2 := store_apply_inside m a v (i := 2) (by decide)
  have h3 := store_apply_inside m a v (i := 3) (by decide)
  rw [UInt32.add_zero] at h0
  unfold load
  rw [h0, h1, h2, h3]
  apply UInt32.toNat.inj
  have hv := v.toNat_lt
  simp only [UInt8.toNat_ofNat', UInt32.toNat_ofNat']
  have e0 : (0 : UInt32).toNat = 0 := rfl
  have e1 : (1 : UInt32).toNat = 1 := rfl
  have e2 : (2 : UInt32).toNat = 2 := rfl
  have e3 : (3 : UInt32).toNat = 3 := rfl
  rw [e0, e1, e2, e3]
  omega

/-- Words at least four bytes apart, both ways round the address space. -/
def Apart (a b : UInt32) : Prop := 4 ≤ (a - b).toNat ∧ 4 ≤ (b - a).toNat

theorem load_store_of_apart (m : Memory32) (v : UInt32) {a b : UInt32} (h : Apart a b) :
    load (store m a v) b = load m b := by
  have hbyte : ∀ i : UInt32, i.toNat < 4 → store m a v (b + i) = m (b + i) := by
    intro i hi
    unfold store
    rw [if_neg]
    obtain ⟨hab, hba⟩ := h
    rw [UInt32.toNat_sub] at hab hba ⊢
    rw [UInt32.toNat_add]
    have ha := a.toNat_lt
    have hb := b.toNat_lt
    omega
  have h0 := hbyte 0 (by decide)
  rw [UInt32.add_zero] at h0
  unfold load
  rw [h0, hbyte 1 (by decide), hbyte 2 (by decide), hbyte 3 (by decide)]

end Memory32

/-! ## Stacks -/

/-- The words from `a` upwards are `ws`. -/
def Stack (m : Memory32) : UInt32 → List UInt32 → Prop
  | _, [] => True
  | a, w :: ws => m.load a = w ∧ Stack m (a + 4) ws

namespace Stack

variable {m m' : Memory32} {a : UInt32} {w : UInt32} {ws us : List UInt32}

theorem top (h : Stack m a (w :: ws)) : m.load a = w := h.1

theorem pop (h : Stack m a (w :: ws)) : Stack m (a + 4) ws := h.2

/-- A stack is a matter of the words it spans. -/
theorem congr (h : Stack m a ws)
    (hsame : ∀ i, i < ws.length → m'.load (a + 4 * UInt32.ofNat i) = m.load (a + 4 * UInt32.ofNat i)) :
    Stack m' a ws := by
  induction ws generalizing a with
  | nil => trivial
  | cons w ws ih =>
      have hfirst := hsame 0 (Nat.zero_lt_succ _)
      rw [show a + 4 * UInt32.ofNat 0 = a by simp] at hfirst
      refine ⟨hfirst.trans h.1, ih h.2 fun i hi => ?_⟩
      have hnext := hsame (i + 1) (Nat.succ_lt_succ hi)
      rwa [show a + 4 * UInt32.ofNat (i + 1) = a + 4 + 4 * UInt32.ofNat i by
        rw [UInt32.ofNat_add]
        grind] at hnext

/-- **A push**: the word goes below the others, which stay. -/
theorem push (h : Stack m a ws) (v : UInt32) (hlen : 4 * ws.length + 4 ≤ 2 ^ 32) :
    Stack (m.store (a - 4) v) (a - 4) (v :: ws) := by
  refine ⟨Memory32.load_store_self m (a - 4) v, ?_⟩
  rw [UInt32.sub_add_cancel]
  apply h.congr
  intro i hi
  apply Memory32.load_store_of_apart
  have habove : a + 4 * UInt32.ofNat i - (a - 4) = UInt32.ofNat (4 * i + 4) := by
    rw [UInt32.ofNat_add, UInt32.ofNat_mul]
    grind
  have hbelow : a - 4 - (a + 4 * UInt32.ofNat i) = 0 - UInt32.ofNat (4 * i + 4) := by
    rw [UInt32.ofNat_add, UInt32.ofNat_mul]
    grind
  unfold Memory32.Apart
  rw [habove, hbelow, UInt32.toNat_sub, UInt32.toNat_ofNat', UInt32.toNat_zero]
  omega

/-- The word at an index. -/
theorem get (h : Stack m a ws) {i : Nat} (hi : ws[i]? = some w) :
    m.load (a + 4 * UInt32.ofNat i) = w := by
  induction ws generalizing a i with
  | nil => cases hi
  | cons u us ih =>
      cases i with
      | zero =>
          cases hi
          rw [show a + 4 * UInt32.ofNat 0 = a by simp]
          exact h.1
      | succ i =>
          rw [show a + 4 * UInt32.ofNat (i + 1) = a + 4 + 4 * UInt32.ofNat i by
            rw [UInt32.ofNat_add]
            grind]
          exact ih h.2 hi

end Stack

end Neutrino.Lib
