import Neutrino.Lib.ByteMemory

/-!
# Copying and filling memory

`memcpy` and `memcpyw` are one loop, over bytes and over words of two. It goes upwards, so that where
the destination begins inside the source the copy reads what it has written: from there on the bytes
repeat with the distance of the two as their period. That is the same for both, but for words moved by a
single byte, which come in pairs (`copies_spec`). The bytes are *moved* iff the source has that period
already (`memcpy_moves_iff`).

`memset` and `memsetw` are one loop too; `smemset` repeats a value of any size.
-/

namespace Neutrino.Strings

open Neutrino.Lib

/-! ## The code -/

/-- `for(; num != 0; num--) *dp++ = *sp++;` over entries of `width` bytes. -/
def copyLoop (width : Nat) : Nat → Nat → Nat → ByteMemory → ByteMemory
  | _, _, 0, m => m
  | dp, sp, num + 1, m =>
      copyLoop width (dp + width) (sp + width) num (m.store dp width (m.load sp width))

def memcpy (dest src num : Nat) (m : ByteMemory) : Nat × ByteMemory := (dest, copyLoop 1 dest src num m)

def memcpyw (dest src num : Nat) (m : ByteMemory) : Nat × ByteMemory :=
  (dest, copyLoop 2 dest src num m)

/-- `for( ; count != 0; count--) *temp++ = val;` over entries of `width` bytes. -/
def fillLoop (width val : Nat) : Nat → Nat → ByteMemory → ByteMemory
  | _, 0, m => m
  | temp, count + 1, m => fillLoop width val (temp + width) count (m.store temp width val)

def memset (dest : Nat) (val : UInt8) (count : Nat) (m : ByteMemory) : Nat × ByteMemory :=
  (dest, fillLoop 1 val.toNat dest count m)

def memsetw (dest : Nat) (val : UInt16) (count : Nat) (m : ByteMemory) : Nat × ByteMemory :=
  (dest, fillLoop 2 val.toNat dest count m)

/-- The inner loop of `smemset`, from `tempsize` on: `left` entries of `value` are still to come. -/
def valueLoop (value : Nat) : Nat → Nat → Nat → ByteMemory → ByteMemory
  | _, _, 0, m => m
  | temp1, tempsize, left + 1, m =>
      valueLoop value (temp1 + 1) (tempsize + 1) left (m.store temp1 1 (m (value + tempsize)).toNat)

def smemsetLoop (value size : Nat) : Nat → Nat → ByteMemory → ByteMemory
  | _, 0, m => m
  | temp1, count + 1, m =>
      smemsetLoop value size (temp1 + size) count (valueLoop value temp1 0 size m)

def smemset (dest value count size : Nat) (m : ByteMemory) : Nat × ByteMemory :=
  (dest, smemsetLoop value size dest count m)

/-! ## Copying -/

/-- `n` bytes copied upwards, one after the other. -/
def copiedUp (m : ByteMemory) (dest src n : Nat) : ByteMemory := fun x =>
  if dest ≤ x ∧ x < dest + n then
    m (src + if src < dest then (x - dest) % (dest - src) else x - dest)
  else
    m x

/-- `n` bytes moved up by one: the first, and from then on every other byte twice. -/
def copiedPairs (m : ByteMemory) (src n : Nat) : ByteMemory := fun x =>
  if src + 1 ≤ x ∧ x < src + 1 + n then m (src + ((x - src) / 2 * 2 - 1)) else m x

/-- `n` bytes moved, whether or not they overlap with where they go. -/
def movedTo (m : ByteMemory) (dest src n : Nat) : ByteMemory := fun x =>
  if dest ≤ x ∧ x < dest + n then m (src + (x - dest)) else m x

section Copy

variable {m : ByteMemory} {width dest src : Nat}

theorem copiedUp_zero (m : ByteMemory) (dest src : Nat) : copiedUp m dest src 0 = m := by
  funext x
  unfold copiedUp
  rw [if_neg (by omega)]

/-- A residue a step further on. -/
theorem mod_step {i w d : Nat} (hw : w ≤ d) (hi : w ≤ i) :
    i % d = if w + (i - w) % d < d then w + (i - w) % d else w + (i - w) % d - d := by
  have hpos : 0 < d ∨ d = 0 := by omega
  rcases hpos with hpos | rfl
  · have hlt : (i - w) % d < d := Nat.mod_lt _ hpos
    have hsplit : i % d = (w + (i - w) % d) % d := by
      rw [Nat.add_mod_mod, Nat.add_sub_cancel' hi]
    rw [hsplit]
    split
    · next h => exact Nat.mod_eq_of_lt h
    · next h =>
        rw [Nat.mod_eq_sub_mod (by omega)]
        exact Nat.mod_eq_of_lt (by omega)
  · rw [if_neg (by omega), Nat.mod_zero, Nat.mod_zero]
    omega

/-- **One entry**, and then the rest. -/
theorem copiedUp_step (m : ByteMemory) {width dest src : Nat} (n : Nat)
    (hgap : dest ≤ src ∨ src + width ≤ dest) :
    copiedUp (m.store dest width (m.load src width)) (dest + width) (src + width) n =
      copiedUp m dest src (width + n) := by
  funext x
  unfold copiedUp
  by_cases hin : dest + width ≤ x ∧ x < dest + width + n
  · rw [if_pos hin, if_pos (show dest ≤ x ∧ x < dest + (width + n) by omega),
      ByteMemory.store_load_apply]
    by_cases hlt : src < dest
    · rw [if_pos (show src + width < dest + width by omega), if_pos hlt,
        mod_step (w := width) (i := x - dest) (d := dest - src) (by omega) (by omega),
        show dest + width - (src + width) = dest - src by omega,
        show x - (dest + width) = x - dest - width by omega]
      -- the byte read lies in front of the destination, or in the entry just written
      have hres : (x - dest - width) % (dest - src) < dest - src := Nat.mod_lt _ (by omega)
      generalize (x - dest - width) % (dest - src) = r at hres ⊢
      by_cases hr : width + r < dest - src
      · rw [if_pos hr, if_neg (by omega)]
        congr 1
        omega
      · rw [if_neg hr, if_pos (by omega)]
        congr 1
        omega
    · rw [if_neg (show ¬ src + width < dest + width by omega), if_neg hlt, if_neg (by omega)]
      congr 1
      omega
  · rw [if_neg hin, ByteMemory.store_load_apply]
    by_cases hfirst : dest ≤ x ∧ x < dest + width
    · rw [if_pos hfirst, if_pos (show dest ≤ x ∧ x < dest + (width + n) by omega)]
      split
      · next hlt =>
          rw [Nat.mod_eq_of_lt (by omega)]
      · rfl
    · rw [if_neg hfirst, if_neg (by omega)]

/-- **The loop**, for entries that do not reach from the source into the destination at once. -/
theorem copyLoop_eq (num : Nat) :
    ∀ {dest src : Nat} {m : ByteMemory}, dest ≤ src ∨ src + width ≤ dest →
      copyLoop width dest src num m = copiedUp m dest src (width * num) := by
  induction num with
  | zero =>
      intro dest src m _
      rw [Nat.mul_zero, copiedUp_zero]
      rfl
  | succ num ih =>
      intro dest src m hgap
      rw [copyLoop, ih (by omega), copiedUp_step m _ hgap, Nat.mul_succ, Nat.add_comm (width * num)]

/-- One word moved up by one, and then the rest. -/
theorem copiedPairs_step (m : ByteMemory) (src n : Nat) :
    copiedPairs (m.store (src + 1) 2 (m.load src 2)) (src + 2) n = copiedPairs m src (2 + n) := by
  funext x
  unfold copiedPairs
  by_cases hin : src + 2 + 1 ≤ x ∧ x < src + 2 + 1 + n
  · rw [if_pos hin, if_pos (show src + 1 ≤ x ∧ x < src + 1 + (2 + n) by omega),
      ByteMemory.store_load_apply]
    -- the second byte of the word is read again, and nothing else that was written
    by_cases hfirst : x = src + 2 + 1
    · rw [if_pos (by omega)]
      congr 1
      omega
    · rw [if_neg (by omega)]
      congr 1
      omega
  · rw [if_neg hin, ByteMemory.store_load_apply]
    by_cases hfirst : src + 1 ≤ x ∧ x < src + 1 + 2
    · rw [if_pos hfirst, if_pos (show src + 1 ≤ x ∧ x < src + 1 + (2 + n) by omega)]
      congr 1
      omega
    · rw [if_neg hfirst, if_neg (by omega)]

/-- **The loop over words moved up by one.** -/
theorem copyLoop_pairs (num : Nat) :
    ∀ {src : Nat} {m : ByteMemory}, copyLoop 2 (src + 1) src num m = copiedPairs m src (2 * num) := by
  induction num with
  | zero =>
      intro src m
      funext x
      exact (if_neg (by omega)).symm
  | succ num ih =>
      intro src m
      rw [copyLoop, show src + 1 + 2 = src + 2 + 1 by omega, ih, copiedPairs_step, Nat.mul_succ,
        Nat.add_comm (2 * num)]

theorem memcpy_eq (dest src num : Nat) (m : ByteMemory) :
    memcpy dest src num m = (dest, copiedUp m dest src num) := by
  unfold memcpy
  rw [copyLoop_eq num (by omega), Nat.one_mul]

/-- The bytes are moved iff those of the source repeat with the distance as their period. -/
theorem copiedUp_eq_movedTo_iff (m : ByteMemory) (dest src n : Nat) :
    copiedUp m dest src n = movedTo m dest src n ↔
      (src < dest → ∀ i, i + (dest - src) < n → m (src + i) = m (src + i + (dest - src))) := by
  by_cases hlt : src < dest
  · have hpos : 0 < dest - src := by omega
    have hval : copiedUp m dest src n = movedTo m dest src n ↔
        ∀ i, i < n → m (src + i % (dest - src)) = m (src + i) := by
      constructor
      · intro h i hi
        have hin : dest ≤ dest + i ∧ dest + i < dest + n := by omega
        have hx := congrFun h (dest + i)
        unfold copiedUp movedTo at hx
        rwa [if_pos hin, if_pos hin, if_pos hlt, Nat.add_sub_cancel_left] at hx
      · intro h
        funext x
        unfold copiedUp movedTo
        by_cases hx : dest ≤ x ∧ x < dest + n
        · rw [if_pos hx, if_pos hx, if_pos hlt]
          exact h (x - dest) (by omega)
        · rw [if_neg hx, if_neg hx]
    rw [hval]
    constructor
    · intro h _ i hi
      rw [← h i (by omega), Nat.add_assoc, ← h (i + (dest - src)) hi, Nat.add_mod_right]
    · intro h i
      -- one period after the other
      induction i using Nat.strongRecOn with
      | ind i ih =>
          intro hi
          by_cases hsmall : i < dest - src
          · rw [Nat.mod_eq_of_lt hsmall]
          · have hprev := ih (i - (dest - src)) (by omega) (by omega)
            have hstep := h hlt (i - (dest - src)) (by omega)
            rw [← Nat.mod_eq_sub_mod (by omega)] at hprev
            rw [hprev, hstep]
            congr 1
            omega
  · refine iff_of_true ?_ fun h => absurd h hlt
    funext x
    unfold copiedUp movedTo
    rw [if_neg hlt]

end Copy

/-- **Words are copied like bytes**, wherever the two areas lie, but for a destination one byte up. There
every byte at an odd distance from the source is copied twice, and those at an even one are lost. -/
theorem copies_spec (dest src num : Nat) (m : ByteMemory) :
    memcpy dest src num m = (dest, copiedUp m dest src num) ∧
      memcpyw dest src num m = (dest,
        if dest = src + 1 then copiedPairs m src (2 * num) else copiedUp m dest src (2 * num)) := by
  refine ⟨memcpy_eq dest src num m, ?_⟩
  unfold memcpyw
  by_cases hnext : dest = src + 1
  · rw [if_pos hnext, hnext, copyLoop_pairs]
  · rw [if_neg hnext, copyLoop_eq num (by omega)]

/-- **`memcpy` moves what it copies** iff the destination is not inside the source, or the source
repeats with the distance of the two as its period. -/
theorem memcpy_moves_iff (dest src num : Nat) (m : ByteMemory) :
    memcpy dest src num m = (dest, movedTo m dest src num) ↔
      (src < dest → ∀ i, i + (dest - src) < num → m (src + i) = m (src + i + (dest - src))) := by
  rw [memcpy_eq, Prod.mk.injEq, and_iff_right rfl]
  exact copiedUp_eq_movedTo_iff m dest src num

/-! ## Filling -/

/-- `n` bytes written. -/
def placed (m : ByteMemory) (dest n : Nat) (bytes : Nat → UInt8) : ByteMemory := fun x =>
  if dest ≤ x ∧ x < dest + n then bytes (x - dest) else m x

/-- `n` bytes, in which those of `pattern` come again and again. -/
def filledWith (m : ByteMemory) (dest n size : Nat) (pattern : Nat → UInt8) : ByteMemory := fun x =>
  if dest ≤ x ∧ x < dest + n then pattern ((x - dest) % size) else m x

section Fill

variable {m : ByteMemory} {dest size : Nat} {pattern : Nat → UInt8}

/-- Once, and then the other times. -/
theorem filledWith_step (m : ByteMemory) (dest n size : Nat) (pattern : Nat → UInt8) :
    filledWith (placed m dest size pattern) (dest + size) n size pattern =
      filledWith m dest (size + n) size pattern := by
  funext x
  unfold filledWith placed
  by_cases hrest : dest + size ≤ x ∧ x < dest + size + n
  · have hmod : (x - dest) % size = (x - (dest + size)) % size := by
      rw [Nat.mod_eq_sub_mod (by omega), Nat.sub_sub]
    rw [if_pos hrest, if_pos (show dest ≤ x ∧ x < dest + (size + n) by omega), hmod]
  · rw [if_neg hrest]
    by_cases hfirst : dest ≤ x ∧ x < dest + size
    · rw [if_pos hfirst, if_pos (show dest ≤ x ∧ x < dest + (size + n) by omega),
        Nat.mod_eq_of_lt (by omega)]
    · rw [if_neg hfirst, if_neg (by omega)]

theorem filledWith_zero (m : ByteMemory) (dest size : Nat) (pattern : Nat → UInt8) :
    filledWith m dest 0 size pattern = m := by
  funext x
  unfold filledWith
  rw [if_neg (by omega)]

theorem filledWith_congr {pattern' : Nat → UInt8} {count : Nat}
    (h : ∀ i, i < size → pattern i = pattern' i) :
    filledWith m dest (size * count) size pattern =
      filledWith m dest (size * count) size pattern' := by
  funext x
  unfold filledWith
  split
  · next hin =>
      apply h
      apply Nat.mod_lt
      rcases Nat.eq_zero_or_pos size with rfl | hpos
      · rw [Nat.zero_mul] at hin
        omega
      · exact hpos
  · rfl

/-- The bytes of a value, lowest first. -/
def byteOf (val i : Nat) : UInt8 := UInt8.ofNat (val / 256 ^ i)

theorem fillLoop_eq (width val count : Nat) :
    ∀ {temp : Nat} {m : ByteMemory},
      fillLoop width val temp count m = filledWith m temp (width * count) width (byteOf val) := by
  induction count with
  | zero => exact fun {temp m} => (filledWith_zero m temp width (byteOf val)).symm
  | succ count ih =>
      intro temp m
      rw [fillLoop, ih, Nat.mul_succ, Nat.add_comm (width * count), ← filledWith_step]
      rfl

theorem memset_eq (dest : Nat) (val : UInt8) (count : Nat) (m : ByteMemory) :
    memset dest val count m = (dest, filledWith m dest count 1 fun _ => val) := by
  unfold memset
  rw [fillLoop_eq, Nat.one_mul]
  congr 1
  funext x
  unfold filledWith byteOf
  rw [Nat.mod_one, Nat.pow_zero, Nat.div_one, UInt8.ofNat_toNat]

theorem valueLoop_eq (value left : Nat) :
    ∀ {temp1 tempsize : Nat} {m : ByteMemory},
      valueLoop value temp1 tempsize left m = copyLoop 1 temp1 (value + tempsize) left m := by
  induction left with
  | zero => exact rfl
  | succ left ih =>
      intro temp1 tempsize m
      have hbyte : m.load (value + tempsize) 1 = (m (value + tempsize)).toNat := by
        rw [ByteMemory.load, ByteMemory.load, Nat.mul_zero, Nat.add_zero]
      rw [valueLoop, copyLoop, ih, hbyte, Nat.add_assoc]

/-- One value written. -/
theorem valueLoop_once {value temp1 : Nat} (hgap : value + size ≤ temp1 ∨ temp1 ≤ value) :
    valueLoop value temp1 0 size m = placed m temp1 size fun i => m (value + i) := by
  rw [valueLoop_eq, Nat.add_zero, copyLoop_eq size (by omega), Nat.one_mul]
  funext x
  unfold copiedUp placed
  by_cases hin : temp1 ≤ x ∧ x < temp1 + size
  · rw [if_pos hin, if_pos hin]
    split
    · rw [Nat.mod_eq_of_lt (by omega)]
    · rfl
  · rw [if_neg hin, if_neg hin]

/-- The value lies apart from what is filled, or is the first of it. -/
theorem smemsetLoop_eq (value size count : Nat) :
    ∀ {temp1 : Nat} {m : ByteMemory},
      value + size ≤ temp1 ∨ temp1 + size * count ≤ value ∨ value = temp1 →
      smemsetLoop value size temp1 count m =
        filledWith m temp1 (size * count) size fun i => m (value + i) := by
  induction count with
  | zero => exact fun {temp1 m} _ => (filledWith_zero m temp1 size _).symm
  | succ count ih =>
      intro temp1 m hgap
      rw [Nat.mul_succ] at hgap
      rw [smemsetLoop, ih (by omega), valueLoop_once (by omega), Nat.mul_succ,
        Nat.add_comm (size * count), ← filledWith_step]
      apply filledWith_congr
      intro i hi
      -- a value in front of the area has not been written to, one at its start is what it was
      unfold placed
      split
      · congr 1
        omega
      · rfl

end Fill

/-- **A value repeated**: `smemset` with a value of one byte or of two does what `memset` and `memsetw`
do with that value, as long as it is not overwritten half way. -/
theorem smemset_spec (dest value count size : Nat) (m : ByteMemory)
    (hgap : value + size ≤ dest ∨ dest + size * count ≤ value ∨ value = dest) :
    smemset dest value count size m =
        (dest, filledWith m dest (size * count) size fun i => m (value + i)) ∧
      (size = 1 → smemset dest value count size m = memset dest (m value) count m) ∧
      (size = 2 → smemset dest value count size m =
        memsetw dest (UInt16.ofNat (m.load value 2)) count m) := by
  have hrun : smemset dest value count size m =
      (dest, filledWith m dest (size * count) size fun i => m (value + i)) := by
    unfold smemset
    rw [smemsetLoop_eq value size count hgap]
  refine ⟨hrun, ?_, ?_⟩
  · rintro rfl
    rw [hrun]
    unfold memset
    rw [fillLoop_eq]
    congr 1
    apply filledWith_congr
    intro i hi
    rw [Nat.lt_one_iff.mp hi, byteOf, Nat.pow_zero, Nat.div_one, UInt8.ofNat_toNat]
    rfl
  · rintro rfl
    rw [hrun]
    unfold memsetw
    rw [fillLoop_eq]
    congr 1
    apply filledWith_congr
    intro i hi
    have hval : (UInt16.ofNat (m.load value 2)).toNat = m.load value 2 := by
      rw [UInt16.toNat_ofNat']
      exact Nat.mod_eq_of_lt (ByteMemory.load_lt m 2 value)
    rw [hval]
    exact (ByteMemory.byte_of_load m hi).symm

/-- Two bytes at 8, repeated from 16 on. -/
theorem pair_repeated :
    smemset 16 8 3 2 (fun x => UInt8.ofNat x) =
        (16, filledWith (fun x => UInt8.ofNat x) 16 (2 * 3) 2 fun i => UInt8.ofNat (8 + i)) ∧
      ((2 : Nat) = 1 → smemset 16 8 3 2 (fun x => UInt8.ofNat x) =
        memset 16 (UInt8.ofNat 8) 3 fun x => UInt8.ofNat x) ∧
      ((2 : Nat) = 2 → smemset 16 8 3 2 (fun x => UInt8.ofNat x) =
        memsetw 16 (UInt16.ofNat (ByteMemory.load (fun x => UInt8.ofNat x) 8 2)) 3
          fun x => UInt8.ofNat x) :=
  smemset_spec 16 8 3 2 _ (.inl (by decide))

end Neutrino.Strings
