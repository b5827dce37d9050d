import Neutrino.Memory.E820
import Mathlib.Tactic.Set

/-!
# `_reserve_area` on lists

`_reserve_area` edits its table in place, with an index here and a pointer there. `reserveList` is the
same edit on the list of the descriptors in use, and `descs_reserveArea` says that it is the same.
The two moves the edit is made of, `_shift_map` and `_remove_index`, undo each other
(`shiftMap_removeIndex`).

Two things about the code show only at this level. The loop that removes the entries the new region
overlaps looks at the entry behind it even if there is none, and its bound lets it remove one entry
too many: when it has removed all entries behind the new region, it goes on to drop the new region
itself.
-/

namespace Neutrino.Memory

namespace E820

/-! ## Tables and lists -/

/-- The table `t` has the entries `ds`. -/
def Holds (t : E820) (ds : List Desc) : Prop :=
  t.size = ds.length ∧ ∀ i d, ds[i]? = some d → t.map i = d

theorem holds_descs (t : E820) : Holds t t.descs := by
  refine ⟨by simp [descs], fun i d hd => ?_⟩
  rw [descs, List.getElem?_map] at hd
  obtain ⟨j, hj, rfl⟩ := Option.map_eq_some_iff.mp hd
  rw [List.getElem?_eq_some_iff] at hj
  obtain ⟨hlt, rfl⟩ := hj
  rw [List.getElem_range]

theorem Holds.descs_eq {t : E820} {ds : List Desc} (h : Holds t ds) : t.descs = ds := by
  obtain ⟨hsize, hmap⟩ := h
  apply List.ext_getElem
  · simp [descs, hsize]
  · intro i hi hi'
    simp only [descs, List.getElem_map, List.getElem_range]
    exact hmap i _ (List.getElem?_eq_getElem hi')

section Edits

variable {t : E820} {as bs : List Desc} {c d e : Desc}

theorem Holds.map_append (h : Holds t (as ++ d :: bs)) : t.map as.length = d :=
  h.2 _ _ (by simp)

theorem write_map_of_ne {i j : Nat} (h : j ≠ i) : (t.write i e).map j = t.map j :=
  Function.update_of_ne h _ _

/-- Overwriting an entry. -/
theorem Holds.write (h : Holds t (as ++ d :: bs)) : Holds (t.write as.length e) (as ++ e :: bs) := by
  obtain ⟨hsize, hmap⟩ := h
  refine ⟨by simpa [E820.write] using hsize, fun i f hf => ?_⟩
  by_cases hi : i = as.length
  · subst hi
    simp only [List.getElem?_append_right (Nat.le_refl _),
      Nat.sub_self, List.getElem?_cons_zero, Option.some.injEq] at hf
    simp [E820.write, hf]
  · have hold : (as ++ d :: bs)[i]? = some f := by
      rw [← hf]
      simp only [List.getElem?_append]
      split
      · rfl
      · rw [List.getElem?_cons, List.getElem?_cons, if_neg (by omega), if_neg (by omega)]
    simp only [E820.write, Function.update_of_ne hi]
    exact hmap i f hold

/-- Writing past the end. -/
theorem Holds.write_past {j : Nat} (h : Holds t as) (hj : as.length ≤ j) : Holds (t.write j e) as := by
  obtain ⟨hsize, hmap⟩ := h
  refine ⟨hsize, fun i f hf => ?_⟩
  have hi : i < as.length := (List.getElem?_eq_some_iff.mp hf).1
  simp only [E820.write, Function.update_of_ne (show i ≠ j by omega)]
  exact hmap i f hf

/-- What the loop of `_shift_map` leaves in each cell. -/
theorem shiftLoop_apply (index : Nat) : ∀ (n : Nat) (m : Nat → Desc) (k : Nat),
    shiftLoop index n m k = if index < k ∧ k ≤ n then m (k - 1) else m k := by
  intro n
  induction n with
  | zero =>
      intro m k
      rw [shiftLoop, if_neg (by omega)]
  | succ n ih =>
      intro m k
      rw [shiftLoop]
      by_cases hn : n + 1 > index
      · rw [if_pos hn, ih]
        by_cases hin : index < k ∧ k ≤ n
        · rw [if_pos hin, if_pos (by omega), Function.update_of_ne (by omega)]
        · rw [if_neg hin]
          by_cases hk : k = n + 1
          · subst hk
            rw [if_pos (by omega), Function.update_self, Nat.add_sub_cancel]
          · rw [if_neg (by omega), Function.update_of_ne hk]
      · rw [if_neg hn, if_neg (by omega)]

theorem shiftMap_map (index j : Nat) :
    (shiftMap t index).map j = if index < j ∧ j ≤ t.size then t.map (j - 1) else t.map j :=
  shiftLoop_apply index t.size t.map j

/-- **Insertion**: `_shift_map` and a write into the cell it made room in. -/
theorem Holds.insert (h : Holds t (as ++ bs)) (hroom : t.size + 1 < 2 ^ 32) :
    Holds ((shiftMap t as.length).write as.length e) (as ++ e :: bs) := by
  obtain ⟨hsize, hmap⟩ := h
  rw [List.length_append] at hsize
  refine ⟨?_, fun i f hf => ?_⟩
  · simp only [E820.write, shiftMap, Nat.mod_eq_of_lt hroom, List.length_append, List.length_cons]
    omega
  · have hi : i < (as ++ e :: bs).length := (List.getElem?_eq_some_iff.mp hf).1
    rw [List.length_append, List.length_cons] at hi
    rcases Nat.lt_trichotomy i as.length with hlt | rfl | hgt
    · rw [write_map_of_ne (by omega), shiftMap_map, if_neg (by omega)]
      rw [List.getElem?_append_left hlt] at hf
      exact hmap i f (by rw [List.getElem?_append_left hlt, hf])
    · simp only [List.getElem?_append_right (Nat.le_refl _), Nat.sub_self,
        List.getElem?_cons_zero, Option.some.injEq] at hf
      simp [E820.write, hf]
    · rw [write_map_of_ne (by omega), shiftMap_map, if_pos (by omega)]
      apply hmap
      rw [List.getElem?_append_right (by omega), List.getElem?_cons, if_neg (by omega)] at hf
      rw [List.getElem?_append_right (by omega), ← hf]
      congr 1
      omega

theorem shiftMap_map_past {j : Nat} (hj : t.size < j) (index : Nat) :
    (shiftMap t index).map j = t.map j := by
  rw [shiftMap_map, if_neg (by omega)]

/-- What the loop of `_remove_index` leaves in each cell. -/
theorem removeLoop_apply : ∀ (n i : Nat) (m : Nat → Desc) (k : Nat),
    removeLoop n i m k = if i ≤ k ∧ k < i + n then m (k + 1) else m k := by
  intro n
  induction n with
  | zero =>
      intro i m k
      rw [removeLoop, if_neg (by omega)]
  | succ n ih =>
      intro i m k
      rw [removeLoop, ih]
      by_cases hk : k = i
      · subst hk
        rw [if_neg (by omega), if_pos (by omega), Function.update_self]
      · rw [Function.update_of_ne hk, Function.update_apply]
        by_cases hin : i + 1 ≤ k ∧ k < i + 1 + n
        · rw [if_pos hin, if_neg (by omega), if_pos (by omega)]
        · rw [if_neg hin, if_neg (by omega)]

theorem removeIndex_size (hpos : 0 < t.size) (hsize : t.size < 2 ^ 32) (index : Nat) :
    (removeIndex t index).size = t.size - 1 := by
  show (t.size + 2 ^ 32 - 1) % 2 ^ 32 = t.size - 1
  omega

theorem removeIndex_map (hpos : 0 < t.size) (hsize : t.size < 2 ^ 32) (index j : Nat) :
    (removeIndex t index).map j =
      if index ≤ j ∧ j + 1 < t.size then t.map (j + 1) else t.map j := by
  have hlast : (t.size + 2 ^ 32 - 1) % 2 ^ 32 = t.size - 1 := by omega
  show removeLoop ((t.size + 2 ^ 32 - 1) % 2 ^ 32 - index) index t.map j = _
  rw [hlast, removeLoop_apply]
  by_cases hin : index ≤ j ∧ j + 1 < t.size
  · rw [if_pos hin, if_pos (by omega)]
  · rw [if_neg hin, if_neg (by omega)]

/-- **Removal** of an entry. -/
theorem Holds.remove (h : Holds t (as ++ d :: bs)) (hsize : t.size < 2 ^ 32) :
    Holds (removeIndex t as.length) (as ++ bs) := by
  obtain ⟨hlen, hmap⟩ := h
  rw [List.length_append, List.length_cons] at hlen
  refine ⟨?_, fun i f hf => ?_⟩
  · rw [removeIndex_size (by omega) hsize, List.length_append]
    omega
  · have hi : i < (as ++ bs).length := (List.getElem?_eq_some_iff.mp hf).1
    rw [List.length_append] at hi
    rw [removeIndex_map (by omega) hsize]
    by_cases hlt : i < as.length
    · rw [if_neg (by omega)]
      rw [List.getElem?_append_left hlt] at hf
      exact hmap i f (by rw [List.getElem?_append_left hlt, hf])
    · rw [if_pos (by omega)]
      apply hmap
      rw [List.getElem?_append_right (by omega)] at hf
      rw [List.getElem?_append_right (by omega), List.getElem?_cons, if_neg (by omega), ← hf]
      congr 1
      omega

/-- Removing the entry past the end drops the last one. -/
theorem Holds.remove_past (h : Holds t (as ++ [d])) (hsize : t.size < 2 ^ 32) :
    Holds (removeIndex t (as.length + 1)) as := by
  obtain ⟨hlen, hmap⟩ := h
  rw [List.length_append, List.length_singleton] at hlen
  refine ⟨?_, fun i f hf => ?_⟩
  · rw [removeIndex_size (by omega) hsize]
    omega
  have hi : i < as.length := (List.getElem?_eq_some_iff.mp hf).1
  rw [removeIndex_map (by omega) hsize, if_neg (by omega)]
  exact hmap i f (by rw [List.getElem?_append_left hi, hf])

/-- The cell behind the last entry keeps an entry that is removed there. -/
theorem Holds.removed_past (h : Holds t (as ++ [d])) (hsize : t.size < 2 ^ 32) :
    (removeIndex t as.length).map as.length = d := by
  have hlen := h.1
  rw [List.length_append, List.length_singleton] at hlen
  rw [removeIndex_map (by omega) hsize, if_neg (by omega)]
  exact h.map_append

/-- Overwriting an entry and inserting another behind it; the cell two behind the last keeps what it
held. -/
theorem Holds.write_insert (h : Holds t (as ++ d :: bs)) (hroom : t.size + 1 < 2 ^ 32) :
    Holds ((shiftMap (t.write as.length c) (as.length + 1)).write (as.length + 1) e)
      ((as ++ [c]) ++ e :: bs) ∧
    ((shiftMap (t.write as.length c) (as.length + 1)).write (as.length + 1) e).map (t.size + 1) =
      t.map (t.size + 1) := by
  have hlen := h.1
  rw [List.length_append, List.length_cons] at hlen
  have hwrite : Holds (t.write as.length c) ((as ++ [c]) ++ bs) := by
    simpa using h.write
  have hinsert := @Holds.insert _ _ _ e hwrite hroom
  rw [List.length_append, List.length_singleton] at hinsert
  refine ⟨hinsert, ?_⟩
  have hlt : (t.write as.length c).size < t.size + 1 := Nat.lt_succ_self t.size
  rw [write_map_of_ne (by omega), shiftMap_map_past hlt, write_map_of_ne (by omega)]

end Edits

/-! ## Making room and closing the gap -/

section RoundTrip

variable {t : E820} {k : Nat}

/-- `t'` is `t` with room for one more entry, at `k`. -/
structure MakesRoom (k : Nat) (t t' : E820) : Prop where
  size : t'.size = t.size + 1
  before : ∀ i < k, t'.map i = t.map i
  moved : ∀ i, k ≤ i → i < t.size → t'.map (i + 1) = t.map i
  beyond : ∀ i, t.size < i → t'.map i = t.map i

/-- `t'` has the entries of `t`. -/
structure SameEntries (t t' : E820) : Prop where
  size : t'.size = t.size
  entries : ∀ i < t.size, t'.map i = t.map i

theorem shiftMap_makesRoom (hroom : t.size + 1 < 2 ^ 32) : MakesRoom k t (shiftMap t k) where
  size := Nat.mod_eq_of_lt hroom
  before := by
    intro i hi
    rw [shiftMap_map, if_neg (by omega)]
  moved := by
    intro i hk hi
    rw [shiftMap_map, if_pos (by omega), Nat.add_sub_cancel]
  beyond := fun _ hi => shiftMap_map_past hi k

/-- What is in the cells beyond the table makes no difference. -/
theorem shiftMap_congr {u : E820} (h : SameEntries t u) (hend : u.map t.size = t.map t.size) {i : Nat}
    (hi : i ≤ t.size) : (shiftMap u k).map i = (shiftMap t k).map i := by
  have hsame : ∀ j ≤ t.size, u.map j = t.map j := by
    intro j hj
    rcases Nat.lt_or_eq_of_le hj with hlt | rfl
    · exact h.entries j hlt
    · exact hend
  rw [shiftMap_map, shiftMap_map, h.size, hsame i hi, hsame (i - 1) (by omega)]

/-- `_remove_index` closes the gap again. -/
theorem MakesRoom.removeIndex {t' : E820} (h : MakesRoom k t t') (hroom : t.size + 1 < 2 ^ 32) :
    SameEntries t (removeIndex t' k) := by
  have hsize := h.size
  refine ⟨?_, fun i hi => ?_⟩
  · rw [removeIndex_size (by omega) (by omega)]
    omega
  · rw [removeIndex_map (by omega) (by omega)]
    by_cases hlt : i < k
    · rw [if_neg (by omega), h.before i hlt]
    · rw [if_pos (by omega), h.moved i (by omega) hi]

/-- **`_shift_map` makes room for an entry, and `_remove_index` takes it back.** The loops compare
their counters with the `int` index after converting it. -/
theorem shiftMap_removeIndex (t : E820) (index : Int32) (hroom : t.size + 1 < 2 ^ 32) :
    MakesRoom index.toUInt32.toNat t (shiftMap t index.toUInt32.toNat) ∧
    (∀ u, SameEntries t u → u.map t.size = t.map t.size → ∀ i ≤ t.size,
      (shiftMap u index.toUInt32.toNat).map i = (shiftMap t index.toUInt32.toNat).map i) ∧
    SameEntries t (removeIndex (shiftMap t index.toUInt32.toNat) index.toUInt32.toNat) := by
  have hopened : MakesRoom index.toUInt32.toNat t _ := shiftMap_makesRoom hroom
  exact ⟨hopened, fun u hu hend i hi => shiftMap_congr hu hend hi, hopened.removeIndex hroom⟩

/-- Entry 1 of the four. -/
theorem shiftMap_removeIndex_pcRegions :
    MakesRoom 1 pcRegions (shiftMap pcRegions 1) ∧
    (∀ u, SameEntries pcRegions u → u.map 4 = pcRegions.map 4 → ∀ i ≤ 4,
      (shiftMap u 1).map i = (shiftMap pcRegions 1).map i) ∧
    SameEntries pcRegions (removeIndex (shiftMap pcRegions 1) 1) :=
  shiftMap_removeIndex pcRegions 1 (by decide)

end RoundTrip

end E820

/-! ## The edit on lists -/

/-- `BaseAddr.Value + Length.Value` -/
def Desc.stop (d : Desc) : UInt64 := d.baseAddr + d.length

/-- Cut the front off an entry the new region runs into. -/
def trimFront (nextAddress : UInt64) (d : Desc) : Desc :=
  if nextAddress > d.baseAddr then
    { d with
      length := d.length - (nextAddress - d.baseAddr)
      baseAddr := nextAddress }
  else
    d

/-- The new region and what is left of the entries behind the edited one; `past` is the cell the
code looks at when there are none. -/
def behindRegion (base length : UInt64) (past : Desc) (ds : List Desc) : List Desc :=
  match ds.dropWhile fun d => base + length > d.stop with
  | d :: rest => ⟨base, length, 2⟩ :: trimFront (base + length) d :: rest
  | [] => if ds = [] ∧ ¬ base + length > past.stop then [⟨base, length, 2⟩] else []

/-- `_reserve_area` on the list of descriptors. -/
def reserveList (base length : UInt64) (past : Desc) : List Desc → List Desc
  | [] => []
  | d :: ds =>
    if d.stop > base then
      { d with length := base - d.baseAddr } :: behindRegion base length past ds
    else
      d :: reserveList base length past ds

namespace E820

section Refinement

variable {t : E820} {as bs : List Desc} {d : Desc} {e : UInt64}

/-- The removing loop stops with one entry left behind the edited one. -/
theorem removeOverlapped_of_size_le {i index : Nat} (hsize : t.size ≤ i + 1) (fuel : Nat) :
    removeOverlapped e i index fuel t = t := by
  cases fuel with
  | zero => rfl
  | succ fuel => rw [removeOverlapped, if_neg (by omega)]

/-- **The removing loop**, with the new region `d` last before the entries `bs`. -/
theorem removeOverlapped_holds : ∀ {bs : List Desc} {t : E820} {fuel : Nat},
    Holds t (as ++ d :: bs) → t.size < 2 ^ 32 → bs.length < fuel → 0 < as.length →
    Holds (removeOverlapped e (as.length - 1) (as.length + 1) fuel t)
      (match bs.dropWhile fun f => e > f.stop with
        | f :: rest => as ++ d :: f :: rest
        | [] => if bs = [] ∧ ¬ e > (t.map (as.length + 1)).stop then as ++ [d] else as)
  | _, _, 0, _, _, hfuel, _ => absurd hfuel (Nat.not_lt_zero _)
  | [], t, fuel + 1, h, hsize, _, hpos => by
      have hlen := h.1
      rw [List.length_append, List.length_singleton] at hlen
      show Holds _ (if _ then _ else _)
      rw [removeOverlapped]
      by_cases hpast : e > (t.map (as.length + 1)).stop
      · -- the entry looked at is past the end, and the one removed is the new region
        rw [if_pos ⟨hpast, by omega⟩, if_neg fun h => h.2 hpast]
        have hremoved : Holds (removeIndex t (as.length + 1)) as := h.remove_past hsize
        have hsize' := hremoved.1
        rw [removeOverlapped_of_size_le (by omega)]
        exact hremoved
      · rw [if_neg fun h => hpast h.1, if_pos ⟨rfl, hpast⟩]
        exact h
  | b :: bs, t, fuel + 1, h, hsize, hfuel, hpos => by
      have hlen := h.1
      rw [List.length_append, List.length_cons, List.length_cons] at hlen
      have h' : Holds t ((as ++ [d]) ++ b :: bs) := by simpa using h
      have hb : t.map (as.length + 1) = b := by simpa using h'.map_append
      rw [removeOverlapped, hb, List.dropWhile_cons]
      by_cases hover : e > b.stop
      · rw [if_pos ⟨hover, by omega⟩, if_pos (decide_eq_true hover)]
        have hremoved : Holds (removeIndex t (as.length + 1)) (as ++ d :: bs) := by
          simpa using h'.remove hsize
        have hsize' : (removeIndex t (as.length + 1)).size < 2 ^ 32 := by
          rw [removeIndex_size (by omega) hsize]
          omega
        have ih := removeOverlapped_holds hremoved hsize' (by simpa using hfuel) hpos
        cases hrest : bs.dropWhile fun f => e > f.stop with
        | cons f rest =>
            rw [hrest] at ih
            exact ih
        | nil =>
            rw [hrest] at ih
            have hdrop : ¬ (bs = [] ∧
                ¬ e > ((removeIndex t (as.length + 1)).map (as.length + 1)).stop) := by
              rintro ⟨rfl, hpast⟩
              -- the cell past the end still holds the entry removed last
              have hlast : (removeIndex t (as.length + 1)).map (as.length + 1) = b := by
                simpa using h'.removed_past hsize
              rw [hlast] at hpast
              exact hpast hover
            simp only [if_neg hdrop] at ih
            rw [if_neg (fun h => absurd h.1 (List.cons_ne_nil b bs))]
            exact ih
      · rw [if_neg fun h => hover h.1, if_neg (by simpa using hover)]
        exact h

/-- The last adjustment. Its second branch repeats the test of the first and is never taken. -/
theorem adjustNext_eq (i next : Nat) :
    adjustNext e i next t = if e > (t.map next).baseAddr then
      t.write next (trimFront e (t.map next)) else t := by
  unfold adjustNext trimFront
  by_cases h : e > (t.map next).baseAddr
  · rw [if_pos h, if_pos h, if_pos h]
  · rw [if_neg h, if_neg h, if_neg h]

theorem Holds.adjust {f : Desc} {i : Nat} (h : Holds t (as ++ f :: bs)) :
    Holds (adjustNext e i as.length t) (as ++ trimFront e f :: bs) := by
  rw [adjustNext_eq, h.map_append]
  by_cases hover : e > f.baseAddr
  · rw [if_pos hover]
    exact h.write
  · rw [if_neg hover, trimFront, if_neg hover]
    exact h

theorem Holds.adjust_past {i next : Nat} (h : Holds t as) (hnext : as.length ≤ next) :
    Holds (adjustNext e i next t) as := by
  rw [adjustNext_eq]
  split
  · exact h.write_past hnext
  · exact h

/-- **The body of `_reserve_area`**, for the entry `d` it edits. -/
theorem reserveAt_holds {base length : UInt64} (h : Holds t (as ++ d :: bs))
    (hroom : t.size + 1 < 2 ^ 32) :
    Holds (reserveAt t base length as.length)
      (as ++ { d with length := base - d.baseAddr } ::
        behindRegion base length (t.map (t.size + 1)) bs) := by
  have hlen := h.1
  rw [List.length_append, List.length_cons] at hlen
  unfold reserveAt
  rw [h.map_append]
  set cut : Desc := { d with length := base - d.baseAddr } with hcut
  obtain ⟨hinsert, hpast⟩ := @Holds.write_insert _ _ _ cut _ ⟨base, length, 2⟩ h hroom
  set t' := (shiftMap (t.write as.length cut) (as.length + 1)).write (as.length + 1)
    ⟨base, length, 2⟩ with ht'
  have hnew : t'.map (as.length + 1) = ⟨base, length, 2⟩ := by
    simpa using hinsert.map_append
  have hsize' : t'.size = t.size + 1 := by
    have hlen' := hinsert.1
    simp only [List.length_append, List.length_cons, List.length_nil] at hlen'
    omega
  have hloop := @removeOverlapped_holds (as ++ [cut]) ⟨base, length, 2⟩ (base + length) bs t' t'.size
    hinsert (by omega) (by omega) (by simp)
  rw [List.length_append, List.length_singleton, Nat.add_sub_cancel] at hloop
  show Holds (adjustNext ((t'.map (as.length + 1)).baseAddr + (t'.map (as.length + 1)).length)
    as.length (as.length + 2) (removeOverlapped _ as.length (as.length + 2) t'.size t')) _
  rw [hnew]
  show Holds (adjustNext (base + length) as.length (as.length + 2)
    (removeOverlapped (base + length) as.length (as.length + 2) t'.size t')) _
  unfold behindRegion
  cases hrest : bs.dropWhile fun f => base + length > f.stop with
  | cons f rest =>
      rw [hrest] at hloop
      have hloop' : Holds (removeOverlapped (base + length) as.length (as.length + 2) t'.size t')
          ((as ++ [cut, ⟨base, length, 2⟩]) ++ f :: rest) := by simpa using hloop
      simpa using @Holds.adjust _ _ _ (base + length) _ as.length hloop'
  | nil =>
      rw [hrest] at hloop
      by_cases hkeep : bs = [] ∧ ¬ base + length > (t'.map (as.length + 1 + 1)).stop
      · simp only [if_pos hkeep] at hloop
        have hkeep' : bs = [] ∧ ¬ base + length > (t.map (t.size + 1)).stop := by
          obtain ⟨rfl, hstop⟩ := hkeep
          rw [List.length_nil] at hlen
          rw [show as.length + 1 + 1 = t.size + 1 by omega, hpast] at hstop
          exact ⟨rfl, hstop⟩
        simp only [if_pos hkeep']
        simpa using hloop.adjust_past (by simp)
      · simp only [if_neg hkeep] at hloop
        have hkeep' : ¬ (bs = [] ∧ ¬ base + length > (t.map (t.size + 1)).stop) := by
          rintro ⟨rfl, hstop⟩
          rw [List.length_nil] at hlen
          rw [show t.size + 1 = as.length + 1 + 1 by omega] at hstop hpast
          rw [← hpast] at hstop
          exact hkeep ⟨rfl, hstop⟩
        simp only [if_neg hkeep']
        exact hloop.adjust_past (by simp)

theorem reserveLoop_holds {base length : UInt64} (hroom : t.size + 1 < 2 ^ 32) :
    ∀ {bs as : List Desc}, Holds t (as ++ bs) →
      Holds (reserveLoop base length bs.length as.length t)
        (as ++ reserveList base length (t.map (t.size + 1)) bs)
  | [], _, h => h
  | b :: bs, as, h => by
      rw [List.length_cons, reserveLoop, reserveList, h.map_append]
      by_cases hstop : b.stop > base
      · rw [if_pos hstop, if_pos (show b.baseAddr + b.length > base from hstop)]
        exact reserveAt_holds h hroom
      · rw [if_neg hstop, if_neg (show ¬ b.baseAddr + b.length > base from hstop)]
        have h' : Holds t ((as ++ [b]) ++ bs) := by simpa using h
        have ih := @reserveLoop_holds base length hroom bs (as ++ [b]) h'
        rw [List.length_append, List.length_singleton] at ih
        simpa using ih

end Refinement

/-- **`_reserve_area` is `reserveList`** on the descriptors in use, as long as there is room in the
table. -/
theorem descs_reserveArea (t : E820) (base length : UInt64) (hroom : t.size + 1 < 2 ^ 32) :
    (t.reserveArea base length).descs =
      reserveList base length (t.map (t.size + 1)) t.descs := by
  have hsize : t.descs.length = t.size := (holds_descs t).1.symm
  have hloop := @reserveLoop_holds t base length hroom t.descs [] (holds_descs t)
  rw [hsize] at hloop
  exact hloop.descs_eq

end E820

end Neutrino.Memory
