import Neutrino.Memory.ReserveArea

/-!
# The cells behind the table

The loader keeps 16 cells for descriptors, and the drive table lies behind them. `_reserve_area` needs one
cell more than are in use for the entry it inserts. When the entry it cuts is the last one it also looks at
the cell behind that, and if what is there starts in front of the reserved area's end, writes to it
(`reserveArea_inTable_iff`).
-/

namespace Neutrino.Memory.E820

/-! ## What each operation leaves alone -/

section Cells

variable {t : E820} {e : UInt64} {i j : Nat}

theorem removeIndex_map_past (hpos : 0 < t.size) (hsize : t.size < 2 ^ 32) (hj : t.size ≤ j + 1)
    (index : Nat) : (removeIndex t index).map j = t.map j := by
  rw [removeIndex_map hpos hsize, if_neg (by omega)]

theorem removeOverlapped_map_past (next : Nat) : ∀ {fuel : Nat} {t : E820}, t.size < 2 ^ 32 →
    t.size ≤ j + 1 → (removeOverlapped e i next fuel t).map j = t.map j
  | 0, _, _, _ => rfl
  | fuel + 1, t, hsize, hj => by
      rw [removeOverlapped]
      split
      case isTrue h =>
        have hpos : 0 < t.size := Nat.zero_lt_of_lt h.2
        have hsize' := removeIndex_size hpos hsize next
        rw [removeOverlapped_map_past next (by omega) (by omega),
          removeIndex_map_past hpos hsize hj]
      case isFalse h => rfl

theorem adjustNext_map (next : Nat) :
    (adjustNext e i next t).map j = if j = next then trimFront e (t.map j) else t.map j := by
  rw [adjustNext_eq]
  by_cases hj : j = next
  · subst hj
    rw [if_pos rfl]
    split
    case isTrue h => exact Function.update_self _ _ _
    case isFalse h => rw [trimFront, if_neg h]
  · rw [if_neg hj]
    split
    case isTrue h => exact write_map_of_ne hj
    case isFalse h => rfl

/-- The body for entry `i`: the cell that may be written is the one two behind it. -/
theorem reserveAt_map_past {base length : UInt64} (hroom : t.size + 1 < 2 ^ 32) (hi : i < t.size)
    (hj : t.size < j) : (reserveAt t base length i).map j =
      if j = i + 2 then trimFront (base + length) (t.map j) else t.map j := by
  unfold reserveAt
  set cut : Desc := { t.map i with length := base - (t.map i).baseAddr }
  set t' := (shiftMap (t.write i cut) (i + 1)).write (i + 1) ⟨base, length, 2⟩ with ht'
  have hnew : t'.map (i + 1) = ⟨base, length, 2⟩ := Function.update_self _ _ _
  have hsize : t'.size = t.size + 1 := Nat.mod_eq_of_lt hroom
  have hkept : t'.map j = t.map j := by
    rw [ht', write_map_of_ne (by omega), shiftMap_map_past (show (t.write i cut).size < j from hj),
      write_map_of_ne (by omega)]
  show (adjustNext ((t'.map (i + 1)).baseAddr + (t'.map (i + 1)).length) i (i + 2)
    (removeOverlapped _ i (i + 2) t'.size t')).map j = _
  rw [hnew, adjustNext_map, removeOverlapped_map_past _ (by omega) (by omega), hkept]

end Cells

/-! ## The whole of it -/

/-- Of the entries from `i` on the last one ends behind `base`, and only that one. -/
def EndsLast (t : E820) (base : UInt64) (i : Nat) : Prop :=
  i < t.size ∧ (∀ k, i ≤ k → k + 1 < t.size → ¬ (t.map k).stop > base) ∧
    (t.map (t.size - 1)).stop > base

section Table

variable {t : E820} {base length : UInt64} {j : Nat}

theorem endsLast_iff_of_stop {i : Nat} (hi : i < t.size) (hstop : (t.map i).stop > base) :
    EndsLast t base i ↔ i + 1 = t.size := by
  constructor
  · rintro ⟨-, hbefore, -⟩
    by_contra hne
    exact hbefore i (Nat.le_refl i) (by omega) hstop
  · intro heq
    have hlast : t.size - 1 = i := by omega
    exact ⟨hi, fun k hk hk' => by omega, hlast ▸ hstop⟩

theorem endsLast_succ_iff {i : Nat} (hstop : ¬ (t.map i).stop > base) :
    EndsLast t base (i + 1) ↔ EndsLast t base i := by
  constructor
  · rintro ⟨hi, hbefore, hlast⟩
    refine ⟨by omega, fun k hk hk' => ?_, hlast⟩
    rcases Nat.lt_or_ge i k with hlt | hge
    · exact hbefore k hlt hk'
    · exact (show k = i by omega) ▸ hstop
  · rintro ⟨hi, hbefore, hlast⟩
    refine ⟨?_, fun k hk hk' => hbefore k (by omega) hk', hlast⟩
    by_contra hge
    have hend : t.size - 1 = i := by omega
    exact hstop (hend ▸ hlast)

theorem reserveLoop_map_past (hroom : t.size + 1 < 2 ^ 32) (hj : t.size < j) :
    ∀ {n i : Nat}, i + n = t.size → ((reserveLoop base length n i t).map j =
        trimFront (base + length) (t.map j) ∧ j = t.size + 1 ∧ EndsLast t base i) ∨
      ((reserveLoop base length n i t).map j = t.map j ∧ ¬ (j = t.size + 1 ∧ EndsLast t base i))
  | 0, i, hn => Or.inr ⟨rfl, fun h => absurd h.2.1 (by omega)⟩
  | n + 1, i, hn => by
      rw [reserveLoop]
      by_cases hstop : (t.map i).stop > base
      · have hi : i < t.size := by omega
        rw [if_pos (show (t.map i).baseAddr + (t.map i).length > base from hstop),
          reserveAt_map_past hroom hi hj, endsLast_iff_of_stop hi hstop]
        by_cases hpast : j = i + 2
        · rw [if_pos hpast]
          exact Or.inl ⟨rfl, by omega, by omega⟩
        · rw [if_neg hpast]
          exact Or.inr ⟨rfl, by omega⟩
      · rw [if_neg (show ¬ (t.map i).baseAddr + (t.map i).length > base from hstop),
          ← endsLast_succ_iff hstop]
        exact reserveLoop_map_past hroom hj (by omega)

/-- The cells behind those in use. Only the second one may change. -/
theorem reserveArea_map_past (hroom : t.size + 1 < 2 ^ 32) (hj : t.size < j) :
    ((t.reserveArea base length).map j = trimFront (base + length) (t.map j) ∧ j = t.size + 1 ∧
      EndsLast t base 0) ∨
    ((t.reserveArea base length).map j = t.map j ∧ ¬ (j = t.size + 1 ∧ EndsLast t base 0)) :=
  reserveLoop_map_past hroom hj (Nat.zero_add _)

theorem trimFront_eq_self_iff {e : UInt64} {d : Desc} : trimFront e d = d ↔ ¬ e > d.baseAddr := by
  unfold trimFront
  by_cases h : e > d.baseAddr
  · rw [if_pos h]
    refine iff_of_false (fun heq => ?_) (not_not.mpr h)
    have hbase : e = d.baseAddr := congrArg Desc.baseAddr heq
    exact absurd (hbase ▸ h) (UInt64.lt_irrefl _)
  · rw [if_neg h]
    exact iff_of_true rfl h

/-- **When `_reserve_area` stays in a table of `capacity` cells**, not all of which are in use. It writes
behind it exactly if one cell is left, the last entry is the first that ends behind `base`, and what lies
behind the table, read as a descriptor, starts in front of the area's end. -/
theorem reserveArea_inTable_iff {capacity : Nat} (hroom : t.size + 1 < 2 ^ 32)
    (hsize : t.size < capacity) :
    (∀ j, capacity ≤ j → (t.reserveArea base length).map j = t.map j) ↔
      ¬ (t.size + 1 = capacity ∧ EndsLast t base 0 ∧ base + length > (t.map capacity).baseAddr) := by
  constructor
  · rintro hkept ⟨hfull, hlast, hover⟩
    rcases @reserveArea_map_past t base length _ hroom hsize with
      ⟨hcell, -⟩ | ⟨-, hnot⟩
    · rw [hkept capacity (Nat.le_refl _)] at hcell
      exact trimFront_eq_self_iff.mp hcell.symm hover
    · exact hnot ⟨hfull.symm, hlast⟩
  · intro hnot j hj
    rcases @reserveArea_map_past t base length _ hroom
      (Nat.lt_of_lt_of_le hsize hj) with ⟨hcell, hpast, hlast⟩ | ⟨hcell, -⟩
    · have hfull : t.size + 1 = capacity := by omega
      have hover : ¬ base + length > (t.map j).baseAddr := fun hover =>
        hnot ⟨hfull, hlast, (show j = capacity by omega) ▸ hover⟩
      rw [hcell, trimFront_eq_self_iff.mpr hover]
    · exact hcell

end Table

/-- 14 reserved entries of 256 bytes, and one for all memory behind them. -/
def fullTable : E820 :=
  .ofList ((List.range 14).map (fun i => ⟨UInt64.ofNat (0x100 * i), 0x100, 2⟩) ++
    [⟨0x1000, 0x7FFF000, 1⟩])

/-- In a table of 16 cells the one that is written is the drive table's. -/
theorem fullTable_overruns :
    ¬ ∀ j, 16 ≤ j → (fullTable.reserveArea 0x7C00 0xB8400).map j = fullTable.map j := by
  have hbefore : ∀ k < 14, ¬ (fullTable.map k).stop > 0x7C00 := by decide
  have hlast : EndsLast fullTable 0x7C00 0 :=
    ⟨by decide, fun k _ hk => hbefore k (Nat.lt_of_succ_lt_succ hk), by decide⟩
  rw [reserveArea_inTable_iff (by decide) (by decide), not_not]
  exact ⟨rfl, hlast, by decide⟩

end Neutrino.Memory.E820
