import Neutrino.Memory.Coverage
import Neutrino.Memory.MemoryInit

/-!
# Blocks inside their regions

`memory_init` gives the block of a usable region the size `Length - sizeof(alloc)`, an unsigned
difference. `_reserve_area` may just have cut that length to anything, so the question is which
regions of the firmware's map it leaves without room for a header (`blocks_contained_iff`).
-/

namespace Neutrino.Memory

open Neutrino.Lib

/-! ## The block of a region -/

/-- The block of a region lies at the low half of the region's address. Header and payload are in the
region. -/
structure BlockInside (m : ByteMemory) (d : Desc) : Prop where
  starts : d.base ≤ d.base % 2 ^ 32
  ends : d.base % 2 ^ 32 + sizeofAlloc + field m .size (d.base % 2 ^ 32) ≤ d.base + d.len

section Loop

variable {h : Heap} {es ds : List Desc} {a b size : Nat}

theorem field_placeAt_size (h : Heap) (hsize : size < 2 ^ 64) :
    field (placeAt h b size).mem .size b = size := by
  have hmod : size % 256 ^ Field.size.width = size := Nat.mod_eq_of_lt hsize
  unfold placeAt
  split
  · rw [field_setField_self, hmod]
  · rw [field_setField_self, hmod]

theorem placeAt_currentAlloc :
    (placeAt h b size).currentAlloc = if h.currentAlloc = 0 then b else h.currentAlloc := by
  unfold placeAt
  split <;> rfl

/-- The cursor is on no block, on the one at `a`, or on one beside it. -/
def CursorBeside (h : Heap) (a : Nat) : Prop :=
  h.currentAlloc = 0 ∨ h.currentAlloc = a ∨ h.currentAlloc + 20 ≤ a ∨ a + 20 ≤ h.currentAlloc

/-- A round leaves the `Size` of a header in front of its own. -/
theorem size_placeAt (hb : a + 20 ≤ b) (hcur : CursorBeside h a) :
    field (placeAt h b size).mem .size a = field h.mem .size a := by
  unfold placeAt
  by_cases hzero : h.currentAlloc = 0
  · rw [if_pos hzero]
    simp (disch := omega) only [field_setField_apart]
  · rw [if_neg hzero]
    rcases hcur.resolve_left hzero with rfl | hapart
    · simp (disch := first | decide | omega) only [field_setField_ne, field_setField_apart]
    · simp (disch := omega) only [field_setField_apart]

theorem size_foldl_place : ∀ {es : List Desc} {h : Heap},
    (∀ e ∈ es, e.base < 2 ^ 32 ∧ a + 20 ≤ e.base) → CursorBeside h a →
    field (es.foldl place h).mem .size a = field h.mem .size a
  | [], _, _, _ => rfl
  | e :: es, h, hes, hcur => by
      obtain ⟨hlt, hapart⟩ := hes e List.mem_cons_self
      have hnext : CursorBeside (place h e) a := by
        unfold CursorBeside at hcur ⊢
        rw [place, placeAt_currentAlloc, Nat.mod_eq_of_lt hlt]
        split
        · exact Or.inr (Or.inr (Or.inr hapart))
        · exact hcur
      rw [List.foldl_cons, size_foldl_place (fun f hf => hes f (List.mem_cons_of_mem _ hf)) hnext,
        place, Nat.mod_eq_of_lt hlt]
      exact size_placeAt hapart hcur

/-- **What the loop leaves**: the block of every region has the size its own round gave it. -/
theorem size_usable : ∀ {ds : List Desc} {h : Heap},
    (∀ d ∈ ds, d.base < 2 ^ 32 ∧ sizeofAlloc ≤ d.len) →
    (ds.Pairwise fun d e => d.base + d.len ≤ e.base) →
    (∀ d ∈ ds, h.currentAlloc = 0 ∨ h.currentAlloc + 20 ≤ d.base) →
    ∀ d ∈ ds, field (ds.foldl place h).mem .size d.base = d.len - sizeofAlloc
  | [], _, _, _, _, _, hd => absurd hd List.not_mem_nil
  | e :: es, h, hds, hsorted, hcur, d, hd => by
      obtain ⟨hlt, hlarge⟩ := hds e List.mem_cons_self
      obtain ⟨hbehind, hsorted'⟩ := List.pairwise_cons.mp hsorted
      have hlen := e.len_lt
      unfold sizeofAlloc at hlarge
      have hsize : (e.len + 2 ^ 64 - sizeofAlloc) % 2 ^ 64 = e.len - sizeofAlloc := by
        unfold sizeofAlloc
        omega
      have hplace : place h e = placeAt h e.base (e.len - sizeofAlloc) := by
        rw [place, Nat.mod_eq_of_lt hlt, hsize]
      have hafter : ∀ f ∈ es, e.base + 20 ≤ f.base := fun f hf => by
        have hle := hbehind f hf
        omega
      have hcur' := @placeAt_currentAlloc h e.base (e.len - sizeofAlloc)
      have hfirst := hcur e List.mem_cons_self
      rw [List.foldl_cons, hplace]
      rcases List.mem_cons.mp hd with rfl | hd
      · have hbeside : CursorBeside (placeAt h d.base (d.len - sizeofAlloc)) d.base := by
          unfold CursorBeside
          rw [hcur']
          split
          · exact Or.inr (Or.inl rfl)
          · next hne => exact Or.inr (Or.inr (Or.inl (hfirst.resolve_left hne)))
        rw [size_foldl_place (fun f hf => ⟨(hds f (List.mem_cons_of_mem _ hf)).1, hafter f hf⟩)
          hbeside]
        exact field_placeAt_size h (by omega)
      · refine size_usable (fun f hf => hds f (List.mem_cons_of_mem _ hf)) hsorted'
          (fun f hf => ?_) d hd
        have hf' := hafter f hf
        rw [hcur']
        split
        · exact Or.inr hf'
        · next hne =>
          have hle := hfirst.resolve_left hne
          exact Or.inr (by omega)

end Loop

/-! ## What the reservation leaves of the map -/

/-- Every usable entry keeps room for a header when `length` bytes from `base` on are reserved. The
entries that end in front of `base` stay as they are, the next one ends at `base` from now on; of those
behind it, the ones that end in front of the reserved interval's end are dropped, and the others start
there if they started in front of it. -/
def RoomLeft (base length : UInt64) (ds : List Desc) : Prop :=
  (∀ f ∈ ds.takeWhile (fun f => ¬ f.stop > base), f.type = 1 → sizeofAlloc ≤ f.len) ∧
    match ds.dropWhile (fun f => ¬ f.stop > base) with
    | [] => True
    | d :: post => (d.type = 1 → d.base + sizeofAlloc ≤ base.toNat) ∧
        ∀ f ∈ post.dropWhile (fun f => base + length > f.stop), f.type = 1 →
          max f.base (base + length).toNat + sizeofAlloc ≤ f.base + f.len

/-- Every usable entry that is left starts below 4 GiB. -/
def StartsBelow (base length : UInt64) (ds : List Desc) : Prop :=
  (∀ f ∈ ds.takeWhile (fun f => ¬ f.stop > base), f.type = 1 → f.base < 2 ^ 32) ∧
    match ds.dropWhile (fun f => ¬ f.stop > base) with
    | [] => True
    | d :: post => (d.type = 1 → d.base < 2 ^ 32) ∧
        ∀ f ∈ post.dropWhile (fun f => base + length > f.stop), f.type = 1 →
          max f.base (base + length).toNat < 2 ^ 32

theorem SortedMap.ends : ∀ {ds : List Desc}, SortedMap ds → (∀ d ∈ ds, 0 < d.len) →
    ds.Pairwise fun d f => d.base + d.len ≤ f.base
  | [], _, _ => List.Pairwise.nil
  | _ :: _, hs, hne => List.pairwise_cons.mpr
      ⟨fun f hf => hs.end_le hf (hne f (List.mem_cons_of_mem _ hf)),
        hs.tail.ends fun f hf => hne f (List.mem_cons_of_mem _ hf)⟩

section Edit

variable {base length e : UInt64} {past d k : Desc} {pre post rest ds : List Desc}

/-- The entries that are left behind the reserved interval: only the first can have started in front of
the interval's end. -/
theorem behindRegion_left (hs : SortedMap post) (hne : ∀ d ∈ post, 0 < d.len) :
    ∃ fs, (∀ p : Desc → Prop, (∀ f ∈ behindRegion base length past post, f.type = 1 → p f) ↔
        ∀ f ∈ fs, f.type = 1 → p f) ∧
      List.Forall₂ (fun f g => f.type = g.type ∧ f.base = max g.base (base + length).toNat ∧
          f.base + f.len = g.base + g.len)
        fs (post.dropWhile fun f => base + length > f.stop) := by
  by_cases hkept : Kept (base + length) past post
  · obtain ⟨fs, heq, hfs⟩ := behindRegion_of_kept hkept
    refine ⟨fs, fun p => ?_, ?_⟩
    · rw [heq, List.forall_mem_cons, and_iff_right]
      exact fun htype => absurd (show (2 : UInt32) = 1 from htype) (by decide)
    rcases hfs with ⟨rfl, rfl⟩ | ⟨k, rest, rfl, hstop, hpost⟩
    · exact List.Forall₂.nil
    · have hrest : post.dropWhile (fun f => base + length > f.stop) = k :: rest := by
        apply List.append_cancel_left
        rw [List.takeWhile_append_dropWhile, ← hpost]
      have hend := trimFront_end hstop
      rw [hrest]
      refine List.Forall₂.cons ⟨trimFront_type, trimFront_base, hend⟩ ?_
      rw [trimFront_base] at hend
      rw [hpost] at hs hne
      refine List.forall₂_same.mpr fun f hf => ⟨rfl, ?_, rfl⟩
      have hle := hs.right.end_le hf (hne f (by simp [hf]))
      have hreach : (base + length).toNat ≤ k.base + k.len := by omega
      exact (max_eq_left (by omega)).symm
  · obtain ⟨heq, hall⟩ := behindRegion_of_not_kept hkept
    have hrest : post.dropWhile (fun f => base + length > f.stop) = [] := by
      rw [List.dropWhile_eq_nil_iff]
      exact fun k hk => decide_eq_true (hall k hk)
    refine ⟨[], fun p => ?_, ?_⟩
    · rw [heq]
    · rw [hrest]
      exact List.Forall₂.nil

/-- A property of entries, said of what is left and of what it was made from. -/
theorem forall₂_type_iff {p q : Desc → Prop} {r : Desc → Desc → Prop} {fs gs : List Desc}
    (h : List.Forall₂ r fs gs) (htype : ∀ f g, r f g → f.type = g.type)
    (hpq : ∀ f g, r f g → (p f ↔ q g)) :
    (∀ f ∈ fs, f.type = 1 → p f) ↔ ∀ g ∈ gs, g.type = 1 → q g := by
  induction h with
  | nil => simp
  | cons hr _ ih => rw [List.forall_mem_cons, List.forall_mem_cons, ih, htype _ _ hr, hpq _ _ hr]

/-- The usable entries behind the reserved interval. -/
theorem behindRegion_room_iff (hs : SortedMap post) (hne : ∀ d ∈ post, 0 < d.len) :
    (∀ f ∈ behindRegion base length past post, f.type = 1 → sizeofAlloc ≤ f.len) ↔
      ∀ f ∈ post.dropWhile (fun f => base + length > f.stop), f.type = 1 →
        max f.base (base + length).toNat + sizeofAlloc ≤ f.base + f.len := by
  obtain ⟨fs, hfs, hleft⟩ := @behindRegion_left base length past post hs hne
  rw [hfs]
  refine forall₂_type_iff hleft (fun _ _ h => h.1) fun f g h => ?_
  rw [← h.2.1, ← h.2.2, Nat.add_le_add_iff_left]

theorem behindRegion_below_iff (hs : SortedMap post) (hne : ∀ d ∈ post, 0 < d.len) :
    (∀ f ∈ behindRegion base length past post, f.type = 1 → f.base < 2 ^ 32) ↔
      ∀ f ∈ post.dropWhile (fun f => base + length > f.stop), f.type = 1 →
        max f.base (base + length).toNat < 2 ^ 32 := by
  obtain ⟨fs, hfs, hleft⟩ := @behindRegion_left base length past post hs hne
  rw [hfs]
  refine forall₂_type_iff hleft (fun _ _ h => h.1) fun f g h => ?_
  rw [← h.2.1]

/-- The entry that is cut starts at or before the address the interval starts at. -/
theorem edited_base_le (hs : SortedMap (pre ++ d :: post)) (hne : 0 < d.len)
    (hpre : ∀ f ∈ pre, ¬ f.stop > base) (hcover : ∃ c ∈ pre ++ d :: post, c.Covers base.toNat) :
    d.base ≤ base.toNat := by
  obtain ⟨c, hc, hcx⟩ := hcover
  rcases List.mem_append.mp hc with hc | hc
  · -- one in front of it covers nothing from there on
    exact absurd hcx (not_covers_of_stop hs hne hpre hc (Nat.le_refl _))
  · rcases List.mem_cons.mp hc with rfl | hc
    · exact hcx.1
    · have hle := (List.pairwise_cons.mp hs.right.sorted).1 c hc
      have hlo := hcx.1
      omega

/-- The length of the entry that is cut, and its new end. -/
theorem cut_room_iff (hle : d.base ≤ base.toNat) :
    sizeofAlloc ≤ ({ d with length := base - d.baseAddr } : Desc).len ↔
      d.base + sizeofAlloc ≤ base.toNat := by
  have hlen : (base - d.baseAddr).toNat = base.toNat - d.base :=
    UInt64.toNat_sub_of_le _ _ (UInt64.le_iff_toNat_le.mpr hle)
  show sizeofAlloc ≤ (base - d.baseAddr).toNat ↔ _
  rw [hlen]
  unfold sizeofAlloc
  omega

/-- The usable entries of the edited map. -/
theorem reserveList_room_iff (hs : SortedMap ds) (hne : ∀ d ∈ ds, 0 < d.len)
    (hcover : ∃ c ∈ ds, c.Covers base.toNat) :
    (∀ f ∈ reserveList base length past ds, f.type = 1 → sizeofAlloc ≤ f.len) ↔
      RoomLeft base length ds := by
  have hsplit : ds = ds.takeWhile (fun f => ¬ f.stop > base) ++
      ds.dropWhile fun f => ¬ f.stop > base := List.takeWhile_append_dropWhile.symm
  have hpre : ∀ f ∈ ds.takeWhile fun f => ¬ f.stop > base, ¬ f.stop > base := by
    intro f hf
    simpa using List.mem_takeWhile_imp hf
  rw [reserveList_eq, RoomLeft, List.forall_mem_append]
  refine and_congr_right fun _ => ?_
  generalize ds.takeWhile (fun f => ¬ f.stop > base) = pre at hsplit hpre
  cases hdrop : ds.dropWhile fun f => ¬ f.stop > base with
  | nil => simp
  | cons d post =>
      rw [hdrop] at hsplit
      subst hsplit
      have hle := edited_base_le hs (hne d (by simp)) hpre hcover
      have hroom := @behindRegion_room_iff base length past post hs.right.tail
        fun f hf => hne f (by simp [hf])
      simp only [List.forall_mem_cons]
      rw [cut_room_iff hle, hroom]

theorem reserveList_below_iff (hs : SortedMap ds) (hne : ∀ d ∈ ds, 0 < d.len) :
    (∀ f ∈ reserveList base length past ds, f.type = 1 → f.base < 2 ^ 32) ↔
      StartsBelow base length ds := by
  have hsplit : ds = ds.takeWhile (fun f => ¬ f.stop > base) ++
      ds.dropWhile fun f => ¬ f.stop > base := List.takeWhile_append_dropWhile.symm
  rw [reserveList_eq, StartsBelow, List.forall_mem_append]
  refine and_congr_right fun _ => ?_
  cases hdrop : ds.dropWhile fun f => ¬ f.stop > base with
  | nil => simp
  | cons d post =>
      rw [hdrop] at hsplit
      have hs' : SortedMap (ds.takeWhile (fun f => ¬ f.stop > base) ++ d :: post) := hsplit ▸ hs
      have hbelow := @behindRegion_below_iff base length past post hs'.right.tail
        fun f hf => hne f (by rw [hsplit]; simp [hf])
      rw [List.forall_mem_cons, hbelow]
      exact Iff.rfl

/-- The usable entries behind the new region are still in order and apart. -/
theorem behindRegion_ends
    (hends : post.Pairwise fun d f => d.base + d.len ≤ f.base) :
    (behindRegion base length past post).Pairwise fun d f => d.type = 1 →
      d.base + d.len ≤ f.base := by
  by_cases hkept : Kept (base + length) past post
  · obtain ⟨fs, heq, hfs⟩ := behindRegion_of_kept hkept
    rw [heq]
    refine List.pairwise_cons.mpr ⟨fun f _ htype => absurd (show (2 : UInt32) = 1 from htype)
      (by decide), ?_⟩
    rcases hfs with ⟨rfl, -⟩ | ⟨k, rest, rfl, hstop, hpost⟩
    · exact List.Pairwise.nil
    · rw [hpost] at hends
      obtain ⟨hk, hrest⟩ := List.pairwise_cons.mp (List.pairwise_append.mp hends).2.1
      refine List.pairwise_cons.mpr ⟨fun f hf _ => ?_, ?_⟩
      · rw [trimFront_end hstop]
        exact hk f hf
      · exact hrest.imp fun {d _} hle (_ : d.type = 1) => hle
  · rw [(behindRegion_of_not_kept hkept).1]
    exact List.Pairwise.nil

/-- **What is usable afterwards** is still in order and apart. -/
theorem reserveList_ends (hs : SortedMap ds) (hne : ∀ d ∈ ds, 0 < d.len)
    (hcover : ∃ c ∈ ds, c.Covers base.toNat) (hend : base.toNat + length.toNat < 2 ^ 64)
    (hpos : ∀ f ∈ reserveList base length past ds, f.type = 1 → 0 < f.len) :
    ((reserveList base length past ds).filter fun d => d.type = 1).Pairwise
      fun a b => a.base + a.len ≤ b.base := by
  have hsplit : ds = ds.takeWhile (fun f => ¬ f.stop > base) ++
      ds.dropWhile fun f => ¬ f.stop > base := List.takeWhile_append_dropWhile.symm
  have hpre : ∀ f ∈ ds.takeWhile fun f => ¬ f.stop > base, ¬ f.stop > base := by
    intro f hf
    simpa using List.mem_takeWhile_imp hf
  have hends := hs.ends hne
  rw [reserveList_eq] at hpos ⊢
  generalize ds.takeWhile (fun f => ¬ f.stop > base) = pre at hsplit hpre hpos ⊢
  rw [List.pairwise_filter]
  cases hdrop : ds.dropWhile fun f => ¬ f.stop > base with
  | nil =>
      rw [hdrop, List.append_nil] at hsplit
      rw [List.append_nil]
      exact (hsplit ▸ hends).imp fun {_ _} hle _ _ => hle
  | cons d post =>
      rw [hdrop] at hsplit hpos
      subst hsplit
      have hlow := edited_base_le hs (hne d (by simp)) hpre hcover
      obtain ⟨hfront, hback, hacross⟩ := List.pairwise_append.mp hends
      obtain ⟨-, hpost⟩ := List.pairwise_cons.mp hback
      -- what is usable behind the area starts behind it
      have hafter : ∀ f ∈ behindRegion base length past post, f.type = 1 → base.toNat ≤ f.base := by
        intro f hf htype
        have hlen := hpos f (by simp [hf]) htype
        rcases behindRegion_covers hs.right.tail hf ⟨Nat.le_refl f.base, by omega⟩ with
          rfl | ⟨hle, -⟩
        · exact Nat.le_refl _
        · rw [UInt64.toNat_add, Nat.mod_eq_of_lt hend] at hle
          omega
      have hcut : d.base + (base - d.baseAddr).toNat = base.toNat := by
        rw [UInt64.toNat_sub_of_le _ _ (UInt64.le_iff_toNat_le.mpr hlow)]
        exact Nat.add_sub_cancel' hlow
      refine List.pairwise_append.mpr ⟨hfront.imp fun {_ _} hle _ _ => hle,
        List.pairwise_cons.mpr ⟨fun f hf _ htype => ?_, ?_⟩, fun e he f hf _ htype => ?_⟩
      · exact (Nat.le_of_eq hcut).trans (hafter f hf (of_decide_eq_true htype))
      · exact (behindRegion_ends hpost).imp fun {_ _} hle htype _ => hle (of_decide_eq_true htype)
      · have hebase := hacross e he d List.mem_cons_self
        rcases List.mem_cons.mp hf with rfl | hf
        · exact hebase
        · exact (hebase.trans hlow).trans (hafter f hf (of_decide_eq_true htype))

end Edit

end Neutrino.Memory
