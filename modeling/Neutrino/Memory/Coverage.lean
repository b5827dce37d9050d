import Neutrino.Memory.ReserveArea
import Mathlib.Data.List.Pairwise
import Mathlib.Data.List.TakeWhile

/-!
# What `_reserve_area` reserves, and what else it changes

Two statements about the addresses a table covers, before and after: the reserved interval is
protected, and everything outside it is as it was. Neither holds for every table. The conditions
`Secures` and `Spares` say for which it does, in terms of the first entry that ends behind `base` (the
one the code edits) and of the entries behind that one.
-/

namespace Neutrino.Memory

/-! ## Addresses -/

/-- The descriptor covers the address `x`. -/
def Desc.Covers (d : Desc) (x : Nat) : Prop := d.base ≤ x ∧ x < d.base + d.len

/-- Entries in the order of their bases, no two covering the same address. -/
structure SortedMap (ds : List Desc) : Prop where
  sorted : ds.Pairwise fun d f => d.base ≤ f.base
  disjoint : ds.Pairwise fun d f => ∀ x, ¬ (d.Covers x ∧ f.Covers x)

section Addresses

variable {d f : Desc} {base length e : UInt64} {x : Nat}

theorem Desc.base_lt (d : Desc) : d.base < 2 ^ 64 := d.baseAddr.toNat_lt

theorem Desc.len_lt (d : Desc) : d.len < 2 ^ 64 := d.length.toNat_lt

theorem Desc.stop_toNat (d : Desc) : d.stop.toNat = (d.base + d.len) % 2 ^ 64 :=
  UInt64.toNat_add _ _

/-- An entry that ends above an address it starts at or below has not wrapped around. -/
theorem Desc.stop_of_lt (h : d.base ≤ base.toNat) (hstop : d.stop > base) :
    base.toNat < d.base + d.len ∧ d.base + d.len < 2 ^ 64 := by
  have hlt : base.toNat < d.stop.toNat := UInt64.lt_iff_toNat_lt.mp hstop
  have hlen := d.len_lt
  have hbase := d.base_lt
  rw [d.stop_toNat] at hlt
  omega

/-- The edited entry, cut where the new region starts. -/
theorem cut_covers_of_le (h : d.base ≤ base.toNat) :
    ({ d with length := base - d.baseAddr } : Desc).Covers x ↔ d.base ≤ x ∧ x < base.toNat := by
  have hle : d.baseAddr ≤ base := UInt64.le_iff_toNat_le.mpr h
  have hlen : (base - d.baseAddr).toNat = base.toNat - d.base := UInt64.toNat_sub_of_le _ _ hle
  show d.base ≤ x ∧ x < d.base + (base - d.baseAddr).toNat ↔ _
  rw [hlen]
  omega

/-- If the new region starts in front of it, the cut underflows, and the entry covers everything from
its base on. -/
theorem cut_covers_of_lt (h : base.toNat < d.base) (hx : x < 2 ^ 64) :
    ({ d with length := base - d.baseAddr } : Desc).Covers x ↔ d.base ≤ x := by
  have hlen : (base - d.baseAddr).toNat = (2 ^ 64 - d.base + base.toNat) % 2 ^ 64 :=
    UInt64.toNat_sub _ _
  have hbase := d.base_lt
  show d.base ≤ x ∧ x < d.base + (base - d.baseAddr).toNat ↔ _
  rw [hlen]
  omega

theorem trimFront_type : (trimFront e d).type = d.type := by
  unfold trimFront
  split <;> rfl

theorem trimFront_base : (trimFront e d).base = max d.base e.toNat := by
  unfold trimFront
  by_cases hover : e > d.baseAddr
  · rw [if_pos hover]
    have hlt : d.base < e.toNat := UInt64.lt_iff_toNat_lt.mp hover
    exact (Nat.max_eq_right (Nat.le_of_lt hlt)).symm
  · rw [if_neg hover]
    have hle : e.toNat ≤ d.base := UInt64.le_iff_toNat_le.mp (UInt64.not_lt.mp hover)
    exact (Nat.max_eq_left hle).symm

/-- An entry that reaches to `e` still ends where it did when its front is cut off. -/
theorem trimFront_end (h : ¬ e > d.stop) :
    (trimFront e d).base + (trimFront e d).len = d.base + d.len := by
  have hstop : e.toNat ≤ d.stop.toNat := by
    have hle := UInt64.not_lt.mp h
    exact UInt64.le_iff_toNat_le.mp hle
  rw [d.stop_toNat] at hstop
  unfold trimFront
  by_cases hover : e > d.baseAddr
  · rw [if_pos hover]
    have hlt : d.base < e.toNat := UInt64.lt_iff_toNat_lt.mp hover
    have hle : e.toNat - d.base ≤ d.len := by omega
    have hcut : (e - d.baseAddr).toNat = e.toNat - d.base :=
      UInt64.toNat_sub_of_le _ _ (UInt64.le_of_lt hover)
    have hlen : (d.length - (e - d.baseAddr)).toNat = d.len - (e.toNat - d.base) := by
      rw [UInt64.toNat_sub_of_le _ _ (UInt64.le_iff_toNat_le.mpr (hcut ▸ hle)), hcut]
      rfl
    show e.toNat + (d.length - (e - d.baseAddr)).toNat = _
    rw [hlen]
    omega
  · rw [if_neg hover]

/-- Cutting the front off an entry that reaches to `e`. -/
theorem trimFront_covers (h : ¬ e > d.stop) :
    (trimFront e d).Covers x ↔ d.Covers x ∧ e.toNat ≤ x := by
  unfold Desc.Covers
  rw [trimFront_end h, trimFront_base]
  omega

end Addresses

namespace SortedMap

variable {ds pre post : List Desc} {d f : Desc} {x : Nat}

theorem of_ends (h : ds.Pairwise fun d f => d.base + d.len ≤ f.base) : SortedMap ds := by
  refine ⟨h.imp fun hle => by omega, h.imp fun hle x hx => ?_⟩
  obtain ⟨⟨-, hhi⟩, hlo, -⟩ := hx
  omega

theorem tail (hs : SortedMap (d :: ds)) : SortedMap ds :=
  ⟨(List.pairwise_cons.mp hs.sorted).2, (List.pairwise_cons.mp hs.disjoint).2⟩

theorem right (hs : SortedMap (pre ++ post)) : SortedMap post :=
  ⟨(List.pairwise_append.mp hs.sorted).2.1, (List.pairwise_append.mp hs.disjoint).2.1⟩

/-- An entry that is not empty starts behind the end of every one before it. -/
theorem end_le (hs : SortedMap (d :: ds)) (hf : f ∈ ds) (hne : 0 < f.len) :
    d.base + d.len ≤ f.base := by
  have hle := (List.pairwise_cons.mp hs.sorted).1 f hf
  have hdis := (List.pairwise_cons.mp hs.disjoint).1 f hf f.base
  by_contra hlt
  exact hdis ⟨⟨hle, by omega⟩, Nat.le_refl _, by omega⟩

/-- An address is covered by one entry only. -/
theorem eq_of_covers (hs : SortedMap ds) (hd : d ∈ ds) (hf : f ∈ ds) (hdx : d.Covers x)
    (hfx : f.Covers x) : d = f := by
  have hsymm : Std.Symm fun d f : Desc => ∀ x, ¬ (d.Covers x ∧ f.Covers x) :=
    ⟨fun _ _ h x hx => h x ⟨hx.2, hx.1⟩⟩
  by_contra hne
  exact hs.disjoint.forall hd hf hne x ⟨hdx, hfx⟩

end SortedMap

/-! ## The result of the edit, by addresses -/

/-- `reserveList` leaves everything in front of the edited entry alone. -/
theorem reserveList_eq (base length : UInt64) (past : Desc) (ds : List Desc) :
    reserveList base length past ds = ds.takeWhile (fun f => ¬ f.stop > base) ++
      match ds.dropWhile fun f => ¬ f.stop > base with
      | [] => []
      | d :: post => { d with length := base - d.baseAddr } :: behindRegion base length past post := by
  induction ds with
  | nil => rfl
  | cons d ds ih =>
      rw [reserveList, List.takeWhile_cons, List.dropWhile_cons]
      by_cases hstop : d.stop > base
      · simp [hstop]
      · simp [hstop, ih]

/-- The new region stays in the table: one of the entries behind the edited one reaches to its end, or
there are none and the cell past the end happens to. -/
def Kept (e : UInt64) (past : Desc) (post : List Desc) : Prop :=
  (post = [] ∧ ¬ e > past.stop) ∨ ∃ k ∈ post, ¬ e > k.stop

section Behind

variable {base length : UInt64} {past d k : Desc} {pre post rest ds : List Desc} {x : Nat}

/-- What is left of the entries behind the new region covers what it did, from its end on. -/
theorem behindRegion_of_kept (hkept : Kept (base + length) past post) :
    ∃ fs, behindRegion base length past post = ⟨base, length, 2⟩ :: fs ∧
      (fs = [] ∧ post = [] ∨ ∃ k rest, fs = trimFront (base + length) k :: rest ∧
        ¬ base + length > k.stop ∧
        post = post.takeWhile (fun f => base + length > f.stop) ++ k :: rest) := by
  unfold behindRegion
  cases hrest : post.dropWhile fun f => base + length > f.stop with
  | cons k rest =>
      refine ⟨_, rfl, Or.inr ⟨k, rest, rfl, ?_, ?_⟩⟩
      · have hhead := List.head?_dropWhile_not (fun f => decide (base + length > f.stop)) post
        rw [hrest] at hhead
        simpa using hhead
      · rw [← hrest]
        exact (List.takeWhile_append_dropWhile).symm
  | nil =>
      rw [List.dropWhile_eq_nil_iff] at hrest
      rcases hkept with ⟨rfl, hpast⟩ | ⟨k, hk, hstop⟩
      · exact ⟨[], if_pos ⟨rfl, hpast⟩, Or.inl ⟨rfl, rfl⟩⟩
      · exact absurd (by simpa using hrest k hk) hstop

theorem behindRegion_of_not_kept (hkept : ¬ Kept (base + length) past post) :
    behindRegion base length past post = [] ∧ ∀ k ∈ post, base + length > k.stop := by
  have hall : ∀ k ∈ post, base + length > k.stop := by
    intro k hk
    by_contra hstop
    exact hkept (Or.inr ⟨k, hk, hstop⟩)
  have hrest : (post.dropWhile fun f => base + length > f.stop) = [] := by
    rw [List.dropWhile_eq_nil_iff]
    intro k hk
    exact decide_eq_true (hall k hk)
  refine ⟨?_, hall⟩
  unfold behindRegion
  rw [hrest]
  exact if_neg fun h => hkept (Or.inl h)

/-- No entry behind the new region covers an address in front of its end. -/
theorem behindRegion_covers (hs : SortedMap post) {f : Desc}
    (hf : f ∈ behindRegion base length past post) (hx : f.Covers x) :
    f = ⟨base, length, 2⟩ ∨ (base + length).toNat ≤ x ∧ ∃ k ∈ post, k.type = f.type ∧ k.Covers x := by
  by_cases hkept : Kept (base + length) past post
  · obtain ⟨fs, heq, hfs⟩ := behindRegion_of_kept hkept
    rw [heq] at hf
    rcases List.mem_cons.mp hf with rfl | hf
    · exact Or.inl rfl
    rcases hfs with ⟨rfl, -⟩ | ⟨k, rest, rfl, hstop, hpost⟩
    · exact absurd hf List.not_mem_nil
    have hk : k ∈ post := by
      rw [hpost]
      simp
    rcases List.mem_cons.mp hf with rfl | hf
    · obtain ⟨hkx, hle⟩ := (trimFront_covers hstop).mp hx
      exact Or.inr ⟨hle, k, hk, trimFront_type.symm, hkx⟩
    · have hmem : f ∈ post := by
        rw [hpost]
        simp [hf]
      rw [hpost] at hs
      have hle := hs.right.end_le hf (by obtain ⟨hlo, hhi⟩ := hx; omega)
      have hreach : (base + length).toNat ≤ k.stop.toNat :=
        UInt64.le_iff_toNat_le.mp (UInt64.not_lt.mp hstop)
      rw [k.stop_toNat] at hreach
      have hlo := hx.1
      exact Or.inr ⟨by omega, f, hmem, rfl, hx⟩
  · rw [(behindRegion_of_not_kept hkept).1] at hf
    exact absurd hf List.not_mem_nil

end Behind

/-! ## Is the interval protected? -/

/-- The interval is reserved in the table: no entry of type 1 covers any of it, and entries of type 2
cover all of it. -/
def Protects (ds : List Desc) (base length : UInt64) : Prop :=
  ∀ x, base.toNat ≤ x → x < base.toNat + length.toNat →
    (∀ d ∈ ds, d.type = 1 → ¬ d.Covers x) ∧ ∃ d ∈ ds, d.type = 2 ∧ d.Covers x

/-- When a reservation takes effect. There is an entry that ends behind `base`; it is not one of type 1
that starts inside the interval, and the new region stays in the table. Or there is none, and the
last entry already reserves everything up to the end of the address space. -/
def Secures (base length : UInt64) (past : Desc) (ds : List Desc) : Prop :=
  match ds.dropWhile fun f => ¬ f.stop > base with
  | [] => ∃ d ∈ ds.getLast?, d.type = 2 ∧ d.base ≤ base.toNat ∧ 2 ^ 64 ≤ d.base + d.len
  | d :: post => ¬ (d.type = 1 ∧ base < d.baseAddr ∧ d.baseAddr < base + length) ∧
      Kept (base + length) past post

section Protects

variable {base length : UInt64} {past d : Desc} {pre post ds : List Desc}

/-- Entries that end at or before `base` do not reach into the interval, if another follows. -/
theorem not_covers_of_stop (hs : SortedMap (pre ++ d :: post)) (hne : 0 < d.len)
    (hstop : ∀ f ∈ pre, ¬ f.stop > base) {f : Desc} (hf : f ∈ pre) {x : Nat}
    (hx : base.toNat ≤ x) : ¬ f.Covers x := by
  rintro ⟨hlo, hhi⟩
  have hsplit : SortedMap (f :: [d]) := by
    refine ⟨?_, ?_⟩
    · simpa using (List.pairwise_append.mp hs.sorted).2.2 f hf d List.mem_cons_self
    · simpa using (List.pairwise_append.mp hs.disjoint).2.2 f hf d List.mem_cons_self
  have hle := hsplit.end_le List.mem_cons_self hne
  have hend : f.stop.toNat ≤ base.toNat :=
    UInt64.le_iff_toNat_le.mp (UInt64.not_lt.mp (hstop f hf))
  have hbase := d.base_lt
  rw [f.stop_toNat] at hend
  omega

/-- The case in which no entry ends behind `base`: nothing is edited. -/
theorem protects_untouched_iff (hs : SortedMap ds) (hne : ∀ d ∈ ds, 0 < d.len)
    (hend : base.toNat + length.toNat < 2 ^ 64) (hpos : 0 < length.toNat)
    (hstop : ∀ f ∈ ds, ¬ f.stop > base) :
    Protects ds base length ↔
      ∃ d ∈ ds.getLast?, d.type = 2 ∧ d.base ≤ base.toNat ∧ 2 ^ 64 ≤ d.base + d.len := by
  rcases List.eq_nil_or_concat ds with rfl | ⟨pre, last, rfl⟩
  · refine iff_of_false (fun hp => ?_) (by simp)
    obtain ⟨-, d, hd, -⟩ := hp base.toNat (Nat.le_refl _) (by omega)
    exact absurd hd List.not_mem_nil
  rw [List.concat_eq_append] at hs hne hstop ⊢
  have hpre : ∀ f ∈ pre, ∀ x, base.toNat ≤ x → ¬ f.Covers x := fun f hf x hx =>
    not_covers_of_stop hs (hne last (by simp)) (fun f hf => hstop f (List.mem_append_left _ hf)) hf hx
  have hlast : ∀ x, base.toNat ≤ x → last.Covers x → 2 ^ 64 ≤ last.base + last.len := by
    rintro x hx ⟨hlo, hhi⟩
    have hle : last.stop.toNat ≤ base.toNat :=
      UInt64.le_iff_toNat_le.mp (UInt64.not_lt.mp (hstop last (by simp)))
    rw [last.stop_toNat] at hle
    by_contra hlt
    rw [Nat.mod_eq_of_lt (by omega)] at hle
    omega
  simp only [List.getLast?_append, List.getLast?_singleton, Option.some_or,
    Option.mem_def, Option.some.injEq, exists_eq_left']
  constructor
  · intro hp
    obtain ⟨-, d, hd, htype, hcovers⟩ := hp base.toNat (Nat.le_refl _) (by omega)
    rcases List.mem_append.mp hd with hd | hd
    · exact absurd hcovers (hpre d hd _ (Nat.le_refl _))
    · obtain rfl := List.mem_singleton.mp hd
      exact ⟨htype, hcovers.1, hlast _ (Nat.le_refl _) hcovers⟩
  · rintro ⟨htype, hlo, hhi⟩ x hx hx'
    refine ⟨fun d hd htype' hcovers => ?_, last, by simp, htype, by omega, by omega⟩
    rcases List.mem_append.mp hd with hd | hd
    · exact hpre d hd x hx hcovers
    · obtain rfl := List.mem_singleton.mp hd
      rw [htype] at htype'
      exact absurd htype' (by decide)

/-- What covers an address of the interval after the edit: the entry that was cut, if it starts
behind `base`, or the new region. -/
theorem edited_covers (hs : SortedMap (pre ++ d :: post)) (hd : 0 < d.len)
    (hend : base.toNat + length.toNat < 2 ^ 64) (hpre : ∀ f ∈ pre, ¬ f.stop > base) {f : Desc}
    (hf : f ∈ pre ++ { d with length := base - d.baseAddr } :: behindRegion base length past post)
    {x : Nat} (hx : base.toNat ≤ x) (hx' : x < base.toNat + length.toNat) (hcovers : f.Covers x) :
    (f = { d with length := base - d.baseAddr } ∧ base.toNat < d.base ∧ d.base ≤ x) ∨
      (f ∈ behindRegion base length past post ∧ f = ⟨base, length, 2⟩) := by
  have hsum : (base + length).toNat = base.toNat + length.toNat := by
    rw [UInt64.toNat_add, Nat.mod_eq_of_lt hend]
  rcases List.mem_append.mp hf with hf | hf
  · exact absurd hcovers (not_covers_of_stop hs hd hpre hf hx)
  rcases List.mem_cons.mp hf with rfl | hf
  · rcases Nat.lt_or_ge base.toNat d.base with hlt | hge
    · exact Or.inl ⟨rfl, hlt, (cut_covers_of_lt hlt (by omega)).mp hcovers⟩
    · have hbefore := ((cut_covers_of_le hge).mp hcovers).2
      omega
  · rcases behindRegion_covers hs.right.tail hf hcovers with heq | ⟨hle, -⟩
    · exact Or.inr ⟨hf, heq⟩
    · omega

/-- The case in which an entry is edited. -/
theorem protects_edited_iff (hs : SortedMap (pre ++ d :: post)) (hd : 0 < d.len)
    (hend : base.toNat + length.toNat < 2 ^ 64) (hpos : 0 < length.toNat)
    (hpre : ∀ f ∈ pre, ¬ f.stop > base) :
    Protects (pre ++ { d with length := base - d.baseAddr } ::
        behindRegion base length past post) base length ↔
      ¬ (d.type = 1 ∧ base < d.baseAddr ∧ d.baseAddr < base + length) ∧
        Kept (base + length) past post := by
  have hsum : (base + length).toNat = base.toNat + length.toNat := by
    rw [UInt64.toNat_add, Nat.mod_eq_of_lt hend]
  constructor
  · intro hp
    constructor
    · rintro ⟨htype, hlo, hhi⟩
      have hlo' : base.toNat < d.base := UInt64.lt_iff_toNat_lt.mp hlo
      have hhi' : d.base < (base + length).toNat := UInt64.lt_iff_toNat_lt.mp hhi
      obtain ⟨hfree, -⟩ := hp d.base (by omega) (by omega)
      exact hfree _ (List.mem_append_right _ List.mem_cons_self) htype
        ((cut_covers_of_lt hlo' d.base_lt).mpr (Nat.le_refl _))
    · -- the first address of the interval is covered by the new region or not at all
      by_contra hkept
      obtain ⟨-, f, hf, -, hcovers⟩ := hp base.toNat (Nat.le_refl _) (by omega)
      rcases edited_covers hs hd hend hpre hf (Nat.le_refl _) (by omega) hcovers with
        ⟨-, hlt, hle⟩ | ⟨hf, -⟩
      · omega
      · rw [(behindRegion_of_not_kept hkept).1] at hf
        exact absurd hf List.not_mem_nil
  · rintro ⟨hfirst, hkept⟩ x hx hx'
    obtain ⟨fs, heq, -⟩ := behindRegion_of_kept hkept
    have hnew : (⟨base, length, 2⟩ : Desc) ∈ behindRegion base length past post := by
      rw [heq]
      exact List.mem_cons_self
    refine ⟨fun f hf htype hcovers => ?_, ⟨base, length, 2⟩,
      List.mem_append_right _ (List.mem_cons_of_mem _ hnew), rfl, hx, hx'⟩
    rcases edited_covers hs hd hend hpre hf hx hx' hcovers with ⟨rfl, hlt, hle⟩ | ⟨-, rfl⟩
    · refine hfirst ⟨htype, UInt64.lt_iff_toNat_lt.mpr hlt, UInt64.lt_iff_toNat_lt.mpr ?_⟩
      show d.base < (base + length).toNat
      omega
    · exact absurd (show (2 : UInt32) = 1 from htype) (by decide)

end Protects

/-- **When `_reserve_area` protects its interval.** For tables in order, without overlap or empty
entries: precisely when the interval is empty or `Secures` holds. -/
theorem reserveArea_protects_iff {t : E820} {base length : UInt64} (hroom : t.size + 2 < 2 ^ 32)
    (hs : SortedMap t.descs) (hne : ∀ d ∈ t.descs, 0 < d.len)
    (hend : base.toNat + length.toNat < 2 ^ 64) :
    Protects (t.reserveArea base length).descs base length ↔
      length = 0 ∨ Secures base length (t.map (t.size + 1)) t.descs := by
  rw [E820.descs_reserveArea t base length (by omega)]
  generalize t.descs = ds at hs hne
  generalize t.map (t.size + 1) = past
  by_cases hzero : length = 0
  · subst hzero
    refine iff_of_true (fun x hx hx' => ?_) (Or.inl rfl)
    rw [UInt64.toNat_zero] at hx'
    omega
  have hpos : 0 < length.toNat := by
    rw [Nat.pos_iff_ne_zero]
    exact fun h => hzero (UInt64.toNat_inj.mp h)
  rw [or_iff_right hzero, reserveList_eq, Secures]
  have hpre : ∀ f ∈ ds.takeWhile fun f => ¬ f.stop > base, ¬ f.stop > base := fun f hf => by
    simpa using List.mem_takeWhile_imp hf
  have hsplit : ds = ds.takeWhile (fun f => ¬ f.stop > base) ++
      ds.dropWhile fun f => ¬ f.stop > base := List.takeWhile_append_dropWhile.symm
  cases hrest : ds.dropWhile fun f => ¬ f.stop > base with
  | nil =>
      rw [hrest, List.append_nil] at hsplit
      rw [List.append_nil, ← hsplit]
      rw [← hsplit] at hpre
      exact protects_untouched_iff hs hne hend hpos hpre
  | cons d post =>
      rw [hrest] at hsplit
      rw [hsplit] at hs hne
      exact protects_edited_iff hs (hne d (by simp)) hend hpos hpre

theorem pcRegions_protects : Protects (pcRegions.reserveArea 0x7C00 0xB8400).descs 0x7C00 0xB8400 := by
  refine (reserveArea_protects_iff (by decide) (.of_ends (by decide)) (by decide) (by decide)).mpr
    (Or.inr ⟨by decide, Or.inr ⟨⟨0xF0000, 0x10000, 2⟩, by decide, by decide⟩⟩)

/-- One entry for all memory: the new region is dropped again, and its interval ends up in no entry. -/
theorem oneEntry_not_protected : ∃ t : E820, t.descs = [⟨0, 0x8000000, 1⟩] ∧
    ¬ Protects (t.reserveArea 0x7C00 0xB8400).descs 0x7C00 0xB8400 := by
  refine ⟨.ofList [⟨0, 0x8000000, 1⟩], by decide, fun hp => ?_⟩
  have hdescs : ((E820.ofList [⟨0, 0x8000000, 1⟩]).reserveArea 0x7C00 0xB8400).descs =
      [⟨0, 0x7C00, 1⟩] := by decide
  rw [hdescs] at hp
  obtain ⟨-, d, hd, htype, -⟩ := hp 0x7C00 (by decide) (by decide)
  obtain rfl := List.mem_singleton.mp hd
  exact absurd htype (by decide)

/-! ## Is everything else as it was? -/

/-- Outside the interval, the same addresses are covered by entries of the same types. -/
def SameOutside (before after : List Desc) (base length : UInt64) : Prop :=
  ∀ x, x < 2 ^ 64 → ¬ (base.toNat ≤ x ∧ x < base.toNat + length.toNat) → ∀ type,
    (∃ d ∈ after, d.type = type ∧ d.Covers x) ↔ ∃ d ∈ before, d.type = type ∧ d.Covers x

/-- When a reservation changes nothing else. No entry ends behind `base`; or the first that does starts
at or before `base` and ends inside the interval, and no removed entry wraps around; or it starts
behind `base`, and outside the interval its type is already that of all memory from its base on. -/
def Spares (base length : UInt64) (ds : List Desc) : Prop :=
  match ds.dropWhile fun f => ¬ f.stop > base with
  | [] => True
  | d :: post =>
    (d.base ≤ base.toNat ∧ d.base + d.len ≤ base.toNat + length.toNat ∧
      ∀ k ∈ post.takeWhile fun f => base + length > f.stop, k.base + k.len < 2 ^ 64) ∨
    base.toNat < d.base ∧ ∀ x, x < 2 ^ 64 → d.base ≤ x →
      ¬ (base.toNat ≤ x ∧ x < base.toNat + length.toNat) → ∃ f ∈ ds, f.type = d.type ∧ f.Covers x

section Outside

variable {base length : UInt64} {past d : Desc} {pre post : List Desc}

/-- Behind the new region nothing is lost outside the interval but what removed entries covered. -/
theorem behindRegion_covers_iff (hs : SortedMap (d :: post))
    (hlo : d.base ≤ base.toNat) (hstop : d.stop > base)
    (hsum : (base + length).toNat = base.toNat + length.toNat) {x : Nat} {type : UInt32}
    (hx : ¬ (base.toNat ≤ x ∧ x < base.toNat + length.toNat)) :
    (∃ f ∈ behindRegion base length past post, f.type = type ∧ f.Covers x) ↔
      ∃ k ∈ post.dropWhile fun f => base + length > f.stop, k.type = type ∧ k.Covers x := by
  have hd := Desc.stop_of_lt hlo hstop
  -- an address of a later entry lies behind `base`, so behind the interval
  have hpast : ∀ k ∈ post, k.Covers x → (base + length).toNat ≤ x := by
    intro k hk hkx
    have hle := hs.end_le hk (by obtain ⟨h1, h2⟩ := hkx; omega)
    have hge := hkx.1
    omega
  have hnew : ∀ f : Desc, f.Covers x → f ≠ ⟨base, length, 2⟩ := by
    rintro f hfx rfl
    exact hx hfx
  by_cases hkept : Kept (base + length) past post
  · obtain ⟨fs, heq, hfs⟩ := behindRegion_of_kept hkept
    rw [heq]
    rcases hfs with ⟨rfl, rfl⟩ | ⟨k, rest, rfl, hkstop, hpost⟩
    · refine iff_of_false ?_ (by simp)
      rintro ⟨f, hf, -, hfx⟩
      exact hnew f hfx (List.mem_singleton.mp hf)
    · have hrest : (post.dropWhile fun f => base + length > f.stop) = k :: rest := by
        have happend := List.takeWhile_append_dropWhile
          (p := fun f : Desc => decide (base + length > f.stop)) (l := post)
        exact List.append_cancel_left (happend.trans hpost)
      rw [hrest]
      constructor
      · rintro ⟨f, hf, htype, hfx⟩
        rcases List.mem_cons.mp ((List.mem_cons.mp hf).resolve_left (hnew f hfx)) with rfl | hf
        · exact ⟨k, List.mem_cons_self, trimFront_type.symm.trans htype,
            ((trimFront_covers hkstop).mp hfx).1⟩
        · exact ⟨f, List.mem_cons_of_mem _ hf, htype, hfx⟩
      · rintro ⟨f, hf, htype, hfx⟩
        rcases List.mem_cons.mp hf with rfl | hf
        · have hmem : f ∈ post := by
            rw [hpost]
            simp
          exact ⟨_, List.mem_cons_of_mem _ List.mem_cons_self, trimFront_type.trans htype,
            (trimFront_covers hkstop).mpr ⟨hfx, hpast f hmem hfx⟩⟩
        · exact ⟨f, List.mem_cons_of_mem _ (List.mem_cons_of_mem _ hf), htype, hfx⟩
  · obtain ⟨hnil, hall⟩ := behindRegion_of_not_kept hkept
    have hrest : (post.dropWhile fun f => base + length > f.stop) = [] := by
      rw [List.dropWhile_eq_nil_iff]
      exact fun k hk => decide_eq_true (hall k hk)
    rw [hnil, hrest]

theorem exists_mem_edited {c : Desc} {p : Desc → Prop} :
    (∃ f ∈ pre ++ c :: post, p f) ↔ (∃ f ∈ pre, p f) ∨ p c ∨ ∃ k ∈ post, p k := by
  simp [or_and_right, exists_or]

section Inside

variable (hs : SortedMap (pre ++ d :: post)) (hlo : d.base ≤ base.toNat) (hstop : d.stop > base)
  (hend : base.toNat + length.toNat < 2 ^ 64)

include hs hlo hstop hend

/-- Outside the interval the edited map has the entries in front, the edited one up to `base`, and the
entries behind that are kept. -/
theorem edited_covers_iff {x : Nat} (hx : ¬ (base.toNat ≤ x ∧ x < base.toNat + length.toNat))
    (type : UInt32) :
    (∃ f ∈ pre ++ { d with length := base - d.baseAddr } :: behindRegion base length past post,
        f.type = type ∧ f.Covers x) ↔
      (∃ f ∈ pre, f.type = type ∧ f.Covers x) ∨
        (d.type = type ∧ d.base ≤ x ∧ x < base.toNat) ∨
        ∃ k ∈ post.dropWhile fun f => base + length > f.stop, k.type = type ∧ k.Covers x := by
  have hsum : (base + length).toNat = base.toNat + length.toNat := by
    rw [UInt64.toNat_add, Nat.mod_eq_of_lt hend]
  rw [exists_mem_edited, cut_covers_of_le hlo,
    behindRegion_covers_iff hs.right hlo hstop hsum hx]

/-- If the entry went on behind the interval, the first address there is lost. -/
theorem end_le_of_sameOutside
    (hsame : SameOutside (pre ++ d :: post) (pre ++ { d with length := base - d.baseAddr } ::
      behindRegion base length past post) base length) :
    d.base + d.len ≤ base.toNat + length.toNat := by
  obtain ⟨-, hdis, hcross⟩ := List.pairwise_append.mp hs.disjoint
  by_contra hlt
  have hdx : d.Covers (base.toNat + length.toNat) := ⟨by omega, by omega⟩
  have hcovered := (hsame _ hend (by omega) d.type).mpr ⟨d, by simp, rfl, hdx⟩
  rw [edited_covers_iff hs hlo hstop hend (by omega)] at hcovered
  rcases hcovered with ⟨f, hf, -, hfx⟩ | ⟨-, -, hcut⟩ | ⟨k, hk, -, hkx⟩
  · exact hcross f hf d List.mem_cons_self _ ⟨hfx, hdx⟩
  · omega
  · exact (List.pairwise_cons.mp hdis).1 k (List.dropWhile_subset _ hk) _ ⟨hdx, hkx⟩

/-- If an entry that is removed reached the end of the address space, the last address is lost. -/
theorem noWrap_of_sameOutside
    (hsame : SameOutside (pre ++ d :: post) (pre ++ { d with length := base - d.baseAddr } ::
      behindRegion base length past post) base length) {k : Desc}
    (hk : k ∈ post.takeWhile fun f => base + length > f.stop) : k.base + k.len < 2 ^ 64 := by
  obtain ⟨-, hdis, hcross⟩ := List.pairwise_append.mp hs.disjoint
  have hkpost : k ∈ post := List.takeWhile_subset _ hk
  by_contra hwrap
  have hbase := k.base_lt
  have hkx : k.Covers (2 ^ 64 - 1) := ⟨by omega, by omega⟩
  have hcovered := (hsame (2 ^ 64 - 1) (by omega) (by omega) k.type).mpr ⟨k, by simp [hkpost], rfl, hkx⟩
  rw [edited_covers_iff hs hlo hstop hend (by omega)] at hcovered
  rcases hcovered with ⟨f, hf, -, hfx⟩ | ⟨-, -, hcut⟩ | ⟨g, hg, -, hgx⟩
  · exact hcross f hf k (List.mem_cons_of_mem _ hkpost) _ ⟨hfx, hkx⟩
  · omega
  · have hsplit : post.takeWhile (fun f => base + length > f.stop) ++
        post.dropWhile (fun f => base + length > f.stop) = post := List.takeWhile_append_dropWhile
    have hpost := (List.pairwise_cons.mp hdis).2
    rw [← hsplit] at hpost
    exact (List.pairwise_append.mp hpost).2.2 k hk g hg _ ⟨hkx, hgx⟩

/-- Otherwise only addresses of the interval are. -/
theorem sameOutside_inside (hlen : d.base + d.len ≤ base.toNat + length.toNat)
    (hwrap : ∀ k ∈ post.takeWhile fun f => base + length > f.stop, k.base + k.len < 2 ^ 64) :
    SameOutside (pre ++ d :: post) (pre ++ { d with length := base - d.baseAddr } ::
      behindRegion base length past post) base length := by
  have hsum : (base + length).toNat = base.toNat + length.toNat := by
    rw [UInt64.toNat_add, Nat.mod_eq_of_lt hend]
  have hd := Desc.stop_of_lt hlo hstop
  intro x hx hout type
  have hcut : d.Covers x ↔ d.base ≤ x ∧ x < base.toNat := by
    rw [Desc.Covers]
    omega
  have hremoved : ∀ k ∈ post.takeWhile fun f => base + length > f.stop, ¬ k.Covers x := by
    rintro k hk ⟨hkx, hkx'⟩
    have hover : base + length > k.stop := by simpa using List.mem_takeWhile_imp hk
    have hover' : k.stop.toNat < (base + length).toNat := UInt64.lt_iff_toNat_lt.mp hover
    have hle := hs.right.end_le (List.takeWhile_subset _ hk) (by omega)
    rw [k.stop_toNat, Nat.mod_eq_of_lt (hwrap k hk)] at hover'
    omega
  have hsplit : post.takeWhile (fun f => base + length > f.stop) ++
      post.dropWhile (fun f => base + length > f.stop) = post := List.takeWhile_append_dropWhile
  have hkept : (∃ k ∈ post, k.type = type ∧ k.Covers x) ↔
      ∃ k ∈ post.dropWhile fun f => base + length > f.stop, k.type = type ∧ k.Covers x := by
    constructor
    · rintro ⟨k, hk, htype, hkx⟩
      rw [← hsplit, List.mem_append] at hk
      exact ⟨k, hk.resolve_left fun htake => hremoved k htake hkx, htype, hkx⟩
    · rintro ⟨k, hk, hrest⟩
      exact ⟨k, List.dropWhile_subset _ hk, hrest⟩
  rw [edited_covers_iff hs hlo hstop hend hout, exists_mem_edited, hcut, hkept]

/-- The edited entry starts at or before `base`. -/
theorem sameOutside_inside_iff :
    SameOutside (pre ++ d :: post) (pre ++ { d with length := base - d.baseAddr } ::
        behindRegion base length past post) base length ↔
      d.base + d.len ≤ base.toNat + length.toNat ∧
        ∀ k ∈ post.takeWhile fun f => base + length > f.stop, k.base + k.len < 2 ^ 64 := by
  constructor
  · intro hsame
    exact ⟨end_le_of_sameOutside hs hlo hstop hend hsame, fun k hk =>
      noWrap_of_sameOutside hs hlo hstop hend hsame hk⟩
  · rintro ⟨hlen, hwrap⟩
    exact sameOutside_inside hs hlo hstop hend hlen hwrap

end Inside

/-- The edited entry starts behind `base`: cut, it covers all memory from its base on. -/
theorem sameOutside_gap_iff (hs : SortedMap (pre ++ d :: post)) (hlo : base.toNat < d.base) :
    SameOutside (pre ++ d :: post) (pre ++ { d with length := base - d.baseAddr } ::
        behindRegion base length past post) base length ↔
      ∀ x, x < 2 ^ 64 → d.base ≤ x → ¬ (base.toNat ≤ x ∧ x < base.toNat + length.toNat) →
        ∃ f ∈ pre ++ d :: post, f.type = d.type ∧ f.Covers x := by
  have hd : d ∈ pre ++ d :: post := by simp
  constructor
  · intro hsame x hx hle hout
    exact (hsame x hx hout d.type).mp ⟨_, List.mem_append_right _ List.mem_cons_self, rfl,
      (cut_covers_of_lt hlo hx).mpr hle⟩
  · intro hall x hx hout type
    have hcut : ({ d with length := base - d.baseAddr } : Desc).Covers x ↔ d.base ≤ x :=
      cut_covers_of_lt hlo hx
    -- from `d.base` on, an entry that covers `x` has the type of `d`
    have htyped : ∀ f ∈ pre ++ d :: post, f.Covers x → d.base ≤ x → f.type = d.type := by
      intro f hf hfx hle
      obtain ⟨g, hg, hgtype, hgx⟩ := hall x hx hle hout
      rw [hs.eq_of_covers hf hg hfx hgx]
      exact hgtype
    constructor
    · rintro ⟨f, hf, htype, hfx⟩
      rcases List.mem_append.mp hf with hf | hf
      · exact ⟨f, List.mem_append_left _ hf, htype, hfx⟩
      rcases List.mem_cons.mp hf with rfl | hf
      · obtain ⟨g, hg, hgtype, hgx⟩ := hall x hx (hcut.mp hfx) hout
        exact ⟨g, hg, hgtype.trans htype, hgx⟩
      · rcases behindRegion_covers hs.right.tail hf hfx with rfl | ⟨-, k, hk, hktype, hkx⟩
        · exact absurd hfx hout
        · exact ⟨k, by simp [hk], hktype.trans htype, hkx⟩
    · rintro ⟨f, hf, htype, hfx⟩
      rcases List.mem_append.mp hf with hpre | hrest
      · exact ⟨f, List.mem_append_left _ hpre, htype, hfx⟩
      have hle : d.base ≤ x := by
        rcases List.mem_cons.mp hrest with rfl | hpost
        · exact hfx.1
        · exact Nat.le_trans ((List.pairwise_cons.mp hs.right.sorted).1 f hpost) hfx.1
      exact ⟨_, List.mem_append_right _ List.mem_cons_self, (htyped f hf hfx hle).symm.trans htype,
        hcut.mpr hle⟩

end Outside

/-- **When `_reserve_area` changes nothing else.** For tables in order and without overlap: precisely
when `Spares` holds. -/
theorem reserveArea_sameOutside_iff {t : E820} {base length : UInt64} (hroom : t.size + 2 < 2 ^ 32)
    (hs : SortedMap t.descs) (hend : base.toNat + length.toNat < 2 ^ 64) :
    SameOutside t.descs (t.reserveArea base length).descs base length ↔
      Spares base length t.descs := by
  rw [E820.descs_reserveArea t base length (by omega)]
  generalize t.descs = ds at hs
  generalize t.map (t.size + 1) = past
  rw [reserveList_eq, Spares]
  have hsplit : ds = ds.takeWhile (fun f => ¬ f.stop > base) ++
      ds.dropWhile fun f => ¬ f.stop > base := List.takeWhile_append_dropWhile.symm
  cases hrest : ds.dropWhile fun f => ¬ f.stop > base with
  | nil =>
      rw [hrest, List.append_nil] at hsplit
      rw [List.append_nil, ← hsplit]
      exact iff_of_true (fun x _ _ type => Iff.rfl) trivial
  | cons d post =>
      have hstop : d.stop > base := by
        have hhead := List.head?_dropWhile_not (fun f : Desc => decide (¬ f.stop > base)) ds
        rw [hrest] at hhead
        simpa using hhead
      rw [hrest] at hsplit
      generalize (ds.takeWhile fun f => ¬ f.stop > base) = pre at hsplit ⊢
      subst hsplit
      rcases Nat.lt_or_ge base.toNat d.base with hlt | hge
      · rw [sameOutside_gap_iff hs hlt]
        exact ⟨fun h => Or.inr ⟨hlt, h⟩, fun h => (h.resolve_left fun h => by omega).2⟩
      · rw [sameOutside_inside_iff hs hge hstop hend]
        exact ⟨fun h => Or.inl ⟨hge, h⟩, fun h => (h.resolve_right fun h => by omega).2⟩

/-- The interval ends in a gap behind the entry it cuts. -/
theorem pcRegions_spares :
    SameOutside pcRegions.descs (pcRegions.reserveArea 0x7C00 0xB8400).descs 0x7C00 0xB8400 := by
  refine (reserveArea_sameOutside_iff (by decide) (.of_ends (by decide)) (by decide)).mpr
    (Or.inl ⟨by decide, by decide, by decide⟩)

/-- One entry for all memory: the part behind the interval is lost. -/
theorem oneEntry_lost : ∃ t : E820, t.descs = [⟨0, 0x8000000, 1⟩] ∧
    ¬ SameOutside t.descs (t.reserveArea 0x7C00 0xB8400).descs 0x7C00 0xB8400 := by
  refine ⟨.ofList [⟨0, 0x8000000, 1⟩], by decide, fun hsame => ?_⟩
  have hbefore : (E820.ofList [⟨0, 0x8000000, 1⟩]).descs = [⟨0, 0x8000000, 1⟩] := by decide
  have hafter : ((E820.ofList [⟨0, 0x8000000, 1⟩]).reserveArea 0x7C00 0xB8400).descs =
      [⟨0, 0x7C00, 1⟩] := by decide
  rw [hbefore, hafter] at hsame
  obtain ⟨d, hd, -, -, hhi⟩ := (hsame 0xC0000 (by decide) (by decide) 1).mpr
    ⟨_, List.mem_singleton_self _, rfl, by decide, by decide⟩
  obtain rfl := List.mem_singleton.mp hd
  exact absurd hhi (by decide)

end Neutrino.Memory
