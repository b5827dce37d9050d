import Neutrino.Memory.BumpPointer
import Neutrino.Memory.RegionBounds

/-!
# From the firmware's map to the heap

The results about the heap take the table as `_reserve_area` leaves it. Here they are about the map the
firmware hands out: what has to hold of it (`Reservable`), that the table is then one `memory_init` copes
with (`Reservable.sane`), and that no memory is usable afterwards that was not usable before, or that is
part of the reserved area (`Reservable.usable_covers`).
-/

namespace Neutrino.Memory

open Neutrino.Lib

/-- A map in which the area of `length` bytes at `base` can be reserved: the entries are in order, apart
and not empty; usable memory lies below 4 GiB and has room for headers, and `base` is part of it. -/
structure Reservable (base length : UInt64) (ds : List Desc) : Prop where
  sorted : SortedMap ds
  filled : ∀ d ∈ ds, 0 < d.len
  noWrap : ∀ d ∈ ds, d.base + d.len < 2 ^ 64
  below : ∀ d ∈ ds, d.type = 1 → d.base + d.len ≤ 2 ^ 32
  loaded : ∃ d ∈ ds, d.type = 1 ∧ d.Covers base.toNat
  room : RoomLeft base length ds

/-! ## The edited map -/

section Edit

variable {base length : UInt64} {past : Desc} {ds : List Desc}

/-- The first entry that ends behind `base` is the one `base` is in. -/
theorem Reservable.split (h : Reservable base length ds) (past : Desc) : ∃ pre d post, ds = pre ++ d :: post ∧
    (∀ f ∈ pre, ¬ f.stop > base) ∧ d.type = 1 ∧ d.Covers base.toNat ∧
    reserveList base length past ds =
      pre ++ { d with length := base - d.baseAddr } :: behindRegion base length past post := by
  obtain ⟨c, hc, htype, hcovers⟩ := h.loaded
  have hcstop : c.stop > base := by
    refine UInt64.lt_iff_toNat_lt.mpr ?_
    rw [c.stop_toNat, Nat.mod_eq_of_lt (h.noWrap c hc)]
    exact hcovers.2
  have hsplit : ds = ds.takeWhile (fun f => ¬ f.stop > base) ++
      ds.dropWhile fun f => ¬ f.stop > base := List.takeWhile_append_dropWhile.symm
  have hpre : ∀ f ∈ ds.takeWhile fun f => ¬ f.stop > base, ¬ f.stop > base := by
    intro f hf
    simpa using List.mem_takeWhile_imp hf
  have hlist := reserveList_eq base length past ds
  generalize ds.takeWhile (fun f => ¬ f.stop > base) = pre at hsplit hpre hlist
  cases hdrop : ds.dropWhile fun f => ¬ f.stop > base with
  | nil =>
      rw [hdrop, List.append_nil] at hsplit
      exact absurd hcstop (hpre c (hsplit ▸ hc))
  | cons d post =>
      rw [hdrop] at hsplit hlist
      have hs : SortedMap (pre ++ d :: post) := hsplit ▸ h.sorted
      have hle := edited_base_le hs (h.filled d (by rw [hsplit]; simp)) hpre
        ⟨c, hsplit ▸ hc, hcovers⟩
      have hdstop : d.stop > base := by
        have hhead := List.head?_dropWhile_not (fun f : Desc => decide (¬ f.stop > base)) ds
        rw [hdrop] at hhead
        simpa using hhead
      have hdcovers : d.Covers base.toNat := ⟨hle, (Desc.stop_of_lt hle hdstop).1⟩
      have heq : c = d := h.sorted.eq_of_covers hc (by rw [hsplit]; simp) hcovers hdcovers
      exact ⟨pre, d, post, hsplit, hpre, heq ▸ htype, hdcovers, hlist⟩

/-- **What is usable afterwards** was so before, and lies outside the area. -/
theorem Reservable.usable_covers (h : Reservable base length ds)
    (hend : base.toNat + length.toNat < 2 ^ 64) {f : Desc}
    (hf : f ∈ reserveList base length past ds) (htype : f.type = 1) {x : Nat} (hx : f.Covers x) :
    (∃ d ∈ ds, d.type = 1 ∧ d.Covers x) ∧ ¬ (base.toNat ≤ x ∧ x < base.toNat + length.toNat) := by
  obtain ⟨pre, d, post, rfl, hpre, hd, hcovers, heq⟩ := h.split past
  rw [heq] at hf
  rcases List.mem_append.mp hf with hf | hf
  · exact ⟨⟨f, List.mem_append_left _ hf, htype, hx⟩, fun hin =>
      not_covers_of_stop h.sorted (h.filled d (by simp)) hpre hf hin.1 hx⟩
  rcases List.mem_cons.mp hf with rfl | hf
  · obtain ⟨hlo, hhi⟩ := (cut_covers_of_le hcovers.1).mp hx
    exact ⟨⟨d, by simp, hd, hlo, hhi.trans hcovers.2⟩, fun hin => Nat.not_lt.mpr hin.1 hhi⟩
  · rcases behindRegion_covers h.sorted.right.tail hf hx with rfl | ⟨hafter, k, hk, hktype, hkx⟩
    · exact absurd (show (2 : UInt32) = 1 from htype) (by decide)
    · rw [UInt64.toNat_add, Nat.mod_eq_of_lt hend] at hafter
      exact ⟨⟨k, List.mem_append_right _ (List.mem_cons_of_mem _ hk), hktype.trans htype, hkx⟩,
        fun hin => Nat.not_lt.mpr hafter hin.2⟩

/-- **`memory_init` copes with what is left.** -/
theorem Reservable.sane (h : Reservable base length ds)
    (hend : base.toNat + length.toNat < 2 ^ 64) :
    SaneRegions ((reserveList base length past ds).filter fun d => d.type = 1) := by
  have hlarge := (@reserveList_room_iff base length past ds h.sorted h.filled (by
    obtain ⟨c, hc, -, hcovers⟩ := h.loaded
    exact ⟨c, hc, hcovers⟩)).mpr h.room
  have hpos : ∀ f ∈ reserveList base length past ds, f.type = 1 → 0 < f.len :=
    fun f hf htype => Nat.lt_of_lt_of_le (by decide) (hlarge f hf htype)
  refine ⟨fun f hf => ?_, fun f hf => ?_, ?_⟩
  · obtain ⟨hf, htype⟩ := List.mem_filter.mp hf
    have htype := of_decide_eq_true htype
    have hlen := hpos f hf htype
    -- its last byte was usable before
    have hlast : f.Covers (f.base + f.len - 1) := ⟨by omega, by omega⟩
    obtain ⟨⟨d, hd, hdtype, -, hdhi⟩, -⟩ := h.usable_covers hend hf htype hlast
    have hbelow := h.below d hd hdtype
    omega
  · obtain ⟨hf, htype⟩ := List.mem_filter.mp hf
    exact hlarge f hf (of_decide_eq_true htype)
  · obtain ⟨c, hc, -, hcovers⟩ := h.loaded
    exact reserveList_ends h.sorted h.filled ⟨c, hc, hcovers⟩ hend hpos

/-- The memory in front of `base` is left. -/
theorem Reservable.usable_ne_nil (h : Reservable base length ds) :
    ((reserveList base length past ds).filter fun d => d.type = 1) ≠ [] := by
  obtain ⟨pre, d, post, -, -, hd, -, heq⟩ := h.split past
  rw [heq]
  refine List.ne_nil_of_mem (List.mem_filter.mpr
    ⟨List.mem_append_right _ List.mem_cons_self, decide_eq_true hd⟩)

end Edit

/-! ## The heap on such a map -/

/-- The memory of a block was usable in the firmware's map `ds` and lies outside the kernel, the blocks
are apart, and all other memory holds what it held in `m`. -/
structure Confined (ds : List Desc) (m : ByteMemory) (s : State) : Prop where
  apart : s.live.Pairwise fun p q => Disjoint (span s.heap.mem p) (span s.heap.mem q)
  usable : ∀ p ∈ s.live, ∀ x ∈ span s.heap.mem p,
    (∃ d ∈ ds, d.type = 1 ∧ d.Covers x) ∧ ¬ (0x7C00 ≤ x ∧ x < 0xC0000)
  kept : ∀ x, (¬ ∃ d ∈ ds, d.type = 1 ∧ d.Covers x) ∨ (0x7C00 ≤ x ∧ x < 0xC0000) →
    s.heap.mem x = m x

/-- **Every run on such a map.** -/
theorem Reservable.confined {t t' : E820} {h₀ h : Heap} (hroom : t.size + 1 < 2 ^ 32)
    (hmap : Reservable 0x7C00 0xB8400 t.descs) (htotal : h₀.totalMemory = 0)
    (hinit : memoryInit t h₀ = some (t', h)) {tr : List (Event × State)}
    (hrun : Steps Step ⟨h, []⟩ tr) :
    ∀ s ∈ states ⟨h, []⟩ tr, Confined t.descs h₀.mem s := by
  have hend : (0x7C00 : UInt64).toNat + (0xB8400 : UInt64).toNat < 2 ^ 64 := by decide
  have husable : (t.reserveArea 0x7C00 0xB8400).usable =
      (reserveList 0x7C00 0xB8400 (t.map (t.size + 1)) t.descs).filter fun d => d.type = 1 :=
    congrArg (List.filter _) (E820.descs_reserveArea t _ _ hroom)
  have hs : SaneRegions (t.reserveArea 0x7C00 0xB8400).usable := husable ▸ hmap.sane hend
  have hne : (t.reserveArea 0x7C00 0xB8400).usable ≠ [] := husable ▸ hmap.usable_ne_nil
  have hcovers : ∀ d ∈ (t.reserveArea 0x7C00 0xB8400).usable, ∀ x, d.Covers x →
      (∃ d ∈ t.descs, d.type = 1 ∧ d.Covers x) ∧ ¬ (0x7C00 ≤ x ∧ x < 0xC0000) := by
    intro d hd x hx
    rw [husable] at hd
    obtain ⟨hd, htype⟩ := List.mem_filter.mp hd
    exact hmap.usable_covers hend hd (of_decide_eq_true htype) hx
  obtain ⟨d, hd, tail, hb, -⟩ := memoryInit_region htotal hs hne hinit
  intro s hmem
  have hsep := (Steps.invariant (fun _ _ _ hb hstep => hb.step hstep) hb hrun s hmem).separated
  refine ⟨hsep.apart, fun p hp x hx => ?_, fun x hx => ?_⟩
  · exact hcovers d hd x (hsep.inside p hp hx)
  · refine outside_kept htotal hs hne hinit hrun (fun e he hex => ?_) s hmem
    obtain ⟨hreported, houtside⟩ := hcovers e he x hex
    exact hx.elim (fun hnot => hnot hreported) houtside

end Neutrino.Memory
