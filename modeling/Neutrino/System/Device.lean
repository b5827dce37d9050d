import Mathlib.Data.List.GetD
import Mathlib.Data.List.Nodup

/-!
# The device registry

`device_add` copies a device into a table of 64 and hands out an id; `device_get` looks an id up. Both
work from one counter: the device goes to the slot the counter *had*, the id handed out is what the
counter *becomes*. So the table itself is kept well (`Registry.Holds`: the devices lie in the order
in which they were added, and no later call moves one), but an id names the slot behind the device it
was handed out for.
-/

namespace Neutrino.System

/-! ## The code -/

inductive DeviceType where
  | unknown
  | driveBlock
  | driveChar
  deriving DecidableEq, Repr

/-- `device_t`. The two functions and the private data are addresses. -/
structure Device where
  name : Vector UInt8 32
  uuid : UInt32
  dtype : DeviceType
  read : UInt32
  write : UInt32
  priv : UInt32
  deriving DecidableEq, Repr

/-- What a slot of a static array holds before it is written. -/
def Device.zero : Device := ⟨Vector.replicate 32 0, 0, .unknown, 0, 0, 0⟩

/-- `_devices` and `_current_id`. -/
structure Registry where
  devices : Vector Device 64
  currentId : UInt32

def Registry.boot : Registry := ⟨Vector.replicate 64 Device.zero, 0⟩

/-- `none` where the code stores outside `_devices`. -/
def deviceAdd (r : Registry) (device : Device) : Option (UInt32 × Registry) :=
  if h : r.currentId.toNat < 64 then
    let r' : Registry := ⟨r.devices.set r.currentId.toNat device h, r.currentId + 1⟩
    some (r'.currentId, r')
  else
    none

/-- `none` where the address returned lies outside `_devices`. -/
def deviceGet (r : Registry) (id : UInt32) : Option Device := r.devices[id.toNat]?

def deviceCount (r : Registry) : UInt32 := r.currentId

/-! ## Histories -/

/-- One call of `device_add`: its argument, what it returned, and the registry it left. -/
structure Registration where
  device : Device
  id : UInt32
  after : Registry

/-- The calls of `device_add` on `ds`, in order. -/
def register : Registry → List Device → Option (List Registration)
  | _, [] => some []
  | r, d :: ds => do
      let (id, r') ← deviceAdd r d
      let rest ← register r' ds
      return ⟨d, id, r'⟩ :: rest

/-- The registry is a stable map: each id returned gives its device back after its own call and
after every later one, no id is handed out twice, and each is below the count. -/
structure StableMap (calls : List Registration) : Prop where
  get : ∀ (i j : Nat) (a b : Registration), i ≤ j → calls[i]? = some a → calls[j]? = some b →
    deviceGet b.after a.id = some a.device
  distinct : (calls.map Registration.id).Nodup
  below : ∀ (i j : Nat) (a b : Registration), i ≤ j → calls[i]? = some a → calls[j]? = some b →
    a.id < deviceCount b.after

/-! ## What the table holds -/

/-- `ds` are the devices added so far. -/
structure Registry.Holds (r : Registry) (ds : List Device) : Prop where
  length : ds.length ≤ 64
  count : r.currentId.toNat = ds.length
  slot : ∀ k, k < 64 → r.devices[k]? = some (ds.getD k Device.zero)

theorem Registry.boot_holds : Registry.boot.Holds [] where
  length := Nat.zero_le 64
  count := rfl
  slot := by
    intro k hk
    rw [Registry.boot, Vector.getElem?_replicate, if_pos hk]
    rfl

namespace Registry.Holds

variable {r : Registry} {ds : List Device}

/-- **One call**: the device goes behind the others, and the id is their new number. -/
theorem add (h : r.Holds ds) (hroom : ds.length < 64) (d : Device) :
    ∃ id r', deviceAdd r d = some (id, r') ∧ id.toNat = ds.length + 1 ∧ r'.Holds (ds ++ [d]) := by
  have hlt : r.currentId.toNat < 64 := by
    rw [h.count]
    exact hroom
  have hnext : (r.currentId + 1).toNat = ds.length + 1 := by
    rw [UInt32.toNat_add, h.count, UInt32.toNat_one]
    omega
  refine ⟨r.currentId + 1, ⟨r.devices.set r.currentId.toNat d hlt, r.currentId + 1⟩, dif_pos hlt,
    hnext, ?_, ?_, ?_⟩
  · rw [List.length_append]
    exact hroom
  · rw [List.length_append]
    exact hnext
  · intro k hk
    show (r.devices.set r.currentId.toNat d hlt)[k]? = _
    rw [Vector.getElem?_set, h.slot k hk]
    by_cases hkd : r.currentId.toNat = k
    · rw [if_pos hkd, ← hkd, h.count, List.getD_append_right _ _ _ _ (Nat.le_refl _), Nat.sub_self]
      rfl
    · rw [if_neg hkd]
      rw [h.count] at hkd
      rcases Nat.lt_or_gt_of_ne hkd with hover | hunder
      · rw [List.getD_eq_default _ _ (Nat.le_of_lt hover), List.getD_eq_default]
        rw [List.length_append]
        exact hover
      · rw [List.getD_append _ _ _ _ hunder]

/-- The device at slot `k` is found under `k`. -/
theorem get (h : r.Holds ds) {id : UInt32} (hid : id.toNat < 64) :
    deviceGet r id = some (ds.getD id.toNat Device.zero) :=
  h.slot id.toNat hid

/-- Up to 64 devices in all can be registered. Call `i` returns the number of devices there are then,
and leaves the table with all those added so far. -/
theorem register (new : List Device) :
    ∀ {r : Registry} {ds : List Device}, r.Holds ds → ds.length + new.length ≤ 64 →
      ∃ calls, System.register r new = some calls ∧
        calls.length = new.length ∧
        ∀ i a, calls[i]? = some a → new[i]? = some a.device ∧
          a.id.toNat = ds.length + i + 1 ∧ a.after.Holds (ds ++ new.take (i + 1)) := by
  induction new with
  | nil =>
      intro r ds _ _
      refine ⟨[], rfl, rfl, ?_⟩
      intro i a ha
      rw [List.getElem?_nil] at ha
      cases ha
  | cons d new ih =>
      intro r ds h hroom
      rw [List.length_cons] at hroom
      obtain ⟨id, r', hadd, hid, h'⟩ := h.add (by omega) d
      obtain ⟨calls, hrun, hlen, hcalls⟩ := ih h' (by rw [List.length_append]; simpa using by omega)
      refine ⟨⟨d, id, r'⟩ :: calls, ?_, congrArg (· + 1) hlen, ?_⟩
      · rw [System.register, hadd, Option.bind_eq_bind, Option.bind_some]
        show (System.register r' new >>= fun rest => some (⟨d, id, r'⟩ :: rest)) = _
        rw [hrun]
        rfl
      · intro i a ha
        cases i with
        | zero =>
            cases ha
            exact ⟨rfl, hid, h'⟩
        | succ i =>
            obtain ⟨hdev, hid', hholds⟩ := hcalls i a ha
            rw [List.length_append, List.length_singleton] at hid'
            rw [List.append_assoc] at hholds
            exact ⟨hdev, by omega, hholds⟩

end Registry.Holds

/-! ## What the ids are good for -/

section Calls

variable {ds : List Device} {calls : List Registration} {i j : Nat} {a b : Registration}

theorem registration (hlen : ds.length ≤ 64) (hrun : register Registry.boot ds = some calls)
    (ha : calls[i]? = some a) :
    ds[i]? = some a.device ∧ a.id.toNat = i + 1 ∧ a.after.Holds (ds.take (i + 1)) := by
  obtain ⟨calls', hrun', -, hcalls⟩ := Registry.boot_holds.register ds (by simpa using hlen)
  rw [hrun] at hrun'
  cases hrun'
  simpa using hcalls i a ha

theorem register_distinct (hlen : ds.length ≤ 64)
    (hrun : register Registry.boot ds = some calls) : (calls.map Registration.id).Nodup := by
  rw [List.nodup_iff_injective_getElem]
  intro i j hij
  have hlti : i.val < calls.length := by simpa using i.isLt
  have hltj : j.val < calls.length := by simpa using j.isLt
  have hi : calls[i.val]? = some calls[i.val] := List.getElem?_eq_getElem hlti
  have hj : calls[j.val]? = some calls[j.val] := List.getElem?_eq_getElem hltj
  have hidi := (registration hlen hrun hi).2.1
  have hidj := (registration hlen hrun hj).2.1
  have heq := congrArg UInt32.toNat hij
  simp only [List.getElem_map] at heq
  exact Fin.ext (by omega)

/-- **The slot in front of the id** is where the device stays. -/
theorem get_pred (hlen : ds.length ≤ 64) (hrun : register Registry.boot ds = some calls)
    (hij : i ≤ j) (ha : calls[i]? = some a) (hb : calls[j]? = some b) :
    deviceGet b.after (a.id - 1) = some a.device := by
  obtain ⟨hdev, hid, -⟩ := registration hlen hrun ha
  obtain ⟨-, -, hholds⟩ := registration hlen hrun hb
  obtain ⟨hi, -⟩ := List.getElem?_eq_some_iff.mp hdev
  have hone : (a.id - 1).toNat = i := by
    rw [UInt32.toNat_sub_of_le _ _ (UInt32.le_iff_toNat_le.mpr (by rw [hid]; exact Nat.le_add_left 1 i)),
      hid]
    rfl
  rw [hholds.get (by omega), hone, List.getD_eq_getElem?_getD,
    List.getElem?_take_of_lt (Nat.lt_succ_of_le hij), hdev]
  rfl

theorem count_after (hlen : ds.length ≤ 64) (hrun : register Registry.boot ds = some calls)
    (ha : calls[i]? = some a) : deviceCount a.after = a.id := by
  obtain ⟨hdev, hid, hholds⟩ := registration hlen hrun ha
  obtain ⟨hi, -⟩ := List.getElem?_eq_some_iff.mp hdev
  apply UInt32.toNat.inj
  rw [hid, deviceCount, hholds.count, List.length_take]
  omega

end Calls

/-- **The registry is a stable map of no devices only**: the first id handed out is already the
count, and not below it. -/
theorem registry_stable_iff (ds : List Device) (hlen : ds.length ≤ 64) :
    (∃ calls, register Registry.boot ds = some calls ∧ StableMap calls) ↔ ds = [] := by
  constructor
  · rintro ⟨calls, hrun, hmap⟩
    by_contra hne
    obtain ⟨calls', hrun', hcalls, -⟩ := Registry.boot_holds.register ds (by simpa using hlen)
    rw [hrun] at hrun'
    cases hrun'
    have hpos : 0 < calls.length := by
      rw [hcalls]
      exact List.length_pos_iff.mpr hne
    have hfirst : calls[0]? = some calls[0] := List.getElem?_eq_getElem hpos
    have hlt := hmap.below 0 0 _ _ (Nat.le_refl 0) hfirst hfirst
    rw [count_after hlen hrun hfirst] at hlt
    exact absurd hlt (UInt32.lt_irrefl _)
  · rintro rfl
    refine ⟨[], rfl, ?_, List.nodup_nil, ?_⟩
    · intro i j a b _ ha _
      rw [List.getElem?_nil] at ha
      cases ha
    · intro i j a b _ ha _
      rw [List.getElem?_nil] at ha
      cases ha

/-- A block drive, as `_ata_probe` registers one. -/
def primaryMaster : Device :=
  { Device.zero with uuid := 32, dtype := .driveBlock }

theorem oneDevice_not_stable : ¬ ∃ calls, register Registry.boot [primaryMaster] = some calls ∧
    StableMap calls := by
  rintro ⟨calls, hrun, hmap⟩
  have hfirst : calls[0]? = some ⟨primaryMaster, 1,
      ⟨Registry.boot.devices.set 0 primaryMaster, 1⟩⟩ := by
    cases hrun
    rfl
  exact absurd (hmap.below 0 0 _ _ (Nat.le_refl 0) hfirst hfirst) (UInt32.lt_irrefl _)

/-- Nor is it one of two devices. -/
theorem twoDevices_not_stable : ¬ ∃ calls,
    register Registry.boot [primaryMaster, { primaryMaster with uuid := 33 }] = some calls ∧
      StableMap calls := by
  rw [registry_stable_iff [primaryMaster, { primaryMaster with uuid := 33 }] (by decide)]
  exact List.cons_ne_nil _ _

end Neutrino.System
