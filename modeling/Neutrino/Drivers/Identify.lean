import Neutrino.Drivers.StatusPoll

/-!
# Identifying a drive

`_ata_identify` sends `IDENTIFY` and waits twice. The first wait is meant for the busy bit, but
`inportb(...) & ATA_SR_BSY != 0` compares first and masks with the result, which is 1: it waits for
`ERR` to clear (`waitsOn_iff`). The second wait, at `_status_read`, reads until `ERR` or `DRQ` and does
not look at the busy bit.

Over a given sequence of status bytes the two waits end at definite places (`IdentifyEnds`), and the
function returns iff there are such places.
-/

namespace Neutrino.Drivers

open Neutrino.Lib Neutrino.System

variable {W : Type}

/-! ## The function -/

def ataCmdIdentify : UInt8 := 0xEC

def ataSelectDrive (bus : Bus W) (channel i : UInt8) : MachineM W Unit :=
  if channel = ataPrimary then
    if i = ataMaster then outportb bus (ataPrimaryIo + ataRegHddevsel) 0xA0
    else outportb bus (ataPrimaryIo + ataRegHddevsel) 0xB0
  else
    if i = ataMaster then outportb bus (ataSecondaryIo + ataRegHddevsel) 0xA0
    else outportb bus (ataSecondaryIo + ataRegHddevsel) 0xB0

def channelIo (channel : UInt8) : UInt16 :=
  if channel = ataPrimary then ataPrimaryIo else ataSecondaryIo

/-- Everything up to the first status byte. -/
def identifyCommand (bus : Bus W) (channel drive : UInt8) : MachineM W UInt8 := do
  ataSelectDrive bus channel drive
  let io := channelIo channel
  outportb bus (io + ataRegSeccount0) 0
  outportb bus (io + ataRegLba0) 0
  outportb bus (io + ataRegLba1) 0
  outportb bus (io + ataRegLba2) 0
  outportb bus (io + ataRegCommand) ataCmdIdentify
  inportb bus (io + ataRegStatus)

/-- The condition `status & ATA_SR_BSY != 0`, in which `!=` binds tighter than `&`. -/
def WaitsOn (status : UInt8) : Prop := status &&& (if ataSrBsy ≠ 0 then 1 else 0) ≠ 0

instance : DecidablePred WaitsOn := fun status =>
  inferInstanceAs (Decidable (status &&& (if ataSrBsy ≠ 0 then 1 else 0) ≠ 0))

def identifyWait (bus : Bus W) (io : UInt16) : Nat → MachineM W Unit
  | 0 => MachineM.stop .outOfFuel
  | fuel + 1 => do
      let status ← inportb bus (io + ataRegStatus)
      if WaitsOn status then
        identifyWait bus io fuel
      else
        return ()

/-- From the label `_status_read` to the transfer, or to `return false`. -/
def identifyStatus (bus : Bus W) (io : UInt16) : Nat → MachineM W Bool
  | 0 => MachineM.stop .outOfFuel
  | fuel + 1 => do
      let status ← inportb bus (io + ataRegStatus)
      if status &&& ataSrErr ≠ 0 then
        return false
      else if status &&& ataSrDrq = 0 then
        identifyStatus bus io fuel
      else
        return true

/-- `buffer` is where `ata_buffer` points. -/
def ataIdentify (bus : Bus W) (fuel buffer : Nat) (channel drive : UInt8) : MachineM W Bool := do
  let io := channelIo channel
  let status ← identifyCommand bus channel drive
  if status ≠ 0 then
    identifyWait bus io fuel
    let ready ← identifyStatus bus io fuel
    if ready then
      MachineM.forLoop (readWord bus io buffer) 256 0
      return true
    else
      return false
  else
    return false

/-! ## What the waits wait for -/

theorem decide_not_failed {status : UInt8} (h : Failed status) : decide (¬Failed status) = false :=
  decide_eq_false (not_not_intro h)

/-- **The first wait is on `ERR`.** -/
theorem waitsOn_iff (status : UInt8) : WaitsOn status ↔ Failed status := by
  unfold WaitsOn Failed
  rw [if_pos (by decide)]
  exact Iff.rfl

theorem identifyWait_eq (bus : Bus W) (io : UInt16) (fuel : Nat) :
    identifyWait bus io fuel =
      (WatchedM.await (readStatus bus io) (fun status => ¬WaitsOn status) fuel >>=
        fun _ => pure ()).forget := by
  induction fuel with
  | zero => rfl
  | succ fuel ih =>
      rw [WatchedM.forget_await_succ, forget_readStatus, ← ih, identifyWait]
      refine congrArg (inportb bus (io + ataRegStatus) >>= ·) (funext fun status => ?_)
      by_cases hwaits : WaitsOn status
      · rw [if_pos hwaits, if_neg (not_not_intro hwaits)]
      · rw [if_neg hwaits, if_pos hwaits]
        exact (WatchedM.forget_pure ()).symm

theorem identifyStatus_eq (bus : Bus W) (io : UInt16) (fuel : Nat) :
    identifyStatus bus io fuel =
      (WatchedM.await (readStatus bus io) Answers fuel >>= fun status =>
        pure (decide ¬Failed status)).forget := by
  induction fuel with
  | zero => rfl
  | succ fuel ih =>
      rw [WatchedM.forget_await_succ, forget_readStatus, ← ih, identifyStatus]
      refine congrArg (inportb bus (io + ataRegStatus) >>= ·) (funext fun status => ?_)
      by_cases hfailed : Failed status
      · have hanswers : Answers status := Or.inl hfailed
        rw [if_pos (show status &&& ataSrErr ≠ 0 from hfailed), if_pos hanswers,
          decide_not_failed hfailed]
        exact (WatchedM.forget_pure false).symm
      · rw [if_neg (show ¬status &&& ataSrErr ≠ 0 from hfailed)]
        by_cases hrequests : Requests status
        · have hanswers : Answers status := Or.inr hrequests
          rw [if_neg (show ¬status &&& ataSrDrq = 0 from hrequests), if_pos hanswers,
            decide_eq_true hfailed]
          exact (WatchedM.forget_pure true).symm
        · have hsilent : ¬Answers status := not_or.mpr ⟨hfailed, hrequests⟩
          rw [if_pos (show status &&& ataSrDrq = 0 from not_not.mp hrequests), if_neg hsilent]

/-! ## Against a sequence of status bytes -/

section Runs

variable {σ : Nat → UInt8} {words : Nat → UInt16} {fuel : Nat} {s s' : Machine Reader}

theorem identifyCommand_run (channel drive : UInt8) :
    identifyCommand (statusDrive (channelIo channel) σ words) channel drive s =
      .ok (σ s.dev.statuses, s.readTo (s.dev.statuses + 1)) := by
  have hselect : ataSelectDrive (statusDrive (channelIo channel) σ words) channel drive s =
      .ok ((), s) := by
    unfold ataSelectDrive
    split <;> split <;> rfl
  rw [identifyCommand, MachineM.bind_run_ok hselect]
  show MachineM.inb _ _ s = _
  rw [MachineM.inb, statusDrive, inb_stream]
  rfl

/-- A wait that hands on what it made of the byte it ended on. -/
theorem awaitThen_iff {io : UInt16} {α : Type} {done : UInt8 → Prop} [DecidablePred done]
    {f : UInt8 → α} {r : α} :
    (WatchedM.await (readStatus (statusDrive io σ words) io) done fuel >>= fun status =>
        pure (f status)).forget s = .ok (r, s') ↔
      ∃ j, FirstFrom (fun k => done (σ k)) s.dev.statuses j ∧ j < s.dev.statuses + fuel ∧
        r = f (σ j) ∧ s' = s.readTo (j + 1) := by
  rw [WatchedM.forget_run_ok_iff]
  constructor
  · intro hrun
    cases hawait : WatchedM.await (readStatus (statusDrive io σ words) io) done fuel s with
    | error why s₁ =>
        rw [WatchedM.bind_run_error hawait] at hrun
        cases hrun
    | ok status s₁ =>
        obtain ⟨j, hj, hlt, rfl, rfl⟩ := awaitStatus_iff.mp hawait
        rw [WatchedM.bind_run_ok hawait] at hrun
        cases hrun
        exact ⟨j, hj, hlt, rfl, rfl⟩
  · rintro ⟨j, hj, hlt, rfl, rfl⟩
    rw [WatchedM.bind_run_ok (awaitStatus_iff.mpr ⟨j, hj, hlt, rfl, rfl⟩)]
    rfl

theorem identifyWait_iff {io : UInt16} {r : Unit} :
    identifyWait (statusDrive io σ words) io fuel s = .ok (r, s') ↔
      ∃ i, FirstFrom (fun k => ¬Failed (σ k)) s.dev.statuses i ∧ i < s.dev.statuses + fuel ∧
        s' = s.readTo (i + 1) := by
  rw [identifyWait_eq, awaitThen_iff]
  simp only [waitsOn_iff, true_and]

theorem identifyStatus_iff {io : UInt16} {ready : Bool} :
    identifyStatus (statusDrive io σ words) io fuel s = .ok (ready, s') ↔
      ∃ j, FirstFrom (fun k => Answers (σ k)) s.dev.statuses j ∧ j < s.dev.statuses + fuel ∧
        ready = decide (¬Failed (σ j)) ∧ s' = s.readTo (j + 1) := by
  rw [identifyStatus_eq, awaitThen_iff]

/-- The transfer reads 256 words and no status. -/
theorem readWords_reader {io : UInt16} (buffer : Nat) :
    MachineM.Ends (MachineM.forLoop (readWord (statusDrive io σ words) io buffer) 256 0) s
      fun _ s' => s'.dev = ⟨s.dev.statuses, s.dev.words + 256⟩ := by
  apply MachineM.Ends.forLoop (I := fun i s' => s'.dev = Reader.mk s.dev.statuses (s.dev.words + i))
  · intro i s₁ _ _ hdev
    rw [readWord]
    refine ⟨(), _, rfl, ?_⟩
    show ((statusDrive io σ words).inw (io + ataRegData) s₁.dev).2 = _
    rw [statusDrive, inw_stream, hdev]
    rfl
  · rfl

/-- Where the two waits of a call end. -/
def IdentifyEnds (σ : Nat → UInt8) (i j : Nat) : Prop :=
  FirstFrom (fun k => ¬Failed (σ k)) 1 i ∧ FirstFrom (fun k => Answers (σ k)) (i + 1) j

/-- What a call makes of the byte it ends on, and what it has read by then. -/
def IdentifyResult (σ : Nat → UInt8) (j : Nat) (ready : Bool) (d : Reader) : Prop :=
  ready = decide (¬Failed (σ j)) ∧ d = ⟨j + 1, if Failed (σ j) then 0 else 256⟩

/-- The call after a first status byte that is not 0. -/
theorem ataIdentify_run {buffer : Nat} {channel drive : UInt8} (hs : s.dev = ⟨0, 0⟩)
    (hstart : σ 0 ≠ 0) :
    ataIdentify (statusDrive (channelIo channel) σ words) fuel buffer channel drive s =
      (do
        identifyWait (statusDrive (channelIo channel) σ words) (channelIo channel) fuel
        let ready ←
          identifyStatus (statusDrive (channelIo channel) σ words) (channelIo channel) fuel
        if ready then
          MachineM.forLoop
            (readWord (statusDrive (channelIo channel) σ words) (channelIo channel) buffer) 256 0
          return true
        else
          return false) (s.readTo 1) := by
  have hcommand :
      identifyCommand (statusDrive (channelIo channel) σ words) channel drive s = _ :=
    identifyCommand_run channel drive
  rw [hs] at hcommand
  rw [ataIdentify, MachineM.bind_run_ok hcommand, if_pos hstart]

theorem ataIdentify_of_ends {buffer : Nat} {channel drive : UInt8} {i j : Nat}
    (hs : s.dev = ⟨0, 0⟩) (hstart : σ 0 ≠ 0) (h : IdentifyEnds σ i j) :
    MachineM.Ends
      (ataIdentify (statusDrive (channelIo channel) σ words) (j + 1) buffer channel drive) s
      fun ready s' => IdentifyResult σ j ready s'.dev := by
  have hi := h.1.le
  have hj := h.2.le
  unfold MachineM.Ends
  rw [ataIdentify_run hs hstart]
  refine MachineM.Ends.bind (P := fun _ s' => s' = (s.readTo 1).readTo (i + 1))
    ⟨(), _, identifyWait_iff.mpr ⟨i, h.1, ?_, rfl⟩, rfl⟩ ?_
  · show i < 1 + (j + 1)
    omega
  rintro _ _ rfl
  refine MachineM.Ends.bind
    (P := fun ready s' => ready = decide (¬Failed (σ j)) ∧ s' = s.readTo (j + 1))
    ⟨_, _, identifyStatus_iff.mpr ⟨j, h.2, ?_, rfl, rfl⟩, rfl, rfl⟩ ?_
  · show j < i + 1 + (j + 1)
    omega
  rintro _ _ ⟨rfl, rfl⟩
  have hdev : (s.readTo (j + 1)).dev = ⟨j + 1, 0⟩ := by rw [Machine.readTo, hs]
  by_cases hfailed : Failed (σ j)
  · rw [decide_not_failed hfailed]
    refine ⟨false, _, rfl, (decide_not_failed hfailed).symm, ?_⟩
    rw [if_pos hfailed, hdev]
  · rw [decide_eq_true hfailed]
    apply MachineM.Ends.bind (readWords_reader buffer)
    intro _ s₁ hwords
    refine ⟨true, s₁, rfl, (decide_eq_true hfailed).symm, ?_⟩
    rw [hwords, hdev, if_neg hfailed]

theorem ataIdentify_ends {buffer : Nat} {channel drive : UInt8} {ready : Bool}
    (hs : s.dev = ⟨0, 0⟩) (hstart : σ 0 ≠ 0)
    (hrun : ataIdentify (statusDrive (channelIo channel) σ words) fuel buffer channel drive s =
      .ok (ready, s')) :
    ∃ i j, IdentifyEnds σ i j ∧ IdentifyResult σ j ready s'.dev := by
  rw [ataIdentify_run hs hstart] at hrun
  obtain ⟨_, s₁, hwait, hrun⟩ := MachineM.bind_run_split hrun
  obtain ⟨i, hi, -, rfl⟩ := identifyWait_iff.mp hwait
  obtain ⟨_, s₂, hstatus, hrun⟩ := MachineM.bind_run_split hrun
  obtain ⟨j, hj, -, rfl, rfl⟩ := identifyStatus_iff.mp hstatus
  have hdev : (s.readTo (j + 1)).dev = ⟨j + 1, 0⟩ := by rw [Machine.readTo, hs]
  refine ⟨i, j, ⟨hi, hj⟩, ?_⟩
  by_cases hfailed : Failed (σ j)
  · rw [decide_not_failed hfailed] at hrun
    cases hrun
    exact ⟨(decide_not_failed hfailed).symm, by rw [if_pos hfailed]; exact hdev⟩
  · rw [decide_eq_true hfailed] at hrun
    obtain ⟨_, s₃, hloop, hrun⟩ := MachineM.bind_run_split hrun
    cases hrun
    refine ⟨(decide_eq_true hfailed).symm, ?_⟩
    rw [(readWords_reader buffer).of_run hloop, if_neg hfailed]
    exact congrArg (fun d : Reader => Reader.mk d.statuses (d.words + 256)) hdev

end Runs

/-! ## Following the drive -/

/-- The status bytes of a drive: busy for `b` reads, and `status` from then on. -/
structure Settles (σ : Nat → UInt8) (b : Nat) (status : UInt8) : Prop where
  start : σ 0 ≠ 0
  busy : ∀ k < b, ¬Idle (σ k)
  settled : ∀ k, b ≤ k → σ k = status
  idle : Idle status
  answers : Answers status

/-- The call ends on an idle byte, and as `status` says. -/
def FollowsDrive (σ : Nat → UInt8) (status : UInt8) : Prop :=
  ∀ words buffer channel drive (s : Machine Reader), s.dev = ⟨0, 0⟩ →
    ∃ fuel ready s',
      ataIdentify (statusDrive (channelIo channel) σ words) fuel buffer channel drive s =
        .ok (ready, s') ∧
      (Failed status → ready = false ∧ s'.dev.words = 0) ∧
      (¬Failed status → ready = true ∧ s'.dev.words = 256) ∧
      Idle (lastStatus σ s')

/-- The byte on which the first wait is left is idle. -/
def LeavesWaitIdle (σ : Nat → UInt8) : Prop :=
  ∀ words channel drive fuel (s s₁ s₂ : Machine Reader) first, s.dev = ⟨0, 0⟩ →
    identifyCommand (statusDrive (channelIo channel) σ words) channel drive s = .ok (first, s₁) →
    identifyWait (statusDrive (channelIo channel) σ words) (channelIo channel) fuel s₁ =
      .ok ((), s₂) →
    Idle (lastStatus σ s₂)

section Follows

variable {σ : Nat → UInt8} {b : Nat} {status : UInt8}

theorem Settles.le_of_idle (h : Settles σ b status) {k : Nat} (hidle : Idle (σ k)) : b ≤ k := by
  by_contra hlt
  exact h.busy k (Nat.lt_of_not_le hlt) hidle

/-- A call follows the drive iff its second wait ends on a settled byte. -/
theorem followsDrive_iff_ends (h : Settles σ b status) :
    FollowsDrive σ status ↔ ∃ i j, IdentifyEnds σ i j ∧ b ≤ j := by
  constructor
  case mp =>
    intro hfollows
    obtain ⟨fuel, ready, s', hrun, -, -, hidle⟩ := hfollows (fun _ => 0) 0 0 0 unread rfl
    obtain ⟨i, j, hends, -, hdev⟩ := ataIdentify_ends rfl h.start hrun
    refine ⟨i, j, hends, h.le_of_idle ?_⟩
    rwa [lastStatus, hdev] at hidle
  case mpr =>
    rintro ⟨i, j, hends, hsettled⟩ words buffer channel drive s hs
    obtain ⟨ready, s', hrun, hready, hdev⟩ : MachineM.Ends
        (ataIdentify (statusDrive (channelIo channel) σ words) (j + 1) buffer channel drive) s _ :=
      ataIdentify_of_ends hs h.start hends
    have hj : σ j = status := h.settled j hsettled
    rw [hj] at hready hdev
    refine ⟨j + 1, ready, s', hrun, ?_, ?_, ?_⟩
    · intro hfailed
      exact ⟨hready.trans (decide_not_failed hfailed), by rw [hdev, if_pos hfailed]⟩
    · intro hfailed
      exact ⟨hready.trans (decide_eq_true hfailed), by rw [hdev, if_neg hfailed]⟩
    · rw [lastStatus, hdev]
      exact hj ▸ h.idle

/-- The first byte past which the first wait goes. -/
theorem leavesWaitIdle_iff {i : Nat} (hi : FirstFrom (fun k => ¬Failed (σ k)) 1 i) :
    LeavesWaitIdle σ ↔ Idle (σ i) := by
  constructor
  case mp =>
    intro hleaves
    have hle := hi.le
    refine hleaves (fun _ => 0) 0 0 (i + 1) unread (unread.readTo 1) (unread.readTo (i + 1)) (σ 0) rfl
      (identifyCommand_run 0 0) (identifyWait_iff.mpr ⟨i, hi, ?_, rfl⟩)
    show i < 1 + (i + 1)
    omega
  case mpr =>
    intro hidle words channel drive fuel s s₁ s₂ first hs hcommand hwait
    rw [identifyCommand_run channel drive, hs] at hcommand
    cases hcommand
    obtain ⟨i', hi', -, rfl⟩ := identifyWait_iff.mp hwait
    obtain rfl : i = i' := hi.unique hi'
    exact hidle

/-- No busy byte answers once the first wait is over. -/
def SilentUntil (σ : Nat → UInt8) (b : Nat) : Prop :=
  ∃ i, FirstFrom (fun k => ¬Failed (σ k)) 1 i ∧ ∀ k, i < k → k < b → ¬Answers (σ k)

theorem followsDrive_iff_silent (h : Settles σ b status) :
    FollowsDrive σ status ↔ SilentUntil σ b := by
  rw [followsDrive_iff_ends h]
  constructor
  case mp =>
    rintro ⟨i, j, ⟨hi, hj⟩, hsettled⟩
    exact ⟨i, hi, fun k hik hkb => hj.not_before (by omega) (by omega)⟩
  case mpr =>
    rintro ⟨i, hi, hsilent⟩
    have hanswers : Answers (σ (max (i + 1) b)) := by
      rw [h.settled _ (Nat.le_max_right _ _)]
      exact h.answers
    obtain ⟨j, -, hj⟩ := FirstFrom.exists_of (P := fun k => Answers (σ k))
      (Nat.le_max_left (i + 1) b) hanswers
    refine ⟨i, j, ⟨hi, hj⟩, ?_⟩
    by_contra hlt
    exact hsilent j hj.le (Nat.lt_of_not_le hlt) hj.holds

/-- The first wait outlasts the busy bytes iff `ERR` tells them from the settled one. -/
theorem waitOutlasts_iff (h : Settles σ b status) :
    (∃ i, FirstFrom (fun k => ¬Failed (σ k)) 1 i ∧ b ≤ i) ↔
      ¬Failed status ∧ ∀ k, 1 ≤ k → k < b → Failed (σ k) := by
  constructor
  case mp =>
    rintro ⟨i, hi, hsettled⟩
    refine ⟨?_, fun k hk hkb => not_not.mp (hi.not_before hk (by omega))⟩
    have hholds := hi.holds
    rwa [h.settled i hsettled] at hholds
  case mpr =>
    rintro ⟨hstatus, hbusy⟩
    have hmax : ¬Failed (σ (max 1 b)) := by
      rw [h.settled _ (Nat.le_max_right _ _)]
      exact hstatus
    obtain ⟨i, -, hi⟩ := FirstFrom.exists_of (P := fun k => ¬Failed (σ k)) (Nat.le_max_left 1 b) hmax
    refine ⟨i, hi, ?_⟩
    by_contra hlt
    exact hi.holds (hbusy i hi.le (Nat.lt_of_not_le hlt))

/-- **`_ata_identify` follows the drive iff no busy byte answers once the first wait is over**, the
first wait being over at the first byte without `ERR`. That byte, too, is idle iff the busy bytes all
have `ERR` and the settled one has not. -/
theorem followsDrive_iff (h : Settles σ b status) :
    (FollowsDrive σ status ↔ SilentUntil σ b) ∧
    (FollowsDrive σ status ∧ LeavesWaitIdle σ ↔
      ¬Failed status ∧ ∀ k, 1 ≤ k → k < b → Failed (σ k)) := by
  refine ⟨followsDrive_iff_silent h, ?_⟩
  rw [followsDrive_iff_silent h, ← waitOutlasts_iff h]
  constructor
  case mp =>
    rintro ⟨⟨i, hi, -⟩, hleaves⟩
    exact ⟨i, hi, h.le_of_idle ((leavesWaitIdle_iff hi).mp hleaves)⟩
  case mpr =>
    rintro ⟨i, hi, hsettled⟩
    refine ⟨⟨i, hi, fun k hik hkb => by omega⟩, (leavesWaitIdle_iff hi).mpr ?_⟩
    rw [h.settled i hsettled]
    exact h.idle

end Follows

/-! ## On two drives -/

/-- Busy for two reads, with `ERR`, and then idle with `DRQ`. -/
def laggingStatus (n : Nat) : UInt8 := if n < 2 then 0x81 else 0x48

theorem settles_lagging : Settles laggingStatus 2 0x48 where
  start := by decide
  busy k hk := by
    rw [laggingStatus, if_pos hk]
    decide
  settled _ hk := if_neg (Nat.not_lt_of_le hk)
  idle := by decide
  answers := by decide

theorem followsDrive_lagging :
    Settles laggingStatus 2 0x48 ∧ FollowsDrive laggingStatus 0x48 ∧ LeavesWaitIdle laggingStatus := by
  refine ⟨settles_lagging, (followsDrive_iff settles_lagging).2.mpr ⟨by decide, ?_⟩⟩
  intro k _ hk
  rw [laggingStatus, if_pos hk]
  decide

/-- A drive that is idle with `ERR` from the start: the first wait has no end. -/
theorem settles_failed : Settles (fun _ => 0x41) 0 0x41 where
  start := by decide
  busy _ hk := absurd hk (Nat.not_lt_zero _)
  settled _ _ := rfl
  idle := by decide
  answers := by decide

theorem not_followsDrive_failed :
    Settles (fun _ => 0x41) 0 0x41 ∧ ¬FollowsDrive (fun _ => 0x41) 0x41 := by
  refine ⟨settles_failed, ?_⟩
  rw [followsDrive_iff_ends settles_failed]
  rintro ⟨i, _, ⟨hi, -⟩, -⟩
  exact hi.holds (show Failed 0x41 by decide)

end Neutrino.Drivers
