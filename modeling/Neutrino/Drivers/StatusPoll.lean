import Neutrino.Lib.PortWatch
import Neutrino.Drivers.Ata

/-!
# What `_ata_poll` returns on

`_ata_poll` waits for the busy bit to clear and then, reading afresh each time, for `ERR` or `DRQ`. The
second loop does not look at the busy bit. Over a given sequence of status bytes it acts on the first
byte with one of the two bits that comes after the first idle byte (`watchedPoll_ends`), busy or not.
-/

namespace Neutrino.Drivers

open Neutrino.Lib Neutrino.System WatchedM

variable {W : Type}

/-! ## The poll, with its last state -/

def Idle (status : UInt8) : Prop := status &&& ataSrBsy = 0

def Failed (status : UInt8) : Prop := status &&& ataSrErr ≠ 0

def Requests (status : UInt8) : Prop := status &&& ataSrDrq ≠ 0

/-- Something the loop at `retry2` ends on. -/
def Answers (status : UInt8) : Prop := Failed status ∨ Requests status

instance : DecidablePred Idle := fun status => inferInstanceAs (Decidable (status &&& ataSrBsy = 0))

instance : DecidablePred Failed := fun status =>
  inferInstanceAs (Decidable (status &&& ataSrErr ≠ 0))

instance : DecidablePred Requests := fun status =>
  inferInstanceAs (Decidable (status &&& ataSrDrq ≠ 0))

instance : DecidablePred Answers := fun status =>
  inferInstanceAs (Decidable (Failed status ∨ Requests status))

def readStatus (bus : Bus W) (io : UInt16) : WatchedM W UInt8 :=
  inb bus (io + ataRegStatus)

/-- `ataPoll` in the monad that keeps the state of a run that stops. -/
def watchedPoll (bus : Bus W) (io : UInt16) (fuel : Nat) : WatchedM W Unit := do
  forLoop (fun _ => do
    let _ ← inb bus (io + ataRegAltstatus)) 4 0
  let _ ← await (readStatus bus io) Idle fuel
  let status ← await (readStatus bus io) Answers fuel
  if Failed status then
    stop (.panic "ERR set, device failure!\n")
  else
    return ()

/-! ## The same program -/

theorem forget_readStatus (bus : Bus W) (io : UInt16) :
    forget (readStatus bus io) = inportb bus (io + ataRegStatus) := forget_inb _ _

theorem forget_awaitIdle (bus : Bus W) (io : UInt16) (fuel : Nat) :
    forget (await (readStatus bus io) Idle fuel >>= fun _ => pure ()) = ataPollBsy bus io fuel := by
  induction fuel with
  | zero => rfl
  | succ fuel ih =>
      rw [forget_await_succ, forget_readStatus, ih, ataPollBsy]
      refine congrArg (inportb bus (io + ataRegStatus) >>= ·) (funext fun status => ?_)
      by_cases hidle : Idle status
      · rw [if_pos hidle, if_neg (show ¬status &&& ataSrBsy ≠ 0 from not_not_intro hidle)]
        exact forget_pure ()
      · rw [if_neg hidle, if_pos (show status &&& ataSrBsy ≠ 0 from hidle)]

theorem forget_awaitAnswer (bus : Bus W) (io : UInt16) (fuel : Nat) :
    forget (await (readStatus bus io) Answers fuel >>= fun status =>
        if Failed status then stop (.panic "ERR set, device failure!\n") else pure ()) =
      ataPollDrq bus io fuel := by
  induction fuel with
  | zero => rfl
  | succ fuel ih =>
      rw [forget_await_succ, forget_readStatus, ih, ataPollDrq]
      refine congrArg (inportb bus (io + ataRegStatus) >>= ·) (funext fun status => ?_)
      by_cases hfailed : Failed status
      · have hanswers : Answers status := Or.inl hfailed
        rw [if_pos hanswers, if_pos hfailed, if_pos (show status &&& ataSrErr ≠ 0 from hfailed)]
        exact forget_stop _
      · rw [if_neg hfailed, if_neg (show ¬status &&& ataSrErr ≠ 0 from hfailed)]
        by_cases hrequests : Requests status
        · have hanswers : Answers status := Or.inr hrequests
          rw [if_pos hanswers, if_neg (show ¬status &&& ataSrDrq = 0 from hrequests)]
          exact forget_pure ()
        · have hsilent : ¬Answers status := not_or.mpr ⟨hfailed, hrequests⟩
          rw [if_neg hsilent, if_pos (show status &&& ataSrDrq = 0 from not_not.mp hrequests)]

/-- **The watched poll is the poll.** -/
theorem forget_watchedPoll (bus : Bus W) (io : UInt16) (fuel : Nat) :
    forget (watchedPoll bus io fuel) = ataPoll bus io fuel := by
  rw [watchedPoll, forget_bind, forget_forLoop, ataPoll, ← forget_awaitAnswer, ← forget_awaitIdle,
    ← forget_bind, bind_assoc]
  simp only [pure_bind]
  rfl

/-! ## Against a sequence of status bytes -/

/-- A drive on the channel `io` that shows the status bytes `σ`, whatever it is told. -/
def statusDrive (io : UInt16) (σ : Nat → UInt8) (words : Nat → UInt16) : Bus Reader :=
  streamBus (io + ataRegStatus) (io + ataRegData) σ words

/-- The status byte read last. -/
def lastStatus (σ : Nat → UInt8) (s : Machine Reader) : UInt8 := σ (s.dev.statuses - 1)

/-- What is to hold of the status byte read last when `_ata_poll` is done with the bytes `σ`. -/
def PollsRight (σ : Nat → UInt8) : Prop :=
  ∀ io words fuel s s', s.dev.statuses = 0 →
    (watchedPoll (statusDrive io σ words) io fuel s = .ok () s' →
      Idle (lastStatus σ s') ∧ ¬Failed (lastStatus σ s') ∧ Requests (lastStatus σ s')) ∧
    (∀ message, watchedPoll (statusDrive io σ words) io fuel s = .error (.panic message) s' →
      Idle (lastStatus σ s') ∧ Failed (lastStatus σ s'))

theorem altstatus_ne_status (io : UInt16) : io + ataRegAltstatus ≠ io + ataRegStatus := by
  intro heq
  exact absurd ((UInt16.add_right_inj io).mp heq) (by decide)

/-- Where the two waits end. -/
def PollEnds (σ : Nat → UInt8) (start i j : Nat) : Prop :=
  FirstFrom (fun k => Idle (σ k)) start i ∧ FirstFrom (fun k => Answers (σ k)) (i + 1) j

section Runs

variable {io : UInt16} {σ : Nat → UInt8} {words : Nat → UInt16} {fuel : Nat} {s s' : Machine Reader}

theorem delay_run :
    forLoop (fun _ => do
      let _ ← inb (statusDrive io σ words) (io + ataRegAltstatus)) 4 0 s = .ok () s := by
  apply forLoop_idle
  intro i
  rw [inb_bind, statusDrive, inb_stream_other (altstatus_ne_status io)]
  rfl

theorem awaitStatus_iff {done : UInt8 → Prop} [DecidablePred done] {r : UInt8} :
    await (readStatus (statusDrive io σ words) io) done fuel s = .ok r s' ↔
      ∃ j, FirstFrom (fun k => done (σ k)) s.dev.statuses j ∧ j < s.dev.statuses + fuel ∧
        r = σ j ∧ s' = s.readTo (j + 1) :=
  await_stream_iff

theorem awaitStatus_error {done : UInt8 → Prop} [DecidablePred done] {why : Stop}
    (h : await (readStatus (statusDrive io σ words) io) done fuel s = .error why s') :
    why = .outOfFuel :=
  await_error h

/-- The poll after both waits. -/
theorem watchedPoll_of_ends {i j : Nat} (h : PollEnds σ s.dev.statuses i j)
    (hi : i < s.dev.statuses + fuel) (hj : j < i + 1 + fuel) :
    watchedPoll (statusDrive io σ words) io fuel s =
      if Failed (σ j) then
        .error (.panic "ERR set, device failure!\n") (s.readTo (j + 1))
      else
        .ok () (s.readTo (j + 1)) := by
  rw [watchedPoll, bind_run_ok delay_run, bind_run_ok (awaitStatus_iff.mpr ⟨i, h.1, hi, rfl, rfl⟩),
    bind_run_ok (awaitStatus_iff.mpr ⟨j, h.2, hj, rfl, rfl⟩)]
  by_cases hfailed : Failed (σ j)
  · rw [if_pos hfailed, if_pos hfailed]
    rfl
  · rw [if_neg hfailed, if_neg hfailed]
    rfl

/-- A poll that is done with the drive has ended both waits. -/
theorem watchedPoll_ends {r : EStateM.Result Stop (Machine Reader) Unit}
    (hrun : watchedPoll (statusDrive io σ words) io fuel s = r)
    (hr : ∀ s', r ≠ .error .outOfFuel s') :
    ∃ i j, PollEnds σ s.dev.statuses i j ∧
      r = if Failed (σ j) then
          .error (.panic "ERR set, device failure!\n") (s.readTo (j + 1))
        else
          .ok () (s.readTo (j + 1)) := by
  rw [watchedPoll, bind_run_ok delay_run] at hrun
  cases hidle : await (readStatus (statusDrive io σ words) io) Idle fuel s with
  | error why s₁ =>
      rw [bind_run_error hidle, awaitStatus_error hidle] at hrun
      exact absurd hrun.symm (hr s₁)
  | ok status s₁ =>
      rw [bind_run_ok hidle] at hrun
      obtain ⟨i, hi, hifuel, -, rfl⟩ := awaitStatus_iff.mp hidle
      cases hanswer : await (readStatus (statusDrive io σ words) io) Answers fuel (s.readTo (i + 1)) with
      | error why s₂ =>
          rw [bind_run_error hanswer, awaitStatus_error hanswer] at hrun
          exact absurd hrun.symm (hr s₂)
      | ok status' s₂ =>
          obtain ⟨j, hj, hjfuel, -⟩ := awaitStatus_iff.mp hanswer
          refine ⟨i, j, ⟨hi, hj⟩, ?_⟩
          rw [← watchedPoll_of_ends ⟨hi, hj⟩ hifuel hjfuel, watchedPoll, bind_run_ok delay_run,
            bind_run_ok hidle, hrun]

theorem watchedPoll_ok (hrun : watchedPoll (statusDrive io σ words) io fuel s = .ok () s') :
    ∃ i j, PollEnds σ s.dev.statuses i j ∧ ¬Failed (σ j) ∧ s' = s.readTo (j + 1) := by
  obtain ⟨i, j, hends, hr⟩ := watchedPoll_ends hrun fun _ => nofun
  by_cases hfailed : Failed (σ j)
  · rw [if_pos hfailed] at hr
    cases hr
  · rw [if_neg hfailed] at hr
    cases hr
    exact ⟨i, j, hends, hfailed, rfl⟩

theorem watchedPoll_panic {message : String}
    (hrun : watchedPoll (statusDrive io σ words) io fuel s = .error (.panic message) s') :
    ∃ i j, PollEnds σ s.dev.statuses i j ∧ Failed (σ j) ∧ s' = s.readTo (j + 1) := by
  obtain ⟨i, j, hends, hr⟩ := watchedPoll_ends hrun fun _ => nofun
  by_cases hfailed : Failed (σ j)
  · rw [if_pos hfailed] at hr
    cases hr
    exact ⟨i, j, hends, hfailed, rfl⟩
  · rw [if_neg hfailed] at hr
    cases hr

end Runs

/-! ## When the last byte is the right one -/

/-- Nothing read yet. -/
def unread : Machine Reader := ⟨fun _ => 0, ⟨0, 0⟩, []⟩

/-- **`_ata_poll` ends on a valid status iff the first answer after the first idle byte is idle.** -/
theorem pollsRight_iff (σ : Nat → UInt8) :
    PollsRight σ ↔ ∀ i j, PollEnds σ 0 i j → Idle (σ j) := by
  constructor
  case mp =>
    intro hright i j hends
    have hle := hends.2.le
    have hrun : watchedPoll (statusDrive 0 σ fun _ => 0) 0 (j + 1) unread = _ :=
      watchedPoll_of_ends hends (show i < 0 + (j + 1) by omega) (by omega)
    by_cases hfailed : Failed (σ j)
    · rw [if_pos hfailed] at hrun
      exact ((hright _ _ _ _ _ rfl).2 _ hrun).1
    · rw [if_neg hfailed] at hrun
      exact ((hright _ _ _ _ _ rfl).1 hrun).1
  case mpr =>
    intro hidle io words fuel s s' hs
    constructor
    · intro hrun
      obtain ⟨i, j, hends, hfailed, rfl⟩ := watchedPoll_ok hrun
      rw [hs] at hends
      exact ⟨hidle i j hends, hfailed, hends.2.holds.resolve_left hfailed⟩
    · intro message hrun
      obtain ⟨i, j, hends, hfailed, rfl⟩ := watchedPoll_panic hrun
      rw [hs] at hends
      exact ⟨hidle i j hends, hfailed⟩

/-- A drive that is busy again at the second read, with `DRQ` set. -/
theorem not_pollsRight : ¬PollsRight (fun n => if n = 1 then 0x88 else 0) := by
  intro hright
  have hends : PollEnds (fun n => if n = 1 then 0x88 else 0) 0 0 1 :=
    ⟨FirstFrom.here (by decide), FirstFrom.here (by decide)⟩
  have hrun : watchedPoll (statusDrive 0 (fun n => if n = 1 then 0x88 else 0) fun _ => 0) 0 2
      unread = _ :=
    watchedPoll_of_ends hends (by decide) (by decide)
  rw [if_neg (by decide)] at hrun
  exact absurd ((hright _ _ _ _ _ rfl).1 hrun).1 (by decide)

end Neutrino.Drivers
