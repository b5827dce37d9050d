import Neutrino.Lib.PortMachine
import Mathlib.Order.Bounds.Basic

/-!
# Waiting on a port

A run of a `MachineM` program that stops early leaves no state behind. `WatchedM` programs are the
same programs in a monad that keeps it, so that one can ask what a run had read when it gave up;
`forget` goes back, and commutes with each instruction.

`await read done` reads until a value is `done`. Against `streamBus`, a device whose status port
delivers a given sequence of bytes, it ends at the first `done` one (`await_stream_iff`) and at no other
place; with that, a wait is a statement about the sequence alone.
-/

namespace Neutrino.Lib

/-! ## Programs that keep their last state -/

abbrev WatchedM (W : Type) := EStateM Stop (Machine W)

namespace WatchedM

variable {W α β : Type}

def inb (bus : Bus W) (port : UInt16) : WatchedM W UInt8 := fun s =>
  .ok (bus.inb port s.dev).1 { s with dev := (bus.inb port s.dev).2 }

def stop (why : Stop) : WatchedM W α := fun s => .error why s

def forLoop (body : Nat → WatchedM W Unit) : Nat → Nat → WatchedM W Unit
  | 0, _ => pure ()
  | n + 1, i => do
      body i
      forLoop body n (i + 1)

/-- Read until a value is `done`. -/
def await (read : WatchedM W α) (done : α → Prop) [DecidablePred done] : Nat → WatchedM W α
  | 0 => stop .outOfFuel
  | fuel + 1 => do
      let a ← read
      if done a then
        return a
      else
        await read done fuel

/-- The program without the state of a run that stops. -/
def forget (x : WatchedM W α) : MachineM W α := fun s =>
  match x s with
  | .ok r s' => .ok (r, s')
  | .error why _ => .error why

/-! ## Forgetting -/

theorem forget_pure (a : α) : forget (pure a : WatchedM W α) = pure a := (rfl)

theorem forget_stop (why : Stop) : forget (stop why : WatchedM W α) = MachineM.stop why := (rfl)

theorem forget_inb (bus : Bus W) (port : UInt16) :
    forget (inb bus port) = MachineM.inb bus port := (rfl)

theorem forget_bind (x : WatchedM W α) (k : α → WatchedM W β) :
    forget (x >>= k) = forget x >>= fun a => forget (k a) := by
  funext s
  show forget (EStateM.bind x k) s = ((forget x) s).bind fun p => forget (k p.1) p.2
  unfold forget EStateM.bind
  cases x s with
  | ok a s' => rfl
  | error why s' => rfl

theorem forget_forLoop (body : Nat → WatchedM W Unit) (n : Nat) :
    ∀ i, forget (forLoop body n i) = MachineM.forLoop (fun j => forget (body j)) n i := by
  induction n with
  | zero => exact fun i => forget_pure ()
  | succ n ih =>
      intro i
      rw [forLoop, forget_bind, MachineM.forLoop]
      exact congrArg (forget (body i) >>= ·) (funext fun _ => ih (i + 1))

/-- One round of a wait. -/
theorem forget_await_succ (read : WatchedM W α) (done : α → Prop) [DecidablePred done] (fuel : Nat)
    (k : α → WatchedM W β) :
    forget (await read done (fuel + 1) >>= k) =
      forget read >>= fun a =>
        if done a then forget (k a) else forget (await read done fuel >>= k) := by
  rw [await, bind_assoc, forget_bind]
  refine congrArg (forget read >>= ·) (funext fun a => ?_)
  by_cases hdone : done a
  · rw [if_pos hdone, if_pos hdone, pure_bind]
  · rw [if_neg hdone, if_neg hdone]

theorem forget_run_ok_iff {x : WatchedM W α} {s s' : Machine W} {r : α} :
    forget x s = .ok (r, s') ↔ x s = .ok r s' := by
  unfold forget
  cases x s with
  | ok a s'' => simp
  | error why s'' => simp

/-! ## Runs, one instruction at a time -/

theorem inb_bind (bus : Bus W) (port : UInt16) (k : UInt8 → WatchedM W β) (s : Machine W) :
    (inb bus port >>= k) s = k (bus.inb port s.dev).1 { s with dev := (bus.inb port s.dev).2 } :=
  (rfl)

theorem bind_run_ok {x : WatchedM W α} {k : α → WatchedM W β} {s s' : Machine W} {a : α}
    (h : x s = .ok a s') : (x >>= k) s = k a s' := by
  show EStateM.bind x k s = _
  unfold EStateM.bind
  rw [h]

theorem bind_run_error {x : WatchedM W α} {k : α → WatchedM W β} {s s' : Machine W} {why : Stop}
    (h : x s = .error why s') : (x >>= k) s = .error why s' := by
  show EStateM.bind x k s = _
  unfold EStateM.bind
  rw [h]

/-- Rounds that change nothing. -/
theorem forLoop_idle {body : Nat → WatchedM W Unit} {s : Machine W} {n : Nat} :
    ∀ {i : Nat}, (∀ j, body j s = .ok () s) → forLoop body n i s = .ok () s := by
  induction n with
  | zero => exact fun _ => rfl
  | succ n ih =>
      intro i hbody
      rw [forLoop, bind_run_ok (hbody i)]
      exact ih hbody

/-- A wait gives up only for want of fuel. -/
theorem await_error {bus : Bus W} {port : UInt16} {done : UInt8 → Prop} [DecidablePred done]
    {fuel : Nat} {why : Stop} {s' : Machine W} :
    ∀ {s : Machine W}, await (inb bus port) done fuel s = .error why s' → why = .outOfFuel := by
  induction fuel with
  | zero =>
      intro s hrun
      cases hrun
      rfl
  | succ fuel ih =>
      intro s hrun
      rw [await, inb_bind] at hrun
      split at hrun
      · cases hrun
      · exact ih hrun

end WatchedM

/-! ## The first place from a point on -/

/-- `j` is the first place from `i` on where `P` holds. -/
def FirstFrom (P : Nat → Prop) (i j : Nat) : Prop :=
  IsLeast {k | i ≤ k ∧ P k} j

namespace FirstFrom

variable {P : Nat → Prop} {i j : Nat}

theorem le (h : FirstFrom P i j) : i ≤ j := h.1.1

theorem holds (h : FirstFrom P i j) : P j := h.1.2

theorem not_before (h : FirstFrom P i j) {k : Nat} (hik : i ≤ k) (hkj : k < j) : ¬P k := by
  intro hP
  have hle := h.2 ⟨hik, hP⟩
  omega

theorem unique {j' : Nat} (h : FirstFrom P i j) (h' : FirstFrom P i j') : j = j' :=
  IsLeast.unique h h'

theorem here (h : P i) : FirstFrom P i i :=
  ⟨⟨Nat.le_refl i, h⟩, fun _ hk => hk.1⟩

theorem of_bounds (hij : i ≤ j) (hP : P j) (hbefore : ∀ k, i ≤ k → k < j → ¬P k) :
    FirstFrom P i j := by
  refine ⟨⟨hij, hP⟩, ?_⟩
  intro k hk
  by_contra hlt
  exact hbefore k hk.1 (Nat.lt_of_not_le hlt) hk.2

theorem iff_here (h : P i) : FirstFrom P i j ↔ j = i := by
  constructor
  case mp =>
    intro hj
    exact hj.unique (here h)
  case mpr =>
    rintro rfl
    exact here h

theorem iff_later (h : ¬P i) : FirstFrom P i j ↔ FirstFrom P (i + 1) j := by
  constructor
  case mp =>
    intro hj
    have hne : i ≠ j := fun heq => h (heq ▸ hj.holds)
    have hle := hj.le
    exact of_bounds (by omega) hj.holds fun k hk => hj.not_before (by omega)
  case mpr =>
    intro hj
    have hle := hj.le
    refine of_bounds (by omega) hj.holds fun k hk hkj hP => ?_
    rcases Nat.eq_or_lt_of_le hk with heq | hlt
    · exact h (heq ▸ hP)
    · exact hj.not_before hlt hkj hP

/-- What holds somewhere from `i` on holds at a first place. -/
theorem exists_of {k : Nat} (hik : i ≤ k) (hP : P k) : ∃ j ≤ k, FirstFrom P i j := by
  classical
  have hex : ∃ n, i ≤ n ∧ P n := ⟨k, hik, hP⟩
  exact ⟨Nat.find hex, Nat.find_min' hex ⟨hik, hP⟩, Nat.find_spec hex,
    fun m hm => Nat.find_min' hex hm⟩

end FirstFrom

/-! ## A port that delivers a sequence -/

/-- How many status bytes and how many data words have been read. -/
structure Reader where
  statuses : Nat
  words : Nat
  deriving DecidableEq, Repr

/-- A device that answers on two ports, with a sequence of bytes on the one and a sequence of words on
the other, and does nothing with what is written to it. -/
def streamBus (statusPort dataPort : UInt16) (σ : Nat → UInt8) (words : Nat → UInt16) :
    Bus Reader where
  inb port d :=
    if port = statusPort then (σ d.statuses, { d with statuses := d.statuses + 1 }) else (0xFF, d)
  outb _ _ d := d
  inw port d :=
    if port = dataPort then (words d.words, { d with words := d.words + 1 }) else (0xFFFF, d)
  outw _ _ d := d

section Stream

variable {statusPort dataPort : UInt16} {σ : Nat → UInt8} {words : Nat → UInt16}

/-- `n` status bytes have been read. -/
def Machine.readTo (s : Machine Reader) (n : Nat) : Machine Reader :=
  { s with dev := { s.dev with statuses := n } }

theorem inb_stream (d : Reader) :
    (streamBus statusPort dataPort σ words).inb statusPort d =
      (σ d.statuses, { d with statuses := d.statuses + 1 }) :=
  if_pos rfl

theorem inb_stream_other {port : UInt16} (hport : port ≠ statusPort) (d : Reader) :
    (streamBus statusPort dataPort σ words).inb port d = (0xFF, d) :=
  if_neg hport

theorem inw_stream (d : Reader) :
    (streamBus statusPort dataPort σ words).inw dataPort d =
      (words d.words, { d with words := d.words + 1 }) :=
  if_pos rfl

/-- **A wait ends at the first byte it waits for**, given the fuel to get there. -/
theorem await_stream_iff {done : UInt8 → Prop} [DecidablePred done] {r : UInt8}
    {s' : Machine Reader} {fuel : Nat} :
    ∀ {s : Machine Reader},
      WatchedM.await (WatchedM.inb (streamBus statusPort dataPort σ words) statusPort) done fuel s =
          .ok r s' ↔
        ∃ j, FirstFrom (fun k => done (σ k)) s.dev.statuses j ∧ j < s.dev.statuses + fuel ∧
          r = σ j ∧ s' = s.readTo (j + 1) := by
  induction fuel with
  | zero =>
      intro s
      constructor
      · intro hrun
        cases hrun
      · rintro ⟨j, hj, hlt, -⟩
        have hle := hj.le
        omega
  | succ fuel ih =>
      intro s
      rw [WatchedM.await, WatchedM.inb_bind, inb_stream]
      by_cases hdone : done (σ s.dev.statuses)
      · rw [if_pos hdone]
        constructor
        · intro hrun
          cases hrun
          exact ⟨s.dev.statuses, FirstFrom.here hdone, by omega, rfl, rfl⟩
        · rintro ⟨j, hj, -, rfl, rfl⟩
          obtain rfl : j = s.dev.statuses := (FirstFrom.iff_here hdone).mp hj
          rfl
      · rw [if_neg hdone, ih]
        show (∃ j, FirstFrom (fun k => done (σ k)) (s.dev.statuses + 1) j ∧
          j < s.dev.statuses + 1 + fuel ∧ r = σ j ∧ s' = s.readTo (j + 1)) ↔ _
        constructor
        · rintro ⟨j, hj, hlt, hr, hs⟩
          exact ⟨j, (FirstFrom.iff_later hdone).mpr hj, by omega, hr, hs⟩
        · rintro ⟨j, hj, hlt, hr, hs⟩
          exact ⟨j, (FirstFrom.iff_later hdone).mp hj, by omega, hr, hs⟩

end Stream

end Neutrino.Lib
