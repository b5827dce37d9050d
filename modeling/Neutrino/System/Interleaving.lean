import Neutrino.Drivers.TimerWait
import Neutrino.System.Irq

/-!
# Requests in any order

The routines of `irq_routines` do not share state: the timer's counts and runs the tasks, the keyboard's
reads codes and types, the others only acknowledge. So what a sequence of requests does to the tasks is
what its timer requests do, and what it does to the keyboard is what its codes do, however the two are
mixed (`requests_apart`). `timer_wait`, which polls between them, sees every timer request and none of the
others (`wait_among_requests`).
-/

namespace Neutrino.System

open Neutrino.Lib Neutrino.Drivers

/-! ## What a sequence does -/

/-- The requests are handled one after the other. -/
def handleAll (stray : StrayStore) : List (Fin 16) → KernelM Unit
  | [] => pure ()
  | irq :: irqs => do
      irqHandler stray (32 + UInt32.ofNat irq)
      handleAll stray irqs

/-- The bytes `n` reads of port 0x60 give. -/
def readCodes : Nat → List UInt8 → List UInt8
  | 0, _ => []
  | n + 1, codes => codes.headD 0 :: readCodes n codes.tail

/-- The kernel with another clock, once `n` codes were handled and `new` was written to the ports. -/
def Kernel.advanced (k : Kernel) (clock : Clock) (n : Nat) (new : List (UInt16 × UInt8)) : Kernel where
  machine := { k.machine with dev := ⟨k.writes ++ new, k.machine.dev.scancodes.drop n⟩ }
  irqRoutines := k.irqRoutines
  clock := clock
  keyboard := (readCodes n k.machine.dev.scancodes).foldl Drivers.keyboardHandler k.keyboard

theorem readCodes_add (n n' : Nat) (codes : List UInt8) :
    readCodes (n + n') codes = readCodes n codes ++ readCodes n' (codes.drop n) := by
  induction n generalizing codes with
  | zero => rw [Nat.zero_add, List.drop_zero, readCodes, List.nil_append]
  | succ n ih =>
      rw [Nat.succ_add, readCodes, readCodes, ih, List.cons_append, List.drop_tail]

namespace Kernel

variable (k : Kernel) (clock clock' : Clock) (n n' : Nat) (new new' : List (UInt16 × UInt8))

theorem advanced_advanced : (k.advanced clock n new).advanced clock' n' new' =
    k.advanced clock' (n + n') (new ++ new') := by
  unfold advanced Kernel.writes
  rw [readCodes_add, List.foldl_append, List.append_assoc, List.drop_drop]

theorem advanced_zero : k.advanced k.clock 0 [] = k := by
  unfold advanced Kernel.writes
  rw [List.append_nil]
  rfl

end Kernel

/-! ## One request -/

section Requests

variable {stray : StrayStore}

theorem acknowledge_run {c : Prop} [Decidable c] (k : Kernel) :
    (do
      if c then
        io (outportb portLog picSlaveCmd picCmdEoi)
      io (outportb portLog picMasterCmd picCmdEoi) : KernelM Unit) k =
      some ((), k.advanced k.clock 0 (eois (decide c))) := by
  by_cases hc : c
  · rw [if_pos hc, decide_eq_true hc]
    show some ((), (k.advanced k.clock 0 [(picSlaveCmd, picCmdEoi)]).advanced k.clock 0
      [(picMasterCmd, picCmdEoi)]) = _
    rw [Kernel.advanced_advanced]
    rfl
  · rw [if_neg hc, decide_eq_false hc]
    rfl

/-- The routine of the timer moves the clock, that of the keyboard handles a code. -/
theorem IrqRoutine.run_apart (handler : IrqRoutine) (k : Kernel) :
    handler.run stray k =
      (timerRun stray ([handler].count .timerHandler) k.clock).map fun clock =>
        ((), k.advanced clock ([handler].count .keyboardHandler) handler.eois) := by
  cases handler with
  | timerHandler =>
      show (Drivers.timerHandler stray k.clock).bind _ =
        ((Drivers.timerHandler stray k.clock).bind some).map _
      rw [Option.map_bind]
      congr 1
      funext clock
      show _ = some ((), k.advanced clock 0 [])
      unfold Kernel.advanced Kernel.writes
      rw [List.append_nil]
      rfl
  | keyboardHandler =>
      show _ = some ((), k.advanced k.clock 1 [])
      unfold Kernel.advanced Kernel.writes
      rw [List.append_nil, List.drop_one]
      rfl
  | primaryIrq => exact @acknowledge_run (ataPrimaryIrq ≥ 8) _ k
  | secondaryIrq => exact @acknowledge_run (ataSecondaryIrq ≥ 8) _ k

theorem installed_counts (irq : Fin 16) :
    ((installed.slot (32 + UInt32.ofNat irq - 32).toNat).toList.count .timerHandler =
      [irq].count 0) ∧
    ((installed.slot (32 + UInt32.ofNat irq - 32).toNat).toList.count .keyboardHandler =
      [irq].count 1) := by
  revert irq
  decide +kernel

/-- **One request** moves the clock if it is the timer's, handles a code if it is the keyboard's, and is
acknowledged. -/
theorem irqHandler_apart {k : Kernel} (hk : k.irqRoutines = installed) (irq : Fin 16) :
    irqHandler stray (32 + UInt32.ofNat irq) k =
      (timerRun stray ([irq].count 0) k.clock).map fun clock =>
        ((), k.advanced clock ([irq].count 1) (sent irq)) := by
  obtain ⟨htimer, hkeyboard⟩ := installed_counts irq
  have hcall : callHandler stray (32 + UInt32.ofNat irq) k =
      (timerRun stray ([irq].count 0) k.clock).map fun clock => ((), k.advanced clock ([irq].count 1)
        ((installed.slot (32 + UInt32.ofNat irq - 32).toNat).elim [] IrqRoutine.eois)) := by
    unfold callHandler
    rw [hk, ← htimer, ← hkeyboard]
    cases installed.slot (32 + UInt32.ofNat irq - 32).toNat with
    | none => exact congrArg (fun k => some ((), k)) k.advanced_zero.symm
    | some handler => exact handler.run_apart k
  show (callHandler stray (32 + UInt32.ofNat irq) k).bind (fun p => _) = _
  rw [hcall, Option.bind_map, Option.map_eq_bind]
  congr 1
  funext clock
  refine (acknowledge_run _).trans ?_
  exact congrArg (fun k => some ((), k)) (Kernel.advanced_advanced ..)

/-! ## Any number of them -/

theorem timerRun_bind (m n : Nat) (c : Clock) :
    (timerRun stray m c).bind (timerRun stray n) = timerRun stray (m + n) c := by
  induction m generalizing c with
  | zero => rw [Nat.zero_add]; rfl
  | succ m ih =>
      rw [Nat.succ_add, timerRun_succ, timerRun_succ, Option.bind_assoc]
      congr 1
      exact funext ih

/-- **A sequence of requests** goes as its timer requests go alone. If these return, it returns, and the
keyboard is as after its codes alone. -/
theorem handleAll_apart (irqs : List (Fin 16)) {k : Kernel} (hk : k.irqRoutines = installed) :
    handleAll stray irqs k = (timerRun stray (irqs.count 0) k.clock).map fun clock =>
      ((), k.advanced clock (irqs.count 1) (irqs.flatMap sent)) := by
  induction irqs generalizing k with
  | nil => exact congrArg (fun k => some ((), k)) k.advanced_zero.symm
  | cons irq irqs ih =>
      have hcount (n : Fin 16) : (irq :: irqs).count n = [irq].count n + irqs.count n :=
        @List.count_append _ _ n [irq] irqs
      show (irqHandler stray (32 + UInt32.ofNat irq) k).bind (fun p => handleAll stray irqs p.2) = _
      rw [irqHandler_apart hk, Option.bind_map, hcount 0, hcount 1, ← timerRun_bind, Option.map_bind]
      congr 1
      funext clock
      simp only [Function.comp_apply]
      rw [@ih (k.advanced clock ([irq].count 1) (sent irq)) hk]
      simp only [Kernel.advanced_advanced]
      rfl

/-- Runs of the dispatcher are such sequences. -/
theorem dispatches_iff (irqs : List (Fin 16)) {s s' : Served} (hs : s.kernel.irqRoutines = installed) :
    (∃ tr, Steps (Dispatch stray) s tr ∧ tr.map Prod.fst = irqs ∧ final s tr = s') ↔
      handleAll stray irqs s.kernel = some ((), s'.kernel) ∧ s'.handled = s.handled ++ irqs := by
  induction irqs generalizing s with
  | nil =>
      constructor
      · rintro ⟨tr, -, htr, rfl⟩
        obtain rfl := List.map_eq_nil_iff.mp htr
        exact ⟨rfl, (List.append_nil _).symm⟩
      · rintro ⟨hkernel, hhandled⟩
        obtain ⟨kernel, handled⟩ := s'
        cases hkernel
        obtain rfl : handled = s.handled := hhandled.trans (List.append_nil _)
        exact ⟨[], trivial, rfl, rfl⟩
  | cons irq irqs ih =>
      have hkept {k : Kernel} (h : irqHandler stray (32 + UInt32.ofNat irq) s.kernel = some ((), k)) :
          k.irqRoutines = installed := (irqHandler_writes _ k h).2.trans hs
      constructor
      · rintro ⟨tr, hrun, htr, hfinal⟩
        obtain _ | ⟨⟨irq', s₁⟩, tr⟩ := tr
        · cases htr
        obtain ⟨rfl, htail⟩ := List.cons.inj htr
        obtain ⟨⟨hstep, hhandled₁⟩, hrest⟩ := hrun
        obtain ⟨hkernel, hhandled⟩ := (ih (hkept hstep)).mp ⟨tr, hrest, htail, hfinal⟩
        refine ⟨?_, ?_⟩
        · show (irqHandler stray (32 + UInt32.ofNat irq') s.kernel).bind _ = _
          rw [hstep]
          exact hkernel
        · rw [hhandled, hhandled₁, List.append_assoc, List.singleton_append]
      · rintro ⟨hkernel, hhandled⟩
        obtain ⟨⟨⟨⟩, k⟩, hstep, hrest⟩ := Option.bind_eq_some_iff.mp hkernel
        obtain ⟨tr, hrun, htr, hfinal⟩ := (@ih ⟨k, s.handled ++ [irq]⟩ (hkept hstep)).mpr
          ⟨hrest, by rw [hhandled, List.append_assoc, List.singleton_append]⟩
        exact ⟨(irq, ⟨k, s.handled ++ [irq]⟩) :: tr, ⟨⟨hstep, rfl⟩, hrun⟩,
          congrArg (irq :: ·) htr, hfinal⟩

/-- **Requests in any order.** The runs that handle `irqs` end where the timer requests among them lead the
clock, the codes read by the keyboard requests lead the keyboard, and all have been acknowledged. There is
one iff the timer requests alone return. -/
theorem requests_apart (stray : StrayStore) (clock : Clock) (keyboard : Keyboard) (mem : ByteMemory)
    (scancodes : List UInt8) (irqs : List (Fin 16)) (s : Served) :
    (∃ tr, Steps (Dispatch stray) (Served.start clock keyboard mem scancodes) tr ∧
      tr.map Prod.fst = irqs ∧ final (Served.start clock keyboard mem scancodes) tr = s) ↔
    ∃ clock', timerRun stray (irqs.count 0) clock = some clock' ∧
      s = ⟨(Served.start clock keyboard mem scancodes).kernel.advanced clock' (irqs.count 1)
        (irqs.flatMap sent), irqs⟩ := by
  rw [dispatches_iff irqs rfl, handleAll_apart irqs rfl, Option.map_eq_some_iff]
  obtain ⟨kernel, handled⟩ := s
  constructor
  · rintro ⟨⟨clock', hclock, hkernel⟩, hhandled⟩
    cases hkernel
    cases hhandled
    exact ⟨clock', hclock, rfl⟩
  · rintro ⟨clock', hclock, hs⟩
    cases hs
    exact ⟨⟨clock', hclock, rfl⟩, rfl⟩

/-! ## Waiting among them -/

theorem handleAll_append (irqs irqs' : List (Fin 16)) (k : Kernel) :
    handleAll stray (irqs ++ irqs') k =
      (handleAll stray irqs k).bind fun p => handleAll stray irqs' p.2 := by
  induction irqs generalizing k with
  | nil => rfl
  | cons irq irqs ih =>
      show (irqHandler stray _ k).bind _ = ((irqHandler stray _ k).bind _).bind _
      rw [Option.bind_assoc]
      congr 1
      funext p
      exact ih p.2

/-- The loop of `timer_wait` from evaluation `i` of its condition. The requests `between i` are handled
behind it. -/
def waitLoopAmong (stray : StrayStore) (eticks : UInt32) (between : Nat → List (Fin 16)) :
    Nat → Nat → KernelM Nat
  | 0, _ => fun _ => none
  | fuel + 1, i => fun k =>
      if Waiting k.clock.timerTicks eticks then
        (handleAll stray (between i) k).bind fun p =>
          waitLoopAmong stray eticks between fuel (i + 1) p.2
      else
        some (i, k)

/-- It returns the number of the evaluation that ended the loop. -/
def timerWaitAmong (stray : StrayStore) (ticks : Int32) (between : Nat → List (Fin 16))
    (fuel : Nat) : KernelM Nat := fun k =>
  waitLoopAmong stray (waitTarget k.clock.timerTicks ticks) between fuel 0 k

/-- The requests handled before evaluation `n`. -/
def requestsBefore (between : Nat → List (Fin 16)) (n : Nat) : List (Fin 16) :=
  (List.range n).flatMap between

/-- How many of them were `irq`. -/
def countBefore (irq : Fin 16) (between : Nat → List (Fin 16)) (n : Nat) : Nat :=
  (requestsBefore between n).count irq

section Wait

variable {between : Nat → List (Fin 16)} {k k' : Kernel} {ticks : Int32} {n : Nat}

theorem requestsBefore_succ (n : Nat) :
    requestsBefore between (n + 1) = requestsBefore between n ++ between n := by
  unfold requestsBefore
  rw [List.range_succ, List.flatMap_append, List.flatMap_singleton]

theorem countBefore_mono (irq : Fin 16) {i n : Nat} (h : i ≤ n) :
    countBefore irq between i ≤ countBefore irq between n := by
  induction h with
  | refl => exact Nat.le_refl _
  | step _ ih =>
      unfold countBefore at ih ⊢
      rw [requestsBefore_succ, List.count_append]
      exact Nat.le_add_right_of_le ih

/-- What is handled in the end is handled on the way. -/
theorem returns_before {i n : Nat} (h : i ≤ n)
    (hrun : handleAll stray (requestsBefore between n) k = some ((), k')) :
    ∃ k₁, handleAll stray (requestsBefore between i) k = some ((), k₁) := by
  induction h generalizing k' with
  | refl => exact ⟨k', hrun⟩
  | step _ ih =>
      rw [requestsBefore_succ, handleAll_append] at hrun
      obtain ⟨⟨⟨⟩, k₁⟩, hfirst, -⟩ := Option.bind_eq_some_iff.mp hrun
      exact ih hfirst

/-- The condition holds at an evaluation iff too few ticks were counted before. -/
theorem waiting_among_iff (hk : k.irqRoutines = installed) (hticks : 0 ≤ ticks)
    (hsum : k.clock.timerTicks.toUInt32.toNat + ticks.toNatClampNeg < 2 ^ 32)
    (hround : k.clock.timerTicks.toUInt32.toNat + countBefore 0 between n < 2 ^ 32)
    (hrun : handleAll stray (requestsBefore between n) k = some ((), k')) :
    Waiting k'.clock.timerTicks (waitTarget k.clock.timerTicks ticks) ↔
      countBefore 0 between n < ticks.toNatClampNeg := by
  rw [handleAll_apart _ hk] at hrun
  obtain ⟨clock, hclock, hk'⟩ := Option.map_eq_some_iff.mp hrun
  cases hk'
  show Waiting clock.timerTicks _ ↔ _
  rw [timerRun_timerTicks hclock, waiting_iff _ hticks, Nat.mod_eq_of_lt hsum]
  change (_ + countBefore 0 between n) % _ < _ ↔ _
  rw [Nat.mod_eq_of_lt hround]
  exact Nat.add_lt_add_iff_left

theorem waitLoopAmong_run {eticks : UInt32} {kn : Kernel}
    (hrun : handleAll stray (requestsBefore between n) k = some ((), kn))
    (hwaiting : ∀ i < n, ∀ ki, handleAll stray (requestsBefore between i) k = some ((), ki) →
      Waiting ki.clock.timerTicks eticks)
    (hdone : ¬Waiting kn.clock.timerTicks eticks) :
    ∀ {left i fuel : Nat} {ki : Kernel}, i + left = n → left < fuel →
      handleAll stray (requestsBefore between i) k = some ((), ki) →
      waitLoopAmong stray eticks between fuel i ki = some (n, kn)
  | _, _, 0, _, _, hfuel, _ => absurd hfuel (Nat.not_lt_zero _)
  | 0, i, fuel + 1, ki, hi, _, hki => by
      obtain rfl : i = n := hi
      obtain rfl : ki = kn := congrArg Prod.snd (Option.some.inj (hki.symm.trans hrun))
      exact if_neg hdone
  | left + 1, i, fuel + 1, ki, hi, hfuel, hki => by
      obtain ⟨k₁, hk₁⟩ := returns_before (show i + 1 ≤ n by omega) hrun
      have hnext : handleAll stray (between i) ki = some ((), k₁) := by
        rw [requestsBefore_succ, handleAll_append, hki] at hk₁
        exact hk₁
      refine (if_pos (hwaiting i (by omega) ki hki)).trans ?_
      rw [hnext]
      exact waitLoopAmong_run hrun hwaiting hdone (by omega) (Nat.lt_of_succ_lt_succ hfuel) hk₁

end Wait

/-- **`timer_wait` among requests of all kinds** returns from the first evaluation before which enough ticks
were counted, however many come between two evaluations, if the counter does not come round. -/
theorem wait_among_requests (stray : StrayStore) (k : Kernel) (hk : k.irqRoutines = installed)
    (ticks : Int32) (hticks : 0 ≤ ticks) (between : Nat → List (Fin 16)) (last : Nat)
    (henough : ticks.toNatClampNeg ≤ countBefore 0 between last)
    (hround : k.clock.timerTicks.toUInt32.toNat + countBefore 0 between last < 2 ^ 32)
    (hreturns : (handleAll stray (requestsBefore between last) k).isSome) :
    ∃ n ≤ last, ticks.toNatClampNeg ≤ countBefore 0 between n ∧
      (∀ i < n, countBefore 0 between i < ticks.toNatClampNeg) ∧
      ∃ k', handleAll stray (requestsBefore between n) k = some ((), k') ∧
        ∀ fuel, n < fuel → timerWaitAmong stray ticks between fuel k = some (n, k') := by
  classical
  have hex : ∃ n, ticks.toNatClampNeg ≤ countBefore 0 between n := ⟨last, henough⟩
  obtain ⟨n, hn⟩ : ∃ n, n = Nat.find hex := ⟨_, rfl⟩
  have hle : n ≤ last := hn ▸ Nat.find_min' hex henough
  have hspec : ticks.toNatClampNeg ≤ countBefore 0 between n := hn ▸ Nat.find_spec hex
  have hbefore (i : Nat) (hi : i < n) : countBefore 0 between i < ticks.toNatClampNeg :=
    Nat.lt_of_not_le (Nat.find_min hex (hn ▸ hi))
  have hrounds (i : Nat) (hi : i ≤ n) :
      k.clock.timerTicks.toUInt32.toNat + countBefore 0 between i < 2 ^ 32 := by
    have hmono := @countBefore_mono between 0 _ _ (Nat.le_trans hi hle)
    omega
  have hsum : k.clock.timerTicks.toUInt32.toNat + ticks.toNatClampNeg < 2 ^ 32 := by omega
  obtain ⟨⟨⟨⟩, k₀⟩, hall⟩ := Option.isSome_iff_exists.mp hreturns
  obtain ⟨k', hrun⟩ := returns_before hle hall
  refine ⟨n, hle, hspec, hbefore, k', hrun, fun fuel hfuel => ?_⟩
  apply waitLoopAmong_run hrun _ _ (Nat.zero_add n) hfuel rfl
  · intro i hi ki hki
    exact (waiting_among_iff hk hticks hsum (hrounds i (Nat.le_of_lt hi)) hki).mpr (hbefore i hi)
  · intro hwaiting
    exact absurd ((waiting_among_iff hk hticks hsum (hrounds n (Nat.le_refl n)) hrun).mp hwaiting)
      (Nat.not_lt_of_le hspec)

end Requests

/-- A tick and a key between any two evaluations. -/
theorem keys_while_waiting :
    ∃ n ≤ 2, (2 : Int32).toNatClampNeg ≤ countBefore 0 (fun _ => [0, 1]) n ∧
      (∀ i < n, countBefore 0 (fun _ => [0, 1]) i < (2 : Int32).toNatClampNeg) ∧
      ∃ k', handleAll .faults (requestsBefore (fun _ => [0, 1]) n) Served.quiet.kernel = some ((), k') ∧
        ∀ fuel, n < fuel →
          timerWaitAmong .faults 2 (fun _ => [0, 1]) fuel Served.quiet.kernel = some (n, k') :=
  wait_among_requests .faults Served.quiet.kernel rfl 2 (by decide) (fun _ => [0, 1]) 2 (by decide)
    (by decide) (by
      rw [handleAll_apart _ rfl, Option.isSome_map]
      decide)

end Neutrino.System
