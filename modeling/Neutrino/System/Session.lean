import Neutrino.System.Messages
import Neutrino.System.RequestLines
import Neutrino.System.TaskTimes

/-!
# What handlers show

The handlers of the timer and the keyboard, the scheduler and the dispatcher, with all that they print. What
they do is what they do without the screen, and what they show follows from the ticks and the codes of the
keyboard alone, for any sequence of requests (`Ticking.handleAll_tells`).
-/

namespace Neutrino.System

open Neutrino.Lib Neutrino.Drivers Neutrino.Stdio

def Kernel.withThreads (k : Kernel) (threads : Threads) : Kernel :=
  { k with clock := { k.clock with threads := threads } }

namespace OnScreen

/-! ## The handlers -/

section Code

variable (m : VideoMode) (o : Output) (stray : StrayStore) (functions : UInt32 → SessionM Unit)

def threads : KernelM Threads := fun k => some (k.clock.threads, k)

/-- `manager->tasks[manager->current_task]` -/
def currentTask : KernelM Task := fun k => do
  let t ← k.clock.threads.manager.task k.clock.threads.manager.currentTask
  return (t, k)

/-- What `scheduler` does once the task `t` has run. -/
def finish (t : Task) : KernelM Unit := fun k => do
  let s := k.clock.threads
  let m ← markStates stray s.manager
  let m ← removeTask m m.currentTask
  let m ← advance stray m
  return ((), k.withThreads ⟨m, s.remTasks - 1, s.called ++ [t.call]⟩)

/-- `functions` are the functions of tasks, by their addresses. -/
def scheduler : SessionM Unit := do
  say m o "Entering scheduler\n" []
  let s ← silent threads
  if s.manager.numTasks = 0 then
    say m o "No tasks in task manager\n" []
  else
    let t ← silent currentTask
    functions t.currIns
    say m o "Task has completed running\n" []
    silent (finish stray t)
    let s ← silent threads
    say m o "There are %i tasks left.\n" [.int s.remTasks.toBitVec]

/-- `timer_ticks++` -/
def tick : KernelM Clock := fun k =>
  let clock := { k.clock with timerTicks := k.clock.timerTicks + 1 }
  some (clock, { k with clock })

/-- For the count of calls that the clock keeps. -/
def countCall : KernelM Unit := fun k =>
  some ((), { k with clock := { k.clock with fired := k.clock.fired + 1 } })

def timerHandler : SessionM Unit := do
  let c ← silent tick
  if c.timerTicks % 18 = 0 then
    if 0 < c.threads.remTasks then
      scheduler m o stray functions
      silent countCall

/-- The handler, on what it has read. -/
def press (scancode : UInt8) : SessionM Unit := fun s =>
  let t := keyPressed m o.lerp scancode ⟨s.kernel.keyboard, s.con⟩
  some ((), ⟨{ s.kernel with keyboard := t.keyboard }, t.con, s.calls⟩)

def keyboardHandler : SessionM Unit := do
  let scancode ← silent (io (inportb portLog 0x60))
  press m o scancode

def run : IrqRoutine → SessionM Unit
  | .timerHandler => timerHandler m o stray functions
  | .keyboardHandler => keyboardHandler m o
  | .primaryIrq => silent (irqSendEoi ataPrimaryIrq)
  | .secondaryIrq => silent (irqSendEoi ataSecondaryIrq)

def callHandler (intNo : UInt32) : SessionM Unit := do
  let handler ← silent fun k => some (k.irqRoutines.slot (intNo - 32).toNat, k)
  match handler with
  | some handler => run m o stray functions handler
  | none => pure ()

/-- What `irq_handler` does when the handler has returned. -/
def acknowledge (intNo : UInt32) : KernelM Unit := do
  if intNo ≥ 40 then
    io (outportb portLog 0xA0 0x20)
  io (outportb portLog 0x20 0x20)

def irqHandler (intNo : UInt32) : SessionM Unit := do
  callHandler m o stray functions intNo
  silent (acknowledge intNo)

def handleAll : List (Fin 16) → SessionM Unit
  | [] => pure ()
  | irq :: irqs => do
      irqHandler m o stray functions (32 + UInt32.ofNat irq)
      handleAll irqs

end Code

/-! ## What they show -/

def countText (remTasks : UInt32) : List UInt8 :=
  [literal "There are ", renderInt remTasks.toNat Piece.signedFlags 10 0 0,
    literal " tasks left.\n"].flatten

/-- A call of the scheduler. `text` is what the task shows. -/
def schedulerText (text : List Int8) (remTasks : UInt32) : List Int8 :=
  printed (literal "Entering scheduler\n") ++ (text ++
    (printed (literal "Task has completed running\n") ++ printed (countText remTasks)))

/-- A code from the keyboard. -/
def keyText (k : Keyboard) (code : UInt8) : List Int8 :=
  if isOrdinary code then [(kbdus (keyCodeOf k.shift k.caps code).toNat).toInt8] else []

section Handlers

variable {m : VideoMode} {o : Output} {stray : StrayStore} {functions : UInt32 → SessionM Unit}
  {k k' : Kernel}

theorem count_tells (remTasks : UInt32) :
    Tells m k (say m o "There are %i tasks left.\n" [.int remTasks.toBitVec]) () k
      (printed (countText remTasks)) := by
  have hformat : literal "There are %i tasks left.\n" =
      [literal "There are ", ['%', 'i'].map byte, literal " tasks left.\n"].flatten := by
    decide +kernel
  exact Tells.say [.text "There are " (by decide +kernel) (by decide +kernel),
    .signed 'i' remTasks (.inr rfl), .text " tasks left.\n" (by decide +kernel) (by decide +kernel)]
    [] hformat rfl (by simp)

theorem finish_eq {t : Task} {s' : Threads}
    (ht : k.clock.threads.manager.task k.clock.threads.manager.currentTask = some t)
    (hnum : k.clock.threads.manager.numTasks ≠ 0)
    (hs : System.scheduler stray k.clock.threads = some s') :
    finish stray t k = some ((), k.withThreads s') := by
  unfold System.scheduler at hs
  rw [if_neg hnum, ht, Option.bind_eq_bind, Option.bind_some] at hs
  obtain ⟨m₁, hmark, hs⟩ := Option.bind_eq_some_iff.mp hs
  obtain ⟨m₂, hremove, hs⟩ := Option.bind_eq_some_iff.mp hs
  obtain ⟨m₃, hadvance, hs⟩ := Option.bind_eq_some_iff.mp hs
  cases hs
  unfold finish
  simp only [Option.bind_eq_bind, hmark, Option.bind_some, hremove, hadvance]
  rfl

/-- **The scheduler** does what it does without the screen, and shows the text of its task. -/
theorem scheduler_tells {t : Task} {s' : Threads} {text : List Int8}
    (ht : k.clock.threads.manager.task k.clock.threads.manager.currentTask = some t)
    (hnum : k.clock.threads.manager.numTasks ≠ 0)
    (hs : System.scheduler stray k.clock.threads = some s')
    (htext : Tells m k (functions t.currIns) () k text) :
    Tells m k (scheduler m o stray functions) () (k.withThreads s')
      (schedulerText text s'.remTasks) := by
  have hcurrent : currentTask k = some (t, k) := by
    unfold currentTask
    rw [ht]
    rfl
  refine (Tells.plain (by decide +kernel) (by decide +kernel)).bind (Tells.after rfl ?_)
  rw [if_neg hnum]
  refine Tells.after hcurrent (htext.bind ?_)
  refine (Tells.plain (by decide +kernel) (by decide +kernel)).bind ?_
  exact Tells.after (finish_eq ht hnum hs) (Tells.after rfl (count_tells s'.remTasks))

theorem press_tells (code : UInt8) :
    Tells m k (press m o code) () { k with keyboard := Drivers.keyboardHandler k.keyboard code }
      (keyText k.keyboard code) := by
  intro s before hk hs
  have hevent := @Displays.event m o.lerp o.strings ⟨s.kernel.keyboard, s.con⟩ before
    (keyText s.kernel.keyboard code) (.key code) hs o.exact rfl fun _ => 0
  obtain ⟨s', hrun, hkeyboard, hs'⟩ := hevent
  cases hrun
  subst hk
  exact ⟨_, rfl, rfl, hs'⟩

end Handlers

/-! ## One request -/

/-- What timer request `n` shows. `texts` is what the tasks show, in the order in which they run. -/
def tickText (texts : List (List Int8)) (n : Nat) : List Int8 :=
  if n % 18 = 0 then
    match texts[n / 18 - 1]? with
    | some text => schedulerText text (UInt32.ofNat (texts.length - n / 18))
    | none => []
  else []

/-- The tasks run from slot `p` on. `shows` is what a function shows. -/
def runTexts (shows : UInt32 → List Int8) (ts : List Task) (p : Nat) : List (List Int8) :=
  ((ts.map Task.call).rotate p).map fun call => shows call.2

/-- Only every 18th request shows something, as long as tasks are left. -/
theorem tickText_eq_nil {texts : List (List Int8)} {n : Nat}
    (h : ¬((n + 1) % 18 = 0 ∧ n / 18 < texts.length)) : tickText texts (n + 1) = [] := by
  unfold tickText
  by_cases hmod : (n + 1) % 18 = 0
  · rw [if_pos hmod, List.getElem?_eq_none (by omega)]
  · rw [if_neg hmod]

theorem length_runTexts (shows : UInt32 → List Int8) (ts : List Task) (p : Nat) :
    (runTexts shows ts p).length = ts.length := by
  unfold runTexts
  rw [List.length_map, List.length_rotate, List.length_map]

/-- After `n` timer requests. -/
structure Ticking (ts : List Task) (p n : Nat) (k : Kernel) : Prop where
  routines : k.irqRoutines = installed
  ticks : k.clock.timerTicks = Int32.ofNat n
  threads : Rotating ts p (min (n / 18) ts.length) k.clock.threads

section Requests

variable {m : VideoMode} {o : Output} {functions : UInt32 → SessionM Unit} {shows : UInt32 → List Int8}
  {ts : List Task} {p n : Nat} {k k' : Kernel}

theorem Ticking.fires_iff (h : Ticking ts p n k) (hlen : ts.length ≤ 256) :
    (k.clock.timerTicks + 1) % 18 = 0 ∧ 0 < k.clock.threads.remTasks ↔
      (n + 1) % 18 = 0 ∧ n / 18 < ts.length := by
  have hrem := h.threads.rem
  have hleft : 0 < k.clock.threads.remTasks ↔ n / 18 < ts.length := by
    rw [UInt32.lt_iff_toNat_lt, UInt32.toNat_zero]
    omega
  rw [hleft]
  apply and_congr_left
  intro hlt
  have hnext : k.clock.timerTicks + 1 = Int32.ofNat (n + 1) := by
    rw [h.ticks, Int32.ofNat_add]
    rfl
  rw [hnext, mod_eighteen_iff (by omega)]

/-- `num_tasks` still counts the tasks that have run. -/
theorem Ticking.tasks_ne (h : Ticking ts p n k) (hlt : n / 18 < ts.length) :
    k.clock.threads.manager.numTasks ≠ 0 :=
  ne_of_toNat h.threads.num (Nat.ne_of_gt (Nat.zero_lt_of_lt hlt))

/-- The task that runs is the next of the rotated list. -/
theorem Ticking.next (h : Ticking ts p n k) (hlt : n / 18 < ts.length) {s' : Threads}
    (hs : System.scheduler .harmless k.clock.threads = some s')
    (h' : Rotating ts p (n / 18 + 1) s') :
    ∃ t, k.clock.threads.manager.task k.clock.threads.manager.currentTask = some t ∧
      (∃ u ∈ ts, u.currIns = t.currIns) ∧
      (runTexts shows ts p)[n / 18]? = some (shows t.currIns) ∧
      s'.remTasks = UInt32.ofNat (ts.length - (n / 18 + 1)) := by
  have hold := h.threads
  rw [Nat.min_eq_left (Nat.le_of_lt hlt)] at hold
  obtain ⟨t, ht, hcalled, -, -⟩ := scheduler_spec (h.tasks_ne hlt) hs
  -- what this call adds to the list of calls is the next of the rotation
  rw [h'.called, hold.called, List.take_add_one] at hcalled
  have hcall := Option.toList_eq_singleton_iff.mp (List.append_cancel_left hcalled)
  refine ⟨t, ht, ?_, ?_, ?_⟩
  · obtain ⟨u, hu, hcallu⟩ := List.mem_map.mp (List.mem_rotate.mp (List.mem_of_getElem? hcall))
    exact ⟨u, hu, congrArg Prod.snd hcallu⟩
  · unfold runTexts
    rw [List.getElem?_map, hcall]
    rfl
  · have hrem := h'.rem
    rw [← UInt32.toNat_inj, UInt32.toNat_ofNat_of_lt' (Nat.lt_of_le_of_lt (Nat.sub_le _ _) ?_)]
    · omega
    · have hbound := s'.manager.numTasks.toNat_lt
      rw [h'.num] at hbound
      exact hbound

/-- **The timer.** -/
theorem Ticking.timer_tells (h : Ticking ts p n k) (hlen : ts.length ≤ 256)
    (hshows : ∀ t ∈ ts, ∀ k, Tells m k (functions t.currIns) () k (shows t.currIns)) {c' : Clock}
    (hc' : Drivers.timerHandler .harmless k.clock = some c')
    (h' : Rotating ts p (min ((n + 1) / 18) ts.length) c'.threads) :
    Tells m k (timerHandler m o .harmless functions) () { k with clock := c' }
      (tickText (runTexts shows ts p) (n + 1)) := by
  have hlength := length_runTexts shows ts p
  refine Tells.after rfl ?_
  -- the counter wraps, but no task is left by then
  by_cases hfires : (n + 1) % 18 = 0 ∧ n / 18 < ts.length
  · obtain ⟨hnow, hleft⟩ := (h.fires_iff hlen).mpr hfires
    obtain ⟨hmod, hlt⟩ := hfires
    rw [if_pos hnow, if_pos hleft]
    unfold Drivers.timerHandler at hc'
    rw [if_pos hnow, if_pos hleft] at hc'
    obtain ⟨s', hs, hc'⟩ := Option.bind_eq_some_iff.mp hc'
    cases hc'
    have hdiv : (n + 1) / 18 = n / 18 + 1 := by omega
    rw [hdiv, Nat.min_eq_left hlt] at h'
    obtain ⟨t, ht, ⟨u, hu, hsame⟩, htext, hrem⟩ := h.next hlt hs h'
    have htick : tickText (runTexts shows ts p) (n + 1) =
        schedulerText (shows t.currIns) s'.remTasks := by
      unfold tickText
      rw [if_pos hmod, hdiv, Nat.add_sub_cancel, htext, hlength, hrem]
    have hrun : Tells m _ (scheduler m o .harmless functions) () _ _ :=
      scheduler_tells (k := { k with clock := ⟨k.clock.timerTicks + 1, k.clock.threads, k.clock.fired⟩ })
        ht (h.tasks_ne hlt) hs (hsame ▸ hshows u hu _)
    rw [htick, ← List.append_nil (schedulerText _ _)]
    exact hrun.bind (Tells.silent rfl)
  · have hnot := mt (h.fires_iff hlen).mp hfires
    rw [tickText_eq_nil (hlength ▸ hfires)]
    by_cases hnow : (k.clock.timerTicks + 1) % 18 = 0
    · have hleft : ¬0 < k.clock.threads.remTasks := fun hleft => hnot ⟨hnow, hleft⟩
      unfold Drivers.timerHandler at hc'
      rw [if_pos hnow, if_neg hleft] at hc'
      cases hc'
      rw [if_pos hnow, if_neg hleft]
      exact Tells.pure ()
    · rw [timerHandler_off hnow] at hc'
      cases hc'
      rw [if_neg hnow]
      exact Tells.pure ()

/-- What a request shows after `n` timer requests, with `codes` to come from the keyboard. -/
def requestText (texts : List (List Int8)) (n : Nat) (keyboard : Keyboard) (codes : List UInt8)
    (irq : Fin 16) : List Int8 :=
  if irq.val = 0 then tickText texts (n + 1)
  else if irq.val = 1 then keyText keyboard (codes.headD 0)
  else []

theorem installed_slot (irq : Fin 16) :
    installed.slot (32 + UInt32.ofNat irq - 32).toNat =
      if irq.val = 0 then some .timerHandler
      else if irq.val = 1 then some .keyboardHandler
      else if irq.val = 14 then some .primaryIrq
      else if irq.val = 15 then some .secondaryIrq
      else none := by
  revert irq
  decide +kernel

/-- **The routine of a line.** -/
theorem Ticking.callHandler_tells (h : Ticking ts p n k) (hlen : ts.length ≤ 256)
    (hshows : ∀ t ∈ ts, ∀ k, Tells m k (functions t.currIns) () k (shows t.currIns)) (irq : Fin 16)
    (hk' : System.callHandler .harmless (32 + UInt32.ofNat irq) k = some ((), k')) :
    Tells m k (callHandler m o .harmless functions (32 + UInt32.ofNat irq)) () k'
      (requestText (runTexts shows ts p) n k.keyboard k.machine.dev.scancodes irq) := by
  have hslot := installed_slot irq
  rw [← h.routines] at hslot
  unfold System.callHandler at hk'
  refine Tells.after (r := k.irqRoutines.slot (32 + UInt32.ofNat irq - 32).toNat) rfl ?_
  rw [hslot] at hk' ⊢
  unfold requestText
  by_cases htimer : irq.val = 0
  · rw [if_pos htimer] at hk' ⊢
    obtain ⟨c', hc', -, hthreads⟩ := h.threads.tick h.ticks hlen
    have hrun : (Drivers.timerHandler .harmless k.clock).bind
        (fun clock => some ((), { k with clock := clock })) = some ((), k') := hk'
    rw [hc'] at hrun
    cases hrun
    rw [if_pos htimer]
    exact h.timer_tells hlen hshows hc' hthreads
  rw [if_neg htimer] at hk' ⊢
  rw [if_neg htimer]
  by_cases hkeyboard : irq.val = 1
  · rw [if_pos hkeyboard] at hk' ⊢
    cases hk'
    rw [if_pos hkeyboard]
    exact Tells.after rfl (press_tells _)
  rw [if_neg hkeyboard] at hk' ⊢
  rw [if_neg hkeyboard]
  by_cases hprimary : irq.val = 14
  · rw [if_pos hprimary] at hk' ⊢
    exact Tells.silent hk'
  rw [if_neg hprimary] at hk' ⊢
  by_cases hsecondary : irq.val = 15
  · rw [if_pos hsecondary] at hk' ⊢
    exact Tells.silent hk'
  rw [if_neg hsecondary] at hk' ⊢
  cases hk'
  exact Tells.pure ()

/-- **One request** does what it does without the screen, and shows its text. -/
theorem Ticking.irqHandler_tells (h : Ticking ts p n k) (hlen : ts.length ≤ 256)
    (hshows : ∀ t ∈ ts, ∀ k, Tells m k (functions t.currIns) () k (shows t.currIns)) (irq : Fin 16)
    (hk' : System.irqHandler .harmless (32 + UInt32.ofNat irq) k = some ((), k')) :
    Tells m k (irqHandler m o .harmless functions (32 + UInt32.ofNat irq)) () k'
      (requestText (runTexts shows ts p) n k.keyboard k.machine.dev.scancodes irq) := by
  obtain ⟨⟨⟨⟩, k₁⟩, hcall, hack⟩ := Option.bind_eq_some_iff.mp hk'
  rw [← List.append_nil (requestText _ _ _ _ _)]
  exact (h.callHandler_tells hlen hshows irq hcall).bind (Tells.silent hack)

/-- A request returns, and is counted. -/
theorem Ticking.returns (h : Ticking ts p n k) (hlen : ts.length ≤ 256) (irq : Fin 16) :
    ∃ clock, System.irqHandler .harmless (32 + UInt32.ofNat irq) k =
        some ((), k.advanced clock ([irq].count 1) (sent irq)) ∧
      Ticking ts p (n + [irq].count 0) (k.advanced clock ([irq].count 1) (sent irq)) := by
  have hclock : ∃ clock, timerRun .harmless ([irq].count 0) k.clock = some clock ∧
      clock.timerTicks = Int32.ofNat (n + [irq].count 0) ∧
      Rotating ts p (min ((n + [irq].count 0) / 18) ts.length) clock.threads := by
    by_cases htimer : irq = 0
    · subst htimer
      obtain ⟨c', hc', hticks, hthreads⟩ := h.threads.tick h.ticks hlen
      refine ⟨c', ?_, hticks, hthreads⟩
      show (Drivers.timerHandler .harmless k.clock).bind some = some c'
      rw [hc']
      rfl
    · rw [List.count_singleton, if_neg (by simpa using htimer)]
      exact ⟨k.clock, rfl, h.ticks, h.threads⟩
  obtain ⟨clock, hrun, hticks, hthreads⟩ := hclock
  refine ⟨clock, ?_, h.routines, hticks, hthreads⟩
  rw [irqHandler_apart h.routines, hrun]
  rfl

/-! ## Any sequence of requests -/

/-- What a sequence of requests shows. -/
def requestsText (texts : List (List Int8)) : Nat → Keyboard → List UInt8 → List (Fin 16) → List Int8
  | _, _, _, [] => []
  | n, k, codes, irq :: irqs =>
      requestText texts n k codes irq ++
        (if irq.val = 0 then requestsText texts (n + 1) k codes irqs
        else if irq.val = 1 then
          requestsText texts n (Drivers.keyboardHandler k (codes.headD 0)) codes.tail irqs
        else requestsText texts n k codes irqs)

/-- **Any sequence of requests** is handled as without the screen. -/
theorem Ticking.handleAll_tells (hlen : ts.length ≤ 256)
    (hshows : ∀ t ∈ ts, ∀ k, Tells m k (functions t.currIns) () k (shows t.currIns)) (irqs : List (Fin 16))
    (h : Ticking ts p n k) :
    ∃ k', System.handleAll .harmless irqs k = some ((), k') ∧
      Tells m k (handleAll m o .harmless functions irqs) () k'
        (requestsText (runTexts shows ts p) n k.keyboard k.machine.dev.scancodes irqs) := by
  induction irqs generalizing n k with
  | nil => exact ⟨k, rfl, Tells.pure ()⟩
  | cons irq irqs ih =>
      obtain ⟨clock, hrun, hticking⟩ := h.returns hlen irq
      obtain ⟨k', hall, htells⟩ := ih hticking
      refine ⟨k', ?_, ?_⟩
      · show (System.irqHandler .harmless (32 + UInt32.ofNat irq) k).bind
          (fun r => System.handleAll .harmless irqs r.2) = _
        rw [hrun]
        exact hall
      · refine (h.irqHandler_tells hlen hshows irq hrun).bind ?_
        -- the state is that from which the other requests are handled, so only the texts differ
        convert htells using 1
        by_cases htimer : irq.val = 0
        · obtain rfl : irq = 0 := Fin.ext htimer
          rfl
        rw [if_neg htimer]
        by_cases hkeyboard : irq.val = 1
        · rw [if_pos hkeyboard]
          obtain rfl : irq = 1 := Fin.ext hkeyboard
          show requestsText _ n _ _ irqs =
            requestsText _ n _ (k.machine.dev.scancodes.drop 1) irqs
          rw [List.drop_one]
          rfl
        rw [if_neg hkeyboard]
        have hno (i : Fin 16) (hi : irq.val ≠ i.val) : [irq].count i = 0 := by
          rw [List.count_singleton, if_neg (by simpa [Fin.ext_iff] using hi)]
        rw [hno 0 htimer, hno 1 hkeyboard]
        rfl

end Requests

end OnScreen

end Neutrino.System
