import Neutrino.Lib.ByteMemory

/-!
# A machine with I/O ports

Driver code reads and writes memory, reads and writes device registers through port instructions,
and may give up. The devices are a parameter: a `Bus` says what one `in` or `out` instruction does
to the state `W` behind the ports. A loop that waits for a device need not end, so such loops take a
fuel argument; running out of it is `Stop.outOfFuel`.

`Ends x s Q` — `x` started in `s` returns, and its result and final state satisfy `Q` — is what
results about such code are stated with. Its rules follow the code: one for a sequence
(`Ends.bind`), one for a counted loop (`Ends.forLoop`).

`Keeps R x` — no run of `x` that returns leaves the relation `R` between its first and its last state.
It has the same rules; whether the run returns is another matter.
-/

namespace Neutrino.Lib

/-- What the four port instructions do to the devices. -/
structure Bus (W : Type) where
  inb : UInt16 → W → UInt8 × W
  outb : UInt16 → UInt8 → W → W
  inw : UInt16 → W → UInt16 × W
  outw : UInt16 → UInt16 → W → W

/-- Memory, the devices, and the lines printed so far. -/
structure Machine (W : Type) where
  mem : ByteMemory
  dev : W
  console : List String

/-- Why a run did not return. -/
inductive Stop where
  | outOfFuel
  | panic (message : String)
  deriving DecidableEq, Repr

abbrev MachineM (W : Type) := StateT (Machine W) (Except Stop)

namespace MachineM

variable {W α β : Type}

/-! ## Instructions -/

def inb (bus : Bus W) (port : UInt16) : MachineM W UInt8 := fun s =>
  .ok ((bus.inb port s.dev).1, { s with dev := (bus.inb port s.dev).2 })

def outb (bus : Bus W) (port : UInt16) (data : UInt8) : MachineM W Unit := fun s =>
  .ok ((), { s with dev := bus.outb port data s.dev })

def inw (bus : Bus W) (port : UInt16) : MachineM W UInt16 := fun s =>
  .ok ((bus.inw port s.dev).1, { s with dev := (bus.inw port s.dev).2 })

def outw (bus : Bus W) (port : UInt16) (data : UInt16) : MachineM W Unit := fun s =>
  .ok ((), { s with dev := bus.outw port data s.dev })

def loadByte (a : Nat) : MachineM W UInt8 := fun s => .ok (s.mem a, s)

/-- Load a 16-bit word. -/
def loadWord (a : Nat) : MachineM W UInt16 := fun s =>
  .ok (UInt16.ofNat (s.mem.load a 2), s)

/-- Store a 16-bit word. -/
def storeWord (a : Nat) (v : UInt16) : MachineM W Unit := fun s =>
  .ok ((), { s with mem := s.mem.store a 2 v.toNat })

def print (text : String) : MachineM W Unit := fun s =>
  .ok ((), { s with console := s.console ++ [text] })

def stop (why : Stop) : MachineM W α := fun _ => .error why

/-- `for (int i = start; …; i++) body(i);`, `n` times. -/
def forLoop (body : Nat → MachineM W Unit) : Nat → Nat → MachineM W Unit
  | 0, _ => pure ()
  | n + 1, i => do
      body i
      forLoop body n (i + 1)

/-! ## Execution, one instruction at a time -/

theorem loadWord_bind (a : Nat) (k : UInt16 → MachineM W β) (s : Machine W) :
    (loadWord a >>= k) s = k (UInt16.ofNat (s.mem.load a 2)) s := (rfl)

theorem storeWord_run (a : Nat) (v : UInt16) (s : Machine W) :
    storeWord a v s = .ok ((), { s with mem := s.mem.store a 2 v.toNat }) := (rfl)

theorem pure_run (x : α) (s : Machine W) : (pure x : MachineM W α) s = .ok (x, s) := (rfl)

theorem bind_run_ok {x : MachineM W α} {k : α → MachineM W β} {s s' : Machine W} {r : α}
    (h : x s = .ok (r, s')) : (x >>= k) s = k r s' := by
  show (x s).bind (fun p => k p.1 p.2) = _
  rw [h]
  rfl

/-- A sequence that returns has returned from both its parts. -/
theorem bind_run_split {x : MachineM W α} {k : α → MachineM W β} {s s'' : Machine W} {r : β}
    (h : (x >>= k) s = .ok (r, s'')) : ∃ a s', x s = .ok (a, s') ∧ k a s' = .ok (r, s'') := by
  change (x s).bind (fun p => k p.1 p.2) = _ at h
  cases hfirst : x s with
  | error why =>
      rw [hfirst] at h
      cases h
  | ok first =>
      rw [hfirst] at h
      exact ⟨first.1, first.2, rfl, h⟩

/-! ## Runs that agree -/

theorem bind_run_congr {x y : MachineM W α} {k l : α → MachineM W β} {s : Machine W}
    (hx : x s = y s) (hk : ∀ r s', y s = .ok (r, s') → k r s' = l r s') :
    (x >>= k) s = (y >>= l) s := by
  show (x s).bind (fun p => k p.1 p.2) = (y s).bind (fun p => l p.1 p.2)
  rw [hx]
  cases hrun : y s with
  | error why => rfl
  | ok first => exact hk first.1 first.2 hrun

/-- **Two loops whose bodies agree** where an invariant of the second holds. -/
theorem forLoop_congr {body body' : Nat → MachineM W Unit} {I : Machine W → Prop} {n : Nat} :
    ∀ {i : Nat} {s : Machine W},
      (∀ j s, i ≤ j → j < i + n → I s → body j s = body' j s) →
      (∀ j s r s', i ≤ j → j < i + n → I s → body' j s = .ok (r, s') → I s') → I s →
      forLoop body n i s = forLoop body' n i s := by
  induction n with
  | zero =>
      intro i s _ _ _
      rfl
  | succ n ih =>
      intro i s hagree hkeeps hI
      apply bind_run_congr (hagree i s (Nat.le_refl i) (by omega) hI)
      intro r s' hrun
      exact ih (fun j s hlo hhi => hagree j s (by omega) (by omega))
        (fun j s r s' hlo hhi => hkeeps j s r s' (by omega) (by omega))
        (hkeeps i s r s' (Nat.le_refl i) (by omega) hI hrun)

/-! ## Runs that return -/

/-- `x` returns from `s`, with a result and a state that satisfy `Q`. -/
def Ends (x : MachineM W α) (s : Machine W) (Q : α → Machine W → Prop) : Prop :=
  ∃ r s', x s = .ok (r, s') ∧ Q r s'

theorem Ends.bind {x : MachineM W α} {k : α → MachineM W β} {s : Machine W}
    {P : α → Machine W → Prop} {Q : β → Machine W → Prop}
    (hx : Ends x s P) (hk : ∀ r s', P r s' → Ends (k r) s' Q) : Ends (x >>= k) s Q := by
  obtain ⟨r, s', hrun, hP⟩ := hx
  obtain ⟨r', s'', hrun', hQ⟩ := hk r s' hP
  exact ⟨r', s'', by rw [bind_run_ok hrun, hrun'], hQ⟩

theorem Ends.mono {x : MachineM W α} {s : Machine W} {P Q : α → Machine W → Prop}
    (hx : Ends x s P) (h : ∀ r s', P r s' → Q r s') : Ends x s Q := by
  obtain ⟨r, s', hrun, hP⟩ := hx
  exact ⟨r, s', hrun, h r s' hP⟩

theorem Ends.of_run {x : MachineM W α} {s s' : Machine W} {r : α} {Q : α → Machine W → Prop}
    (hQ : Ends x s Q) (hrun : x s = .ok (r, s')) : Q r s' := by
  obtain ⟨r', s'', hrun', hQ⟩ := hQ
  rw [hrun] at hrun'
  cases hrun'
  exact hQ

/-- A run has one outcome: whatever else is known of it holds of that one. -/
theorem Ends.and {x : MachineM W α} {s : Machine W} {P Q : α → Machine W → Prop}
    (hP : Ends x s P) (hQ : Ends x s Q) : Ends x s fun r s' => P r s' ∧ Q r s' := by
  obtain ⟨r, s', hrun, hP⟩ := hP
  exact ⟨r, s', hrun, hP, hQ.of_run hrun⟩

/-- **A counted loop carries an invariant.** -/
theorem Ends.forLoop {body : Nat → MachineM W Unit} {I : Nat → Machine W → Prop} {n : Nat} :
    ∀ {i : Nat} {s : Machine W},
      (∀ j s, i ≤ j → j < i + n → I j s → Ends (body j) s fun _ => I (j + 1)) → I i s →
      Ends (MachineM.forLoop body n i) s fun _ => I (i + n) := by
  induction n with
  | zero =>
      intro i s _ hI
      exact ⟨(), s, rfl, hI⟩
  | succ n ih =>
      intro i s hbody hI
      apply Ends.bind (hbody i s (Nat.le_refl i) (by omega) hI)
      intro _ s' hI'
      have hrest := ih (i := i + 1)
        (fun j s hlo hhi => hbody j s (by omega) (by omega)) hI'
      rwa [show i + 1 + n = i + (n + 1) by omega] at hrest

/-! ## What runs leave alone -/

/-- A run of `x` that returns goes from a state to one in the relation `R` to it. -/
def Keeps (R : Machine W → Machine W → Prop) (x : MachineM W α) : Prop :=
  ∀ s r s', x s = .ok (r, s') → R s s'

section Keeps

variable {R : Machine W → Machine W → Prop}

theorem Keeps.pure (hrefl : ∀ s, R s s) (x : α) : Keeps R (pure x : MachineM W α) := by
  intro s r s' hrun
  cases hrun
  exact hrefl s

theorem Keeps.stop (why : Stop) : Keeps R (stop why : MachineM W α) := by
  intro s r s' hrun
  cases hrun

theorem Keeps.bind (htrans : ∀ s s' s'', R s s' → R s' s'' → R s s'') {x : MachineM W α}
    {k : α → MachineM W β} (hx : Keeps R x) (hk : ∀ r, Keeps R (k r)) : Keeps R (x >>= k) := by
  intro s r s'' hrun
  obtain ⟨a, s', hfirst, hrest⟩ := bind_run_split hrun
  exact htrans s s' s'' (hx s a s' hfirst) (hk a s' r s'' hrest)

theorem Keeps.forLoop (hrefl : ∀ s, R s s) (htrans : ∀ s s' s'', R s s' → R s' s'' → R s s'')
    {body : Nat → MachineM W Unit} (hbody : ∀ i, Keeps R (body i)) (n : Nat) :
    ∀ i, Keeps R (MachineM.forLoop body n i) := by
  induction n with
  | zero => exact fun _ => Keeps.pure hrefl ()
  | succ n ih => exact fun i => Keeps.bind htrans (hbody i) fun _ => ih (i + 1)

theorem Keeps.forLoop_range (hrefl : ∀ s, R s s) (htrans : ∀ s s' s'', R s s' → R s' s'' → R s s'')
    {body : Nat → MachineM W Unit} {n : Nat} :
    ∀ {i : Nat}, (∀ j, i ≤ j → j < i + n → Keeps R (body j)) → Keeps R (MachineM.forLoop body n i) := by
  induction n with
  | zero => exact fun _ => Keeps.pure hrefl ()
  | succ n ih =>
      intro i hbody
      apply Keeps.bind htrans (hbody i (Nat.le_refl i) (by omega))
      intro _
      exact ih fun j hlo hhi => hbody j (by omega) (by omega)

end Keeps

/-! ## The memory outside a range -/

def SameOutside (lo hi : Nat) (s s' : Machine W) : Prop := ∀ a, a < lo ∨ hi ≤ a → s'.mem a = s.mem a

section Memory

variable {lo hi : Nat}

theorem SameOutside.refl (s : Machine W) : SameOutside lo hi s s := fun _ _ => rfl

theorem SameOutside.trans (s s' s'' : Machine W) (h : SameOutside lo hi s s')
    (h' : SameOutside lo hi s' s'') : SameOutside lo hi s s'' :=
  fun a ha => (h' a ha).trans (h a ha)

theorem Keeps.memory {x : MachineM W α} (h : Keeps (fun s s' => s'.mem = s.mem) x) :
    Keeps (SameOutside lo hi) x :=
  fun s r s' hrun a _ => congrFun (h s r s' hrun) a

theorem keeps_storeWord {a : Nat} (v : UInt16) (hlo : lo ≤ a) (hhi : a + 2 ≤ hi) :
    Keeps (W := W) (SameOutside lo hi) (storeWord a v) := by
  intro s r s' hrun x hx
  cases hrun
  exact ByteMemory.store_apply_of_outside (by omega)

end Memory

end MachineM

end Neutrino.Lib
