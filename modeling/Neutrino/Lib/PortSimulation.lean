import Neutrino.Lib.PortMachine

/-!
# Two machines side by side

The same program runs on machines with different devices behind the ports. `Follows R R' x y` says that
wherever `y` returns from a related state, `x` does too, with the same result and in a related state. Its
rules are those of `Ends`; with them what is known of runs on a simple device is carried over to one that
does the same in a more complicated way (`Follows.ends`).
-/

namespace Neutrino.Lib.MachineM

variable {W V α β : Type}

/-- The same memory and the same console, and devices in the relation `D`. -/
structure Alike (D : W → V → Prop) (s : Machine W) (t : Machine V) : Prop where
  mem : s.mem = t.mem
  console : s.console = t.console
  dev : D s.dev t.dev

/-- `x` follows `y` from states that are alike for `D`, into states that are alike for `D'`. -/
def Follows (D D' : W → V → Prop) (x : MachineM W α) (y : MachineM V α) : Prop :=
  ∀ s t, Alike D s t → ∀ r t', y t = .ok (r, t') → ∃ s', x s = .ok (r, s') ∧ Alike D' s' t'

section Rules

variable {D D' D'' : W → V → Prop}

theorem Follows.mono {x : MachineM W α} {y : MachineM V α} {E E' : W → V → Prop}
    (h : Follows D D' x y) (hpre : ∀ d e, E d e → D d e) (hpost : ∀ d e, D' d e → E' d e) :
    Follows E E' x y := by
  intro s t hst r t' hrun
  obtain ⟨s', hrun', hst'⟩ := h s t ⟨hst.mem, hst.console, hpre _ _ hst.dev⟩ r t' hrun
  exact ⟨s', hrun', hst'.mem, hst'.console, hpost _ _ hst'.dev⟩

/-- **What is known of the simple device** holds of the other one. -/
theorem Follows.ends {x : MachineM W α} {y : MachineM V α} {s : Machine W} {t : Machine V}
    {Q : α → Machine V → Prop} (h : Follows D D' x y) (hst : Alike D s t) (hy : Ends y t Q) :
    Ends x s fun r s' => ∃ t', Alike D' s' t' ∧ Q r t' := by
  obtain ⟨r, t', hrun, hQ⟩ := hy
  obtain ⟨s', hrun', hst'⟩ := h s t hst r t' hrun
  exact ⟨r, s', hrun', t', hst', hQ⟩

/-! ## Sequences and loops -/

theorem Follows.pure (a : α) : Follows D D (pure a : MachineM W α) (pure a) := by
  intro s t hst r t' hrun
  cases hrun
  exact ⟨s, rfl, hst⟩

theorem Follows.stop (why : Stop) :
    Follows D D' (stop why : MachineM W α) (stop why : MachineM V α) :=
  fun _ _ _ _ _ hrun => nomatch hrun

theorem Follows.bind {x : MachineM W α} {y : MachineM V α} {k : α → MachineM W β}
    {k' : α → MachineM V β} (hx : Follows D D' x y) (hk : ∀ a, Follows D' D'' (k a) (k' a)) :
    Follows D D'' (x >>= k) (y >>= k') := by
  intro s t hst r t'' hrun
  obtain ⟨a, t', hfirst, hrest⟩ := bind_run_split hrun
  obtain ⟨s', hfirst', hst'⟩ := hx s t hst a t' hfirst
  obtain ⟨s'', hrest', hst''⟩ := hk a s' t' hst' r t'' hrest
  exact ⟨s'', by rw [bind_run_ok hfirst', hrest'], hst''⟩

theorem Follows.forLoop {body : Nat → MachineM W Unit} {body' : Nat → MachineM V Unit}
    (hbody : ∀ i, Follows D D (body i) (body' i)) (n : Nat) :
    ∀ i, Follows D D (MachineM.forLoop body n i) (MachineM.forLoop body' n i) := by
  induction n with
  | zero => exact fun _ => Follows.pure ()
  | succ n ih => exact fun i => (hbody i).bind fun _ => ih (i + 1)

/-! ## Instructions -/

theorem Follows.inb {bus : Bus W} {bus' : Bus V} {port : UInt16}
    (h : ∀ d e, D d e → (bus.inb port d).1 = (bus'.inb port e).1 ∧
      D' (bus.inb port d).2 (bus'.inb port e).2) :
    Follows D D' (MachineM.inb bus port) (MachineM.inb bus' port) := by
  intro s t hst r t' hrun
  obtain ⟨hvalue, hdev⟩ := h _ _ hst.dev
  cases hrun
  exact ⟨{ s with dev := (bus.inb port s.dev).2 }, by rw [← hvalue]; rfl, hst.mem, hst.console, hdev⟩

theorem Follows.inw {bus : Bus W} {bus' : Bus V} {port : UInt16}
    (h : ∀ d e, D d e → (bus.inw port d).1 = (bus'.inw port e).1 ∧
      D' (bus.inw port d).2 (bus'.inw port e).2) :
    Follows D D' (MachineM.inw bus port) (MachineM.inw bus' port) := by
  intro s t hst r t' hrun
  obtain ⟨hvalue, hdev⟩ := h _ _ hst.dev
  cases hrun
  exact ⟨{ s with dev := (bus.inw port s.dev).2 }, by rw [← hvalue]; rfl, hst.mem, hst.console, hdev⟩

theorem Follows.outb {bus : Bus W} {bus' : Bus V} {port : UInt16} {data : UInt8}
    (h : ∀ d e, D d e → D' (bus.outb port data d) (bus'.outb port data e)) :
    Follows D D' (MachineM.outb bus port data) (MachineM.outb bus' port data) := by
  intro s t hst r t' hrun
  cases hrun
  exact ⟨_, rfl, hst.mem, hst.console, h _ _ hst.dev⟩

theorem Follows.outw {bus : Bus W} {bus' : Bus V} {port : UInt16} {data : UInt16}
    (h : ∀ d e, D d e → D' (bus.outw port data d) (bus'.outw port data e)) :
    Follows D D' (MachineM.outw bus port data) (MachineM.outw bus' port data) := by
  intro s t hst r t' hrun
  cases hrun
  exact ⟨_, rfl, hst.mem, hst.console, h _ _ hst.dev⟩

theorem Follows.loadWord (a : Nat) :
    Follows D D (loadWord a : MachineM W UInt16) (loadWord a) := by
  intro s t hst r t' hrun
  cases hrun
  exact ⟨s, by rw [← hst.mem]; rfl, hst⟩

theorem Follows.storeWord (a : Nat) (v : UInt16) :
    Follows D D (storeWord a v : MachineM W Unit) (storeWord a v) := by
  intro s t hst r t' hrun
  cases hrun
  exact ⟨_, rfl, congrArg (fun m => m.store a 2 v.toNat) hst.mem, hst.console, hst.dev⟩

end Rules

end Neutrino.Lib.MachineM
