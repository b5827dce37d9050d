import Mathlib.Data.List.Basic

/-!
# Bounded stacks

A last-in, first-out store for at most `cap` values. A push onto a full stack and a pop from an
empty one change nothing (`pop_of_empty`).
-/

namespace Neutrino.Lib

/-- The values stored, the latest first. -/
structure BoundedStack (α : Type) (cap : Nat) where
  items : List α
  fits : items.length ≤ cap

namespace BoundedStack

variable {α : Type} {cap : Nat}

def empty (α : Type) (cap : Nat) : BoundedStack α cap := ⟨[], Nat.zero_le cap⟩

/-- There is room for another value. -/
def HasRoom (s : BoundedStack α cap) : Prop := s.items.length < cap

instance (s : BoundedStack α cap) : Decidable s.HasRoom := by
  unfold HasRoom
  infer_instance

def push (s : BoundedStack α cap) (a : α) : BoundedStack α cap :=
  if h : s.HasRoom then ⟨a :: s.items, h⟩ else s

def pop (s : BoundedStack α cap) : BoundedStack α cap :=
  ⟨s.items.tail, by rw [List.length_tail]; exact Nat.le_trans (Nat.sub_le _ _) s.fits⟩

@[simp] theorem items_empty : (empty α cap).items = [] := rfl

@[simp] theorem items_pop (s : BoundedStack α cap) : s.pop.items = s.items.tail := rfl

theorem items_push {s : BoundedStack α cap} (h : s.HasRoom) (a : α) :
    (s.push a).items = a :: s.items := by
  unfold push
  rw [dif_pos h]

theorem pop_of_empty {s : BoundedStack α cap} (h : s.items = []) : s.pop = s := by
  obtain ⟨items, fits⟩ := s
  cases h
  rfl

end BoundedStack

end Neutrino.Lib
