import Mathlib.Data.List.Basic

/-!
# Blending runs of bytes

A draw changes the `n` places from an offset on. `paint` mixes a colour into each place; `smear` mixes
it into the first place, and then mixes into each of the others what the first one holds by then.

`smearAll_eq_iff` says when a sequence of draws cannot tell the two apart, for draws whose places are the
same or disjoint. Only the last draw on a place is asked about: the first place of a draw is painted and
smeared alike (`smearAll_off`), so that what was smeared over the others does not get any further.
-/

namespace Neutrino.Lib

variable {β γ : Type}

structure Draw (γ : Type) where
  off : Nat
  color : γ

/-- The draw changes place `a`. -/
def Draw.Touches (n : Nat) (d : Draw γ) (a : Nat) : Prop := d.off ≤ a ∧ a < d.off + n

instance (n : Nat) (d : Draw γ) (a : Nat) : Decidable (d.Touches n a) :=
  inferInstanceAs (Decidable (d.off ≤ a ∧ a < d.off + n))

theorem Draw.Touches.place {n : Nat} {d : Draw γ} {a : Nat} (h : d.Touches n a) :
    ∃ k < n, a = d.off + k := by
  obtain ⟨k, rfl⟩ := Nat.exists_eq_add_of_le h.1
  exact ⟨k, Nat.lt_of_add_lt_add_left h.2, rfl⟩

/-- The places of two draws are the same or disjoint. -/
def Draw.Apart (n : Nat) (d d' : Draw γ) : Prop :=
  d.off = d'.off ∨ d.off + n ≤ d'.off ∨ d'.off + n ≤ d.off

section Draws

variable (n : Nat) (mix : Nat → γ → β → β)

def paint (d : Draw γ) (bytes : Nat → β) : Nat → β := fun a =>
  if d.Touches n a then mix (a - d.off) d.color (bytes a) else bytes a

def smear (d : Draw γ) (bytes : Nat → β) : Nat → β := fun a =>
  if a = d.off then mix 0 d.color (bytes a)
  else if d.Touches n a then mix (a - d.off) d.color (mix 0 d.color (bytes d.off))
  else bytes a

def paintAll (ds : List (Draw γ)) (bytes : Nat → β) : Nat → β :=
  ds.foldl (fun bytes d => paint n mix d bytes) bytes

def smearAll (ds : List (Draw γ)) (bytes : Nat → β) : Nat → β :=
  ds.foldl (fun bytes d => smear n mix d bytes) bytes

end Draws

/-! ## Single places -/

section Places

variable {n : Nat} {mix : Nat → γ → β → β} {d : Draw γ} {ds : List (Draw γ)} {bytes : Nat → β}

theorem paint_at {k : Nat} (hk : k < n) :
    paint n mix d bytes (d.off + k) = mix k d.color (bytes (d.off + k)) := by
  have htouches : d.Touches n (d.off + k) := ⟨Nat.le_add_right _ _, by omega⟩
  rw [paint, if_pos htouches, Nat.add_sub_cancel_left]

theorem smear_off : smear n mix d bytes d.off = mix 0 d.color (bytes d.off) :=
  if_pos rfl

theorem smear_at {k : Nat} (hpos : 0 < k) (hk : k < n) :
    smear n mix d bytes (d.off + k) = mix k d.color (mix 0 d.color (bytes d.off)) := by
  have htouches : d.Touches n (d.off + k) := ⟨Nat.le_add_right _ _, by omega⟩
  rw [smear, if_neg (by omega), if_pos htouches, Nat.add_sub_cancel_left]

theorem paint_untouched {a : Nat} (h : ¬d.Touches n a) : paint n mix d bytes a = bytes a :=
  if_neg h

theorem smear_untouched (hn : 0 < n) {a : Nat} (h : ¬d.Touches n a) :
    smear n mix d bytes a = bytes a := by
  have hne : a ≠ d.off := by
    rintro rfl
    exact h ⟨Nat.le_refl _, Nat.lt_add_of_pos_right hn⟩
  rw [smear, if_neg hne, if_neg h]

theorem paintAll_untouched {a : Nat} (h : ∀ d ∈ ds, ¬d.Touches n a) :
    paintAll n mix ds bytes a = bytes a := by
  induction ds generalizing bytes with
  | nil => rfl
  | cons d ds ih =>
      show paintAll n mix ds (paint n mix d bytes) a = _
      rw [ih fun d' hd' => h d' (List.mem_cons_of_mem d hd'), paint_untouched (h d List.mem_cons_self)]

theorem smearAll_untouched (hn : 0 < n) {a : Nat} (h : ∀ d ∈ ds, ¬d.Touches n a) :
    smearAll n mix ds bytes a = bytes a := by
  induction ds generalizing bytes with
  | nil => rfl
  | cons d ds ih =>
      show smearAll n mix ds (smear n mix d bytes) a = _
      rw [ih fun d' hd' => h d' (List.mem_cons_of_mem d hd'),
        smear_untouched hn (h d List.mem_cons_self)]

theorem Draw.Apart.not_touches {d' : Draw γ} (h : d'.Apart n d) (hne : d'.off ≠ d.off) {k : Nat}
    (hk : k < n) : ¬d'.Touches n (d.off + k) := by
  rintro ⟨hlo, hhi⟩
  rcases h with h | h | h <;> omega

/-- **The first place of a draw is painted, also when all is smeared.** -/
theorem smearAll_off (hn : 0 < n) (h : ∀ d' ∈ ds, d'.Apart n d) :
    ∀ {bytes bytes' : Nat → β}, bytes d.off = bytes' d.off →
      smearAll n mix ds bytes d.off = paintAll n mix ds bytes' d.off := by
  induction ds with
  | nil => exact fun hbytes => hbytes
  | cons d' ds ih =>
      intro bytes bytes' hbytes
      apply ih fun d'' hd'' => h d'' (List.mem_cons_of_mem d' hd'')
      show smear n mix d' bytes d.off = paint n mix d' bytes' d.off
      by_cases hoff : d'.off = d.off
      · rw [← hoff, smear_off, ← Nat.add_zero d'.off, paint_at hn, Nat.add_zero, hoff, hbytes]
      · have huntouched : ¬d'.Touches n d.off :=
          (h d' List.mem_cons_self).not_touches hoff (k := 0) hn
        rw [smear_untouched hn huntouched, paint_untouched huntouched, hbytes]

end Places

/-! ## Sequences of draws -/

/-- Some member with a property is the last one. -/
theorem exists_last {α : Type} {P : α → Prop} {l : List α} (h : ∃ x ∈ l, P x) :
    ∃ before x after, l = before ++ x :: after ∧ P x ∧ ∀ y ∈ after, ¬P y := by
  induction l with
  | nil =>
      obtain ⟨x, hx, -⟩ := h
      cases hx
  | cons z l ih =>
      by_cases hlater : ∃ x ∈ l, P x
      · obtain ⟨before, x, after, rfl, hx, hafter⟩ := ih hlater
        exact ⟨z :: before, x, after, rfl, hx, hafter⟩
      · obtain ⟨x, hx, hP⟩ := h
        rcases List.mem_cons.mp hx with rfl | hmem
        · exact ⟨[], x, l, rfl, hP, fun y hy hPy => hlater ⟨y, hy, hPy⟩⟩
        · exact absurd ⟨x, hmem, hP⟩ hlater

section Sequences

variable {n : Nat} {mix : Nat → γ → β → β} {d : Draw γ} {ds : List (Draw γ)} {bytes : Nat → β}

/-- Mixing into the first place and mixing into the place itself make no difference to any place. -/
def MixesAlike (n : Nat) (mix : Nat → γ → β → β) (d : Draw γ) (bytes : Nat → β) : Prop :=
  ∀ k, 0 < k → k < n →
    mix k d.color (mix 0 d.color (bytes d.off)) = mix k d.color (bytes (d.off + k))

theorem smear_eq_paint (hn : 0 < n) (h : MixesAlike n mix d bytes) :
    smear n mix d bytes = paint n mix d bytes := by
  funext a
  by_cases htouches : d.Touches n a
  · obtain ⟨k, hk, rfl⟩ := htouches.place
    rw [paint_at hk]
    rcases Nat.eq_zero_or_pos k with rfl | hpos
    · exact smear_off
    · rw [smear_at hpos hk]
      exact h k hpos hk
  · rw [paint_untouched htouches, smear_untouched hn htouches]

/-- Draws that mix alike, one after the other. -/
theorem smearAll_eq_of_alike (hn : 0 < n) :
    ∀ {bytes : Nat → β},
      (∀ before d after, ds = before ++ d :: after →
        MixesAlike n mix d (paintAll n mix before bytes)) →
      smearAll n mix ds bytes = paintAll n mix ds bytes := by
  induction ds with
  | nil => exact fun _ => rfl
  | cons d ds ih =>
      intro bytes h
      have hhead : MixesAlike n mix d bytes := h [] d ds rfl
      show smearAll n mix ds (smear n mix d bytes) = paintAll n mix ds (paint n mix d bytes)
      rw [smear_eq_paint hn hhead]
      apply ih
      rintro before d' after rfl
      exact h (d :: before) d' after rfl

/-- The places of the last draw on them, after a sequence of draws. -/
theorem last_draw (hn : 0 < n) (mix : Nat → γ → β → β) (bytes : Nat → β)
    {before after : List (Draw γ)} (hapart : ∀ d' ∈ before ++ d :: after, d'.Apart n d)
    (hlast : ∀ d' ∈ after, d'.off ≠ d.off) {k : Nat} (hk : k < n) :
    paintAll n mix (before ++ d :: after) bytes (d.off + k) =
        mix k d.color (paintAll n mix before bytes (d.off + k)) ∧
      smearAll n mix (before ++ d :: after) bytes (d.off + k) =
        if k = 0 then mix 0 d.color (paintAll n mix before bytes d.off)
        else mix k d.color (mix 0 d.color (paintAll n mix before bytes d.off)) := by
  have huntouched : ∀ d' ∈ after, ¬d'.Touches n (d.off + k) := by
    intro d' hd'
    have hmem : d' ∈ before ++ d :: after :=
      List.mem_append_right before (List.mem_cons_of_mem d hd')
    exact (hapart d' hmem).not_touches (hlast d' hd') hk
  have hfirst : smearAll n mix before bytes d.off = paintAll n mix before bytes d.off :=
    smearAll_off hn (fun d' hd' => hapart d' (List.mem_append_left _ hd')) rfl
  constructor
  · rw [paintAll, List.foldl_append]
    show paintAll n mix after (paint n mix d (paintAll n mix before bytes)) _ = _
    rw [paintAll_untouched huntouched, paint_at hk]
  · rw [smearAll, List.foldl_append]
    show smearAll n mix after (smear n mix d (smearAll n mix before bytes)) _ = _
    rw [smearAll_untouched hn huntouched, ← hfirst]
    rcases Nat.eq_zero_or_pos k with rfl | hpos
    · exact smear_off
    · rw [if_neg (Nat.ne_of_gt hpos), smear_at hpos hk]

/-- **Smearing is painting iff no last draw on a place can tell.** -/
theorem smearAll_eq_iff (hn : 0 < n) (hapart : ∀ d ∈ ds, ∀ d' ∈ ds, d'.Apart n d) :
    smearAll n mix ds bytes = paintAll n mix ds bytes ↔
      ∀ before d after, ds = before ++ d :: after → (∀ d' ∈ after, d'.off ≠ d.off) →
        MixesAlike n mix d (paintAll n mix before bytes) := by
  constructor
  case mp =>
    rintro heq before d after rfl hlast k hpos hk
    have hplaces := last_draw hn mix bytes (hapart d (by simp)) hlast hk
    rw [← hplaces.1, ← heq, hplaces.2, if_neg (Nat.ne_of_gt hpos)]
  case mpr =>
    intro halike
    funext a
    by_cases htouched : ∃ d ∈ ds, d.Touches n a
    · obtain ⟨before, d, after, rfl, htouches, hafter⟩ := exists_last htouched
      obtain ⟨k, hk, rfl⟩ := htouches.place
      have hlast : ∀ d' ∈ after, d'.off ≠ d.off := by
        intro d' hd' hoff
        exact hafter d' hd' ⟨hoff.symm ▸ Nat.le_add_right _ _, by omega⟩
      have hplaces := last_draw hn mix bytes (hapart d (by simp)) hlast hk
      rw [hplaces.1, hplaces.2]
      rcases Nat.eq_zero_or_pos k with rfl | hpos
      · rfl
      · rw [if_neg (Nat.ne_of_gt hpos)]
        exact halike before d after rfl hlast k hpos hk
    · have huntouched : ∀ d ∈ ds, ¬d.Touches n a := fun d hd h => htouched ⟨d, hd, h⟩
      rw [smearAll_untouched hn huntouched, paintAll_untouched huntouched]

end Sequences

end Neutrino.Lib
