import Mathlib.Data.List.Basic

/-!
# Runs of a labelled transition relation

A run from `s` is the list of its events, each with the state it led to. `Steps P s tr` says that
`P` holds of every step of `tr` (pre-state, event, post-state); with `P` the transition relation
itself it says that `tr` *is* a run. `states s tr` lists every state the run visits, the initial one
included.

* `Steps.invariant` — what one step preserves holds in every state visited;
* `Steps.forall_step` — a fact about every step taken from a good state holds of every step of a
  run;
* `Steps.forall_step_iff` — an exact version: two facts about steps that agree on good states, one of
  which keeps the states good, hold of the same runs;
* `Steps.countP_le` — a budget that every step of a kind draws on bounds how many of them a run
  has, `Steps.length_le` — and a measure that every step lowers bounds its length;
* `Steps.forall_states_iff` — an exact version: if a step keeps the invariant when it is `ok` and
  breaks the property `P` when it is not, then `P` holds throughout a run precisely when all its
  steps are `ok`.

Where a step is a partial function, `runFrom step s es` is the state the events `es` lead to, if there
is one; `runFrom_isSome_iff` is the exact version for getting there.
-/

namespace Neutrino.Lib

variable {σ ε : Type}

/-- `P` holds of every step of the trace. -/
def Steps (P : σ → ε → σ → Prop) : σ → List (ε × σ) → Prop
  | _, [] => True
  | s, (e, s') :: tr => P s e s' ∧ Steps P s' tr

/-- The states a trace visits, the first one included. -/
def states (s : σ) (tr : List (ε × σ)) : List σ := s :: tr.map Prod.snd

/-- The state a trace ends in. -/
def final (s : σ) : List (ε × σ) → σ
  | [] => s
  | (_, s') :: tr => final s' tr

@[simp] theorem states_nil (s : σ) : states s ([] : List (ε × σ)) = [s] := rfl

@[simp] theorem states_cons (s s' : σ) (e : ε) (tr : List (ε × σ)) :
    states s ((e, s') :: tr) = s :: states s' tr := rfl

theorem final_mem_states : ∀ (s : σ) (tr : List (ε × σ)), final s tr ∈ states s tr
  | _, [] => List.mem_singleton.mpr rfl
  | _, (_, s') :: tr => List.mem_cons_of_mem _ (final_mem_states s' tr)

namespace Steps

variable {P step ok : σ → ε → σ → Prop} {I : σ → Prop}

/-- **Invariants of runs**: what every step preserves holds in every state visited. -/
theorem invariant (keep : ∀ s e s', I s → step s e s' → I s') :
    ∀ {s : σ} {tr : List (ε × σ)}, I s → Steps step s tr → ∀ t ∈ states s tr, I t
  | s, [], hs, _, t, ht => by
      rw [states_nil, List.mem_singleton] at ht
      exact ht ▸ hs
  | s, (e, s') :: tr, hs, hrun, t, ht => by
      rw [states_cons] at ht
      rcases List.mem_cons.mp ht with rfl | ht
      · exact hs
      · exact invariant keep (keep _ _ _ hs hrun.1) hrun.2 t ht

/-- The invariant holds where a run ends. -/
theorem invariant_final (keep : ∀ s e s', I s → step s e s' → I s') {s : σ}
    {tr : List (ε × σ)} (hs : I s) (hrun : Steps step s tr) : I (final s tr) :=
  invariant keep hs hrun _ (final_mem_states s tr)

/-- A fact about every step taken from a state satisfying the invariant holds of every step of a
run. -/
theorem forall_step (keep : ∀ s e s', I s → step s e s' → I s')
    (fact : ∀ s e s', I s → step s e s' → P s e s') :
    ∀ {s : σ} {tr : List (ε × σ)}, I s → Steps step s tr → Steps P s tr
  | _, [], _, _ => trivial
  | _, (_, _) :: _, hs, hrun =>
      ⟨fact _ _ _ hs hrun.1, forall_step keep fact (keep _ _ _ hs hrun.1) hrun.2⟩

/-- Two facts about steps that agree on states satisfying the invariant hold of the same runs, if one of
them keeps the invariant. -/
theorem forall_step_iff (keep : ∀ s e s', I s → step s e s' → ok s e s' → I s')
    (agree : ∀ s e s', I s → step s e s' → (P s e s' ↔ ok s e s')) :
    ∀ {s : σ} {tr : List (ε × σ)}, I s → Steps step s tr → (Steps P s tr ↔ Steps ok s tr)
  | _, [], _, _ => Iff.rfl
  | _, (_, _) :: _, hs, hrun => by
      refine (and_congr_left' (agree _ _ _ hs hrun.1)).trans (and_congr_right fun hok => ?_)
      exact forall_step_iff keep agree (keep _ _ _ hs hrun.1 hok) hrun.2

/-- Steps with an event in `p` are paid for out of `budget`. -/
theorem countP_le {p : ε → Bool} {budget : σ → Nat}
    (pay : ∀ s e s', step s e s' → budget s' + (p e).toNat ≤ budget s) :
    ∀ {s : σ} {tr : List (ε × σ)}, Steps step s tr →
      tr.countP (fun x => p x.1) + budget (final s tr) ≤ budget s
  | s, [], _ => by
      rw [List.countP_nil, Nat.zero_add]
      exact Nat.le_refl (budget s)
  | s, (e, s') :: tr, hrun => by
      have hstep := pay s e s' hrun.1
      have hrest := countP_le pay hrun.2
      rw [List.countP_cons, final]
      cases hp : p e with
      | false =>
          rw [hp, Bool.toNat_false] at hstep
          simp only [Bool.false_eq_true, if_false]
          omega
      | true =>
          rw [hp, Bool.toNat_true] at hstep
          simp only [if_true]
          omega

/-- A measure that every step lowers bounds the length of a run. -/
theorem length_le {measure : σ → Nat} (lower : ∀ s e s', step s e s' → measure s' < measure s)
    {s : σ} {tr : List (ε × σ)} (hrun : Steps step s tr) : tr.length ≤ measure s := by
  have hcount := countP_le (p := fun _ => true) lower hrun
  rw [List.countP_true] at hcount
  exact Nat.le_of_add_right_le hcount

/-- **Exact runs.** A step that is `ok` keeps the invariant `I`, and one that is not breaks `Q`,
which `I` implies: then `Q` holds in every state of a run precisely when all its steps are `ok`. -/
theorem forall_states_iff {Q : σ → Prop} (sound : ∀ s, I s → Q s)
    (keep : ∀ s e s', I s → step s e s' → ok s e s' → I s')
    (broken : ∀ s e s', I s → step s e s' → ¬ ok s e s' → ¬ Q s') :
    ∀ {s : σ} {tr : List (ε × σ)}, I s → Steps step s tr →
      ((∀ t ∈ states s tr, Q t) ↔ Steps ok s tr)
  | s, [], hs, _ => by
      refine ⟨fun _ => trivial, fun _ t ht => ?_⟩
      rw [states_nil, List.mem_singleton] at ht
      exact ht ▸ sound s hs
  | s, (e, s') :: tr, hs, hrun => by
      have hmem : s' ∈ states s ((e, s') :: tr) :=
        List.mem_cons_of_mem _ List.mem_cons_self
      constructor
      · intro hall
        have hok : ok s e s' := by
          by_contra hbad
          exact broken s e s' hs hrun.1 hbad (hall s' hmem)
        have hs' : I s' := keep s e s' hs hrun.1 hok
        refine ⟨hok, (forall_states_iff sound keep broken hs' hrun.2).mp ?_⟩
        exact fun t ht => hall t (List.mem_cons_of_mem _ ht)
      · rintro ⟨hok, hrest⟩ t ht
        rcases List.mem_cons.mp ht with rfl | ht
        · exact sound t hs
        · have hs' : I s' := keep s e s' hs hrun.1 hok
          exact (forall_states_iff sound keep broken hs' hrun.2).mpr hrest t ht

end Steps

/-- **A run around one of its steps.** -/
theorem Steps.split {P : σ → ε → σ → Prop} {e : ε} {s' : σ} {after : List (ε × σ)} :
    ∀ (s : σ) (before : List (ε × σ)), Steps P s (before ++ (e, s') :: after) →
      P (final s before) e s' ∧ Steps P s' after ∧
        final s (before ++ (e, s') :: after) = final s' after
  | _, [], hrun => ⟨hrun.1, hrun.2, rfl⟩
  | _, (_, t) :: before, hrun => Steps.split t before hrun.2

/-! ## Partial functions -/

section Partial

/-- The state after these events, unless one of them has no effect defined. -/
def runFrom (step : σ → ε → Option σ) (s : σ) : List ε → Option σ
  | [] => some s
  | e :: es => (step s e).bind fun s' => runFrom step s' es

variable {step : σ → ε → Option σ} {ok : σ → ε → Prop} {I : σ → Prop}

theorem runFrom_cons {s s' : σ} {e : ε} {es : List ε} (h : step s e = some s') :
    runFrom step s (e :: es) = runFrom step s' es := by
  rw [runFrom, h, Option.bind_some]

/-- **Exact partial runs.** An `ok` event is defined and keeps the invariant `I`, any other is not
defined: then a run gets through precisely when each of its events is `ok` where it comes to it. -/
theorem runFrom_isSome_iff (keep : ∀ s e, I s → ok s e → ∃ s', step s e = some s' ∧ I s')
    (stuck : ∀ s e, I s → ¬ ok s e → step s e = none) :
    ∀ {s : σ} {es : List ε}, I s → ((runFrom step s es).isSome ↔
      ∀ before e after, es = before ++ e :: after → ∀ t, runFrom step s before = some t → ok t e)
  | s, [], _ => by
      refine iff_of_true rfl fun before e after heq => ?_
      exact absurd heq.symm (List.append_ne_nil_of_right_ne_nil before (List.cons_ne_nil e after))
  | s, e :: es, hs => by
      by_cases hok : ok s e
      · obtain ⟨s', hstep, hs'⟩ := keep s e hs hok
        rw [runFrom_cons hstep, runFrom_isSome_iff keep stuck hs']
        constructor
        · intro h before e' after heq t ht
          cases before with
          | nil =>
              cases heq
              cases ht
              exact hok
          | cons b before =>
              rw [List.cons_append, List.cons.injEq] at heq
              obtain ⟨rfl, heq⟩ := heq
              exact h before e' after heq t ((runFrom_cons hstep).symm.trans ht)
        · intro h before e' after heq t ht
          exact h (e :: before) e' after (congrArg (e :: ·) heq) t ((runFrom_cons hstep).trans ht)
      · rw [runFrom, stuck s e hs hok]
        refine iff_of_false (by simp) fun h => hok (h [] e es rfl s rfl)

end Partial

end Neutrino.Lib
