import Mathlib.Data.List.Induction
import Mathlib.Data.Nat.Notation
import Mathlib.Tactic.TypeStar

/-!
# Runs of labelled machines

A machine has one initial state and a partial step function: `step s a` is the state the action `a` leads to, `none`
when `a` is not possible in `s`. Runs may be restricted by a condition on each step.

- `Reach M P s`: `s` is reached by steps that all satisfy `P` (`Reach.invariant`, `Reach.mono`);
- `Path M P s t`: such steps lead from `s` to `t` (`Path.invariant`, `Path.trans`, `Reach.path`);
- `M.logged obs` also keeps a log of what `obs` notes of every step (`reach_logged`);
- `M.follow s w` takes the actions of the word `w` (`follow_induction`); when every step of a machine is noted as a word
  that another one can follow, so is every run (`reach_logged_follow`);
- `reach_simulates`: a machine whose steps another one can imitate only reaches states that are related to reached ones;
- `M.timed` also keeps a clock that does not run backwards (`reach_timed`);
- `run` executes a list of actions and checks the condition on the way (`path_of_run`, `reach_of_run`), so that an
  evaluated run gives a reached state (`exists_reach_of_run`), and a property of all reached states holds at its end
  (`exists_run`).
-/

namespace Transition

/-- A machine: its initial state, and the state an action leads to when it is possible. -/
structure Machine (σ α : Type*) where
  init : σ
  step : σ → α → Option σ

variable {σ α : Type*} {M : Machine σ α} {P Q : σ → α → Prop}

/-- The states reached by steps that all satisfy `P`. -/
inductive Reach (M : Machine σ α) (P : σ → α → Prop) : σ → Prop
  | init : Reach M P M.init
  | step {s s' : σ} {a : α} : Reach M P s → P s a → M.step s a = some s' → Reach M P s'

/-- A property of the initial state that every allowed step keeps holds of every reached state. -/
theorem Reach.invariant {I : σ → Prop} (h0 : I M.init)
    (hstep : ∀ s a s', I s → P s a → M.step s a = some s' → I s') {s : σ} (h : Reach M P s) : I s := by
  induction h with
  | init => exact h0
  | step _ hp hs ih => exact hstep _ _ _ ih hp hs

/-- A weaker condition reaches more states. -/
theorem Reach.mono (hPQ : ∀ s a, P s a → Q s a) {s : σ} (h : Reach M P s) : Reach M Q s := by
  induction h with
  | init => exact .init
  | step _ hp hs ih => exact .step ih (hPQ _ _ hp) hs

/-- The states that steps which all satisfy `P` lead to from `s`. -/
inductive Path (M : Machine σ α) (P : σ → α → Prop) (s : σ) : σ → Prop
  | refl : Path M P s s
  | step {t t' : σ} {a : α} : Path M P s t → P t a → M.step t a = some t' → Path M P s t'

/-- A property that every allowed step keeps is kept along a path. -/
theorem Path.invariant {I : σ → Prop} {s t : σ} (h0 : I s)
    (hstep : ∀ s a s', I s → P s a → M.step s a = some s' → I s') (h : Path M P s t) : I t := by
  induction h with
  | refl => exact h0
  | step _ hp hs ih => exact hstep _ _ _ ih hp hs

/-- Paths compose. -/
theorem Path.trans {s t u : σ} (h : Path M P s t) (h' : Path M P t u) : Path M P s u := by
  induction h' with
  | refl => exact h
  | step _ hp hs ih => exact ih.step hp hs

/-- A weaker condition allows more paths. -/
theorem Path.mono (hPQ : ∀ s a, P s a → Q s a) {s t : σ} (h : Path M P s t) : Path M Q s t := by
  induction h with
  | refl => exact .refl
  | step _ hp hs ih => exact ih.step (hPQ _ _ hp) hs

/-- What a path leads to from a reached state is reached. -/
theorem Reach.path {s t : σ} (hr : Reach M P s) (hPQ : ∀ s a, Q s a → P s a) (h : Path M Q s t) : Reach M P t := by
  induction h with
  | refl => exact hr
  | step _ hp hs ih => exact ih.step (hPQ _ _ hp) hs

/-! ## Logs -/

/-- The machine with a log of what is noted of every step. -/
def Machine.logged {β : Type*} (M : Machine σ α) (obs : σ → α → List β) : Machine (σ × List β) α where
  init := (M.init, [])
  step s a := (M.step s.1 a).map fun t => (t, s.2 ++ obs s.1 a)

/-- A step with a log is a step that adds to the log. -/
theorem Machine.logged_step {β : Type*} {obs : σ → α → List β} {s s' : σ × List β} {a : α}
    (h : (M.logged obs).step s a = some s') : M.step s.1 a = some s'.1 ∧ s'.2 = s.2 ++ obs s.1 a := by
  obtain ⟨t, ht, rfl⟩ := Option.map_eq_some_iff.mp h
  exact ⟨ht, rfl⟩

/-- A run with a log is a run. -/
theorem reach_logged {β : Type*} {obs : σ → α → List β} {s : σ × List β}
    (h : Reach (M.logged obs) (fun s a => P s.1 a) s) : Reach M P s.1 := by
  induction h with
  | init => exact .init
  | step _ hp hs ih => exact .step ih hp (Machine.logged_step hs).1

/-! ## Words -/

section Words

variable {τ β : Type*} {A : Machine τ β} {t t' : τ} {w w' : List β} {b : β}

/-- Take the actions of a word one after the other. -/
def Machine.follow (A : Machine τ β) (t : τ) (w : List β) : Option τ := w.foldlM A.step t

@[simp] theorem Machine.follow_nil : A.follow t [] = some t := rfl

theorem Machine.follow_append : A.follow t (w ++ w') = (A.follow t w).bind (A.follow · w') := List.foldlM_append

@[simp] theorem Machine.follow_singleton : A.follow t [b] = A.step t b := by
  simp [Machine.follow]

/-- What holds of the empty word and is kept by one more action holds of every word. -/
theorem follow_induction {I : List β → τ → Prop} (h0 : I [] A.init)
    (hstep : ∀ w t b t', I w t → A.step t b = some t' → I (w ++ [b]) t') :
    ∀ {w t}, A.follow A.init w = some t → I w t := by
  intro w
  induction w using List.reverseRecOn with
  | nil =>
    intro t h
    cases h
    exact h0
  | append_singleton w b ih =>
    intro t h
    rw [Machine.follow_append] at h
    obtain ⟨t', hw, hb⟩ := Option.bind_eq_some_iff.mp h
    rw [Machine.follow_singleton] at hb
    exact hstep w t' b t (ih hw) hb

/-- A simulation by words, for runs that end where `C` holds, a condition that no step brings about: when what is noted
of every step leads from related states to related states, the log of a run leads from the initial state to a related
one. -/
theorem reach_logged_follow {obs : σ → α → List β} {R : σ → τ → Prop} {C : σ → Prop} (h0 : R M.init A.init)
    (hC : ∀ s a s', M.step s a = some s' → C s' → C s)
    (hstep : ∀ s t a s', Reach M P s → C s' → R s t → P s a → M.step s a = some s' →
      ∃ t', A.follow t (obs s a) = some t' ∧ R s' t')
    {s : σ × List β} (h : Reach (M.logged obs) (fun s a => P s.1 a) s) (hc : C s.1) :
    ∃ t, A.follow A.init s.2 = some t ∧ R s.1 t := by
  induction h with
  | init => exact ⟨A.init, rfl, h0⟩
  | @step s s' a hr hp hs ih =>
    obtain ⟨hs, hlog⟩ := Machine.logged_step hs
    obtain ⟨t, hw, hR⟩ := ih (hC s.1 a s'.1 hs hc)
    obtain ⟨t', hobs, hR'⟩ := hstep s.1 t a s'.1 (reach_logged hr) hc hR hp hs
    refine ⟨t', ?_, hR'⟩
    rw [hlog, Machine.follow_append, hw]
    exact hobs

end Words

/-! ## Simulation -/

/-- A simulation: when every step from a reached state leads from related states to related states, along a path of any
length, every reached state is related to a reached one. -/
theorem reach_simulates {τ β : Type*} {A : Machine τ β} {Q : τ → β → Prop} {R : σ → τ → Prop} (h0 : R M.init A.init)
    (hstep : ∀ s t a s', Reach M P s → R s t → P s a → M.step s a = some s' → ∃ t', Path A Q t t' ∧ R s' t')
    {s : σ} (h : Reach M P s) : ∃ t, Reach A Q t ∧ R s t := by
  induction h with
  | init => exact ⟨A.init, .init, h0⟩
  | step hr hp hs ih =>
    obtain ⟨t, ht, hR⟩ := ih
    obtain ⟨t', hpath, hR'⟩ := hstep _ t _ _ hr hR hp hs
    exact ⟨t', ht.path (fun _ _ h => h) hpath, hR'⟩

/-! ## Clocks -/

/-- The machine with a clock: an action comes with the clock value at which it happens. -/
def Machine.timed (M : Machine σ α) : Machine (σ × ℕ) (ℕ × α) where
  init := (M.init, 0)
  step s a := if s.2 ≤ a.1 then (M.step s.1 a.2).map fun t => (t, a.1) else none

/-- A step with a clock is a step that does not set the clock back. -/
theorem Machine.timed_step {s s' : σ × ℕ} {a : ℕ × α} (h : M.timed.step s a = some s') :
    M.step s.1 a.2 = some s'.1 ∧ s.2 ≤ a.1 ∧ s'.2 = a.1 := by
  simp only [Machine.timed] at h
  split at h
  · rename_i hle
    obtain ⟨t, ht, rfl⟩ := Option.map_eq_some_iff.mp h
    exact ⟨ht, hle, rfl⟩
  · cases h

/-- A run with a clock is a run. -/
theorem reach_timed {s : σ × ℕ} (h : Reach M.timed (fun s a => P s.1 a.2) s) : Reach M P s.1 := by
  induction h with
  | init => exact .init
  | step _ hp hs ih => exact .step ih hp (Machine.timed_step hs).1

/-! ## Executing a list of actions -/

/-- Execute actions one after the other; `none` when one is not possible or not allowed. -/
def run (M : Machine σ α) (P : σ → α → Prop) [∀ s a, Decidable (P s a)] : σ → List α → Option σ
  | s, [] => some s
  | s, a :: as => if P s a then (M.step s a).bind (run M P · as) else none

/-- An executed list of actions is a path. -/
theorem path_of_run [∀ s a, Decidable (P s a)] : ∀ {s s' : σ} (as : List α), run M P s as = some s' → Path M P s s'
  | _, _, [], hr => by cases hr; exact .refl
  | s, s', a :: as, hr => by
    simp only [run] at hr
    split at hr
    · rename_i hp
      obtain ⟨t, ht, hr⟩ := Option.bind_eq_some_iff.mp hr
      exact Path.trans (.step .refl hp ht) (path_of_run as hr)
    · cases hr

/-- What an executed list of actions ends in is reached. -/
theorem reach_of_run [∀ s a, Decidable (P s a)] {s : σ} (as : List α) (h : run M P M.init as = some s) :
    Reach M P s :=
  Reach.init.path (fun _ _ hp => hp) (path_of_run as h)

/-- A run that was evaluated shows a reached state. -/
theorem exists_reach_of_run [∀ s a, Decidable (P s a)] {β : Type*} {as : List α} {f : σ → β} {b : β}
    (h : (run M P M.init as).map f = some b) : ∃ s, Reach M P s ∧ f s = b := by
  obtain ⟨s, hs, hf⟩ := Option.map_eq_some_iff.mp h
  exact ⟨s, reach_of_run as hs, hf⟩

/-- A run that does not get stuck ends in a state with the properties of all reached states. -/
theorem exists_run [∀ s a, Decidable (P s a)] {I : σ → Prop} {as : List α} (h : (run M P M.init as).isSome)
    (hI : ∀ s, Reach M P s → I s) : ∃ s, run M P M.init as = some s ∧ I s := by
  obtain ⟨s, hs⟩ := Option.isSome_iff_exists.mp h
  exact ⟨s, hs, hI s (reach_of_run as hs)⟩

end Transition
