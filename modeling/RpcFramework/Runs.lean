-- Runs of a state machine with a partial step function. A claim about every
-- run is an invariant: it holds at the start, and each step keeps it. A claim
-- about the runs with well-behaved steps is an invariant of `ReachUnder`.
import Mathlib.Logic.Relation

namespace runs

/-- A state machine: one start state, and a step that an action may not allow. -/
structure Machine (σ α : Type*) where
  init : σ
  step : σ → α → Option σ

variable {σ α : Type*} {m : Machine σ α} {ok : σ → α → Prop}

/-- The end states of the runs whose every action meets `ok` in the state that takes it. -/
inductive Machine.ReachUnder (m : Machine σ α) (ok : σ → α → Prop) : σ → Prop
  | init : m.ReachUnder ok m.init
  | step {s s' : σ} {a : α} :
      m.ReachUnder ok s → ok s a → m.step s a = some s' → m.ReachUnder ok s'

/-- The end states of all runs. -/
def Machine.Reach (m : Machine σ α) : σ → Prop := m.ReachUnder fun _ _ => True

/-- `s'` comes at or after `s` in some run. -/
def Machine.Later (m : Machine σ α) : σ → σ → Prop :=
  Relation.ReflTransGen fun s s' => ∃ a, m.step s a = some s'

theorem Machine.Reach.init : m.Reach m.init := Machine.ReachUnder.init

theorem Machine.Reach.step {s s' : σ} {a : α} (h : m.Reach s) (hs : m.step s a = some s') :
    m.Reach s' :=
  Machine.ReachUnder.step h trivial hs

/-- A run with well-behaved steps is a run. -/
theorem Machine.ReachUnder.reach {s : σ} (h : m.ReachUnder ok s) : m.Reach s := by
  induction h with
  | init => exact .init
  | step _ _ hs ih => exact ih.step hs

/-- A run keeps its good steps under a weaker demand. -/
theorem Machine.ReachUnder.mono {ok' : σ → α → Prop} {s : σ} (h : m.ReachUnder ok s)
    (hok : ∀ s a, ok s a → ok' s a) : m.ReachUnder ok' s := by
  induction h with
  | init => exact .init
  | step _ ha hs ih => exact .step ih (hok _ _ ha) hs

/-- What holds at the start and is kept by each step holds in every state. The step may
use that its state was reached, and so every invariant that is proved before. -/
theorem Machine.ReachUnder.invariant {I : σ → Prop} (h0 : I m.init)
    (hstep : ∀ s a s', m.ReachUnder ok s → I s → ok s a → m.step s a = some s' → I s')
    {s : σ} (h : m.ReachUnder ok s) : I s := by
  induction h with
  | init => exact h0
  | step hr ha hs ih => exact hstep _ _ _ hr ih ha hs

theorem Machine.Reach.invariant {I : σ → Prop} (h0 : I m.init)
    (hstep : ∀ s a s', m.Reach s → I s → m.step s a = some s' → I s')
    {s : σ} (h : m.Reach s) : I s :=
  Machine.ReachUnder.invariant h0 (fun s a s' hr hi _ hs => hstep s a s' hr hi hs) h

/-- What each step keeps, a run keeps from any state on. -/
theorem Machine.Later.keeps {I : σ → Prop}
    (hstep : ∀ s a s', I s → m.step s a = some s' → I s') {s s' : σ}
    (h : m.Later s s') (hs : I s) : I s' := by
  induction h with
  | refl => exact hs
  | tail _ hst ih =>
    obtain ⟨a, ha⟩ := hst
    exact hstep _ _ _ ih ha

theorem Machine.Later.refl (s : σ) : m.Later s s := Relation.ReflTransGen.refl

/-- `s'` comes at or after `s` in a run whose every action from there on meets `ok`. -/
def Machine.LaterUnder (m : Machine σ α) (ok : σ → α → Prop) : σ → σ → Prop :=
  Relation.ReflTransGen fun s s' => ∃ a, ok s a ∧ m.step s a = some s'

theorem Machine.ReachUnder.later {s s' : σ} (h : m.ReachUnder ok s) (hl : m.LaterUnder ok s s') :
    m.ReachUnder ok s' := by
  induction hl with
  | refl => exact h
  | tail _ hst ih =>
    obtain ⟨a, ha, hs⟩ := hst
    exact ih.step ha hs

/-- What each good step from a reached state keeps, a run of good steps keeps. -/
theorem Machine.LaterUnder.keeps {I : σ → Prop}
    (hstep : ∀ s a s', m.ReachUnder ok s → I s → ok s a → m.step s a = some s' → I s') {s s' : σ}
    (hl : m.LaterUnder ok s s') (h : m.ReachUnder ok s) (hs : I s) : I s' := by
  induction hl with
  | refl => exact hs
  | tail hl hst ih =>
    obtain ⟨a, ha, hst⟩ := hst
    exact hstep _ _ _ (h.later hl) ih ha hst

/-- The state after a list of actions, when each of them is allowed and meets `ok`. -/
def Machine.run (m : Machine σ α) (ok : σ → α → Prop) [∀ s a, Decidable (ok s a)] :
    σ → List α → Option σ
  | s, [] => some s
  | s, a :: as => if ok s a then (m.step s a).bind fun s' => m.run ok s' as else none

variable [∀ s a, Decidable (ok s a)]

/-- The state after a list of good actions comes later. -/
theorem Machine.LaterUnder.of_run {s s' : σ} {as : List α} (hr : m.run ok s as = some s') :
    m.LaterUnder ok s s' := by
  induction as generalizing s with
  | nil =>
    simp only [Machine.run, Option.some.injEq] at hr
    exact hr ▸ Relation.ReflTransGen.refl
  | cons a as ih =>
    unfold Machine.run at hr
    split at hr
    · rename_i ha
      obtain ⟨t, ht, hrest⟩ := Option.bind_eq_some_iff.mp hr
      exact Relation.ReflTransGen.head ⟨a, ha, ht⟩ (ih hrest)
    · cases hr

theorem Machine.ReachUnder.run {s s' : σ} {as : List α} (h : m.ReachUnder ok s)
    (hr : m.run ok s as = some s') : m.ReachUnder ok s' :=
  h.later (.of_run hr)

/-- A run that was carried out reaches the state at its end. -/
theorem Machine.ReachUnder.of_run {P : σ → Prop} [DecidablePred P] (as : List α)
    (h : (m.run ok m.init as).any (fun s => decide (P s)) = true) :
    ∃ s, m.ReachUnder ok s ∧ P s := by
  obtain ⟨s, hs, hp⟩ := (Option.any_eq_true _ _).mp h
  exact ⟨s, Machine.ReachUnder.init.run hs, of_decide_eq_true hp⟩

/-- Two runs that were carried out one after the other reach the states at their ends. -/
theorem Machine.ReachUnder.of_runs {P Q : σ → Prop} [DecidablePred P] [DecidablePred Q]
    (as bs : List α) (h : (m.run ok m.init as).any (fun s => decide (P s) &&
      (m.run ok s bs).any fun s' => decide (Q s')) = true) :
    ∃ s s', m.ReachUnder ok s ∧ m.LaterUnder ok s s' ∧ P s ∧ Q s' := by
  obtain ⟨s, hs, hboth⟩ := (Option.any_eq_true _ _).mp h
  obtain ⟨hp, hlater⟩ := Bool.and_eq_true_iff.mp hboth
  obtain ⟨s', hs', hq⟩ := (Option.any_eq_true _ _).mp hlater
  exact ⟨s, s', Machine.ReachUnder.init.run hs, .of_run hs', of_decide_eq_true hp,
    of_decide_eq_true hq⟩

end runs
