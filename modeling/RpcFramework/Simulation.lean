-- One machine seen as another. Each step of the first is shown as one step of the
-- second, or nothing of it is seen. So the states that are reached are seen as states
-- that the second machine reaches by itself.
import RpcFramework.Runs

namespace runs

variable {σ α σ' α' σ'' α'' : Type*} {m : Machine σ α} {m' : Machine σ' α'} {m'' : Machine σ'' α''}

/-- The state after an action, or after none. -/
def Machine.stepOrStay (m : Machine σ α) (s : σ) : Option α → Option σ
  | none => some s
  | some a => m.step s a

theorem Machine.Reach.stepOrStay {s s' : σ} {a : Option α} (h : m.Reach s)
    (hs : m.stepOrStay s a = some s') : m.Reach s' := by
  cases a with
  | none =>
    cases hs
    exact h
  | some a => exact h.step hs

/-- A view of the machine `m` as the machine `m'`: how a state is seen, and as which action an
action is seen, when it is. -/
structure Simulation (m : Machine σ α) (m' : Machine σ' α') where
  view : σ → σ'
  shown : σ → α → Option α'
  init : view m.init = m'.init
  step : ∀ s a s', m.Reach s → m.step s a = some s' →
    m'.stepOrStay (view s) (shown s a) = some (view s')

/-- A state that is reached is seen as one. -/
theorem Simulation.reach (v : Simulation m m') {s : σ} (h : m.Reach s) : m'.Reach (v.view s) := by
  refine h.invariant (I := fun s => m'.Reach (v.view s)) ?_ ?_
  · rw [v.init]
    exact .init
  · intro s a s' hr hi hs
    exact hi.stepOrStay (v.step s a s' hr hs)

/-- The actions as which those of a run are seen. -/
def Simulation.trace (v : Simulation m m') : σ → List α → List α'
  | _, [] => []
  | s, a :: as => (v.shown s a).toList ++ ((m.step s a).map fun s' => v.trace s' as).getD []

/-- A run is seen as a run. -/
theorem Simulation.run (v : Simulation m m') {s s' : σ} {as : List α} (h : m.Reach s)
    (hr : m.run (fun _ _ => True) s as = some s') :
    m'.run (fun _ _ => True) (v.view s) (v.trace s as) = some (v.view s') := by
  induction as generalizing s with
  | nil =>
    cases hr
    rfl
  | cons a as ih =>
    simp only [Machine.run, if_true] at hr
    obtain ⟨t, ht, hrest⟩ := Option.bind_eq_some_iff.mp hr
    have hrun := ih (h.step ht) hrest
    have hstep := v.step s a t h ht
    simp only [Simulation.trace, ht, Option.map_some, Option.getD_some]
    cases ha : v.shown s a with
    | none =>
      rw [ha] at hstep
      rw [Option.some.inj hstep]
      exact hrun
    | some a' =>
      rw [ha] at hstep
      have hstep' : m'.step (v.view s) a' = some (v.view t) := hstep
      simp only [Option.toList_some, List.singleton_append, Machine.run, if_true, hstep',
        Option.bind_some]
      exact hrun

/-- What is read off the actions of a run can be read off the actions as which they are seen. -/
theorem Simulation.filterMap_trace {γ : Type*} (v : Simulation m m') {f : α → Option γ}
    {g : α' → Option γ} (hfg : ∀ s a, (v.shown s a).bind g = f a) {s s' : σ} {as : List α}
    (hr : m.run (fun _ _ => True) s as = some s') : (v.trace s as).filterMap g = as.filterMap f := by
  induction as generalizing s with
  | nil => rfl
  | cons a as ih =>
    simp only [Machine.run, if_true] at hr
    obtain ⟨t, ht, hrest⟩ := Option.bind_eq_some_iff.mp hr
    have hone := hfg s a
    simp only [Simulation.trace, ht, Option.map_some, Option.getD_some, List.filterMap_append,
      ih hrest, List.filterMap_cons]
    cases hshown : v.shown s a with
    | none =>
      rw [hshown] at hone
      simp [← hone]
    | some a' =>
      rw [hshown] at hone
      cases hf : f a <;> simp_all

/-- A view of a view. -/
def Simulation.comp (w : Simulation m' m'') (v : Simulation m m') : Simulation m m'' where
  view s := w.view (v.view s)
  shown s a := (v.shown s a).bind (w.shown (v.view s))
  init := by rw [v.init, w.init]
  step := by
    intro s a s' hr hs
    have hv := v.step s a s' hr hs
    cases ha : v.shown s a with
    | none =>
      rw [ha] at hv
      exact congrArg (some ∘ w.view) (Option.some.inj hv)
    | some a' =>
      rw [ha] at hv
      exact w.step _ a' _ (v.reach hr) hv

end runs
