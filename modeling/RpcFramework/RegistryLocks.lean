-- The mutexes of the registry. A registration that gives a watched node a new
-- child runs `refresh` inside `create`, and `refresh` locks the mutex that
-- `create` holds. No other call locks a mutex twice.
import RpcFramework.ServiceRegistry

namespace rpc.registry

open text locks runs

namespace RegistryRun

variable {strategy : LBStrategy} {s : RegistryRun}

/-- Neither of the two nodes that a registration creates is a new child of a watched node. -/
def Quiet (s : RegistryRun) (call : Call) : Prop := relocks s.thread.data call = false

instance (s : RegistryRun) (call : Call) : Decidable (Quiet s call) :=
  inferInstanceAs (Decidable (_ = _))

/-- The call ends, with a result, an exception, or an undefined step of the balancer. It has
locked no mutex twice, and it holds none. -/
def ComesBack (t : Locked Mutex Registry) (call : Call) : Prop :=
  ∃ t', (runCall call t = .returned () t' ∨ ∃ e, runCall call t = .threw e t') ∧
    ∀ m, t'.held m = false

theorem comesBack_iff (d : Registry) (call : Call) :
    ComesBack (idle d) call ↔ relocks d call = false := by
  constructor
  · rintro ⟨t', hback, -⟩
    by_contra hrelock
    rw [runCall_relocked (by simpa using hrelock)] at hback
    rcases hback with hret | ⟨e, hthrow⟩
    · cases hret
    · cases hthrow
  · intro hquiet
    obtain ⟨d', -, hback⟩ := runCall_effect hquiet
    exact ⟨idle d', hback, fun _ => rfl⟩

/-- In a run of quiet calls no mutex is locked twice, and between two calls none is held. The
next call comes back exactly when it is quiet as well. -/
theorem no_mutex_is_locked_twice (h : (machine strategy).ReachUnder Quiet s) :
    s.relocked = none ∧ (∀ m, s.thread.held m = false) ∧
      ∀ call, ComesBack s.thread call ↔ Quiet s call := by
  obtain ⟨d, hidle⟩ := idle_reach h
  refine ⟨?_, ?_, ?_⟩
  · refine Machine.ReachUnder.invariant (I := fun s => s.relocked = none) rfl ?_ h
    intro s call s' hr _ hquiet hs
    obtain ⟨d, hidle⟩ := idle_reach hr
    obtain ⟨-, -, ⟨hrelock, -, -⟩ | ⟨-, hnone, -⟩⟩ := step_cases hidle hs
    · unfold Quiet at hquiet
      rw [hidle] at hquiet
      exact absurd (hrelock.symm.trans hquiet) (by simp)
    · exact hnone
  · intro m
    rw [hidle]
    rfl
  · intro call
    unfold Quiet
    rw [hidle]
    exact comesBack_iff d call

/-- A provider registers, a client discovers, and the provider registers again with another
weight: the child is not new, so the call is quiet and comes back. -/
theorem a_repeated_registration_comes_back :
    ∃ s, (machine .roundRobin).ReachUnder Quiet s ∧ s.calls.length = 2 ∧
      ComesBack s.thread (.registerService (ascii ['s']) (ascii ['h']) 80 2) := by
  have hrun : ∃ s, (machine .roundRobin).ReachUnder Quiet s ∧ (s.calls.length = 2 ∧
      Quiet s (.registerService (ascii ['s']) (ascii ['h']) 80 2)) :=
    Machine.ReachUnder.of_run [.registerService (ascii ['s']) (ascii ['h']) 80 1,
      .discover (ascii ['s']) 0] (by decide +kernel)
  obtain ⟨s, hs, hlen, hquiet⟩ := hrun
  exact ⟨s, hs, hlen, ((no_mutex_is_locked_twice hs).2.2 _).mpr hquiet⟩

/-- A client looks for a service before there is a provider. The watcher that this leaves is
run by the first registration, and locks the mutex of the stub again. -/
theorem the_first_registration_after_a_lookup_hangs :
    ∃ s, (machine .roundRobin).Reach s ∧ s.relocked = some .stub ∧
      s.calls = [.registerService (ascii ['s']) (ascii ['h']) 80 1, .discover (ascii ['s']) 0] :=
  Machine.ReachUnder.of_run [.discover (ascii ['s']) 0,
    .registerService (ascii ['s']) (ascii ['h']) 80 1] (by decide +kernel)

end RegistryRun

end rpc.registry
