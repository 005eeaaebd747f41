-- The cache of the registry. `discover` gives out what is cached, and only an
-- empty cache entry is read again. An unregistration removes the node, but no
-- watcher runs for it, so a cached address outlives its registration.
import RpcFramework.RegistryEntries

namespace rpc.registry

open text locks runs

/-- What a lookup returns, if it returns. -/
def discovered (service : Text) (draw : Nat) (t : Locked Mutex Registry) :
    Option ServiceEndpoint :=
  match discover service draw t with
  | .returned ep _ => some ep
  | _ => none

/-- Each cached address is registered. -/
def Current (d : Registry) (calls : List Call) : Prop :=
  ∀ s, slash ∉ s → ∀ ep ∈ d.cache s, (standing calls s ep.host ep.port).isSome = true

/-- What a service lists is registered. -/
theorem standing_of_entry {calls : List Call} {s : Text} {ep : ServiceEndpoint}
    (h : ep ∈ entries calls s) : (standing calls s ep.host ep.port).isSome = true := by
  obtain ⟨k, hk⟩ := ((listed_entries calls s).mem ep).mp h
  rw [hk]
  rfl

/-- A registration leaves every address registered that was. -/
theorem standing_register_isSome {calls : List Call} {s h service host : Text} {p port : UInt16}
    (hst : (standing calls s h p).isSome = true) (weight : Int32) :
    (standing (.registerService service host port weight :: calls) s h p).isSome = true := by
  unfold standing
  split
  · rfl
  · exact hst

/-- No address is unregistered while it is cached. -/
def Uncached (d : Registry) : Call → Prop
  | .unregisterService service host port => ∀ ep ∈ d.cache service, ep.isAt host port = false
  | _ => True

instance (d : Registry) (call : Call) : Decidable (Uncached d call) :=
  match call with
  | .unregisterService _ _ _ => inferInstanceAs (Decidable (∀ ep ∈ _, _))
  | .registerService _ _ _ _ => isTrue trivial
  | .discover _ _ => isTrue trivial

theorem Current.effect {d d' : Registry} {calls : List Call} {call : Call} (h : Current d calls)
    (hm : Mirrors d calls) (hok : Uncached d call) (he : Effect d call d') :
    Current d' (call :: calls) := by
  intro s hs ep hep
  cases he with
  | registered _ _ =>
    rw [(registered_frame ..).1] at hep
    exact standing_register_isSome (h s hs ep hep) _
  | @unregistered service host port =>
    have hcache : (dropNode (nodePath service host port) d).cache = d.cache := by
      unfold dropNode
      split <;> rfl
    rw [hcache] at hep
    rw [standing, if_neg]
    · exact h s hs ep hep
    · rintro ⟨rfl, hh, hp⟩
      have hat := hok ep hep
      rw [isAt_iff.mpr ⟨hh, hp⟩] at hat
      cases hat
  | cached lb hcache => exact h s hs ep hep
  | @refreshed service draw endpoints lb hcache hfound =>
    by_cases hsame : s = service
    · subst hsame
      rw [hm.found hs] at hfound
      cases hfound
      have hnew : ep ∈ entries calls s := by
        simpa [stored] using hep
      exact standing_of_entry hnew
    · have hold : ep ∈ d.cache s := by
        simpa [stored, watched, Function.update_of_ne hsame] using hep
      exact h s hs ep hold
  | failed hcache hfound => exact h s hs ep hep

namespace RegistryRun

variable {strategy : LBStrategy} {s : RegistryRun}

/-- The names have no slash, and no address is unregistered while it is cached. -/
def Careful (s : RegistryRun) (call : Call) : Prop :=
  call.plain ∧ Uncached s.thread.data call

instance (s : RegistryRun) (call : Call) : Decidable (Careful s call) :=
  inferInstanceAs (Decidable (_ ∧ _))

/-- While the thread has not locked a mutex twice, the tables hold the entries and the cache is
current. -/
theorem current_reach (h : (machine strategy).ReachUnder Careful s) :
    s.relocked = none → ∃ d, s.thread = idle d ∧ Mirrors d s.calls ∧ Current d s.calls := by
  refine Machine.ReachUnder.invariant (I := fun s => s.relocked = none →
    ∃ d, s.thread = idle d ∧ Mirrors d s.calls ∧ Current d s.calls) ?_ ?_ h
  · exact fun _ => ⟨_, rfl, mirrors_started strategy, fun s _ ep hep => by cases hep⟩
  · intro s call s' hr hi hok hs hnone
    obtain ⟨d0, hidle0⟩ := idle_reach hr
    obtain ⟨hrel, hcalls, ⟨-, -, hstub⟩ | ⟨-, -, d', heffect, hthread⟩⟩ := step_cases hidle0 hs
    · rw [hnone] at hstub
      cases hstub
    · obtain ⟨d, hidle, hm, hc⟩ := hi hrel
      obtain rfl : d0 = d := congrArg Locked.data (hidle0.symm.trans hidle)
      obtain ⟨hplain, huncached⟩ := hok
      rw [hidle] at huncached
      rw [hcalls]
      exact ⟨d', hthread, hm.effect hplain heffect, hc.effect hm huncached heffect⟩

/-- In a run that unregisters no cached address, each endpoint that a lookup returns is
registered under the service at that time. -/
theorem no_stale_endpoint_is_given_out (h : (machine strategy).ReachUnder Careful s)
    (hgoing : s.relocked = none) {service : Text} (hs : slash ∉ service) {draw : Nat}
    {ep : ServiceEndpoint} (hd : discovered service draw s.thread = some ep) :
    (standing s.calls service ep.host ep.port).isSome = true := by
  obtain ⟨d, hidle, hm, hc⟩ := current_reach h hgoing
  obtain ⟨d', heffect, hback⟩ := discover_cases service draw d
  have hlookup : Uncached d (.discover service draw) := trivial
  have hcurrent := hc.effect hm hlookup heffect
  unfold discovered at hd
  rw [hidle] at hd
  rcases hback with ⟨ep', hret, hmem⟩ | ⟨e, hthrow⟩
  · rw [hret] at hd
    cases hd
    exact hcurrent service hs ep hmem
  · rw [hthrow] at hd
    cases hd

/-- Two addresses, one of which leaves before it is cached. -/
theorem a_lookup_gives_the_address_that_stayed :
    ∃ s, (machine .roundRobin).ReachUnder Careful s ∧
      discovered (ascii ['s']) 0 s.thread = some ⟨ascii ['h'], 80, 1⟩ ∧
      (standing s.calls (ascii ['s']) (ascii ['h']) 80).isSome = true := by
  have hrun : ∃ s, (machine .roundRobin).ReachUnder Careful s ∧ (s.relocked = none ∧
      discovered (ascii ['s']) 0 s.thread = some ⟨ascii ['h'], 80, 1⟩) :=
    Machine.ReachUnder.of_run [.registerService (ascii ['s']) (ascii ['g']) 80 1,
      .registerService (ascii ['s']) (ascii ['h']) 80 1,
      .unregisterService (ascii ['s']) (ascii ['g']) 80] (by decide +kernel)
  obtain ⟨s, hs, hgoing, hd⟩ := hrun
  exact ⟨s, hs, hd, no_stale_endpoint_is_given_out hs hgoing (by decide) hd⟩

/-- An address is cached by a lookup and then unregistered. The next lookup returns it. -/
theorem a_cached_address_outlives_its_registration :
    ∃ s, (machine .roundRobin).Reach s ∧ s.relocked = none ∧
      s.calls = [.unregisterService (ascii ['s']) (ascii ['h']) 80, .discover (ascii ['s']) 0,
        .registerService (ascii ['s']) (ascii ['h']) 80 1] ∧
      discovered (ascii ['s']) 0 s.thread = some ⟨ascii ['h'], 80, 1⟩ ∧
      standing s.calls (ascii ['s']) (ascii ['h']) 80 = none :=
  Machine.ReachUnder.of_run [.registerService (ascii ['s']) (ascii ['h']) 80 1,
    .discover (ascii ['s']) 0, .unregisterService (ascii ['s']) (ascii ['h']) 80]
    (by decide +kernel)

end RegistryRun

end rpc.registry
