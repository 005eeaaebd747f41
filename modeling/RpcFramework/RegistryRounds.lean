-- Round-robin over several services. One counter serves all of them, so whether
-- a service goes through its endpoints evenly depends on the lookups of the
-- others between its own.
import RpcFramework.ServiceRegistry
import RpcFramework.Rounds

namespace rpc.registry

open text locks rounds

/-! ## The lookups of a run -/

/-- What one `discover` gave: the place in the cached list, and the endpoint. -/
structure Lookup where
  service : Text
  position : Nat
  endpoint : ServiceEndpoint

/-- Lookups one after the other, as the atomic counter orders them. The round-robin balancer
takes the place that the counter gives, and draws no random number. -/
def lookups : List Text → Registry → List Lookup
  | [], _ => []
  | service :: rest, d =>
    match d.lb, discover service 0 (idle d) with
    | .roundRobin counter, .returned ep t =>
      ⟨service, counter.toNat % (d.cache service).length, ep⟩ :: lookups rest t.data
    | _, _ => []

/-- The values of the counter that the lookups of one service take. -/
def tickets (service : Text) : UInt64 → List Text → List UInt64
  | _, [] => []
  | counter, s :: rest =>
    if s = service then counter :: tickets service (counter + 1) rest
    else tickets service (counter + 1) rest

variable {d : Registry} {counter : UInt64} {calls : List Text} {service : Text}

/-- A lookup of a cached service takes one value of the counter. -/
theorem lookups_cons (hlb : d.lb = .roundRobin counter) (hcache : d.cache service ≠ [])
    (calls : List Text) :
    ∃ ep, (d.cache service)[counter.toNat % (d.cache service).length]? = some ep ∧
      lookups (service :: calls) d =
        ⟨service, counter.toNat % (d.cache service).length, ep⟩ ::
          lookups calls { d with lb := .roundRobin (counter + 1) } := by
  have hpos : counter.toNat % (d.cache service).length < (d.cache service).length :=
    Nat.mod_lt _ (List.length_pos_iff.mpr hcache)
  have hget := List.getElem?_eq_getElem hpos
  have hdiscover : discover service 0 (idle d) =
      .returned (d.cache service)[counter.toNat % (d.cache service).length]
        (idle { d with lb := .roundRobin (counter + 1) }) := by
    have hselect : d.lb.select (d.cache service) 0 =
        (.ok (d.cache service)[counter.toNat % (d.cache service).length],
          .roundRobin (counter + 1)) := by
      rw [hlb]
      simp [LoadBalancer.select, selectRoundRobin, hcache, endpointAt_eq hget]
    rw [discover_spec, if_neg hcache]
    change Prog.ofExcept (d.lb.select (d.cache service) 0).1 (idle { d with
      lb := (d.lb.select (d.cache service) 0).2 }) = _
    rw [hselect]
    rfl
  refine ⟨_, hget, ?_⟩
  rw [lookups, hlb, hdiscover]
  rfl

/-- Each lookup comes back, with the endpoint at its place. -/
theorem lookups_spec (hlb : d.lb = .roundRobin counter) (hcache : ∀ s ∈ calls, d.cache s ≠ []) :
    (lookups calls d).map (·.service) = calls ∧
      ∀ l ∈ lookups calls d, (d.cache l.service)[l.position]? = some l.endpoint := by
  induction calls generalizing d counter with
  | nil => simp [lookups]
  | cons s calls ih =>
    obtain ⟨ep, hget, hcons⟩ := lookups_cons hlb (hcache s (by simp)) calls
    obtain ⟨h1, h2⟩ := ih (d := { d with lb := .roundRobin (counter + 1) }) rfl
      fun s' hs' => hcache s' (by simp [hs'])
    rw [hcons]
    refine ⟨by simp [h1], ?_⟩
    intro l hl
    rcases List.mem_cons.mp hl with rfl | hl
    · exact hget
    · exact h2 l hl

/-- The places that the lookups of one service took, in order. -/
def positions (service : Text) (ls : List Lookup) : List Nat :=
  (ls.filter fun l => l.service = service).map (·.position)

theorem positions_lookups (hlb : d.lb = .roundRobin counter)
    (hcache : ∀ s ∈ calls, d.cache s ≠ []) :
    positions service (lookups calls d) =
      (tickets service counter calls).map fun t => t.toNat % (d.cache service).length := by
  induction calls generalizing d counter with
  | nil => rfl
  | cons s calls ih =>
    obtain ⟨ep, -, hcons⟩ := lookups_cons hlb (hcache s (by simp)) calls
    have hrest := ih (d := { d with lb := .roundRobin (counter + 1) }) rfl
      fun s' hs' => hcache s' (by simp [hs'])
    unfold positions at hrest ⊢
    rw [hcons, tickets]
    by_cases hs : s = service
    · subst hs
      simp [hrest]
    · simp [hs, hrest]

/-- The lookups up to some time are the first ones of each service. -/
theorem tickets_take (k : Nat) :
    ∃ j, tickets service counter (calls.take k) = (tickets service counter calls).take j := by
  induction calls generalizing counter k with
  | nil => exact ⟨0, by simp [tickets]⟩
  | cons s calls ih =>
    cases k with
    | zero => exact ⟨0, by simp [tickets]⟩
    | succ k =>
      obtain ⟨j, hj⟩ := @ih (counter + 1) k
      by_cases hs : s = service
      · exact ⟨j + 1, by simp [tickets, hs, hj]⟩
      · exact ⟨j, by simp [tickets, hs, hj]⟩

theorem take_tickets (j : Nat) :
    ∃ k, (tickets service counter calls).take j = tickets service counter (calls.take k) := by
  induction calls generalizing counter j with
  | nil => exact ⟨0, by simp [tickets]⟩
  | cons s calls ih =>
    by_cases hs : s = service
    · cases j with
      | zero => exact ⟨0, by simp [tickets]⟩
      | succ j =>
        obtain ⟨k, hk⟩ := @ih (counter + 1) j
        exact ⟨k + 1, by simp [tickets, hs, hk]⟩
    · obtain ⟨k, hk⟩ := @ih (counter + 1) j
      exact ⟨k + 1, by simp [tickets, hs, hk]⟩

/-! ## The law -/

/-- How often a place in the list of a service was returned. -/
def timesReturned (ls : List Lookup) (service : Text) (i : Nat) : Nat :=
  ls.countP fun l => l.service = service ∧ l.position = i

/-- No place of a service was returned more than once oftener than another. -/
def Fair (d : Registry) (ls : List Lookup) (service : Text) : Prop :=
  ∀ i < (d.cache service).length, ∀ j < (d.cache service).length,
    timesReturned ls service i ≤ timesReturned ls service j + 1

instance (d : Registry) (ls : List Lookup) (service : Text) : Decidable (Fair d ls service) :=
  inferInstanceAs (Decidable (∀ i < _, _))

/-- In each successive round of `n` tickets, no two are equal modulo `n`. -/
def TakesTurns (n : Nat) (ts : List UInt64) : Prop :=
  ∀ r, ((ts.drop (r * n)).take n).Pairwise fun t t' => t.toNat % n ≠ t'.toNat % n

theorem fair_iff (d : Registry) (ls : List Lookup) (service : Text) :
    Fair d ls service ↔
      Level (Finset.range (d.cache service).length) (positions service ls) := by
  have hcount : ∀ i, timesReturned ls service i = (positions service ls).count i := by
    intro i
    unfold timesReturned positions
    rw [List.count_eq_countP, List.countP_map, List.countP_filter]
    apply List.countP_congr
    intro l _
    simp [and_comm]
  unfold Fair Level
  simp only [hcount, Finset.mem_range]

/-- One service is served evenly at every time exactly when its lookups take turns. -/
theorem fair_always_iff (hlb : d.lb = .roundRobin counter) (hcache : ∀ s ∈ calls, d.cache s ≠ [])
    (hservice : d.cache service ≠ []) :
    (∀ k, Fair d (lookups (calls.take k) d) service) ↔
      TakesTurns (d.cache service).length (tickets service counter calls) := by
  have hpositions : ∀ k, positions service (lookups (calls.take k) d) =
      (tickets service counter (calls.take k)).map fun t => t.toNat % (d.cache service).length :=
    fun k => positions_lookups hlb fun s hs => hcache s (List.mem_of_mem_take hs)
  have hrange : ∀ x ∈ (tickets service counter calls).map
      (fun t => t.toNat % (d.cache service).length), x ∈ Finset.range (d.cache service).length := by
    intro x hx
    obtain ⟨t, -, rfl⟩ := List.mem_map.mp hx
    exact Finset.mem_range.mpr (Nat.mod_lt _ (List.length_pos_iff.mpr hservice))
  have hturns : TakesTurns (d.cache service).length (tickets service counter calls) ↔
      ∀ k, Level (Finset.range (d.cache service).length)
        (((tickets service counter calls).map fun t => t.toNat % (d.cache service).length).take k)
      := by
    rw [level_iff hrange, Finset.card_range]
    unfold TakesTurns
    apply forall_congr'
    intro r
    rw [← List.map_drop, ← List.map_take]
    exact List.pairwise_map.symm
  rw [hturns]
  simp only [fair_iff, hpositions, ← List.map_take]
  constructor
  · intro hfair j
    obtain ⟨k, hk⟩ := @take_tickets counter calls service j
    rw [hk]
    exact hfair k
  · intro hlevel k
    obtain ⟨j, hj⟩ := @tickets_take counter calls service k
    rw [hj]
    exact hlevel j

/-- Lookups of services with cached endpoints come back, each with the endpoint at its place.
They are fair to every service at every time exactly when the counter values that a service gets
are different modulo the length of its list within each of its rounds. -/
theorem lookups_are_fair_iff (d : Registry) (counter : UInt64) (hlb : d.lb = .roundRobin counter)
    (calls : List Text) (hcache : ∀ s ∈ calls, d.cache s ≠ []) :
    ((lookups calls d).map (·.service) = calls ∧
      ∀ l ∈ lookups calls d, (d.cache l.service)[l.position]? = some l.endpoint) ∧
    ((∀ service ∈ calls, ∀ k, Fair d (lookups (calls.take k) d) service) ↔
      ∀ service ∈ calls,
        TakesTurns (d.cache service).length (tickets service counter calls)) := by
  refine ⟨lookups_spec hlb hcache, ?_⟩
  constructor
  · exact fun h service hs => (fair_always_iff hlb hcache (hcache service hs)).mp (h service hs)
  · exact fun h service hs => (fair_always_iff hlb hcache (hcache service hs)).mpr (h service hs)

/-- Two services with two endpoints each, as their caches hold them. -/
def twoServices : Registry :=
  { Registry.started .roundRobin with
    cache := fun s =>
      if s = ascii ['a'] then [⟨ascii ['g'], 80, 1⟩, ⟨ascii ['h'], 80, 1⟩]
      else if s = ascii ['b'] then [⟨ascii ['i'], 80, 1⟩, ⟨ascii ['j'], 80, 1⟩]
      else [] }

/-- A single round takes turns when its tickets are different modulo its length. -/
theorem takesTurns_round {n : Nat} {ts : List UInt64} (hlen : ts.length ≤ n)
    (h : ts.Pairwise fun t t' => t.toNat % n ≠ t'.toNat % n) : TakesTurns n ts := by
  intro r
  cases r with
  | zero =>
    rw [Nat.zero_mul, List.drop_zero]
    exact h.sublist (List.take_sublist _ _)
  | succ r =>
    have hle : n ≤ (r + 1) * n := Nat.le_mul_of_pos_left n (Nat.succ_pos r)
    rw [List.drop_eq_nil_of_le (Nat.le_trans hlen hle), List.take_nil]
    exact List.Pairwise.nil

/-- Two lookups of one service, and then two of the other. -/
theorem lookups_in_pairs_are_fair :
    (∀ s ∈ [ascii ['a'], ascii ['a'], ascii ['b'], ascii ['b']], twoServices.cache s ≠ []) ∧
    ∀ service ∈ [ascii ['a'], ascii ['a'], ascii ['b'], ascii ['b']], ∀ k, Fair twoServices
      (lookups ([ascii ['a'], ascii ['a'], ascii ['b'], ascii ['b']].take k) twoServices)
      service := by
  refine ⟨by decide, (lookups_are_fair_iff twoServices 0 rfl
    [ascii ['a'], ascii ['a'], ascii ['b'], ascii ['b']] (by decide)).2.mpr ?_⟩
  intro service hs
  have hab : service = ascii ['a'] ∨ service = ascii ['b'] := by
    simp only [List.mem_cons, List.not_mem_nil, or_false] at hs
    tauto
  rcases hab with rfl | rfl
  · exact takesTurns_round (by decide) (by decide)
  · exact takesTurns_round (by decide) (by decide)

/-- Lookups of the two services in turn: each gets every second value of the counter, and so one
of its two endpoints only. -/
theorem lookups_in_turn_are_not_fair :
    ¬ Fair twoServices
      (lookups [ascii ['a'], ascii ['b'], ascii ['a'], ascii ['b']] twoServices) (ascii ['a']) := by
  decide +kernel

end rpc.registry
