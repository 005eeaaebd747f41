-- Round-robin under concurrent calls. Any number of threads select from one list with
-- one balancer. The addition to the counter is atomic, and all else in a call is local
-- to its thread, so the places are those of the counter's values, in any interleaving.
import Mathlib.Logic.Function.Basic
import RpcFramework.LoadBalancer
import RpcFramework.Rounds
import RpcFramework.Runs

namespace rpc.registry

open text rounds runs

/-! ## The state -/

/-- Where a thread stands: outside of `select`; after the check of the list; after `fetch_add`,
with the value that it gave. -/
inductive SelectPc
  | outside | checked
  | added (value : UInt64)
  deriving DecidableEq

/-- The value of the counter that the thread has taken and not used yet. -/
def SelectPc.inHand : SelectPc → List UInt64
  | .added value => [value]
  | _ => []

/-- A call that came back: its thread, what `fetch_add` gave, the place `idx`, and the result. -/
structure Selection (τ : Type) where
  thread : τ
  value : UInt64
  position : Nat
  result : Except Failure ServiceEndpoint

/-- The addition that the call made. -/
def Selection.taken {τ : Type} (x : Selection τ) : τ × UInt64 := (x.thread, x.value)

/-- The balancer and its callers. The last two fields only record what happened: the additions in
the order of the counter, and the calls in the order in which they came back. -/
structure RoundRobin (τ : Type) where
  counter : UInt64
  threads : τ → SelectPc
  added : List (τ × UInt64)
  returned : List (Selection τ)

namespace RoundRobin

variable {τ : Type} [DecidableEq τ]

/-- A balancer whose counter stands at `c`, before the first call. -/
def new (c : UInt64) : RoundRobin τ where
  counter := c
  threads := fun _ => .outside
  added := []
  returned := []

def setThread (s : RoundRobin τ) (t : τ) (pc : SelectPc) : RoundRobin τ :=
  { s with threads := Function.update s.threads t pc }

/-- `counter_.fetch_add(1)`. -/
def fetchAdd (s : RoundRobin τ) (t : τ) : RoundRobin τ :=
  { s.setThread t (.added s.counter) with
    counter := s.counter + 1, added := s.added ++ [(t, s.counter)] }

/-- The place in the list that a value of the counter stands for. -/
def position (endpoints : List ServiceEndpoint) (value : UInt64) : Nat :=
  value.toNat % endpoints.length

/-- `return endpoints[idx]`. -/
def ret (endpoints : List ServiceEndpoint) (s : RoundRobin τ) (t : τ) (value : UInt64) :
    RoundRobin τ :=
  { s.setThread t .outside with
    returned := s.returned ++ [{
      thread := t
      value := value
      position := position endpoints value
      result := endpointAt endpoints (position endpoints value) }] }

/-! ## The steps -/

inductive Act (τ : Type)
  | enter (t : τ)
  | fetchAdd (t : τ)
  | ret (t : τ)

/-- The thread that acts. -/
def Act.thread {τ : Type} : Act τ → τ
  | .enter t | .fetchAdd t | .ret t => t

/-- The state after an action, when it can be taken. -/
def step (endpoints : List ServiceEndpoint) (s : RoundRobin τ) : Act τ → Option (RoundRobin τ)
  | .enter t =>
    match s.threads t with
    -- an empty list throws, and the counter stays
    | .outside => some (if endpoints = [] then s else s.setThread t .checked)
    | _ => none
  | .fetchAdd t =>
    match s.threads t with
    | .checked => some (s.fetchAdd t)
    | _ => none
  | .ret t =>
    match s.threads t with
    | .added value => some (s.ret endpoints t value)
    | _ => none

def machine (endpoints : List ServiceEndpoint) (c : UInt64) :
    Machine (RoundRobin τ) (Act τ) where
  init := new c
  step := step endpoints

/-- The changes, each with its action and what it found. -/
inductive Move (endpoints : List ServiceEndpoint) (s : RoundRobin τ) :
    Act τ → RoundRobin τ → Prop
  | throws (t : τ) : endpoints = [] → Move endpoints s (.enter t) s
  | enter (t : τ) : s.threads t = .outside → Move endpoints s (.enter t) (s.setThread t .checked)
  | fetchAdd (t : τ) : s.threads t = .checked → Move endpoints s (.fetchAdd t) (s.fetchAdd t)
  | ret (t : τ) (value : UInt64) : s.threads t = .added value →
      Move endpoints s (.ret t) (s.ret endpoints t value)

variable {endpoints : List ServiceEndpoint} {c : UInt64} {s s' : RoundRobin τ} {a : Act τ}

theorem move_of_step (h : s.step endpoints a = some s') : Move endpoints s a s' := by
  cases a with
  | enter t =>
    simp only [step] at h
    split at h
    · rename_i hout
      by_cases hempty : endpoints = []
      · rw [if_pos hempty] at h
        cases h
        exact .throws t hempty
      · rw [if_neg hempty] at h
        cases h
        exact .enter t hout
    · cases h
  | fetchAdd t =>
    simp only [step] at h
    split at h
    · cases h
      exact .fetchAdd t ‹_›
    · cases h
  | ret t =>
    simp only [step] at h
    split at h
    · cases h
      exact .ret t _ ‹_›
    · cases h

/-! ## The values of the counter -/

/-- The values that `k` additions give when the counter stands at `c`. -/
def valuesFrom (c : UInt64) (k : Nat) : List UInt64 :=
  (List.range k).map fun j => c + UInt64.ofNat j

theorem valuesFrom_succ (c : UInt64) (k : Nat) :
    valuesFrom c (k + 1) = valuesFrom c k ++ [c + UInt64.ofNat k] := by
  unfold valuesFrom
  rw [List.range_succ, List.map_append]
  rfl

/-- The values from some addition on are those of a balancer that starts there. -/
theorem valuesFrom_window (c : UInt64) {i k m : Nat} (h : i + k ≤ m) :
    ((valuesFrom c m).drop i).take k = valuesFrom (c + UInt64.ofNat i) k := by
  unfold valuesFrom
  rw [← List.map_drop, ← List.map_take, List.range_eq_range', List.drop_range',
    List.take_range'_of_length_ge (by omega), List.range'_eq_map_range, List.map_map]
  apply List.map_congr_left
  intro j _
  rw [Function.comp_apply, Nat.zero_add, Nat.mul_one, UInt64.ofNat_add, UInt64.add_assoc]

/-- As long as the counter does not wrap around, the values are consecutive numbers. -/
theorem toNat_valuesFrom {c : UInt64} {k : Nat} (h : c.toNat + k ≤ 2 ^ 64) :
    (valuesFrom c k).map UInt64.toNat = List.range' c.toNat k := by
  unfold valuesFrom
  rw [List.range'_eq_map_range, List.map_map]
  apply List.map_congr_left
  intro j hj
  rw [List.mem_range] at hj
  rw [Function.comp_apply, UInt64.toNat_add, UInt64.toNat_ofNat', Nat.mod_eq_of_lt (by omega),
    Nat.mod_eq_of_lt (by omega)]

/-- The places of `k` additions in a row come equally often, up to rounding. -/
theorem count_valuesFrom (hne : endpoints ≠ []) {k : Nat} (h : c.toNat + k ≤ 2 ^ 64) {i : Nat}
    (hi : i < endpoints.length) :
    ((valuesFrom c k).map (position endpoints)).count i = k / endpoints.length ∨
      ((valuesFrom c k).map (position endpoints)).count i =
        (k + endpoints.length - 1) / endpoints.length := by
  have hpos : 0 < endpoints.length := List.length_pos_iff.mpr hne
  have hplaces : (valuesFrom c k).map (position endpoints) =
      (List.range' c.toNat k).map (· % endpoints.length) := by
    rw [← toNat_valuesFrom h, List.map_map]
    rfl
  have hrange : ∀ x ∈ (List.range' c.toNat k).map (· % endpoints.length),
      x ∈ Finset.range endpoints.length := by
    intro x hx
    obtain ⟨v, -, rfl⟩ := List.mem_map.mp hx
    exact Finset.mem_range.mpr (Nat.mod_lt v hpos)
  have hcount := count_floor_or_ceil hrange (level_mod_range' hpos c.toNat k)
    (Finset.mem_range.mpr hi)
  rw [List.length_map, List.length_range', Finset.card_range] at hcount
  rw [hplaces]
  exact hcount

/-- Around the wrap a place may come twice in a row, since `2 ^ 64` is no multiple of three. -/
example : (valuesFrom 18446744073709551615 2).map (·.toNat % 3) = [0, 0] := by decide

/-! ## The invariant -/

structure Good (endpoints : List ServiceEndpoint) (c : UInt64) (s : RoundRobin τ) : Prop where
  counter : s.counter = c + UInt64.ofNat s.added.length
  values : s.added.map (·.2) = valuesFrom c s.added.length
  /-- A value that was taken is in the hand of its thread, or was used by it. -/
  accounted : ∀ t v, s.added.count (t, v) =
    (s.returned.map Selection.taken).count (t, v) + (s.threads t).inHand.count v
  results : ∀ x ∈ s.returned, x.position = position endpoints x.value ∧
    x.result = endpointAt endpoints x.position

theorem good_new : Good endpoints c (new c : RoundRobin τ) where
  counter := (UInt64.add_zero c).symm
  values := rfl
  accounted := fun _ _ => rfl
  results := by
    intro x hx
    cases hx

theorem good_setThread {t : τ} {pc : SelectPc} (h : Good endpoints c s)
    (hpc : pc.inHand = (s.threads t).inHand) : Good endpoints c (s.setThread t pc) := by
  refine ⟨h.counter, h.values, ?_, h.results⟩
  intro t' v
  by_cases ht : t' = t
  · subst ht
    simp only [setThread, Function.update_self, hpc]
    exact h.accounted t' v
  · simp only [setThread, Function.update_of_ne ht]
    exact h.accounted t' v

theorem count_append_self (l : List (τ × UInt64)) (t : τ) (value v : UInt64) :
    (l ++ [(t, value)]).count (t, v) = l.count (t, v) + [value].count v := by
  rw [List.count_append, List.count_singleton, List.count_singleton]
  simp

theorem count_append_other {t t' : τ} (ht : t' ≠ t) (l : List (τ × UInt64)) (value v : UInt64) :
    (l ++ [(t, value)]).count (t', v) = l.count (t', v) := by
  have hother : (t', v) ∉ [(t, value)] := fun hmem =>
    ht (congrArg Prod.fst (List.mem_singleton.mp hmem))
  rw [List.count_append, List.count_eq_zero_of_not_mem hother, Nat.add_zero]

theorem good_fetchAdd {t : τ} (h : Good endpoints c s) (hpc : s.threads t = .checked) :
    Good endpoints c (s.fetchAdd t) where
  counter := by
    change s.counter + 1 = c + UInt64.ofNat (s.added ++ [(t, s.counter)]).length
    rw [List.length_append, UInt64.ofNat_add, ← UInt64.add_assoc, ← h.counter]
    rfl
  values := by
    change (s.added ++ [(t, s.counter)]).map (·.2) = valuesFrom c (s.added ++ [_]).length
    rw [List.map_append, List.length_append, h.values, List.length_singleton, valuesFrom_succ,
      ← h.counter]
    rfl
  accounted := by
    intro t' v
    have hold := h.accounted t' v
    simp only [fetchAdd, setThread]
    by_cases ht : t' = t
    · subst ht
      rw [hpc] at hold
      rw [Function.update_self, count_append_self, hold]
      rfl
    · rw [Function.update_of_ne ht, count_append_other ht]
      exact hold
  results := h.results

theorem good_ret {t : τ} {value : UInt64} (h : Good endpoints c s)
    (hpc : s.threads t = .added value) : Good endpoints c (s.ret endpoints t value) where
  counter := h.counter
  values := h.values
  accounted := by
    intro t' v
    have hold := h.accounted t' v
    simp only [ret, setThread, List.map_append, List.map_singleton, Selection.taken]
    by_cases ht : t' = t
    · subst ht
      rw [hpc] at hold
      rw [Function.update_self, count_append_self, hold]
      rfl
    · rw [Function.update_of_ne ht, count_append_other ht]
      exact hold
  results := by
    intro x hx
    rcases List.mem_append.mp hx with hold | hnew
    · exact h.results x hold
    · rw [List.mem_singleton.mp hnew]
      exact ⟨rfl, rfl⟩

theorem good_of_reach (h : (machine endpoints c).Reach s) : Good endpoints c s := by
  refine Machine.Reach.invariant (I := Good endpoints c) good_new ?_ h
  intro s a s' _ hgood hs
  cases move_of_step hs with
  | throws t _ => exact hgood
  | enter t hpc => exact good_setThread hgood (by rw [hpc]; rfl)
  | fetchAdd t hpc => exact good_fetchAdd hgood hpc
  | ret t value hpc => exact good_ret hgood hpc

/-! ## The law -/

/-- A call needs no other thread to come back. -/
theorem call_returns (c : UInt64) (s : RoundRobin τ) (t : τ) :
    ∃ s', (machine endpoints c).LaterUnder (fun _ a => a.thread = t) s s' ∧
      s'.threads t = .outside := by
  have hret : ∀ (s : RoundRobin τ) (value : UInt64), s.threads t = .added value →
      ∃ s', (machine endpoints c).LaterUnder (fun _ a => a.thread = t) s s' ∧
        s'.threads t = .outside := by
    intro s value hpc
    refine ⟨s.ret endpoints t value, .single ⟨.ret t, rfl, ?_⟩, Function.update_self _ _ _⟩
    simp only [machine, step, hpc]
  cases hpc : s.threads t with
  | outside => exact ⟨s, .refl, hpc⟩
  | checked =>
    obtain ⟨s', hlater, hout⟩ := hret (s.fetchAdd t) s.counter (Function.update_self _ _ _)
    refine ⟨s', .head ⟨.fetchAdd t, rfl, ?_⟩ hlater, hout⟩
    simp only [machine, step, hpc]
  | added value => exact hret s value hpc

/-- A call that no other interrupts gives what `select` gives, and leaves its counter. -/
theorem call_alone (hne : endpoints ≠ []) (c : UInt64) {t : τ} (hout : s.threads t = .outside) :
    ∃ s' x, (machine endpoints c).LaterUnder (fun _ a => a.thread = t) s s' ∧
      s'.threads t = .outside ∧ s'.returned = s.returned ++ [x] ∧
      (x.result, s'.counter) = selectRoundRobin s.counter endpoints := by
  let checked := s.setThread t .checked
  let added := checked.fetchAdd t
  have hchecked : checked.threads t = .checked := Function.update_self _ _ _
  have hadded : added.threads t = .added s.counter := Function.update_self _ _ _
  have hlater : (machine endpoints c).LaterUnder (fun _ a => a.thread = t) s
      (added.ret endpoints t s.counter) := by
    refine .head (b := checked) ⟨.enter t, rfl, ?_⟩ (.head (b := added) ⟨.fetchAdd t, rfl, ?_⟩
      (.single ⟨.ret t, rfl, ?_⟩))
    · simp only [machine, step, hout, if_neg hne]
      rfl
    · simp only [machine, step, hchecked]
      rfl
    · simp only [machine, step, hadded]
  refine ⟨_, _, hlater, Function.update_self _ _ _, rfl, ?_⟩
  unfold selectRoundRobin
  rw [if_neg hne]
  rfl

/-- A call that came back made one of the additions. -/
theorem taken_mem (h : Good endpoints c s) {x : Selection τ} (hx : x ∈ s.returned) :
    x.taken ∈ s.added := by
  have hmem : 0 < (s.returned.map Selection.taken).count (x.thread, x.value) :=
    List.count_pos_iff.mpr (List.mem_map_of_mem hx)
  have hcount := h.accounted x.thread x.value
  apply List.count_pos_iff.mp
  change 0 < s.added.count (x.thread, x.value)
  omega

/-- A call that came back gave the endpoint at its place. -/
theorem returned_endpoint (hne : endpoints ≠ []) (h : Good endpoints c s) {x : Selection τ}
    (hx : x ∈ s.returned) : ∃ ep, endpoints[x.position]? = some ep ∧ x.result = .ok ep := by
  obtain ⟨hposition, hresult⟩ := h.results x hx
  have hlt : x.position < endpoints.length := by
    rw [hposition]
    exact Nat.mod_lt _ (List.length_pos_iff.mpr hne)
  have hget := List.getElem?_eq_getElem hlt
  refine ⟨endpoints[x.position], hget, ?_⟩
  rw [hresult]
  exact endpointAt_eq hget

/-- Additions in a row have the places of a balancer that starts at the first of them. -/
theorem positions_window (h : Good endpoints c s) {j k : Nat} (hle : j + k ≤ s.added.length) :
    ((s.added.drop j).take k).map (fun p => position endpoints p.2) =
      (valuesFrom (c + UInt64.ofNat j) k).map (position endpoints) := by
  rw [← valuesFrom_window c hle, ← h.values, ← List.map_drop, ← List.map_take, List.map_map]
  rfl

/-- When no call is under way, the calls that came back made the additions. -/
theorem returned_perm (h : Good endpoints c s) (hout : ∀ t, s.threads t = .outside) :
    (s.returned.map Selection.taken).Perm s.added := by
  apply List.perm_iff_count.mpr
  intro p
  have hcount := h.accounted p.1 p.2
  rw [hout p.1] at hcount
  exact hcount.symm

/-- The places of the calls that came back, in whatever order they did. -/
theorem positions_returned (h : Good endpoints c s) (hout : ∀ t, s.threads t = .outside) :
    (s.returned.map (·.position)).Perm
      ((valuesFrom c s.returned.length).map (position endpoints)) := by
  have hperm := returned_perm h hout
  have hlen : s.returned.length = s.added.length := by
    rw [← hperm.length_eq, List.length_map]
  have htaken : s.returned.map (·.position) =
      (s.returned.map Selection.taken).map fun p => position endpoints p.2 := by
    rw [List.map_map]
    apply List.map_congr_left
    intro x hx
    exact (h.results x hx).1
  have hall : (valuesFrom c s.returned.length).map (position endpoints) =
      s.added.map fun p => position endpoints p.2 := by
    rw [hlen, ← h.values, List.map_map]
    rfl
  rw [htaken, hall]
  exact hperm.map _

/-- A call comes back whatever the other threads do, with the endpoint at its place. Any `k`
calls that follow each other in the order of their additions take each place of the list as often
as `k / n` says, rounded down or up, unless the counter wraps around between them; and so do all
the calls that came back, when no other is under way. -/
theorem round_robin_is_balanced (hne : endpoints ≠ []) (c : UInt64)
    (h : (machine endpoints c).Reach s) :
    (∀ t, ∃ s', (machine endpoints c).LaterUnder (fun _ a => a.thread = t) s s' ∧
      s'.threads t = .outside) ∧
    (∀ x ∈ s.returned, (x.thread, x.value) ∈ s.added ∧ x.position = position endpoints x.value ∧
      ∃ ep, endpoints[x.position]? = some ep ∧ x.result = .ok ep) ∧
    (∀ j k, j + k ≤ s.added.length → (c + UInt64.ofNat j).toNat + k ≤ 2 ^ 64 →
      ∀ i < endpoints.length,
        (((s.added.drop j).take k).map fun p => position endpoints p.2).count i =
            k / endpoints.length ∨
          (((s.added.drop j).take k).map fun p => position endpoints p.2).count i =
            (k + endpoints.length - 1) / endpoints.length) ∧
    ∀ k, s.returned.length = k → (∀ t, s.threads t = .outside) → c.toNat + k ≤ 2 ^ 64 →
      ∀ i < endpoints.length,
        (s.returned.map (·.position)).count i = k / endpoints.length ∨
          (s.returned.map (·.position)).count i =
            (k + endpoints.length - 1) / endpoints.length := by
  have hgood := good_of_reach h
  refine ⟨call_returns c s, ?_, ?_, ?_⟩
  · intro x hx
    exact ⟨taken_mem hgood hx, (hgood.results x hx).1, returned_endpoint hne hgood hx⟩
  · intro j k hle hfits i hi
    rw [positions_window hgood hle]
    exact count_valuesFrom hne hfits hi
  · intro k hk hout hfits i hi
    rw [(positions_returned hgood hout).count_eq, hk]
    exact count_valuesFrom hne hfits hi

def threeServers : List ServiceEndpoint :=
  [⟨ascii ['a'], 80, 1⟩, ⟨ascii ['b'], 80, 1⟩, ⟨ascii ['c'], 80, 1⟩]

/-- Two threads make five calls with the last five values of the counter. One of them stands
between its addition and its return while the other makes two calls. -/
theorem two_threads_are_balanced :
    ∃ s, (machine (τ := Bool) threeServers 18446744073709551611).Reach s ∧
      s.returned.map (·.position) = [0, 1, 2, 2, 0] ∧
      ∀ i < 3, (s.returned.map (·.position)).count i = 1 ∨
        (s.returned.map (·.position)).count i = 2 := by
  have hrun : ∃ s, (machine (τ := Bool) threeServers 18446744073709551611).Reach s ∧
      s.returned.map (·.position) = [0, 1, 2, 2, 0] ∧ s.threads true = .outside ∧
      s.threads false = .outside :=
    Machine.ReachUnder.of_run [.enter false, .enter true, .fetchAdd true, .fetchAdd false,
      .ret false, .enter false, .fetchAdd false, .ret false, .ret true, .enter true,
      .enter false, .fetchAdd false, .fetchAdd true, .ret false, .ret true] (by decide +kernel)
  obtain ⟨s, hs, hpositions, htrue, hfalse⟩ := hrun
  have hlen : s.returned.length = 5 := by
    rw [← List.length_map (f := fun x : Selection Bool => x.position), hpositions]
    rfl
  have hout : ∀ t, s.threads t = .outside := by
    intro t
    cases t with
    | true => exact htrue
    | false => exact hfalse
  exact ⟨s, hs, hpositions, (round_robin_is_balanced (by decide) 18446744073709551611 hs).2.2.2
    5 hlen hout (by decide)⟩

end RoundRobin

end rpc.registry
