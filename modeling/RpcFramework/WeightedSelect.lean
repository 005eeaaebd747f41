-- Selection by weight. The scan takes the weights off the draw one after the
-- other and stops where the rest is negative, which is at the position whose
-- running sum of weights first passes the draw. So each endpoint gets as many
-- draws as its weight, and what can go wrong is in the running sums alone.
import Mathlib.Algebra.BigOperators.Group.List.Basic
import Mathlib.Algebra.Order.BigOperators.Group.List
import Mathlib.Algebra.Ring.Int.Defs
import Mathlib.Order.Interval.Finset.Nat
import RpcFramework.RegistryEntries

namespace rpc.registry

open text locks

variable {endpoints : List ServiceEndpoint} {back ep : ServiceEndpoint} {r : Int} {i : Nat}

/-! ## How the scan ends -/

/-- The sum of the weights. -/
def weightSum (endpoints : List ServiceEndpoint) : Int :=
  (endpoints.map fun ep => ep.weight.toInt).sum

@[simp] theorem weightSum_nil : weightSum [] = 0 := rfl

@[simp] theorem weightSum_cons (ep : ServiceEndpoint) (endpoints : List ServiceEndpoint) :
    weightSum (ep :: endpoints) = ep.weight.toInt + weightSum endpoints := rfl

/-- The scan returns from inside the loop, or behind it with `endpoints.back()`, or `r`
overflows. -/
inductive ScanEnd
  | found (i : Nat)
  | back
  | overflow
  deriving DecidableEq

/-- The same end, seen from one position earlier. -/
def ScanEnd.later : ScanEnd → ScanEnd
  | .found i => .found (i + 1)
  | .back => .back
  | .overflow => .overflow

/-- How the second loop of `select` ends for a draw. -/
def scanEnd (r : Int) : List ServiceEndpoint → ScanEnd
  | [] => .back
  | ep :: eps =>
    if ¬ InInt (r - ep.weight.toInt) then .overflow
    else if r - ep.weight.toInt < 0 then .found 0
    else (scanEnd (r - ep.weight.toInt) eps).later

theorem scanWeights_eq (back : ServiceEndpoint) (r : Int) (endpoints : List ServiceEndpoint) :
    scanWeights back r endpoints = match scanEnd r endpoints with
      | .found i => endpointAt endpoints i
      | .back => .ok back
      | .overflow => .error .undefined := by
  induction endpoints generalizing r with
  | nil => rfl
  | cons ep eps ih =>
    unfold scanWeights scanEnd
    split
    · rfl
    split
    · rfl
    · rw [ih]
      cases scanEnd (r - ep.weight.toInt) eps <;> rfl

/-- Where the scan stops: no running sum up to there passes the draw, or is so far below it that
`r` overflows, and the next one passes it. -/
theorem scanEnd_eq_found (hr : 0 ≤ r) (hhi : r < 2 ^ 31) :
    scanEnd r endpoints = .found i ↔ i < endpoints.length ∧
      (∀ j ≤ i, weightSum (endpoints.take j) ≤ r ∧ r - weightSum (endpoints.take j) < 2 ^ 31) ∧
      r < weightSum (endpoints.take (i + 1)) := by
  induction endpoints generalizing r i with
  | nil =>
    refine ⟨fun h => (by cases h), ?_⟩
    rintro ⟨h, -⟩
    cases h
  | cons ep eps ih =>
    have hlo := ep.weight.le_toInt
    have hw := ep.weight.toInt_lt
    unfold scanEnd InInt
    split
    · rename_i hover
      refine ⟨fun h => (by cases h), ?_⟩
      rintro ⟨-, hall, hpass⟩
      -- a weight below zero makes `r` too large at once, and then no sum passes it here
      cases i with
      | zero =>
        simp only [List.take_succ_cons, List.take_zero, weightSum_cons, weightSum_nil] at hpass
        omega
      | succ i =>
        have hone := hall 1 (by omega)
        simp only [List.take_succ_cons, List.take_zero, weightSum_cons, weightSum_nil] at hone
        omega
    split
    · rename_i hin hneg
      refine ⟨?_, ?_⟩
      · intro h
        cases h
        refine ⟨by simp, ?_, ?_⟩
        · intro j hj
          cases Nat.le_zero.mp hj
          simpa using ⟨hr, hhi⟩
        · simp only [List.take_succ_cons, List.take_zero, weightSum_cons, weightSum_nil]
          omega
      · rintro ⟨-, hall, -⟩
        cases i with
        | zero => rfl
        | succ i =>
          have hone := hall 1 (by omega)
          simp only [List.take_succ_cons, List.take_zero, weightSum_cons, weightSum_nil] at hone
          omega
    · rename_i hin hnonneg
      cases i with
      | zero =>
        refine ⟨?_, ?_⟩
        · intro h
          cases hend : scanEnd (r - ep.weight.toInt) eps <;> rw [hend] at h <;> cases h
        · rintro ⟨-, -, hpass⟩
          simp only [List.take_succ_cons, List.take_zero, weightSum_cons, weightSum_nil] at hpass
          omega
      | succ i =>
        have hlater : (scanEnd (r - ep.weight.toInt) eps).later = .found (i + 1) ↔
            scanEnd (r - ep.weight.toInt) eps = .found i := by
          cases scanEnd (r - ep.weight.toInt) eps <;> simp [ScanEnd.later]
        rw [hlater, ih (by omega) (by omega), List.length_cons, Nat.add_lt_add_iff_right,
          List.take_succ_cons, weightSum_cons]
        refine and_congr_right fun _ => and_congr ⟨?_, ?_⟩ (by omega)
        · intro hall j hj
          cases j with
          | zero => simpa using ⟨hr, hhi⟩
          | succ j =>
            have hj := hall j (by omega)
            rw [List.take_succ_cons, weightSum_cons]
            omega
        · intro hall j hj
          have hj := hall (j + 1) (by omega)
          rw [List.take_succ_cons, weightSum_cons] at hj
          omega

theorem addWeights_eq_ok {start total : Int} :
    addWeights start endpoints = .ok total ↔
      (∀ k < endpoints.length, InInt (start + weightSum (endpoints.take (k + 1)))) ∧
        total = start + weightSum endpoints := by
  induction endpoints generalizing start with
  | nil =>
    refine ⟨?_, ?_⟩
    · intro h
      cases h
      simp
    · rintro ⟨-, rfl⟩
      simp [addWeights]
  | cons ep eps ih =>
    unfold addWeights
    split
    · rename_i hin
      rw [ih, weightSum_cons, Int.add_assoc]
      refine and_congr_left fun _ => ⟨?_, ?_⟩
      · intro hall k hk
        rw [List.take_succ_cons, weightSum_cons, ← Int.add_assoc]
        cases k with
        | zero => simpa using hin
        | succ k => exact hall k (by simpa using hk)
      · intro hall k hk
        have hk := hall (k + 1) (by simpa using hk)
        rwa [List.take_succ_cons, weightSum_cons, ← Int.add_assoc] at hk
    · rename_i hover
      refine ⟨fun h => (by cases h), ?_⟩
      rintro ⟨hall, -⟩
      have hfirst := hall 0 (by simp)
      simp only [List.take_succ_cons, List.take_zero, weightSum_cons, weightSum_nil,
        Int.add_zero] at hfirst
      exact absurd hfirst hover

/-- A draw below the sum of all weights is passed by some running sum, and by a first one. -/
theorem exists_first_pass (hr : 0 ≤ r) (h : r < weightSum endpoints) :
    ∃ i < endpoints.length, (∀ j ≤ i, weightSum (endpoints.take j) ≤ r) ∧
      r < weightSum (endpoints.take (i + 1)) := by
  induction endpoints generalizing r with
  | nil =>
    rw [weightSum_nil] at h
    omega
  | cons ep eps ih =>
    by_cases hpass : r < ep.weight.toInt
    · refine ⟨0, by simp, ?_, by simpa using hpass⟩
      intro j hj
      cases Nat.le_zero.mp hj
      simpa using hr
    · rw [weightSum_cons] at h
      obtain ⟨i, hi, hall, hlt⟩ := ih (r := r - ep.weight.toInt) (by omega) (by omega)
      refine ⟨i + 1, by simpa using hi, ?_, ?_⟩
      · intro j hj
        cases j with
        | zero => simpa using hr
        | succ j =>
          have hj := hall j (by omega)
          rw [List.take_succ_cons, weightSum_cons]
          omega
      · rw [List.take_succ_cons, weightSum_cons]
        omega

/-- One more endpoint adds its weight. -/
theorem weightSum_take_succ (h : endpoints[i]? = some ep) :
    weightSum (endpoints.take (i + 1)) = weightSum (endpoints.take i) + ep.weight.toInt := by
  unfold weightSum
  rw [List.take_add_one, h, List.map_append, List.sum_append]
  simp

/-- `select` returns the endpoint at which the scan stops. -/
theorem selectWeighted_of_found {total : Int} {draw : Nat}
    (htotal : addWeights 0 endpoints = .ok total) (hpos : 1 ≤ total)
    (hend : scanEnd (draw % total) endpoints = .found i) (hep : endpoints[i]? = some ep) :
    selectWeighted endpoints draw = .ok ep := by
  have hne : endpoints ≠ [] := by
    rintro rfl
    cases hep
  unfold selectWeighted
  rw [List.getLast?_eq_some_getLast hne, htotal]
  dsimp only
  rw [if_neg (by omega), scanWeights_eq, hend]
  exact endpointAt_eq hep

/-! ## Weights that are not negative -/

theorem weightSum_take_le (hw : ∀ ep ∈ endpoints, 0 ≤ ep.weight.toInt) (i : Nat) :
    weightSum (endpoints.take i) ≤ weightSum endpoints := by
  have hrest : 0 ≤ ((endpoints.drop i).map fun ep => ep.weight.toInt).sum := by
    apply List.sum_nonneg
    intro w hmem
    obtain ⟨ep, hep, rfl⟩ := List.mem_map.mp hmem
    exact hw ep (List.mem_of_mem_drop hep)
  calc weightSum (endpoints.take i)
      ≤ weightSum (endpoints.take i) + ((endpoints.drop i).map fun ep => ep.weight.toInt).sum := by
        omega
    _ = weightSum endpoints := by
        unfold weightSum
        rw [← List.sum_append, ← List.map_append, List.take_append_drop]

theorem weightSum_take_mono (hw : ∀ ep ∈ endpoints, 0 ≤ ep.weight.toInt) {i j : Nat} (h : j ≤ i) :
    weightSum (endpoints.take j) ≤ weightSum (endpoints.take i) := by
  have hfirst : ∀ ep ∈ endpoints.take i, 0 ≤ ep.weight.toInt :=
    fun ep hep => hw ep (List.mem_of_mem_take hep)
  have hle := weightSum_take_le hfirst j
  rwa [List.take_take, Nat.min_eq_left h] at hle

/-- Then the draws that stop at a position are those between two running sums. -/
theorem scanEnd_eq_found_iff (hw : ∀ ep ∈ endpoints, 0 ≤ ep.weight.toInt) (hr : 0 ≤ r)
    (hhi : r < 2 ^ 31) (hep : endpoints[i]? = some ep) :
    scanEnd r endpoints = .found i ↔
      weightSum (endpoints.take i) ≤ r ∧ r < weightSum (endpoints.take (i + 1)) := by
  rw [scanEnd_eq_found hr hhi]
  refine ⟨fun h => ⟨(h.2.1 i (Nat.le_refl i)).1, h.2.2⟩, ?_⟩
  rintro ⟨hle, hlt⟩
  refine ⟨(List.getElem?_eq_some_iff.mp hep).1, ?_, hlt⟩
  intro j hj
  have hmono := weightSum_take_mono hw hj
  have hpos := weightSum_take_mono hw (Nat.zero_le j)
  rw [List.take_zero, weightSum_nil] at hpos
  omega

/-- With weights that are not negative and have a positive sum that is an `int`: nothing
overflows, as many draws stop at a position as the weight there is, and every draw stops at one,
so that `endpoints.back()` is never what is returned for want of a better. -/
theorem each_endpoint_is_drawn_by_its_weight (endpoints : List ServiceEndpoint)
    (hw : ∀ ep ∈ endpoints, 0 ≤ ep.weight.toInt) (hlo : 1 ≤ weightSum endpoints)
    (hhi : weightSum endpoints < 2 ^ 31) :
    addWeights 0 endpoints = .ok (weightSum endpoints) ∧
      (∀ i ep, endpoints[i]? = some ep →
        (((Finset.range (weightSum endpoints).toNat).filter
          fun r => scanEnd (r : Nat) endpoints = .found i).card : Int) = ep.weight.toInt) ∧
      ∀ r : Nat, r < weightSum endpoints → ∃ i ep, endpoints[i]? = some ep ∧
        scanEnd r endpoints = .found i ∧ (∀ back, scanWeights back r endpoints = .ok ep) ∧
        selectWeighted endpoints r = .ok ep := by
  have htotal : addWeights 0 endpoints = .ok (weightSum endpoints) := by
    refine addWeights_eq_ok.mpr ⟨?_, by omega⟩
    intro k hk
    have hle := weightSum_take_le hw (k + 1)
    have hpos := weightSum_take_mono hw (Nat.zero_le (k + 1))
    rw [List.take_zero, weightSum_nil] at hpos
    unfold InInt
    omega
  refine ⟨htotal, ?_, ?_⟩
  · intro i ep hep
    have hle := weightSum_take_le hw (i + 1)
    have hpos := weightSum_take_mono hw (Nat.zero_le i)
    have hnext := weightSum_take_succ hep
    have hweight := hw ep (List.mem_of_getElem? hep)
    rw [List.take_zero, weightSum_nil] at hpos
    have hdraws : ((Finset.range (weightSum endpoints).toNat).filter
        fun r => scanEnd (r : Nat) endpoints = .found i) =
        Finset.Ico (weightSum (endpoints.take i)).toNat
          (weightSum (endpoints.take (i + 1))).toNat := by
      ext r
      rw [Finset.mem_filter, Finset.mem_range, Finset.mem_Ico]
      refine ⟨?_, ?_⟩
      · rintro ⟨hr, hend⟩
        have hin := (scanEnd_eq_found_iff hw (by omega) (by omega) hep).mp hend
        omega
      · intro hin
        refine ⟨by omega, (scanEnd_eq_found_iff hw (by omega) (by omega) hep).mpr ?_⟩
        omega
    rw [hdraws, Nat.card_Ico]
    omega
  · intro r hr
    obtain ⟨i, hi, hall, hlt⟩ := exists_first_pass (Int.natCast_nonneg r) hr
    have hep : endpoints[i]? = some endpoints[i] := List.getElem?_eq_getElem hi
    have hend : scanEnd r endpoints = .found i :=
      (scanEnd_eq_found_iff hw (by omega) (by omega) hep).mpr ⟨hall i (Nat.le_refl i), hlt⟩
    have hmod : (r : Int) % weightSum endpoints = r := Int.emod_eq_of_lt (by omega) hr
    refine ⟨i, endpoints[i], hep, hend, ?_, ?_⟩
    · intro back
      rw [scanWeights_eq, hend]
      exact endpointAt_eq hep
    · exact selectWeighted_of_found htotal hlo (by rw [hmod]; exact hend) hep

/-- Weights two, zero and three. -/
def threeWeights : List ServiceEndpoint :=
  [⟨ascii ['a'], 1, 2⟩, ⟨ascii ['b'], 2, 0⟩, ⟨ascii ['c'], 3, 3⟩]

theorem the_last_of_three_has_three_draws :
    (((Finset.range 5).filter fun r => scanEnd (r : Nat) threeWeights = .found 2).card : Int) = 3 :=
  (each_endpoint_is_drawn_by_its_weight threeWeights (by decide) (by decide) (by decide)).2.1 2
    ⟨ascii ['c'], 3, 3⟩ rfl

/-! ## Any weights -/

/-- The running sums are of type `int`, the whole sum is positive, and no running sum before one
reaches the whole is so far below it that the largest draw overflows. -/
def Drawable (endpoints : List ServiceEndpoint) : Prop :=
  (∀ k ≤ endpoints.length, InInt (weightSum (endpoints.take k))) ∧ 1 ≤ weightSum endpoints ∧
    ∀ k ≤ endpoints.length,
      (∀ j ≤ k, weightSum (endpoints.take j) < weightSum endpoints) →
        weightSum endpoints - 1 - weightSum (endpoints.take k) < 2 ^ 31

theorem addWeights_ok_iff :
    addWeights 0 endpoints = .ok (weightSum endpoints) ↔
      ∀ k ≤ endpoints.length, InInt (weightSum (endpoints.take k)) := by
  rw [addWeights_eq_ok]
  simp only [Int.zero_add, and_true]
  refine ⟨?_, fun hall k hk => hall (k + 1) hk⟩
  intro hall k hk
  cases k with
  | zero => exact ⟨by simp, by simp⟩
  | succ k => exact hall k hk

/-- What `select` has gone through when it returns. -/
theorem found_of_selectWeighted {draw : Nat} (h : selectWeighted endpoints draw = .ok ep) :
    addWeights 0 endpoints = .ok (weightSum endpoints) ∧ 1 ≤ weightSum endpoints ∧
      scanEnd (draw % weightSum endpoints) endpoints ≠ .overflow := by
  unfold selectWeighted at h
  split at h
  · cases h
  split at h
  · cases h
  rename_i total htotal
  split at h
  · cases h
  rename_i hpos
  obtain rfl : total = weightSum endpoints := by
    have hsum := (addWeights_eq_ok.mp htotal).2
    omega
  refine ⟨htotal, by omega, ?_⟩
  intro hover
  rw [scanWeights_eq, hover] at h
  cases h

/-- Behind the loop the weights are all taken off. -/
theorem weightSum_le_of_back (hr : 0 ≤ r) (h : scanEnd r endpoints = .back) :
    weightSum endpoints ≤ r := by
  induction endpoints generalizing r with
  | nil => exact hr
  | cons ep eps ih =>
    unfold scanEnd at h
    split at h
    · cases h
    split at h
    · cases h
    · rename_i hrest
      have hback : scanEnd (r - ep.weight.toInt) eps = .back := by
        cases hend : scanEnd (r - ep.weight.toInt) eps <;> rw [hend] at h <;> cases h
      have hle := ih (by omega) hback
      rw [weightSum_cons]
      omega

/-- When the whole sum is positive, a draw stops, and where it does the weight is positive. -/
theorem found_of_no_overflow (draw : Nat) (hpos : 1 ≤ weightSum endpoints)
    (hhi : weightSum endpoints < 2 ^ 31)
    (h : ∀ k ≤ endpoints.length,
      (∀ j ≤ k, weightSum (endpoints.take j) < weightSum endpoints) →
        weightSum endpoints - 1 - weightSum (endpoints.take k) < 2 ^ 31) :
    ∃ i ep, endpoints[i]? = some ep ∧ 0 < ep.weight.toInt ∧
      scanEnd (draw % weightSum endpoints) endpoints = .found i := by
  have hlo : 0 ≤ (draw : Int) % weightSum endpoints := Int.emod_nonneg _ (by omega)
  have hlt : (draw : Int) % weightSum endpoints < weightSum endpoints :=
    Int.emod_lt_of_pos _ (by omega)
  obtain ⟨i, hi, hall, hpass⟩ := exists_first_pass hlo hlt
  have hep : endpoints[i]? = some endpoints[i] := List.getElem?_eq_getElem hi
  have hbefore := hall i (Nat.le_refl i)
  rw [weightSum_take_succ hep] at hpass
  refine ⟨i, endpoints[i], hep, by omega, ?_⟩
  rw [← weightSum_take_succ hep] at hpass
  refine (scanEnd_eq_found hlo (by omega)).mpr ⟨hi, ?_, hpass⟩
  intro j hj
  have hnear := h j (by omega) fun j' hj' => by
    have := hall j' (by omega)
    omega
  have := hall j hj
  omega

/-- `select` is defined for every draw, returns an endpoint of the list, and one of positive
weight if there is any, exactly when the list is drawable. -/
theorem weighted_selection_is_defined_iff (endpoints : List ServiceEndpoint) :
    (∀ draw, ∃ ep ∈ endpoints, selectWeighted endpoints draw = .ok ep ∧
      ((∃ ep' ∈ endpoints, 0 < ep'.weight.toInt) → 0 < ep.weight.toInt)) ↔
      Drawable endpoints := by
  refine ⟨?_, ?_⟩
  · intro hall
    -- the largest draw comes nearest to an overflow
    obtain ⟨ep, -, hselect, -⟩ := hall (weightSum endpoints - 1).toNat
    obtain ⟨htotal, hpos, hnoover⟩ := found_of_selectWeighted hselect
    have hsums := addWeights_ok_iff.mp htotal
    refine ⟨hsums, hpos, ?_⟩
    have hhi := (hsums endpoints.length (Nat.le_refl _)).2
    rw [List.take_length] at hhi
    have hdraw : ((weightSum endpoints - 1).toNat : Int) % weightSum endpoints =
        weightSum endpoints - 1 := by
      rw [Int.toNat_of_nonneg (by omega)]
      exact Int.emod_eq_of_lt (by omega) (by omega)
    rw [hdraw] at hnoover
    intro k hk hbelow
    cases hend : scanEnd (weightSum endpoints - 1) endpoints with
    | overflow => exact absurd hend hnoover
    | back =>
      have := weightSum_le_of_back (by omega) hend
      omega
    | found i =>
      obtain ⟨-, hstop, hpass⟩ := (scanEnd_eq_found (by omega) (by omega)).mp hend
      have hki : k ≤ i := by
        by_contra hlater
        have := hbelow (i + 1) (by omega)
        omega
      exact (hstop k hki).2
  · rintro ⟨hsums, hpos, hnear⟩ draw
    have hhi := (hsums endpoints.length (Nat.le_refl _)).2
    rw [List.take_length] at hhi
    obtain ⟨i, ep, hep, hweight, hend⟩ := found_of_no_overflow draw hpos hhi hnear
    exact ⟨ep, List.mem_of_getElem? hep,
      selectWeighted_of_found (addWeights_ok_iff.mpr hsums) hpos hend hep, fun _ => hweight⟩

/-- One registration, of weight zero. -/
theorem a_lone_weight_of_zero_is_undefined :
    ∃ t t', runCalls [.registerService (ascii ['s']) (ascii ['h']) 80 0]
        (idle (Registry.started .weighted)) = .returned () t ∧
      refresh (ascii ['s']) t = .returned () t' ∧
      t'.data.cache (ascii ['s']) = [⟨ascii ['h'], 80, 0⟩] ∧
      ∀ draw, selectWeighted (t'.data.cache (ascii ['s'])) draw = .error .undefined := by
  obtain ⟨d, hrun, hm⟩ := runCalls_spec [.registerService (ascii ['s']) (ascii ['h']) 80 0] []
    (by decide) (mirrors_started .weighted) fun _ => rfl
  have hrefresh := refresh_spec (ascii ['s']) d
  rw [hm.found (by decide)] at hrefresh
  have hcache := stored_cache (ascii ['s']) [⟨ascii ['h'], 80, 0⟩] (watched (ascii ['s']) d)
  refine ⟨_, _, hrun, hrefresh, hcache, fun draw => ?_⟩
  exact congrArg (selectWeighted · draw) hcache

end rpc.registry
