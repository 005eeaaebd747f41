-- Choices that are spread evenly. A list of choices from a finite set is level
-- when no choice is ahead of another by more than one. It is level at every time
-- exactly when no choice repeats within a round, a round being as many choices as
-- the set has.
import Mathlib.Algebra.Order.BigOperators.Group.Finset
import Mathlib.Algebra.BigOperators.Group.Finset.Basic
import Mathlib.Algebra.Group.Action.Defs
import Mathlib.Order.Interval.Finset.Nat

namespace rounds

variable {α : Type*} [DecidableEq α] {V : Finset α} {xs : List α}

/-- No choice was made more than once oftener than another. -/
def Level (V : Finset α) (xs : List α) : Prop :=
  ∀ a ∈ V, ∀ b ∈ V, xs.count a ≤ xs.count b + 1

theorem sum_count (h : ∀ x ∈ xs, x ∈ V) : ∑ a ∈ V, xs.count a = xs.length := by
  rw [← List.sum_toFinset_count_eq_length]
  refine (Finset.sum_subset (fun a ha => h a (List.mem_toFinset.mp ha)) ?_).symm
  intro a _ ha
  exact List.count_eq_zero_of_not_mem fun hmem => ha (List.mem_toFinset.mpr hmem)

/-- A choice of a level list is made no less than the average, less one. -/
theorem length_lt_of_level (hV : ∀ x ∈ xs, x ∈ V) (hlevel : Level V xs) {a : α} (ha : a ∈ V) :
    xs.length < (xs.count a + 1) * V.card := by
  have hlt : ∑ b ∈ V, xs.count b < ∑ _b ∈ V, (xs.count a + 1) :=
    Finset.sum_lt_sum (fun b hb => hlevel b hb a ha) ⟨a, ha, Nat.lt_succ_self _⟩
  rwa [sum_count hV, Finset.sum_const, smul_eq_mul, Nat.mul_comm] at hlt

/-- A choice of a level list is made no more than the average, and one. -/
theorem lt_length_of_level (hV : ∀ x ∈ xs, x ∈ V) (hlevel : Level V xs) {a : α} (ha : a ∈ V) :
    xs.count a * V.card < xs.length + V.card := by
  have hlt : ∑ _b ∈ V, xs.count a < ∑ b ∈ V, (xs.count b + 1) :=
    Finset.sum_lt_sum (fun b hb => hlevel a ha b hb) ⟨a, ha, Nat.lt_succ_self _⟩
  rwa [Finset.sum_add_distrib, sum_count hV, Finset.sum_const, Finset.sum_const, smul_eq_mul,
    smul_eq_mul, Nat.mul_one, Nat.mul_comm] at hlt

/-- After whole rounds, a level list has made every choice equally often. -/
theorem count_of_level {r : Nat} (hV : ∀ x ∈ xs, x ∈ V) (hlevel : Level V xs)
    (hlen : xs.length = r * V.card) {a : α} (ha : a ∈ V) : xs.count a = r := by
  have hlow := length_lt_of_level hV hlevel ha
  have hhigh := lt_length_of_level hV hlevel ha
  rw [hlen] at hlow hhigh
  rw [← Nat.succ_mul] at hhigh
  have := Nat.lt_of_mul_lt_mul_right hlow
  have := Nat.lt_of_mul_lt_mul_right hhigh
  omega

/-- A level list makes every choice as often as the average says, rounded down or up. -/
theorem count_floor_or_ceil (hV : ∀ x ∈ xs, x ∈ V) (hlevel : Level V xs) {a : α} (ha : a ∈ V) :
    xs.count a = xs.length / V.card ∨ xs.count a = (xs.length + V.card - 1) / V.card := by
  have hcard : 0 < V.card := Finset.card_pos.mpr ⟨a, ha⟩
  have hlow : xs.length / V.card < xs.count a + 1 :=
    (Nat.div_lt_iff_lt_mul hcard).mpr (length_lt_of_level hV hlevel ha)
  have hhigh : xs.count a ≤ (xs.length + V.card - 1) / V.card := by
    have := lt_length_of_level hV hlevel ha
    rw [Nat.le_div_iff_mul_le hcard]
    omega
  have hnear : (xs.length + V.card - 1) / V.card ≤ xs.length / V.card + 1 := by
    rw [← Nat.add_div_right xs.length hcard]
    exact Nat.div_le_div_right (by omega)
  omega

/-- A choice that comes twice in a round is ahead of some other at the end of it. -/
theorem nodup_of_level {r : Nat} {ys : List α} (hV : ∀ x ∈ xs ++ ys, x ∈ V)
    (hcount : ∀ a ∈ V, xs.count a = r) (hlen : ys.length ≤ V.card)
    (hlevel : Level V (xs ++ ys)) : ys.Nodup := by
  rw [List.nodup_iff_count_le_one]
  intro a
  by_contra htwice
  have ha : a ∈ V := by
    apply hV
    rw [List.mem_append]
    exact Or.inr (List.count_pos_iff.mp (by omega))
  have hall : ∀ b ∈ V, 1 ≤ ys.count b := by
    intro b hb
    have hab := hlevel a ha b hb
    rw [List.count_append, List.count_append, hcount a ha, hcount b hb] at hab
    omega
  have hlt := Finset.sum_lt_sum hall ⟨a, ha, by omega⟩
  rw [sum_count fun x hx => hV x (List.mem_append.mpr (Or.inr hx)), Finset.sum_const] at hlt
  simp only [smul_eq_mul, Nat.mul_one] at hlt
  omega

/-- A whole round without a repetition makes every choice once. -/
theorem count_of_round {ys : List α} (hV : ∀ x ∈ ys, x ∈ V) (hnodup : ys.Nodup)
    (hlen : ys.length = V.card) {a : α} (ha : a ∈ V) : ys.count a = 1 := by
  have heq : ys.toFinset = V := by
    apply Finset.eq_of_subset_of_card_le
    · exact fun x hx => hV x (List.mem_toFinset.mp hx)
    · rw [List.toFinset_card_of_nodup hnodup, hlen]
  rw [← heq, List.mem_toFinset] at ha
  exact List.count_eq_one_of_mem hnodup ha

/-- Rounds without a repetition make every choice equally often. -/
theorem count_of_rounds (hV : ∀ x ∈ xs, x ∈ V)
    (hrounds : ∀ r, ((xs.drop (r * V.card)).take V.card).Nodup) {r : Nat}
    (hr : r * V.card ≤ xs.length) {a : α} (ha : a ∈ V) : (xs.take (r * V.card)).count a = r := by
  induction r with
  | zero => simp
  | succ r ih =>
    have hsucc : (r + 1) * V.card = r * V.card + V.card := Nat.succ_mul _ _
    rw [hsucc] at hr
    have hfull : ((xs.drop (r * V.card)).take V.card).length = V.card := by
      rw [List.length_take, List.length_drop]
      omega
    have hmem : ∀ x ∈ (xs.drop (r * V.card)).take V.card, x ∈ V := fun x hx =>
      hV x (List.mem_of_mem_drop (List.mem_of_mem_take hx))
    have hround := count_of_round hmem (hrounds r) hfull ha
    rw [hsucc, List.take_add, List.count_append, ih (by omega), hround]

/-- A list of choices is level at every time exactly when no choice repeats within a round. -/
theorem level_iff (hV : ∀ x ∈ xs, x ∈ V) :
    (∀ k, Level V (xs.take k)) ↔ ∀ r, ((xs.drop (r * V.card)).take V.card).Nodup := by
  constructor
  · intro hlevel r
    by_cases hr : r * V.card ≤ xs.length
    · have hcount : ∀ a ∈ V, (xs.take (r * V.card)).count a = r := by
        intro a ha
        refine count_of_level (fun x hx => hV x (List.mem_of_mem_take hx)) (hlevel _) ?_ ha
        rw [List.length_take, Nat.min_eq_left hr]
      have hnext := hlevel (r * V.card + V.card)
      rw [List.take_add] at hnext
      refine nodup_of_level ?_ hcount (List.length_take_le _ _) hnext
      rw [← List.take_add]
      exact fun x hx => hV x (List.mem_of_mem_take hx)
    · rw [List.drop_eq_nil_of_le (by omega)]
      simp
  · intro hrounds k a ha b hb
    have hcard : 0 < V.card := Finset.card_pos.mpr ⟨a, ha⟩
    -- the whole rounds before `k`, and the part of a round that follows them
    have hk : xs.take k = xs.take (min k xs.length) := by
      rw [← List.take_take, List.take_length]
    rw [hk]
    generalize hm : min k xs.length = m
    have hmle : m ≤ xs.length := by omega
    have hsplit : m = m / V.card * V.card + m % V.card := by
      rw [Nat.mul_comm]
      exact (Nat.div_add_mod m V.card).symm
    have hr : m / V.card * V.card ≤ xs.length := Nat.le_trans (by omega) hmle
    have hpart : ((xs.drop (m / V.card * V.card)).take (m % V.card)).Nodup := by
      refine (hrounds (m / V.card)).sublist ?_
      exact List.take_sublist_take_left (Nat.le_of_lt (Nat.mod_lt _ hcard))
    rw [hsplit, List.take_add, List.count_append, List.count_append,
      count_of_rounds hV hrounds hr ha, count_of_rounds hV hrounds hr hb]
    have hone := List.nodup_iff_count_le_one.mp hpart a
    omega

/-! ## Consecutive numbers -/

/-- Consecutive numbers, taken modulo `n`, repeat nothing within a round. -/
theorem nodup_mod_range' (n c : Nat) {k : Nat} (hk : k ≤ n) :
    ((List.range' c k).map (· % n)).Nodup := by
  refine List.Nodup.map_on ?_ List.nodup_range'
  intro x hx y hy hxy
  rw [List.mem_range'_1] at hx hy
  refine Nat.mod_injOn_Ico c n ?_ ?_ hxy
  · exact Finset.mem_coe.mpr (Finset.mem_Ico.mpr ⟨hx.1, by omega⟩)
  · exact Finset.mem_coe.mpr (Finset.mem_Ico.mpr ⟨hy.1, by omega⟩)

/-- Consecutive numbers, taken modulo `n`, are level from any start on. -/
theorem level_mod_range' {n : Nat} (hn : 0 < n) (c k : Nat) :
    Level (Finset.range n) ((List.range' c k).map (· % n)) := by
  have hV : ∀ x ∈ (List.range' c k).map (· % n), x ∈ Finset.range n := by
    intro x hx
    obtain ⟨v, -, rfl⟩ := List.mem_map.mp hx
    exact Finset.mem_range.mpr (Nat.mod_lt v hn)
  have hlevel := (level_iff hV).mpr ?_ k
  · rwa [List.take_of_length_le (by simp)] at hlevel
  · intro r
    rw [Finset.card_range, ← List.map_drop, ← List.map_take, List.drop_range']
    rcases Nat.le_total n (k - r * n) with hle | hle
    · rw [List.take_range'_of_length_ge hle]
      exact nodup_mod_range' n _ (Nat.le_refl n)
    · rw [List.take_range'_of_length_le hle]
      exact nodup_mod_range' n _ hle

end rounds
