-- A ring of keys with owners. A list of writes fills it, and the last write to a
-- key owns it. A query goes to the first key at or after its own place, and past
-- the last key around to the first. So taking writes away moves only the queries
-- that went to what was taken away.
import Mathlib.Data.List.Induction
import Mathlib.Order.Lattice

namespace hashring

variable {K V W : Type*} [LinearOrder K] {q k k' : K} {v : V} {e : K × V} {r ws : List (K × V)}

/-! ## The ring -/

/-- Write to one key of the ordered map. -/
def put (k : K) (v : V) : List (K × V) → List (K × V)
  | [] => [(k, v)]
  | e :: r =>
    if k < e.1 then (k, v) :: e :: r
    else if k = e.1 then (k, v) :: r
    else e :: put k v r

/-- The map after a list of writes. -/
def fill (ws : List (K × V)) : List (K × V) := ws.foldl (fun r w => put w.1 w.2 r) []

/-- The first entry at or after the query, or the first of all. -/
def next (q : K) (r : List (K × V)) : Option (K × V) := (r.find? fun e => q ≤ e.1).or r.head?

/-- The keys are in order, and so none is there twice. -/
def Sorted (r : List (K × V)) : Prop := r.Pairwise fun e e' => e.1 < e'.1

theorem mem_put (hs : Sorted r) : e ∈ put k v r ↔ e = (k, v) ∨ e ∈ r ∧ e.1 ≠ k := by
  induction r with
  | nil => simp [put]
  | cons first r ih =>
    obtain ⟨hfirst, hr⟩ := List.pairwise_cons.mp hs
    unfold put
    split
    · rename_i hlt
      have hne : ∀ x ∈ first :: r, x.1 ≠ k := by
        intro x hx
        rcases List.mem_cons.mp hx with rfl | hx
        · exact hlt.ne'
        · exact (hlt.trans (hfirst x hx)).ne'
      rw [List.mem_cons]
      exact or_congr_right ⟨fun h => ⟨h, hne e h⟩, And.left⟩
    split
    · rename_i heq
      subst heq
      rw [List.mem_cons, List.mem_cons]
      refine ⟨?_, ?_⟩
      · rintro (rfl | h)
        · exact Or.inl rfl
        · exact Or.inr ⟨Or.inr h, (hfirst e h).ne'⟩
      · rintro (rfl | ⟨rfl | h, hne⟩)
        · exact Or.inl rfl
        · exact absurd rfl hne
        · exact Or.inr h
    · rename_i hne
      rw [List.mem_cons, List.mem_cons, ih hr]
      refine ⟨?_, ?_⟩
      · rintro (rfl | rfl | h)
        · exact Or.inr ⟨Or.inl rfl, fun he => hne he.symm⟩
        · exact Or.inl rfl
        · exact Or.inr ⟨Or.inr h.1, h.2⟩
      · rintro (rfl | ⟨rfl | h, hk⟩)
        · exact Or.inr (Or.inl rfl)
        · exact Or.inl rfl
        · exact Or.inr (Or.inr ⟨h, hk⟩)

theorem sorted_put (hs : Sorted r) : Sorted (put k v r) := by
  induction r with
  | nil => exact List.pairwise_singleton _ _
  | cons first r ih =>
    obtain ⟨hfirst, hr⟩ := List.pairwise_cons.mp hs
    unfold put
    split
    · rename_i hlt
      refine List.pairwise_cons.mpr ⟨?_, hs⟩
      intro x hx
      rcases List.mem_cons.mp hx with rfl | hx
      · exact hlt
      · exact hlt.trans (hfirst x hx)
    split
    · rename_i heq
      subst heq
      exact List.pairwise_cons.mpr ⟨hfirst, hr⟩
    · rename_i hge hne
      refine List.pairwise_cons.mpr ⟨?_, ih hr⟩
      intro x hx
      rcases (mem_put hr).mp hx with rfl | ⟨hx, -⟩
      · exact lt_of_le_of_ne (not_lt.mp hge) fun he => hne he.symm
      · exact hfirst x hx

theorem fill_append (ws : List (K × V)) (w : K × V) : fill (ws ++ [w]) = put w.1 w.2 (fill ws) := by
  simp [fill]

theorem sorted_fill (ws : List (K × V)) : Sorted (fill ws) := by
  induction ws using List.reverseRecOn with
  | nil => exact List.Pairwise.nil
  | append_singleton ws w ih =>
    rw [fill_append]
    exact sorted_put ih

/-! ## The last write owns -/

/-- The last write to the key gave it to `v`. -/
def Owns (ws : List (K × V)) (k : K) (v : V) : Prop :=
  ∃ before after, ws = before ++ (k, v) :: after ∧ ∀ w ∈ after, w.1 ≠ k

omit [LinearOrder K] in
theorem owns_append {w : K × V} :
    Owns (ws ++ [w]) k v ↔ w = (k, v) ∨ w.1 ≠ k ∧ Owns ws k v := by
  refine ⟨?_, ?_⟩
  · rintro ⟨before, after, heq, hafter⟩
    rcases List.eq_nil_or_concat after with rfl | ⟨after, last, rfl⟩
    · obtain ⟨-, hw⟩ := List.append_inj' heq rfl
      exact Or.inl (List.singleton_inj.mp hw)
    · have heq' : ws ++ [w] = (before ++ (k, v) :: after) ++ [last] := by simpa using heq
      obtain ⟨hws, hw⟩ := List.append_inj' heq' rfl
      cases List.singleton_inj.mp hw
      exact Or.inr ⟨hafter w (by simp), before, after, hws, fun x hx => hafter x (by simp [hx])⟩
  · rintro (rfl | ⟨hne, before, after, rfl, hafter⟩)
    · exact ⟨ws, [], rfl, by simp⟩
    · refine ⟨before, after ++ [w], by simp, ?_⟩
      intro x hx
      rcases List.mem_append.mp hx with hx | hx
      · exact hafter x hx
      · rw [List.mem_singleton.mp hx]
        exact hne

/-- The ring holds each key with the owner that the last write gave it. -/
theorem mem_fill : (k, v) ∈ fill ws ↔ Owns ws k v := by
  induction ws using List.reverseRecOn with
  | nil =>
    refine ⟨?_, ?_⟩
    · intro h
      cases h
    · rintro ⟨before, after, heq, -⟩
      simp at heq
  | append_singleton ws w ih =>
    rw [fill_append, mem_put (sorted_fill ws), owns_append, ih]
    refine ⟨?_, ?_⟩
    · rintro (heq | ⟨hown, hne⟩)
      · exact Or.inl heq.symm
      · exact Or.inr ⟨hne.symm, hown⟩
    · rintro (rfl | ⟨hne, hown⟩)
      · exact Or.inl rfl
      · exact Or.inr ⟨hown, hne.symm⟩

omit [LinearOrder K] in
theorem Owns.mem (h : Owns ws k v) : (k, v) ∈ ws := by
  obtain ⟨before, after, rfl, -⟩ := h
  simp

/-- Every key that was written to has an owner. -/
theorem exists_owner (h : e ∈ ws) : ∃ v, Owns ws e.1 v := by
  induction ws using List.reverseRecOn with
  | nil => cases h
  | append_singleton ws w ih =>
    by_cases hk : w.1 = e.1
    · exact ⟨w.2, owns_append.mpr (Or.inl (Prod.ext hk rfl))⟩
    · rcases List.mem_append.mp h with h | h
      · obtain ⟨v, hv⟩ := ih h
        exact ⟨v, owns_append.mpr (Or.inr ⟨hk, hv⟩)⟩
      · exact absurd (by rw [List.mem_singleton.mp h]) hk

omit [LinearOrder K] in
/-- An owner whose writes are kept stays the owner. -/
theorem Owns.filter {keep : V → Bool} (h : Owns ws k v) (hv : keep v = true) :
    Owns (ws.filter fun w => keep w.2) k v := by
  obtain ⟨before, after, rfl, hafter⟩ := h
  refine ⟨before.filter fun w => keep w.2, after.filter fun w => keep w.2, by simp [hv], ?_⟩
  intro w hw
  exact hafter w (List.mem_filter.mp hw).1

/-! ## The first key around from a query -/

/-- From `q` around the ring, `k` is met no later than `k'`. -/
def Ahead (q k k' : K) : Prop := q ≤ k ∧ (q ≤ k' → k ≤ k') ∨ k < q ∧ k' < q ∧ k ≤ k'

theorem ahead_antisymm (h : Ahead q k k') (h' : Ahead q k' k) : k = k' := by
  rcases h with ⟨hk, hle⟩ | ⟨hk, hk', hle⟩
  · rcases h' with ⟨hk', hle'⟩ | ⟨-, hlt, -⟩
    · exact le_antisymm (hle hk') (hle' hk)
    · exact absurd hk (not_le.mpr hlt)
  · rcases h' with ⟨hq, -⟩ | ⟨-, -, hle'⟩
    · exact absurd hq (not_le.mpr hk')
    · exact le_antisymm hle hle'

theorem Sorted.eq_of_key {e' : K × V} (hs : Sorted r) (he : e ∈ r) (he' : e' ∈ r)
    (hk : e.1 = e'.1) : e = e' := by
  induction r with
  | nil => cases he
  | cons first r ih =>
    obtain ⟨hfirst, hr⟩ := List.pairwise_cons.mp hs
    rcases List.mem_cons.mp he with rfl | hrest
    · rcases List.mem_cons.mp he' with rfl | he'
      · rfl
      · exact absurd hk (hfirst e' he').ne
    · rcases List.mem_cons.mp he' with rfl | hin
      · exact absurd hk (hfirst e hrest).ne'
      · exact ih hr hrest hin

/-- What `next` returns is met first. -/
theorem ahead_of_next (hs : Sorted r) (h : next q r = some e) :
    e ∈ r ∧ ∀ e' ∈ r, Ahead q e.1 e'.1 := by
  rcases Option.or_eq_some_iff.mp h with hfind | ⟨hnone, hhead⟩
  · obtain ⟨hq, before, after, rfl, hbefore⟩ := List.find?_eq_some_iff_append.mp hfind
    refine ⟨by simp, ?_⟩
    intro e' he'
    refine Or.inl ⟨of_decide_eq_true hq, fun hq' => ?_⟩
    rcases List.mem_append.mp he' with hb | ha
    · have hnot := hbefore e' hb
      simp [hq'] at hnot
    · rcases List.mem_cons.mp ha with rfl | ha
      · exact le_refl _
      · have hpair := (List.pairwise_append.mp hs).2.1
        exact ((List.pairwise_cons.mp hpair).1 e' ha).le
  · have hbelow : ∀ x ∈ r, x.1 < q := by
      intro x hx
      have hnot := List.find?_eq_none.mp hnone x hx
      simpa using hnot
    obtain ⟨rest, rfl⟩ := List.head?_eq_some_iff.mp hhead
    refine ⟨by simp, ?_⟩
    intro e' he'
    refine Or.inr ⟨hbelow e (by simp), hbelow e' he', ?_⟩
    rcases List.mem_cons.mp he' with rfl | he'
    · exact le_refl _
    · exact ((List.pairwise_cons.mp hs).1 e' he').le

theorem next_isSome (h : r ≠ []) : ∃ e, next q r = some e := by
  obtain ⟨first, rest, rfl⟩ := List.exists_cons_of_ne_nil h
  unfold next
  cases List.find? (fun e => decide (q ≤ e.1)) (first :: rest) with
  | none => exact ⟨first, rfl⟩
  | some e => exact ⟨e, rfl⟩

/-- `next` returns the entry that is met first, and no other. -/
theorem next_eq_some (hs : Sorted r) :
    next q r = some e ↔ e ∈ r ∧ ∀ e' ∈ r, Ahead q e.1 e'.1 := by
  refine ⟨?_, ?_⟩
  · exact ahead_of_next hs
  · rintro ⟨he, hahead⟩
    obtain ⟨e', he'⟩ := next_isSome (q := q) (List.ne_nil_of_mem he)
    obtain ⟨hmem, hahead'⟩ := ahead_of_next hs he'
    have hk := ahead_antisymm (hahead e' hmem) (hahead' e he)
    rw [he', hs.eq_of_key he hmem hk]

/-- A query whose entry is kept goes to the same entry when other writes are taken away. -/
theorem next_filter (keep : V → Bool) (h : next q (fill ws) = some (k, v)) (hv : keep v = true) :
    next q (fill (ws.filter fun w => keep w.2)) = some (k, v) := by
  obtain ⟨hmem, hahead⟩ := (next_eq_some (sorted_fill ws)).mp h
  refine (next_eq_some (sorted_fill _)).mpr ⟨mem_fill.mpr ((mem_fill.mp hmem).filter hv), ?_⟩
  intro e' he'
  -- a key that is left was there before, perhaps with another owner
  have hold : e' ∈ ws := (List.mem_filter.mp (mem_fill.mp he').mem).1
  obtain ⟨v', hv'⟩ := exists_owner hold
  exact hahead (e'.1, v') (mem_fill.mpr hv')

/-- A query goes to the key that is met first among all that were written to, and there to its
owner. -/
theorem next_fill_eq_some :
    next q (fill ws) = some (k, v) ↔ Owns ws k v ∧ ∀ w ∈ ws, Ahead q k w.1 := by
  rw [next_eq_some (sorted_fill ws), mem_fill]
  refine and_congr_right fun _ => ⟨?_, ?_⟩
  · intro h w hw
    obtain ⟨v', hv'⟩ := exists_owner hw
    exact h (w.1, v') (mem_fill.mpr hv')
  · intro h e' he'
    exact h e' (mem_fill.mp he').mem

omit [LinearOrder K] in
/-- Who makes the last writes owns what he writes to. -/
theorem owns_of_last {ws' : List (K × V)} (h : (k, v) ∈ ws') (hall : ∀ w ∈ ws', w.2 = v) :
    Owns (ws ++ ws') k v := by
  induction ws' using List.reverseRecOn with
  | nil => cases h
  | append_singleton ws' w ih =>
    rw [← List.append_assoc]
    by_cases hk : w.1 = k
    · exact owns_append.mpr (Or.inl (Prod.ext hk (hall w (by simp))))
    · rcases List.mem_append.mp h with h | h
      · exact owns_append.mpr (Or.inr ⟨hk, ih h fun x hx => hall x (by simp [hx])⟩)
      · exact absurd (by rw [← List.mem_singleton.mp h]) hk

/-! ## Owners under another name -/

theorem put_map (f : V → W) (k : K) (v : V) (r : List (K × V)) :
    put k (f v) (r.map (Prod.map id f)) = (put k v r).map (Prod.map id f) := by
  induction r with
  | nil => rfl
  | cons first r ih =>
    simp only [put, List.map_cons, Prod.map_fst, id_eq, ih]
    split
    · rfl
    · split <;> rfl

theorem fill_map (f : V → W) (ws : List (K × V)) :
    fill (ws.map (Prod.map id f)) = (fill ws).map (Prod.map id f) := by
  induction ws using List.reverseRecOn with
  | nil => rfl
  | append_singleton ws w ih =>
    rw [List.map_append, List.map_singleton, fill_append, fill_append, ih]
    exact put_map f w.1 w.2 (fill ws)

theorem next_map (f : V → W) (q : K) (r : List (K × V)) :
    next q (r.map (Prod.map id f)) = (next q r).map (Prod.map id f) := by
  unfold next
  rw [List.find?_map, List.head?_map, Option.map_or]
  rfl

theorem fill_ne_nil (h : ws ≠ []) : fill ws ≠ [] := by
  obtain ⟨w, ws', rfl⟩ := List.exists_cons_of_ne_nil h
  obtain ⟨v, hv⟩ := exists_owner (List.mem_cons_self : w ∈ w :: ws')
  exact List.ne_nil_of_mem (mem_fill.mpr hv)

end hashring
