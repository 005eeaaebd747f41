-- What a change of the endpoint list does to consistent hashing. The ring holds
-- pointers to the entries of the list, so two entries with one address are two
-- owners, and of two owners of one place the later entry wins. When an entry
-- leaves the list, only the keys that went to it go elsewhere.
import RpcFramework.HashRing
import RpcFramework.LoadBalancer

namespace rpc.registry

open text hashring

instance instLinearOrderUInt32 : LinearOrder UInt32 where
  le_refl _ := UInt32.le_refl _
  le_trans _ _ _ := UInt32.le_trans
  le_antisymm _ _ := UInt32.le_antisymm
  le_total := UInt32.le_total
  lt_iff_le_not_ge a b := by
    simp only [UInt32.le_iff_toNat_le, UInt32.lt_iff_toNat_lt]
    omega
  toDecidableLE := inferInstance
  toDecidableLT := inferInstance
  toDecidableEq := inferInstance

/-! ## The ring of pointers -/

/-- The writes of one entry to the ring. An entry is an endpoint at its place in the list. -/
def nodesOf (virtualNodes : Nat) (entry : ServiceEndpoint × Nat) :
    List (UInt32 × ServiceEndpoint × Nat) :=
  (List.range virtualNodes).map fun i => (hash (virtualNode entry.1 i), entry)

/-- The writes of `select` to its ring, in order. -/
def ringWrites (virtualNodes : Nat) (endpoints : List ServiceEndpoint) :
    List (UInt32 × ServiceEndpoint × Nat) :=
  endpoints.zipIdx.flatMap (nodesOf virtualNodes)

/-- `key_hash`. -/
def keyHash (key : Text) : UInt32 :=
  hash (if key = [] then ascii ['d', 'e', 'f', 'a', 'u', 'l', 't'] else key)

/-- The entry that `select` returns: `*it->second`, with its place in the list. -/
def selectedEntry (virtualNodes : Int32) (key : Text) (endpoints : List ServiceEndpoint) :
    Option (ServiceEndpoint × Nat) :=
  (next (keyHash key) (fill (ringWrites virtualNodes.toInt.toNat endpoints))).map Prod.snd

theorem ringSet_eq_put (h : UInt32) (ep : ServiceEndpoint) (ring : List (UInt32 × ServiceEndpoint)) :
    ringSet h ep ring = put h ep ring := by
  induction ring with
  | nil => rfl
  | cons entry ring ih =>
    unfold ringSet put
    rw [ih]

/-- The ring of the model is filled by the virtual nodes of the endpoints in order. -/
theorem buildRing_eq_fill (n : Nat) (endpoints : List ServiceEndpoint) :
    buildRing n endpoints = fill (endpoints.flatMap fun ep =>
      (List.range n).map fun i => (hash (virtualNode ep i), ep)) := by
  unfold buildRing ringAdd fill
  rw [List.foldl_flatMap]
  simp only [List.foldl_map, ringSet_eq_put]

/-- The ring of the model is the ring of pointers, with the endpoints that they point to. -/
theorem buildRing_eq (n : Nat) (endpoints : List ServiceEndpoint) :
    buildRing n endpoints = (fill (ringWrites n endpoints)).map (Prod.map id Prod.fst) := by
  rw [← fill_map, buildRing_eq_fill]
  unfold ringWrites nodesOf
  rw [List.map_flatMap]
  conv_lhs => rw [← List.zipIdx_map_fst 0 endpoints, List.flatMap_map]
  simp only [List.map_map]
  rfl

theorem select_eq_selectedEntry {virtualNodes : Int32} {key : Text}
    {endpoints : List ServiceEndpoint} (h : endpoints ≠ []) :
    selectConsistentHash virtualNodes key endpoints =
      match selectedEntry virtualNodes key endpoints with
      | some entry => .ok entry.1
      | none => .error .undefined := by
  have hring : ((buildRing virtualNodes.toInt.toNat endpoints).find? fun entry =>
        keyHash key ≤ entry.1).or (buildRing virtualNodes.toInt.toNat endpoints).head? =
      (next (keyHash key) (fill (ringWrites virtualNodes.toInt.toNat endpoints))).map
        (Prod.map id Prod.fst) := by
    rw [buildRing_eq]
    exact next_map Prod.fst (keyHash key) _
  unfold selectConsistentHash selectedEntry
  rw [if_neg h]
  dsimp only
  rw [← keyHash, hring]
  cases next (keyHash key) (fill (ringWrites virtualNodes.toInt.toNat endpoints)) <;> rfl

/-- With a virtual node, `select` returns an entry of the list. -/
theorem selectedEntry_mem {virtualNodes : Int32} {endpoints : List ServiceEndpoint} (key : Text)
    (hv : 1 ≤ virtualNodes.toInt) (h : endpoints ≠ []) :
    ∃ ep p, selectedEntry virtualNodes key endpoints = some (ep, p) ∧ endpoints[p]? = some ep := by
  obtain ⟨first, rest, rfl⟩ := List.exists_cons_of_ne_nil h
  have hwrites : ringWrites virtualNodes.toInt.toNat (first :: rest) ≠ [] := by
    have hpos : List.range virtualNodes.toInt.toNat ≠ [] := by
      rw [ne_eq, List.range_eq_nil]
      omega
    intro hnil
    have hfirst := List.flatMap_eq_nil_iff.mp hnil (first, 0) (by simp)
    exact hpos (List.map_eq_nil_iff.mp hfirst)
  obtain ⟨⟨k, ep, p⟩, hnext⟩ := next_isSome (q := keyHash key) (fill_ne_nil hwrites)
  refine ⟨ep, p, by rw [selectedEntry, hnext]; rfl, ?_⟩
  have hmem := (mem_fill.mp (ahead_of_next (sorted_fill _) hnext).1).mem
  obtain ⟨entry, hentry, hnode⟩ := List.mem_flatMap.mp hmem
  obtain ⟨i, -, heq⟩ := List.mem_map.mp hnode
  cases heq
  exact List.mem_zipIdx_iff_getElem?.mp hentry

/-! ## An entry leaves the list -/

/-- The place of an entry when the one at `j` has left. -/
def closeGap (j p : Nat) : Nat := if p < j then p else p - 1

/-- The entries that stay, each at its new place. -/
theorem zipIdx_eraseIdx (endpoints : List ServiceEndpoint) (start j : Nat) :
    (endpoints.eraseIdx j).zipIdx start =
      ((endpoints.zipIdx start).filter fun e => e.2 ≠ start + j).map
        fun e => (e.1, closeGap (start + j) e.2) := by
  induction endpoints generalizing start j with
  | nil => rfl
  | cons first rest ih =>
    cases j with
    | zero =>
      have hlater : ∀ e ∈ rest.zipIdx start, closeGap start (e.2 + 1) = e.2 := by
        intro e he
        have := (List.mem_zipIdx he).1
        unfold closeGap
        split <;> omega
      have hother : ∀ e ∈ rest.zipIdx (start + 1), e.2 ≠ start := by
        intro e he
        have := (List.mem_zipIdx he).1
        omega
      rw [List.eraseIdx_cons_zero, List.zipIdx_cons, List.filter_cons_of_neg (by simp),
        Nat.add_zero, List.filter_eq_self.mpr (by simpa using hother), List.zipIdx_succ,
        List.map_map]
      conv_lhs => rw [← List.map_id (rest.zipIdx start)]
      apply List.map_congr_left
      intro e he
      exact Prod.ext rfl (hlater e he).symm
    | succ j =>
      have hfirst : closeGap (start + (j + 1)) start = start := by
        unfold closeGap
        rw [if_pos (by omega)]
      rw [List.eraseIdx_cons_succ, List.zipIdx_cons, List.zipIdx_cons,
        List.filter_cons_of_pos (by simp), List.map_cons, hfirst, ih,
        Nat.add_assoc, Nat.add_comm 1 j]

/-- Only the writes of the entry that left are missing. -/
theorem ringWrites_eraseIdx (n j : Nat) (endpoints : List ServiceEndpoint) :
    ringWrites n (endpoints.eraseIdx j) = ((ringWrites n endpoints).filter fun w => w.2.2 ≠ j).map
      (Prod.map id fun e => (e.1, closeGap j e.2)) := by
  unfold ringWrites
  rw [zipIdx_eraseIdx, Nat.zero_add]
  generalize endpoints.zipIdx = entries
  induction entries with
  | nil => rfl
  | cons e rest ih =>
    rw [List.flatMap_cons, List.filter_append, List.map_append, ← ih]
    by_cases he : e.2 = j
    · have hnone : (nodesOf n e).filter (fun w => w.2.2 ≠ j) = [] := by
        simp [nodesOf, he]
      rw [List.filter_cons_of_neg (by simp [he]), hnone]
      rfl
    · have hall : (nodesOf n e).filter (fun w => w.2.2 ≠ j) = nodesOf n e := by
        simp [nodesOf, he]
      rw [List.filter_cons_of_pos (by simp [he]), List.map_cons, List.flatMap_cons, hall]
      simp [nodesOf]

theorem selectedEntry_eraseIdx {virtualNodes : Int32} {key : Text} {ep : ServiceEndpoint}
    {endpoints : List ServiceEndpoint} {j p : Nat}
    (h : selectedEntry virtualNodes key endpoints = some (ep, p)) (hp : p ≠ j) :
    selectedEntry virtualNodes key (endpoints.eraseIdx j) = some (ep, closeGap j p) := by
  obtain ⟨⟨k, e⟩, hnext, he⟩ := Option.map_eq_some_iff.mp h
  cases he
  have hkeep := next_filter (fun e => e.2 ≠ j) hnext (by simpa)
  unfold selectedEntry
  rw [ringWrites_eraseIdx, fill_map, next_map, hkeep]
  rfl

/-- For every key: when an entry of the list leaves, a key that went to another entry goes to
the same entry as before; and when an endpoint is put anywhere into the list, a key goes to the
endpoint that it went to before, or to the new one. -/
theorem hashing_disturbs_only_what_it_must (virtualNodes : Int32) (hv : 1 ≤ virtualNodes.toInt)
    (key : Text) :
    (∀ (endpoints : List ServiceEndpoint) (j : Nat), 2 ≤ endpoints.length → j < endpoints.length →
      ∃ ep p, selectedEntry virtualNodes key endpoints = some (ep, p) ∧
        endpoints[p]? = some ep ∧ selectConsistentHash virtualNodes key endpoints = .ok ep ∧
        (p ≠ j → selectedEntry virtualNodes key (endpoints.eraseIdx j) = some (ep, closeGap j p) ∧
          selectConsistentHash virtualNodes key (endpoints.eraseIdx j) = .ok ep)) ∧
    ∀ (endpoints : List ServiceEndpoint) (new : ServiceEndpoint) (j : Nat), endpoints ≠ [] →
      j ≤ endpoints.length →
      selectConsistentHash virtualNodes key (endpoints.insertIdx j new) =
          selectConsistentHash virtualNodes key endpoints ∨
        selectedEntry virtualNodes key (endpoints.insertIdx j new) = some (new, j) ∧
          selectConsistentHash virtualNodes key (endpoints.insertIdx j new) = .ok new := by
  have hselect : ∀ {endpoints : List ServiceEndpoint} {e : ServiceEndpoint × Nat},
      endpoints ≠ [] → selectedEntry virtualNodes key endpoints = some e →
      selectConsistentHash virtualNodes key endpoints = .ok e.1 := by
    intro endpoints e hne he
    rw [select_eq_selectedEntry hne, he]
  refine ⟨?_, ?_⟩
  · intro endpoints j hlen hj
    have hne : endpoints ≠ [] := List.ne_nil_of_length_pos (by omega)
    have hrest : endpoints.eraseIdx j ≠ [] := by
      apply List.ne_nil_of_length_pos
      rw [List.length_eraseIdx_of_lt hj]
      omega
    obtain ⟨ep, p, hentry, hat⟩ := selectedEntry_mem key hv hne
    refine ⟨ep, p, hentry, hat, hselect hne hentry, ?_⟩
    intro hp
    have hkept := selectedEntry_eraseIdx hentry hp
    exact ⟨hkept, hselect hrest hkept⟩
  · intro endpoints new j hne hj
    have hmore : endpoints.insertIdx j new ≠ [] := by
      apply List.ne_nil_of_length_pos
      rw [List.length_insertIdx_of_le_length hj]
      omega
    obtain ⟨ep, p, hentry, hat⟩ := selectedEntry_mem key hv hmore
    by_cases hp : p = j
    · subst hp
      rw [List.getElem?_insertIdx_self, if_pos hj] at hat
      cases hat
      exact Or.inr ⟨hentry, hselect hmore hentry⟩
    · have hkept := selectedEntry_eraseIdx hentry hp
      rw [List.eraseIdx_insertIdx_self] at hkept
      exact Or.inl ((hselect hmore hentry).trans (hselect hne hkept).symm)

/-- One address stands twice in the list, with two weights. -/
def listedTwice : List ServiceEndpoint :=
  [⟨ascii ['a'], 80, 1⟩, ⟨ascii ['b'], 80, 1⟩, ⟨ascii ['a'], 80, 2⟩]

theorem the_first_of_two_leaves :
    selectedEntry 2 [] listedTwice = some (⟨ascii ['a'], 80, 2⟩, 2) ∧
      selectedEntry 2 [] (listedTwice.eraseIdx 0) = some (⟨ascii ['a'], 80, 2⟩, 1) ∧
      selectConsistentHash 2 [] (listedTwice.eraseIdx 0) = .ok ⟨ascii ['a'], 80, 2⟩ := by
  have hlast : selectedEntry 2 [] listedTwice = some (⟨ascii ['a'], 80, 2⟩, 2) := by decide +kernel
  obtain ⟨ep, p, hentry, -, -, hkept⟩ :=
    (hashing_disturbs_only_what_it_must 2 (by decide) []).1 listedTwice 0 (by decide) (by decide)
  rw [hlast] at hentry
  cases hentry
  exact ⟨hlast, hkept (by decide)⟩

end rpc.registry
