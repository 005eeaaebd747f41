-- Consistent hashing and the order of the list. Where two endpoints have virtual
-- nodes at one place of the ring, the later one in the list owns it. So a key goes
-- to the same endpoint in every order, unless it reaches a place that two share.
import RpcFramework.ConsistentHash

namespace rpc.registry

open text hashring

variable {n : Nat} {virtualNodes : Int32} {key : Text} {endpoints : List ServiceEndpoint}
  {ep : ServiceEndpoint} {k : UInt32}

/-- The endpoint has a virtual node at this place of the ring. -/
def NodeAt (n : Nat) (ep : ServiceEndpoint) (k : UInt32) : Prop :=
  ∃ i < n, hash (virtualNode ep i) = k

/-- The key goes to this place: a virtual node is there, and from the hash of the key around the
ring none comes before it. -/
def Reached (n : Nat) (key : Text) (endpoints : List ServiceEndpoint) (k : UInt32) : Prop :=
  (∃ ep ∈ endpoints, NodeAt n ep k) ∧
    ∀ ep ∈ endpoints, ∀ k', NodeAt n ep k' → Ahead (keyHash key) k k'

/-- No two endpoints have virtual nodes at the place that the key goes to. -/
def Unshared (n : Nat) (key : Text) (endpoints : List ServiceEndpoint) : Prop :=
  ∀ k, Reached n key endpoints k →
    ∀ ep ∈ endpoints, ∀ ep' ∈ endpoints, NodeAt n ep k → NodeAt n ep' k → ep = ep'

/-- The writes of one endpoint to the ring. -/
def writesOf (n : Nat) (ep : ServiceEndpoint) : List (UInt32 × ServiceEndpoint) :=
  (List.range n).map fun i => (hash (virtualNode ep i), ep)

theorem mem_writesOf {ep' : ServiceEndpoint} :
    (k, ep') ∈ writesOf n ep ↔ ep' = ep ∧ NodeAt n ep k := by
  unfold writesOf NodeAt
  rw [List.mem_map]
  refine ⟨?_, ?_⟩
  · rintro ⟨i, hi, heq⟩
    cases heq
    exact ⟨rfl, i, List.mem_range.mp hi, rfl⟩
  · rintro ⟨rfl, i, hi, rfl⟩
    exact ⟨i, List.mem_range.mpr hi, rfl⟩

theorem mem_writes :
    (k, ep) ∈ endpoints.flatMap (writesOf n) ↔ ep ∈ endpoints ∧ NodeAt n ep k := by
  rw [List.mem_flatMap]
  refine ⟨?_, ?_⟩
  · rintro ⟨ep', hmem, hwrite⟩
    obtain ⟨rfl, hnode⟩ := mem_writesOf.mp hwrite
    exact ⟨hmem, hnode⟩
  · rintro ⟨hmem, hnode⟩
    exact ⟨ep, hmem, mem_writesOf.mpr ⟨rfl, hnode⟩⟩

/-- `select` returns the owner of the place that the key goes to. -/
theorem select_eq_ok (h : endpoints ≠ []) :
    selectConsistentHash virtualNodes key endpoints = .ok ep ↔
      ∃ k, Owns (endpoints.flatMap (writesOf virtualNodes.toInt.toNat)) k ep ∧
        Reached virtualNodes.toInt.toNat key endpoints k := by
  have hnext : selectConsistentHash virtualNodes key endpoints = .ok ep ↔
      ∃ k, next (keyHash key) (fill (endpoints.flatMap (writesOf virtualNodes.toInt.toNat))) =
        some (k, ep) := by
    have hring : buildRing virtualNodes.toInt.toNat endpoints =
        fill (endpoints.flatMap (writesOf virtualNodes.toInt.toNat)) := buildRing_eq_fill _ _
    unfold selectConsistentHash
    rw [if_neg h]
    dsimp only
    rw [← keyHash, hring]
    split
    · rename_i entry hentry
      refine ⟨?_, ?_⟩
      · intro heq
        cases heq
        exact ⟨entry.1, hentry⟩
      · rintro ⟨k, hk⟩
        cases hentry.symm.trans hk
        rfl
    · rename_i hnone
      refine ⟨fun heq => (by cases heq), ?_⟩
      rintro ⟨k, hk⟩
      cases hnone.symm.trans hk
  rw [hnext]
  refine exists_congr fun k => ?_
  rw [next_fill_eq_some]
  refine and_congr_right fun howns => ⟨?_, ?_⟩
  · intro hahead
    exact ⟨⟨ep, mem_writes.mp howns.mem⟩,
      fun ep' hmem k' hnode => hahead (k', ep') (mem_writes.mpr ⟨hmem, hnode⟩)⟩
  · rintro ⟨-, hfirst⟩ ⟨k', ep'⟩ hmem
    obtain ⟨hep', hnode⟩ := mem_writes.mp hmem
    exact hfirst ep' hep' k' hnode

/-- A key goes to one place. -/
theorem Reached.unique {k' : UInt32} (h : Reached n key endpoints k)
    (h' : Reached n key endpoints k') : k = k' := by
  obtain ⟨⟨ep, hep, hnode⟩, hfirst⟩ := h
  obtain ⟨⟨ep', hep', hnode'⟩, hfirst'⟩ := h'
  exact ahead_antisymm (hfirst ep' hep' k' hnode') (hfirst' ep hep k hnode)

/-- The place depends on which endpoints there are, not on their order. -/
theorem Reached.perm {endpoints' : List ServiceEndpoint} (h : endpoints'.Perm endpoints) :
    Reached n key endpoints' k ↔ Reached n key endpoints k := by
  unfold Reached
  simp only [h.mem_iff]

/-- Who stands last in the list and has a virtual node at the place is selected. -/
theorem select_last (hmem : ep ∈ endpoints) (hnode : NodeAt virtualNodes.toInt.toNat ep k)
    (hreached : Reached virtualNodes.toInt.toNat key endpoints k) :
    selectConsistentHash virtualNodes key (endpoints.erase ep ++ [ep]) = .ok ep := by
  have hperm : (endpoints.erase ep ++ [ep]).Perm endpoints :=
    (List.perm_append_singleton ep _).trans (List.perm_cons_erase hmem).symm
  refine (select_eq_ok (by simp)).mpr ⟨k, ?_, (Reached.perm hperm).mpr hreached⟩
  rw [List.flatMap_append, List.flatMap_singleton]
  refine owns_of_last (mem_writesOf.mpr ⟨rfl, hnode⟩) ?_
  rintro ⟨k', ep'⟩ hwrite
  exact (mem_writesOf.mp hwrite).1

theorem select_isOk (virtualNodes : Int32) (key : Text) (endpoints : List ServiceEndpoint)
    (hv : 1 ≤ virtualNodes.toInt) (h : endpoints ≠ []) :
    ∃ ep, selectConsistentHash virtualNodes key endpoints = .ok ep := by
  obtain ⟨ep, p, hentry, -⟩ := selectedEntry_mem key hv h
  exact ⟨ep, by rw [select_eq_selectedEntry h, hentry]⟩

/-- A key goes to the same endpoint in every order of the list, exactly when no two endpoints
have virtual nodes at the place that it goes to. -/
theorem a_key_goes_to_one_endpoint_iff (virtualNodes : Int32) (key : Text)
    (endpoints : List ServiceEndpoint) (hv : 1 ≤ virtualNodes.toInt) (h : endpoints ≠ []) :
    (∃ ep, selectConsistentHash virtualNodes key endpoints = .ok ep ∧
      ∀ endpoints' : List ServiceEndpoint, endpoints'.Perm endpoints →
        selectConsistentHash virtualNodes key endpoints' = .ok ep) ↔
      Unshared virtualNodes.toInt.toNat key endpoints := by
  refine ⟨?_, ?_⟩
  · rintro ⟨ep, -, hall⟩ k hreached
    -- put last, every endpoint with a node at the place is selected
    have hsame : ∀ ep' ∈ endpoints, NodeAt virtualNodes.toInt.toNat ep' k → ep' = ep := by
      intro ep' hmem hnode
      have hperm : (endpoints.erase ep' ++ [ep']).Perm endpoints :=
        (List.perm_append_singleton ep' _).trans (List.perm_cons_erase hmem).symm
      have hlast := select_last hmem hnode hreached
      rw [hall _ hperm] at hlast
      cases hlast
      rfl
    intro ep₁ h₁ ep₂ h₂ hnode₁ hnode₂
    rw [hsame ep₁ h₁ hnode₁, hsame ep₂ h₂ hnode₂]
  · intro hunshared
    obtain ⟨ep, hep⟩ := select_isOk virtualNodes key endpoints hv h
    obtain ⟨k, howns, hreached⟩ := (select_eq_ok h).mp hep
    obtain ⟨hmem, hnode⟩ := mem_writes.mp howns.mem
    refine ⟨ep, hep, ?_⟩
    intro endpoints' hperm
    have hne : endpoints' ≠ [] := fun hnil => h (by subst hnil; exact hperm.symm.eq_nil)
    obtain ⟨ep', hep'⟩ := select_isOk virtualNodes key endpoints' hv hne
    obtain ⟨k', howns', hreached'⟩ := (select_eq_ok hne).mp hep'
    have hk : k' = k := ((Reached.perm hperm).mp hreached').unique hreached
    subst hk
    obtain ⟨hmem', hnode'⟩ := mem_writes.mp howns'.mem
    have heq : ep' = ep :=
      hunshared k' hreached ep' (hperm.mem_iff.mp hmem') ep hmem hnode' hnode
    rw [hep', heq]

theorem two_servers_in_any_order :
    ∃ ep, selectConsistentHash 1 [] [⟨ascii ['a'], 80, 1⟩, ⟨ascii ['b'], 80, 1⟩] = .ok ep ∧
      ∀ endpoints' : List ServiceEndpoint,
        endpoints'.Perm [⟨ascii ['a'], 80, 1⟩, ⟨ascii ['b'], 80, 1⟩] →
        selectConsistentHash 1 [] endpoints' = .ok ep := by
  refine (a_key_goes_to_one_endpoint_iff 1 [] _ (by decide) (by simp)).mpr ?_
  have hne : hash (virtualNode ⟨ascii ['a'], 80, 1⟩ 0) ≠
      hash (virtualNode ⟨ascii ['b'], 80, 1⟩ 0) := by
    decide +kernel
  rintro k - ep hep ep' hep' ⟨i, hi, rfl⟩ ⟨j, hj, heq⟩
  cases Nat.lt_one_iff.mp hi
  cases Nat.lt_one_iff.mp hj
  simp only [List.mem_cons, List.not_mem_nil, or_false] at hep hep'
  rcases hep with rfl | rfl
  · rcases hep' with rfl | rfl
    · rfl
    · exact absurd heq.symm hne
  · rcases hep' with rfl | rfl
    · exact absurd heq hne
    · rfl

/-- Two hosts whose names have one hash. With one port, all their virtual nodes coincide. -/
def costarring : ServiceEndpoint :=
  ⟨ascii ['c', 'o', 's', 't', 'a', 'r', 'r', 'i', 'n', 'g'], 80, 1⟩

def liquid : ServiceEndpoint := ⟨ascii ['l', 'i', 'q', 'u', 'i', 'd'], 80, 1⟩

theorem hash_append (s t : Text) :
    hash (s ++ t) = t.foldl (fun h c => (h ^^^ c.toUInt32) * 16777619) (hash s) := by
  unfold hash
  rw [List.foldl_append]

theorem hash_costarring (i : Nat) :
    hash (virtualNode costarring i) = hash (virtualNode liquid i) := by
  have hhost : hash costarring.host = hash liquid.host := by decide +kernel
  unfold virtualNode ServiceEndpoint.toText
  simp only [List.append_assoc]
  rw [hash_append, hash_append, hhost]
  rfl

theorem two_clients_part_over_one_key :
    costarring.toText ≠ liquid.toText ∧ [liquid, costarring].Perm [costarring, liquid] ∧
      selectConsistentHash 150 [] [costarring, liquid] = .ok liquid ∧
      selectConsistentHash 150 [] [liquid, costarring] = .ok costarring := by
  obtain ⟨ep, hep⟩ := select_isOk 150 [] [costarring, liquid] (by decide) (by simp)
  obtain ⟨k, howns, hreached⟩ := (select_eq_ok (by simp)).mp hep
  obtain ⟨hmem, i, hi, hk⟩ := mem_writes.mp howns.mem
  have hboth : NodeAt (Int32.toInt 150).toNat costarring k ∧
      NodeAt (Int32.toInt 150).toNat liquid k := by
    simp only [List.mem_cons, List.not_mem_nil, or_false] at hmem
    rcases hmem with rfl | rfl
    · exact ⟨⟨i, hi, hk⟩, i, hi, (hash_costarring i).symm.trans hk⟩
    · exact ⟨⟨i, hi, (hash_costarring i).trans hk⟩, i, hi, hk⟩
  refine ⟨by decide, List.Perm.swap _ _ _, ?_, ?_⟩
  · have hlast := select_last (by decide : liquid ∈ [costarring, liquid]) hboth.2 hreached
    have herase : [costarring, liquid].erase liquid ++ [liquid] = [costarring, liquid] := by decide
    rw [herase] at hlast
    exact hlast
  · have hlast := select_last (by decide : costarring ∈ [costarring, liquid]) hboth.1 hreached
    have herase : [costarring, liquid].erase costarring ++ [costarring] = [liquid, costarring] := by
      decide
    rw [herase] at hlast
    exact hlast

end rpc.registry
