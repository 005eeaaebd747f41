-- Which virtual nodes of a ring have one hash. The hash goes through a text byte by byte, and no
-- byte loses anything of it. So two endpoints have all their nodes in common or none with the
-- same number; and of two that have all in common, the first in the list is never selected.
import Mathlib.Logic.Function.Basic
import RpcFramework.HashAffinity

namespace rpc.registry

open text hashring

/-! ## The hash -/

/-- What goes through injective steps stays apart. -/
theorem foldl_injective {α β : Type} {f : β → α → β} (hf : ∀ a, Function.Injective fun b => f b a)
    (l : List α) : Function.Injective fun b => l.foldl f b := by
  induction l with
  | nil => exact fun _ _ h => h
  | cons a l ih =>
    intro b b' h
    exact hf a (ih h)

/-- The factor of FNV-1a is odd, so multiplying by it can be undone. -/
theorem mul_prime_inj {x y : UInt32} : x * 16777619 = y * 16777619 ↔ x = y := by
  have hinv : ∀ z : UInt32, z * 16777619 * 899433627 = z := by
    intro z
    rw [UInt32.mul_assoc, show (16777619 * 899433627 : UInt32) = 1 by decide, UInt32.mul_one]
  constructor
  · intro h
    rw [← hinv x, h, hinv y]
  · rintro rfl
    rfl

theorem hash_append_inj {s s' : Text} (t : Text) : hash (s ++ t) = hash (s' ++ t) ↔
    hash s = hash s' := by
  rw [hash_append, hash_append]
  constructor
  · apply foldl_injective
    intro c h h' heq
    exact (UInt32.xor_left_inj _).mp (mul_prime_inj.mp heq)
  · intro heq
    rw [heq]

/-- Two texts that differ in one byte have two hashes. -/
theorem hash_byte_inj (before after : Text) {a b : UInt8} :
    hash (before ++ a :: after) = hash (before ++ b :: after) ↔ a = b := by
  have hsplit : ∀ c : UInt8, before ++ c :: after = before ++ [c] ++ after := by simp
  rw [hsplit a, hsplit b, hash_append_inj, hash_append, hash_append]
  simp only [List.foldl_cons, List.foldl_nil]
  rw [mul_prime_inj, UInt32.xor_right_inj, UInt8.toUInt32_inj]

/-! ## The virtual nodes -/

/-- The nodes with one number have one hash exactly when the addresses have. -/
theorem hash_virtualNode_iff (ep ep' : ServiceEndpoint) (i : Nat) :
    hash (virtualNode ep i) = hash (virtualNode ep' i) ↔ hash ep.toText = hash ep'.toText := by
  unfold virtualNode
  rw [hash_append_inj, hash_append_inj]

/-- The writes to the ring go through the list in order. -/
theorem ringWrites_ordered (n : Nat) (endpoints : List ServiceEndpoint) :
    (ringWrites n endpoints).Pairwise fun w w' => w.2.2 ≤ w'.2.2 := by
  unfold ringWrites
  rw [List.pairwise_flatMap]
  constructor
  · intro entry _
    unfold nodesOf
    rw [List.pairwise_map]
    exact List.pairwise_of_forall fun _ _ => Nat.le_refl _
  · have hindices : (endpoints.zipIdx.map Prod.snd).Pairwise (· < ·) := by
      rw [List.zipIdx_map_snd]
      exact List.pairwise_lt_range'
    rw [List.pairwise_map] at hindices
    refine hindices.imp ?_
    intro entry entry' hlt w hw w' hw'
    obtain ⟨_, _, rfl⟩ := List.mem_map.mp hw
    obtain ⟨_, _, rfl⟩ := List.mem_map.mp hw'
    exact Nat.le_of_lt hlt

/-- An entry whose nodes are all written again later owns no place on the ring. -/
theorem eclipsed_not_selected {virtualNodes : Int32} {key : Text}
    {endpoints : List ServiceEndpoint} {p q : Nat} {ep ep' : ServiceEndpoint}
    (hp : endpoints[p]? = some ep) (hq : endpoints[q]? = some ep') (hlt : p < q)
    (hhash : hash ep.toText = hash ep'.toText) (e : ServiceEndpoint) :
    selectedEntry virtualNodes key endpoints ≠ some (e, p) := by
  intro hsel
  obtain ⟨⟨k, entry⟩, hnext, hentry⟩ := Option.map_eq_some_iff.mp hsel
  dsimp only at hentry
  subst hentry
  obtain ⟨before, after, hws, hafter⟩ := (next_fill_eq_some.mp hnext).1
  have hmem : (k, e, p) ∈ ringWrites virtualNodes.toInt.toNat endpoints := by
    rw [hws]
    simp
  obtain ⟨x, hx, hnode⟩ := List.mem_flatMap.mp hmem
  obtain ⟨i, hi, heq⟩ := List.mem_map.mp hnode
  cases heq
  have he : e = ep := by
    have hat := List.mem_zipIdx_iff_getElem?.mp hx
    rw [hp] at hat
    exact (Option.some.inj hat).symm
  subst he
  -- the node of the later entry with the same number
  have hlater : (hash (virtualNode e i), ep', q) ∈
      before ++ (hash (virtualNode e i), e, p) :: after := by
    rw [← hws]
    refine List.mem_flatMap.mpr ⟨(ep', q), List.mem_zipIdx_iff_getElem?.mpr hq, ?_⟩
    refine List.mem_map.mpr ⟨i, hi, ?_⟩
    rw [(hash_virtualNode_iff e ep' i).mpr hhash]
  have hordered := ringWrites_ordered virtualNodes.toInt.toNat endpoints
  rw [hws] at hordered
  rcases List.mem_append.mp hlater with hin | hin
  · have hle := (List.pairwise_append.mp hordered).2.2 _ hin _ List.mem_cons_self
    dsimp only at hle
    omega
  · rcases List.mem_cons.mp hin with heq | hin
    · cases heq
      exact absurd hlt (Nat.lt_irrefl _)
    · exact hafter _ hin rfl

/-! ## The laws -/

/-- Of two endpoints whose addresses have one hash, the one that stands first in the list is never
selected, whatever the key and the number of virtual nodes: the list without it gives the same
endpoint for every key. The two have all their nodes in common, and otherwise no two nodes with
the same number. -/
theorem an_eclipsed_endpoint_is_never_selected (virtualNodes : Int32)
    (hv : 1 ≤ virtualNodes.toInt) {endpoints : List ServiceEndpoint} {p q : Nat}
    {ep ep' : ServiceEndpoint} (hp : endpoints[p]? = some ep) (hq : endpoints[q]? = some ep')
    (hlt : p < q) :
    (hash ep.toText = hash ep'.toText →
      (∀ key e, selectedEntry virtualNodes key endpoints ≠ some (e, p)) ∧
      ∀ key, selectConsistentHash virtualNodes key (endpoints.eraseIdx p) =
        selectConsistentHash virtualNodes key endpoints) ∧
    (hash ep.toText ≠ hash ep'.toText →
      ∀ i, hash (virtualNode ep i) ≠ hash (virtualNode ep' i)) := by
  refine ⟨?_, fun hne i => mt (hash_virtualNode_iff ep ep' i).mp hne⟩
  intro hhash
  have hnot : ∀ key e, selectedEntry virtualNodes key endpoints ≠ some (e, p) :=
    fun key e => eclipsed_not_selected hp hq hlt hhash e
  refine ⟨hnot, ?_⟩
  intro key
  have hlen : q < endpoints.length := (List.getElem?_eq_some_iff.mp hq).1
  have hne : endpoints ≠ [] := by
    rintro rfl
    cases hp
  have hne' : endpoints.eraseIdx p ≠ [] := by
    rw [← List.length_pos_iff, List.length_eraseIdx]
    split <;> omega
  obtain ⟨e, p', hsel, -⟩ := selectedEntry_mem key hv hne
  have hother : p' ≠ p := by
    rintro rfl
    exact hnot key e hsel
  rw [select_eq_selectedEntry hne, select_eq_selectedEntry hne', hsel,
    selectedEntry_eraseIdx hsel hother]

theorem the_liquid_server_hides_the_costarring_one :
    (fun key => selectConsistentHash 150 key [costarring, liquid]) =
      fun key => selectConsistentHash 150 key [liquid] := by
  have hat : [costarring, liquid][0]? = some costarring := rfl
  have hat' : [costarring, liquid][1]? = some liquid := rfl
  funext key
  exact (((an_eclipsed_endpoint_is_never_selected 150 (by decide) hat hat' Nat.one_pos).1
    (by decide +kernel)).2 key).symm

/-- Two servers whose addresses differ in one character have no virtual nodes with one number and
one hash, and a server has no two nodes with one hash whose numbers differ in one digit. -/
theorem neighbours_share_no_hash (ep ep' : ServiceEndpoint) (before after : Text) {a b : UInt8}
    (hab : a ≠ b) :
    (ep.toText = before ++ a :: after → ep'.toText = before ++ b :: after →
      ∀ i, hash (virtualNode ep i) ≠ hash (virtualNode ep' i)) ∧
    ∀ i j, decimal i = before ++ a :: after → decimal j = before ++ b :: after →
      hash (virtualNode ep i) ≠ hash (virtualNode ep j) := by
  constructor
  · intro ha hb i
    rw [ne_eq, hash_virtualNode_iff, ha, hb, hash_byte_inj]
    exact hab
  · intro i j ha hb
    unfold virtualNode
    rw [ha, hb, ne_eq, ← List.append_assoc, ← List.append_assoc, hash_byte_inj]
    exact hab

end rpc.registry
