-- Service names and hosts are any strings, and both go into one path. The stub
-- cuts a path at its last slash. So a node of one service can come to stand under
-- another: as the service itself, when its name goes on from the other's, or as an
-- address, when its host does.
import RpcFramework.ChildNames

namespace rpc.registry

open text locks

variable {d : Registry} {s t path child host data : Text} {port : UInt16} {children : List Text}

/-! ## Where a node stands -/

theorem parentOf_eq_some {parent : Text} :
    parentOf path = some (parent, child) ↔
      path = parent ++ slash :: child ∧ slash ∉ child ∧ parent ≠ [] := by
  refine ⟨?_, ?_⟩
  · intro h
    by_cases hslash : slash ∈ path
    · obtain ⟨a, b, rfl, hb⟩ := exists_last hslash
      by_cases ha : a = []
      · subst ha
        unfold parentOf at h
        rw [rfind_last hb] at h
        cases h
      · rw [parentOf_cut ha hb] at h
        cases h
        exact ⟨rfl, hb, ha⟩
    · unfold parentOf at h
      rw [rfind_none hslash] at h
      cases h
  · rintro ⟨rfl, hchild, hparent⟩
    exact parentOf_cut hparent hchild

/-- A node with this path is read as an endpoint of the service. -/
def IsEndpointOf (s path : Text) : Prop :=
  ∃ child, parentOf path = some (servicePath s, child) ∧ colon ∈ child

/-- The node of a service is read as an endpoint of another when its name goes on from the
other's. -/
theorem isEndpointOf_servicePath :
    IsEndpointOf s (servicePath t) ↔
      ∃ name, t = s ++ slash :: name ∧ slash ∉ name ∧ colon ∈ name := by
  unfold IsEndpointOf
  simp only [parentOf_eq_some]
  refine ⟨?_, ?_⟩
  · rintro ⟨name, ⟨hpath, hslash, -⟩, hcolon⟩
    refine ⟨name, servicePath_inj ?_, hslash, hcolon⟩
    simpa [servicePath] using hpath
  · rintro ⟨name, rfl, hslash, hcolon⟩
    exact ⟨name, ⟨by simp [servicePath], hslash, by simp [servicePath]⟩, hcolon⟩

/-- An address is read as an endpoint of another service when the host has a slash, and what
stands before its last one leads to the other service. -/
theorem isEndpointOf_nodePath {p : UInt16} (hne : s ≠ t) :
    IsEndpointOf s (nodePath t host p) ↔
      ∃ way name, host = way ++ slash :: name ∧ slash ∉ name ∧ s = t ++ slash :: way := by
  unfold IsEndpointOf
  refine ⟨?_, ?_⟩
  · rintro ⟨child, hparent, -⟩
    by_cases hslash : slash ∈ host
    · obtain ⟨way, name, rfl, hname⟩ := exists_last hslash
      have hpath : nodePath t (way ++ slash :: name) p =
          servicePath (t ++ slash :: way) ++ slash :: childName name p := by
        simp [nodePath, servicePath, childName]
      rw [hpath, parentOf_cut (by simp [servicePath]) (slash_not_mem_childName hname p)] at hparent
      cases hparent
      exact ⟨way, name, rfl, hname, rfl⟩
    · rw [parentOf_nodePath t hslash p, Option.some.injEq, Prod.mk.injEq] at hparent
      exact absurd (servicePath_inj hparent.1).symm hne
  · rintro ⟨way, name, rfl, hname, rfl⟩
    refine ⟨childName name p, parentOf_eq_some.mpr ⟨?_, ?_, by simp [servicePath]⟩, ?_⟩
    · simp [nodePath, servicePath, childName]
    · exact slash_not_mem_childName hname p
    · simp [childName]

/-! ## What `refresh` reads -/

theorem endpointsOf_filter (nodes : Text → Option Text) (path : Text) (children : List Text) :
    endpointsOf nodes path (children.filter fun child => colon ∈ child) =
      endpointsOf nodes path children := by
  induction children with
  | nil => rfl
  | cons child children ih =>
    by_cases hcolon : colon ∈ child
    · rw [List.filter_cons_of_pos (by simpa using hcolon)]
      obtain ⟨host, rest, rfl, hrest⟩ := exists_last hcolon
      rw [endpointsOf_cut hrest, endpointsOf_cut hrest, ih]
    · rw [List.filter_cons_of_neg (by simpa using hcolon), endpointsOf_no_colon hcolon, ih]

theorem endpointsOf_congr {nodes nodes' : Text → Option Text}
    (h : ∀ child ∈ children, colon ∈ child →
      nodes' (path ++ [slash] ++ child) = nodes (path ++ [slash] ++ child)) :
    endpointsOf nodes' path children = endpointsOf nodes path children := by
  induction children with
  | nil => rfl
  | cons child children ih =>
    have hrest := ih fun c hc => h c (by simp [hc])
    by_cases hcolon : colon ∈ child
    · have hnode := h child (by simp) hcolon
      obtain ⟨host, rest, rfl, hlast⟩ := exists_last hcolon
      rw [endpointsOf_cut hlast, endpointsOf_cut hlast, hrest, hnode]
    · rw [endpointsOf_no_colon hcolon, endpointsOf_no_colon hcolon, hrest]

/-- A child is what stands behind the last slash of a path. -/
def NoSlash (d : Registry) : Prop := ∀ path, ∀ child ∈ d.children path, slash ∉ child

/-- `refresh` finds the same when the children with a colon and their nodes are the same. -/
theorem found_congr {d' : Registry} (hd : NoSlash d)
    (hchildren : (d'.children (servicePath s)).filter (fun child => colon ∈ child) =
      (d.children (servicePath s)).filter fun child => colon ∈ child)
    (hnodes : ∀ child, slash ∉ child → colon ∈ child →
      d'.nodes (servicePath s ++ slash :: child) = d.nodes (servicePath s ++ slash :: child)) :
    found s d' = found s d := by
  unfold found
  rw [← endpointsOf_filter d'.nodes, hchildren, endpointsOf_filter]
  apply endpointsOf_congr
  intro child hmem hcolon
  rw [List.append_assoc]
  exact hnodes child (hd _ child hmem) hcolon

theorem mem_children_addNode {p : Text} :
    child ∈ (addNode path data d).2.children p ↔
      child ∈ d.children p ∨ parentOf path = some (p, child) := by
  unfold addNode
  cases hparent : parentOf path with
  | none => simp
  | some pc =>
    obtain ⟨parent, name⟩ := pc
    dsimp only
    split
    · rename_i hold
      refine ⟨Or.inl, ?_⟩
      rintro (h | heq)
      · exact h
      · cases heq
        exact hold
    · by_cases hp : p = parent
      · subst hp
        simp [eq_comm]
      · simp [Function.update_of_ne hp, Ne.symm hp]

theorem addNode_nodes (path data : Text) (d : Registry) :
    (addNode path data d).2.nodes = Function.update d.nodes path (some data) := by
  unfold addNode
  split
  · rfl
  · dsimp only
    split <;> rfl

/-- A node that is not read as an endpoint of the service is under another path than those. -/
theorem path_ne_of_not (h : ¬ IsEndpointOf s path) {child : Text} (hslash : slash ∉ child)
    (hcolon : colon ∈ child) : servicePath s ++ slash :: child ≠ path := by
  rintro rfl
  exact h ⟨child, parentOf_cut (by simp [servicePath]) hslash, hcolon⟩

/-- A new node does not change what `refresh` finds for a service whose endpoint it is not. -/
theorem found_addNode (hd : NoSlash d) (h : ¬ IsEndpointOf s path) (data : Text) :
    found s (addNode path data d).2 = found s d := by
  refine found_congr hd ?_ ?_
  · unfold addNode
    cases hparent : parentOf path with
    | none => rfl
    | some pc =>
      obtain ⟨parent, name⟩ := pc
      dsimp only
      split
      · rfl
      · by_cases hs : servicePath s = parent
        · subst hs
          have hname : colon ∉ name := fun hcolon => h ⟨name, hparent, hcolon⟩
          simp [hname]
        · dsimp only
          rw [Function.update_of_ne hs]
  · intro child hslash hcolon
    rw [addNode_nodes, Function.update_of_ne (path_ne_of_not h hslash hcolon)]

/-- So with a node that is removed. -/
theorem found_dropNode (hd : NoSlash d) (h : ¬ IsEndpointOf s path) :
    found s (dropNode path d) = found s d := by
  refine found_congr hd ?_ ?_
  · unfold dropNode
    cases hparent : parentOf path with
    | none => rfl
    | some pc =>
      obtain ⟨parent, name⟩ := pc
      dsimp only
      by_cases hs : servicePath s = parent
      · subst hs
        have hname : colon ∉ name := fun hcolon => h ⟨name, hparent, hcolon⟩
        rw [Function.update_self, List.filter_filter]
        apply List.filter_congr
        intro child _
        by_cases hcolon : colon ∈ child
        · have hne : child ≠ name := by
            rintro rfl
            exact hname hcolon
          simp [hne]
        · simp [hcolon]
      · rw [Function.update_of_ne hs]
  · intro child hslash hcolon
    have hnodes : (dropNode path d).nodes = Function.update d.nodes path none := by
      unfold dropNode
      split <;> rfl
    rw [hnodes, Function.update_of_ne (path_ne_of_not h hslash hcolon)]

/-- With a child that has a colon, `refresh` finds an endpoint or fails. -/
theorem found_ne_nil (h : child ∈ d.children (servicePath s)) (hcolon : colon ∈ child) :
    found s d ≠ .ok [] := by
  intro hfound
  have hlength := endpointsOf_length hfound
  have hkept : child ∈ (d.children (servicePath s)).filter fun child => colon ∈ child :=
    List.mem_filter.mpr ⟨h, by simpa using hcolon⟩
  have hpos := List.length_pos_of_mem hkept
  simp only [List.length_nil] at hlength
  omega

/-! ## Calls -/

theorem NoSlash.addNode (hd : NoSlash d) (path data : Text) : NoSlash (addNode path data d).2 := by
  intro p child hchild
  rcases mem_children_addNode.mp hchild with hold | hparent
  · exact hd p child hold
  · exact (parentOf_eq_some.mp hparent).2.1

theorem NoSlash.dropNode (hd : NoSlash d) (path : Text) : NoSlash (dropNode path d) := by
  intro p child hchild
  unfold registry.dropNode at hchild
  split at hchild
  · exact hd p child hchild
  · rename_i parent name hparent
    dsimp only at hchild
    by_cases hp : p = parent
    · subst hp
      rw [Function.update_self] at hchild
      exact hd p child (List.mem_filter.mp hchild).1
    · rw [Function.update_of_ne hp] at hchild
      exact hd p child hchild

theorem NoSlash.effect {d' : Registry} {call : Call} (hd : NoSlash d) (he : Effect d call d') :
    NoSlash d' := by
  cases he with
  | registered _ _ => exact (hd.addNode _ _).addNode _ _
  | unregistered => exact hd.dropNode _
  | cached lb hcache => exact hd
  | refreshed lb hcache hfound => exact hd
  | failed hcache hfound => exact hd

/-- After registrations and unregistrations of any names, no child has a slash, and there is no
watcher. -/
theorem runCalls_noSlash (calls : List Call) (hd : NoSlash d)
    (h : ∀ call ∈ calls, call.provides = true) (hw : ∀ path, d.watchers path = none) :
    ∃ d', runCalls calls (idle d) = .returned () (idle d') ∧ NoSlash d' ∧
      ∀ path, d'.watchers path = none := by
  induction calls generalizing d with
  | nil => exact ⟨d, rfl, hd, hw⟩
  | cons call calls ih =>
    obtain ⟨d1, hret, heffect, hw1⟩ := runCall_provides (h call (by simp)) hw
    obtain ⟨d', hrest, hd', hw'⟩ := ih (hd.effect heffect) (fun c hc => h c (by simp [hc])) hw1
    exact ⟨d', (Prog.bind_returned hret _).trans hrest, hd', hw'⟩

/-- What `refresh` stores or throws now. -/
def refreshResult (service : Text) (t : Locked Mutex Registry) :
    Option (Except Failure (List ServiceEndpoint)) :=
  match refresh service t with
  | .returned _ t' => some (.ok (t'.data.cache service))
  | .threw e _ => some (.error e)
  | .relocked _ => none

theorem refreshResult_idle (service : Text) (d : Registry) :
    refreshResult service (idle d) = some (found service d) := by
  unfold refreshResult
  rw [refresh_spec]
  cases found service d with
  | error e => rfl
  | ok eps =>
    change some (Except.ok ((stored service eps (watched service d)).cache service)) = _
    rw [stored_cache]

/-- A registration is seen by each service one of whose endpoints it makes. -/
theorem found_registered_ne_nil (weight : Int32)
    (h : IsEndpointOf s (servicePath t) ∨ IsEndpointOf s (nodePath t host port)) :
    found s (registered t host port weight d) ≠ .ok [] := by
  rcases h with ⟨child, hparent, hcolon⟩ | ⟨child, hparent, hcolon⟩
  · have hfirst : child ∈ (addNode (servicePath t) [] d).2.children (servicePath s) :=
      mem_children_addNode.mpr (Or.inr hparent)
    exact found_ne_nil (mem_children_addNode.mpr (Or.inl hfirst)) hcolon
  · exact found_ne_nil (mem_children_addNode.mpr (Or.inr hparent)) hcolon

/-- After any registrations: to register and to unregister an address of one service leaves what
`refresh` computes for another, exactly when the name of the one does not go on from the other's
to a name with a colon, and the host of the address does not lead to the other. -/
theorem services_do_not_interfere_iff (s t host : Text) (port : UInt16) (hne : s ≠ t) :
    (∀ (strategy : LBStrategy) (calls : List Call), (∀ call ∈ calls, call.provides = true) →
      ∃ before, runCalls calls (idle (Registry.started strategy)) = .returned () before ∧
        (∀ weight, ∃ after, registerService t host port weight before = .returned true after ∧
          refreshResult s after = refreshResult s before) ∧
        ∃ after, unregisterService t host port before = .returned true after ∧
          refreshResult s after = refreshResult s before) ↔
      (¬ ∃ name, t = s ++ slash :: name ∧ slash ∉ name ∧ colon ∈ name) ∧
        ¬ ∃ way name, host = way ++ slash :: name ∧ slash ∉ name ∧ s = t ++ slash :: way := by
  rw [← isEndpointOf_servicePath, ← isEndpointOf_nodePath hne (p := port)]
  refine ⟨?_, ?_⟩
  · intro h
    obtain ⟨before, hrun, hregister, -⟩ := h .random [] (by simp)
    cases hrun
    obtain ⟨after, hret, hsame⟩ := hregister 1
    have hfires := fires_unwatched (d := Registry.started .random) fun _ => rfl
    rw [registerService_cases, if_pos ⟨hfires _, hfires _⟩] at hret
    cases hret
    rw [refreshResult_idle, refreshResult_idle] at hsame
    -- nothing is registered before, and the new node would be found
    have hnil := Option.some.inj hsame
    change _ = Except.ok [] at hnil
    refine ⟨fun hs => ?_, fun hn => ?_⟩
    · exact found_registered_ne_nil 1 (Or.inl hs) hnil
    · exact found_registered_ne_nil 1 (Or.inr hn) hnil
  · rintro ⟨hservice, hnode⟩ strategy calls hcalls
    obtain ⟨d, hrun, hd, hw⟩ := runCalls_noSlash calls (d := Registry.started strategy)
      (fun _ _ h => by cases h) hcalls fun _ => rfl
    have hfires := fires_unwatched hw
    refine ⟨_, hrun, ?_, ?_⟩
    · intro weight
      refine ⟨_, by rw [registerService_cases, if_pos ⟨hfires _, hfires _⟩], ?_⟩
      rw [refreshResult_idle, refreshResult_idle]
      unfold registered
      rw [found_addNode (hd.addNode _ _) hnode, found_addNode hd hservice]
    · refine ⟨_, unregisterService_spec t host port d, ?_⟩
      rw [refreshResult_idle, refreshResult_idle, found_dropNode hd hnode]

/-- The name goes on from the other's, to a name without a colon. -/
theorem a_longer_name_without_a_colon_does_not_interfere :
    ∃ before, runCalls [.registerService (ascii ['a']) (ascii ['h']) 80 1]
        (idle (Registry.started .random)) = .returned () before ∧
      ∃ after, registerService (ascii ['a', '/', 'b']) (ascii ['h']) 80 2 before =
          .returned true after ∧
        refreshResult (ascii ['a']) after = refreshResult (ascii ['a']) before := by
  have hservice : ¬ ∃ name, ascii ['a', '/', 'b'] = ascii ['a'] ++ slash :: name ∧ slash ∉ name ∧
      colon ∈ name := by
    rintro ⟨name, heq, -, hcolon⟩
    obtain rfl : ascii ['b'] = name := (List.cons.inj (List.cons.inj heq).2).2
    exact absurd hcolon (by decide)
  have hhost : ¬ ∃ way name, ascii ['h'] = way ++ slash :: name ∧ slash ∉ name ∧
      ascii ['a'] = ascii ['a', '/', 'b'] ++ slash :: way := by
    rintro ⟨way, name, heq, -⟩
    have hslash : slash ∈ ascii ['h'] := by
      rw [heq]
      simp
    exact absurd hslash (by decide)
  obtain ⟨before, hrun, hregister, -⟩ := (services_do_not_interfere_iff (ascii ['a'])
    (ascii ['a', '/', 'b']) (ascii ['h']) 80 (by decide)).mpr ⟨hservice, hhost⟩ .random
    [.registerService (ascii ['a']) (ascii ['h']) 80 1] (by decide)
  exact ⟨before, hrun, hregister 2⟩

/-- Somebody registers the service `a/b:1`, and the service `a` has got an endpoint. -/
theorem a_service_becomes_an_endpoint_of_another :
    refreshResult (ascii ['a']) (idle (Registry.started .random)) = some (.ok []) ∧
      ∃ after, registerService (ascii ['a', '/', 'b', ':', '1']) (ascii ['h']) 80 1
          (idle (Registry.started .random)) = .returned true after ∧
        refreshResult (ascii ['a']) after = some (.ok [⟨ascii ['b'], 1, 1⟩]) := by
  refine ⟨by rw [refreshResult_idle]; rfl, ?_⟩
  have hfires := fires_unwatched (d := Registry.started .random) fun _ => rfl
  refine ⟨_, by rw [registerService_cases, if_pos ⟨hfires _, hfires _⟩], ?_⟩
  rw [refreshResult_idle]
  decide +kernel

end rpc.registry
