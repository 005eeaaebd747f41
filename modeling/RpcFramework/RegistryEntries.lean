-- What is registered, and how the tables of the stub hold it. Each registration
-- is a node whose path and data write the service, the host, the port and the
-- weight as text. `refresh` reads back exactly what was written.
import RpcFramework.ServiceRegistry

namespace rpc.registry

open text locks

/-! ## Paths are read back -/

theorem slash_not_mem_childName {host : Text} (h : slash ∉ host) (port : UInt16) :
    slash ∉ childName host port := by
  have hd : slash ∉ decimal port.toNat := not_mem_decimal (by decide) _
  simp [childName, h, hd]
  decide

/-- A path is cut at its last slash. -/
theorem parentOf_cut {parent child : Text} (hp : parent ≠ []) (hc : slash ∉ child) :
    parentOf (parent ++ slash :: child) = some (parent, child) := by
  unfold parentOf
  rw [rfind_last hc]
  simp [List.length_pos_iff.mpr hp]

theorem parentOf_servicePath {service : Text} (h : slash ∉ service) :
    parentOf (servicePath service) = some (kRootPath, service) := by
  have hpath : servicePath service = kRootPath ++ slash :: service := by
    simp [servicePath]
  rw [hpath, parentOf_cut (by decide) h]

theorem parentOf_nodePath (service : Text) {host : Text} (h : slash ∉ host) (port : UInt16) :
    parentOf (nodePath service host port) = some (servicePath service, childName host port) := by
  have hpath : nodePath service host port =
      servicePath service ++ slash :: childName host port := by
    simp [nodePath]
  rw [hpath, parentOf_cut (by simp [servicePath]) (slash_not_mem_childName h port)]

/-- The colon in front of the port is the last one of a name. -/
theorem rfind_childName (host : Text) (port : UInt16) :
    rfind colon (childName host port) = some host.length := by
  have hd : colon ∉ decimal port.toNat := not_mem_decimal (by decide) _
  unfold childName
  rw [List.append_assoc]
  exact rfind_last hd host

theorem childName_inj {host host' : Text} {port port' : UInt16}
    (h : childName host port = childName host' port') : host = host' ∧ port = port' := by
  have hlen : host.length = host'.length := by
    have hr := rfind_childName host port
    rw [h, rfind_childName] at hr
    exact (Option.some.inj hr).symm
  unfold childName at h
  rw [List.append_assoc, List.append_assoc] at h
  obtain ⟨hhost, hrest⟩ := List.append_inj h hlen
  refine ⟨hhost, ?_⟩
  have hport := decimal_inj (List.cons.inj hrest).2
  exact UInt16.toNat_inj.mp hport

theorem servicePath_inj {service service' : Text} (h : servicePath service = servicePath service') :
    service = service' := by
  unfold servicePath at h
  exact List.append_cancel_left h

theorem servicePath_ne_root (service : Text) : servicePath service ≠ kRootPath := by
  intro h
  have hlen := congrArg List.length h
  simp [servicePath] at hlen

theorem nodePath_inj {service service' host host' : Text} {port port' : UInt16}
    (hh : slash ∉ host) (hh' : slash ∉ host')
    (h : nodePath service host port = nodePath service' host' port') :
    service = service' ∧ host = host' ∧ port = port' := by
  have hp := parentOf_nodePath service hh port
  rw [h, parentOf_nodePath service' hh' port', Option.some.injEq, Prod.mk.injEq] at hp
  exact ⟨(servicePath_inj hp.1).symm, (childName_inj hp.2).imp Eq.symm Eq.symm⟩

theorem nodePath_ne_servicePath {service service' host : Text} (hh : slash ∉ host)
    (hs : slash ∉ service') (port : UInt16) : nodePath service host port ≠ servicePath service' := by
  intro h
  have hp := parentOf_nodePath service hh port
  rw [h, parentOf_servicePath hs, Option.some.injEq, Prod.mk.injEq] at hp
  exact servicePath_ne_root service hp.1.symm

/-! ## What a registration changes -/

/-- The tables of the services when the node of a service is created. -/
theorem addNode_servicePath {service : Text} (hs : slash ∉ service) (data : Text) (d : Registry) :
    (∀ s, (addNode (servicePath service) data d).2.children (servicePath s) =
      d.children (servicePath s)) ∧
    (addNode (servicePath service) data d).2.nodes =
      Function.update d.nodes (servicePath service) (some data) := by
  simp only [addNode, parentOf_servicePath hs]
  split
  · exact ⟨fun s => rfl, rfl⟩
  · refine ⟨fun s => ?_, rfl⟩
    exact Function.update_of_ne (servicePath_ne_root s) (d.children kRootPath ++ [service]) _

theorem registered_children {service host : Text} (hs : slash ∉ service) (hh : slash ∉ host)
    (port : UInt16) (weight : Int32) (d : Registry) (s : Text) :
    (registered service host port weight d).children (servicePath s) =
      if s = service then
        if childName host port ∈ d.children (servicePath service) then
          d.children (servicePath service)
        else d.children (servicePath service) ++ [childName host port]
      else d.children (servicePath s) := by
  have hfirst := (addNode_servicePath hs [] d).1
  unfold registered
  generalize (addNode (servicePath service) [] d).2 = d1 at hfirst ⊢
  simp only [addNode, parentOf_nodePath service hh port, hfirst]
  by_cases hsame : s = service
  · rw [hsame, if_pos rfl]
    split
    · exact hfirst service
    · exact Function.update_self ..
  · rw [if_neg hsame]
    split
    · exact hfirst s
    · exact (Function.update_of_ne (fun he => hsame (servicePath_inj he)) _ _).trans (hfirst s)

theorem registered_nodes {service host : Text} (hs : slash ∉ service) (hh : slash ∉ host)
    (port : UInt16) (weight : Int32) (d : Registry) :
    (registered service host port weight d).nodes =
      Function.update (Function.update d.nodes (servicePath service) (some []))
        (nodePath service host port) (some (decimalInt weight)) := by
  have hfirst := (addNode_servicePath hs [] d).2
  unfold registered
  generalize (addNode (servicePath service) [] d).2 = d1 at hfirst ⊢
  simp only [addNode, parentOf_nodePath service hh port, hfirst]
  split <;> rfl

/-- A registration touches the nodes and the child lists only. -/
theorem registered_frame (service host : Text) (port : UInt16) (weight : Int32) (d : Registry) :
    (registered service host port weight d).cache = d.cache ∧
      (registered service host port weight d).watchers = d.watchers := by
  have hframe : ∀ path data (d : Registry), (addNode path data d).2.cache = d.cache ∧
      (addNode path data d).2.watchers = d.watchers := by
    intro path data d
    unfold addNode
    split
    · exact ⟨rfl, rfl⟩
    · dsimp only
      split <;> exact ⟨rfl, rfl⟩
  unfold registered
  refine ⟨?_, ?_⟩
  · rw [(hframe _ _ _).1, (hframe _ _ _).1]
  · rw [(hframe _ _ _).2, (hframe _ _ _).2]

theorem dropNode_tables (service : Text) {host : Text} (hh : slash ∉ host) (port : UInt16)
    (d : Registry) :
    dropNode (nodePath service host port) d =
      { d with
        nodes := Function.update d.nodes (nodePath service host port) none
        children := Function.update d.children (servicePath service)
          ((d.children (servicePath service)).filter (· ≠ childName host port)) } := by
  simp only [dropNode, parentOf_nodePath service hh port]

/-! ## What is registered -/

/-- The endpoint has this address. -/
def ServiceEndpoint.isAt (ep : ServiceEndpoint) (host : Text) (port : UInt16) : Bool :=
  ep.host = host && ep.port = port

/-- The entries after a registration: an address that is there keeps its place and gets the new
weight, and a new address comes last. -/
def enter (ep : ServiceEndpoint) (eps : List ServiceEndpoint) : List ServiceEndpoint :=
  if eps.any (·.isAt ep.host ep.port) then
    eps.map fun e => if e.isAt ep.host ep.port then ep else e
  else eps ++ [ep]

/-- The entries after an unregistration. -/
def leave (host : Text) (port : UInt16) (eps : List ServiceEndpoint) : List ServiceEndpoint :=
  eps.filter fun e => !e.isAt host port

/-- The entries of a service after some calls, the newest of which comes first. -/
def entries : List Call → Text → List ServiceEndpoint
  | [], _ => []
  | .registerService service host port weight :: earlier, s =>
    if s = service then enter ⟨host, port, weight⟩ (entries earlier s) else entries earlier s
  | .unregisterService service host port :: earlier, s =>
    if s = service then leave host port (entries earlier s) else entries earlier s
  | .discover _ _ :: earlier, s => entries earlier s

/-- The standing registration of an address after some calls, the newest of which comes first:
how many calls came before its first registration since it was last unregistered, and the
weight of its latest registration. -/
def standing : List Call → Text → Text → UInt16 → Option (Nat × Int32)
  | [], _, _, _ => none
  | .registerService service host port weight :: earlier, s, h, p =>
    if s = service ∧ h = host ∧ p = port then
      some (((standing earlier s h p).map (·.1)).getD earlier.length, weight)
    else standing earlier s h p
  | .unregisterService service host port :: earlier, s, h, p =>
    if s = service ∧ h = host ∧ p = port then none else standing earlier s h p
  | .discover _ _ :: earlier, s, h, p => standing earlier s h p

theorem isAt_iff {ep : ServiceEndpoint} {host : Text} {port : UInt16} :
    ep.isAt host port = true ↔ ep.host = host ∧ ep.port = port := by
  simp [ServiceEndpoint.isAt]

theorem standing_lt {calls : List Call} {s h : Text} {p : UInt16} {k : Nat} {w : Int32}
    (hst : standing calls s h p = some (k, w)) : k < calls.length := by
  induction calls generalizing k w with
  | nil => cases hst
  | cons call earlier ih =>
    rw [List.length_cons]
    cases call with
    | registerService service host port weight =>
      unfold standing at hst
      split at hst
      · cases hold : standing earlier s h p with
        | none =>
          rw [hold] at hst
          cases hst
          exact Nat.lt_succ_self _
        | some kw =>
          rw [hold] at hst
          cases hst
          exact Nat.lt_succ_of_lt (ih hold)
      · exact Nat.lt_succ_of_lt (ih hst)
    | unregisterService service host port =>
      unfold standing at hst
      split at hst
      · cases hst
      · exact Nat.lt_succ_of_lt (ih hst)
    | discover service draw => exact Nat.lt_succ_of_lt (ih hst)

/-- A registration leaves the other addresses as they are. -/
theorem standing_register (calls : List Call) (s : Text) {new e : ServiceEndpoint}
    (h : e.isAt new.host new.port = false) :
    standing (.registerService s new.host new.port new.weight :: calls) s e.host e.port =
      standing calls s e.host e.port := by
  rw [standing, if_neg]
  rintro ⟨-, hh, hp⟩
  rw [isAt_iff.mpr ⟨hh, hp⟩] at h
  cases h

/-- How many calls came before the address was entered. -/
def since (calls : List Call) (s : Text) (ep : ServiceEndpoint) : Nat :=
  ((standing calls s ep.host ep.port).map (·.1)).getD 0

/-- The entries of a service are its standing registrations, in the order in which they were
entered. -/
structure Listed (calls : List Call) (s : Text) (eps : List ServiceEndpoint) : Prop where
  mem : ∀ ep, ep ∈ eps ↔ ∃ k, standing calls s ep.host ep.port = some (k, ep.weight)
  order : eps.Pairwise fun e e' => since calls s e < since calls s e'

/-- A list that stands for some calls stands for any that leave the registrations as they are. -/
theorem Listed.congr {calls calls' : List Call} {s : Text} {eps : List ServiceEndpoint}
    (h : Listed calls s eps) (hsame : ∀ h p, standing calls' s h p = standing calls s h p) :
    Listed calls' s eps := by
  refine ⟨fun ep => ?_, ?_⟩
  · rw [h.mem, hsame]
  · have hsince : since calls' s = since calls s := by
      funext ep
      unfold since
      rw [hsame]
    rw [hsince]
    exact h.order

theorem Listed.any_iff {calls : List Call} {s : Text} {eps : List ServiceEndpoint}
    (h : Listed calls s eps) (host : Text) (port : UInt16) :
    eps.any (·.isAt host port) = (standing calls s host port).isSome := by
  rw [Bool.eq_iff_iff, List.any_eq_true, Option.isSome_iff_exists]
  constructor
  · rintro ⟨ep, hmem, hat⟩
    obtain ⟨rfl, rfl⟩ := isAt_iff.mp hat
    obtain ⟨k, hk⟩ := (h.mem ep).mp hmem
    exact ⟨_, hk⟩
  · rintro ⟨⟨k, w⟩, hk⟩
    exact ⟨⟨host, port, w⟩, (h.mem _).mpr ⟨k, hk⟩, isAt_iff.mpr ⟨rfl, rfl⟩⟩

theorem Listed.leave {calls : List Call} {s : Text} {eps : List ServiceEndpoint}
    (h : Listed calls s eps) (host : Text) (port : UInt16) :
    Listed (.unregisterService s host port :: calls) s (leave host port eps) := by
  have hstanding : ∀ ep : ServiceEndpoint, ep.isAt host port = false →
      standing (.unregisterService s host port :: calls) s ep.host ep.port =
        standing calls s ep.host ep.port := by
    intro ep hat
    rw [standing, if_neg]
    rintro ⟨-, hh, hp⟩
    rw [isAt_iff.mpr ⟨hh, hp⟩] at hat
    cases hat
  refine ⟨fun ep => ?_, ?_⟩
  · unfold registry.leave
    rw [List.mem_filter]
    cases hat : ep.isAt host port with
    | true =>
      obtain ⟨hh, hp⟩ := isAt_iff.mp hat
      simp [standing, hh, hp]
    | false =>
      rw [h.mem, hstanding ep hat]
      simp
  · refine (h.order.filter _).imp_of_mem ?_
    intro e e' he he' hlt
    have hleft : ∀ e, e ∈ registry.leave host port eps →
        since (.unregisterService s host port :: calls) s e = since calls s e := by
      intro e he
      have hat := (List.mem_filter.mp he).2
      unfold since
      rw [hstanding e (by simpa using hat)]
    rw [hleft e he, hleft e' he']
    exact hlt

/-- A registration of an address that is there leaves its place. -/
theorem Listed.enter_again {calls : List Call} {s : Text} {eps : List ServiceEndpoint}
    (h : Listed calls s eps) (new : ServiceEndpoint) {k : Nat} {w : Int32}
    (hold : standing calls s new.host new.port = some (k, w)) :
    Listed (.registerService s new.host new.port new.weight :: calls) s
      (eps.map fun e => if e.isAt new.host new.port then new else e) := by
  have hnew : standing (.registerService s new.host new.port new.weight :: calls) s new.host
      new.port = some (k, new.weight) := by
    simp [standing, hold]
  -- each entry keeps its time
  have hsince : ∀ e : ServiceEndpoint,
      since (.registerService s new.host new.port new.weight :: calls) s
        (if e.isAt new.host new.port then new else e) = since calls s e := by
    intro e
    unfold since
    cases hat : e.isAt new.host new.port with
    | true =>
      obtain ⟨hh, hp⟩ := isAt_iff.mp hat
      rw [if_pos rfl, hnew, hh, hp, hold]
      rfl
    | false =>
      rw [if_neg (by simp), standing_register calls s hat]
  refine ⟨fun ep => ?_, ?_⟩
  · rw [List.mem_map]
    constructor
    · rintro ⟨e, he, rfl⟩
      cases hat : e.isAt new.host new.port with
      | true => exact ⟨k, by rw [if_pos rfl]; exact hnew⟩
      | false =>
        rw [if_neg (by simp), standing_register calls s hat]
        exact (h.mem e).mp he
    · rintro ⟨j, hj⟩
      cases hat : ep.isAt new.host new.port with
      | true =>
        obtain ⟨hh, hp⟩ := isAt_iff.mp hat
        rw [hh, hp, hnew, Option.some.injEq, Prod.mk.injEq] at hj
        obtain ⟨-, hw⟩ := hj
        refine ⟨⟨new.host, new.port, w⟩, (h.mem _).mpr ⟨k, hold⟩, ?_⟩
        rw [if_pos (isAt_iff.mpr ⟨rfl, rfl⟩)]
        cases ep
        cases new
        simp_all
      | false =>
        rw [standing_register calls s hat] at hj
        exact ⟨ep, (h.mem ep).mpr ⟨j, hj⟩, by rw [if_neg (by simp [hat])]⟩
  · refine List.pairwise_map.mpr (h.order.imp ?_)
    intro e e' hlt
    rw [hsince, hsince]
    exact hlt

/-- A registration of a new address comes last. -/
theorem Listed.enter_new {calls : List Call} {s : Text} {eps : List ServiceEndpoint}
    (h : Listed calls s eps) (new : ServiceEndpoint)
    (hold : standing calls s new.host new.port = none) :
    Listed (.registerService s new.host new.port new.weight :: calls) s (eps ++ [new]) := by
  have hnew : standing (.registerService s new.host new.port new.weight :: calls) s new.host
      new.port = some (calls.length, new.weight) := by
    simp [standing, hold]
  have hapart : ∀ e ∈ eps, e.isAt new.host new.port = false := by
    intro e he
    by_contra hat
    obtain ⟨hh, hp⟩ := isAt_iff.mp (by simpa using hat)
    obtain ⟨k, hk⟩ := (h.mem e).mp he
    rw [hh, hp, hold] at hk
    cases hk
  have hsince : ∀ e ∈ eps, since (.registerService s new.host new.port new.weight :: calls) s e =
      since calls s e := by
    intro e he
    unfold since
    rw [standing_register calls s (hapart e he)]
  refine ⟨fun ep => ?_, ?_⟩
  · rw [List.mem_append, List.mem_singleton]
    cases hat : ep.isAt new.host new.port with
    | true =>
      obtain ⟨hh, hp⟩ := isAt_iff.mp hat
      rw [hh, hp, hnew]
      constructor
      · rintro (he | rfl)
        · rw [hapart ep he] at hat
          cases hat
        · exact ⟨_, rfl⟩
      · rintro ⟨k, hk⟩
        rw [Option.some.injEq, Prod.mk.injEq] at hk
        refine Or.inr ?_
        cases ep
        cases new
        simp_all
    | false =>
      rw [standing_register calls s hat, ← h.mem]
      refine ⟨fun hor => hor.resolve_right ?_, Or.inl⟩
      rintro rfl
      rw [isAt_iff.mpr ⟨rfl, rfl⟩] at hat
      cases hat
  · refine List.pairwise_append.mpr ⟨?_, List.pairwise_singleton _ _, ?_⟩
    · refine h.order.imp_of_mem ?_
      intro e e' he he' hlt
      rw [hsince e he, hsince e' he']
      exact hlt
    · intro e he e' he'
      rw [List.mem_singleton.mp he', hsince e he]
      obtain ⟨k, hk⟩ := (h.mem e).mp he
      have hlt := standing_lt hk
      unfold since
      rw [hk, hnew]
      exact hlt

/-- The entries of a service list its standing registrations. -/
theorem listed_entries (calls : List Call) (s : Text) : Listed calls s (entries calls s) := by
  induction calls with
  | nil => exact ⟨by simp [entries, standing], List.Pairwise.nil⟩
  | cons call earlier ih =>
    cases call with
    | registerService service host port weight =>
      unfold entries
      split
      · rename_i hs
        subst hs
        unfold enter
        rw [ih.any_iff]
        cases hold : standing earlier s host port with
        | none => exact ih.enter_new ⟨host, port, weight⟩ hold
        | some kw => exact ih.enter_again ⟨host, port, weight⟩ hold
      · rename_i hs
        refine ih.congr fun h p => ?_
        rw [standing, if_neg fun hc => hs hc.1]
    | unregisterService service host port =>
      unfold entries
      split
      · rename_i hs
        subst hs
        exact ih.leave host port
      · rename_i hs
        refine ih.congr fun h p => ?_
        rw [standing, if_neg fun hc => hs hc.1]
    | discover service draw => exact ih.congr fun h p => rfl

/-! ## The tables hold the entries -/

/-- The names in the call have no slash. -/
def Call.plain : Call → Prop
  | .registerService service host _ _ => slash ∉ service ∧ slash ∉ host
  | .unregisterService service host _ => slash ∉ service ∧ slash ∉ host
  | .discover service _ => slash ∉ service

instance (call : Call) : Decidable call.plain :=
  match call with
  | .registerService _ _ _ _ => inferInstanceAs (Decidable (_ ∧ _))
  | .unregisterService _ _ _ => inferInstanceAs (Decidable (_ ∧ _))
  | .discover _ _ => inferInstanceAs (Decidable (¬ _))

/-- The child list of a service names its entries in order, and the node of each entry has its
weight as data. -/
structure Mirrors (d : Registry) (calls : List Call) : Prop where
  children : ∀ s, slash ∉ s →
    d.children (servicePath s) = (entries calls s).map fun ep => childName ep.host ep.port
  nodes : ∀ s, ∀ ep ∈ entries calls s,
    d.nodes (nodePath s ep.host ep.port) = some (decimalInt ep.weight)
  plain : ∀ s, ∀ ep ∈ entries calls s, slash ∉ s ∧ slash ∉ ep.host

theorem castPort_port (port : UInt16) : castPort (Int32.ofInt port.toNat) = port := by
  have hlt := port.toNat_lt
  have hbits : (Int32.ofInt port.toNat).toUInt32.toNat = port.toNat := by
    rw [← UInt32.toNat_toBitVec]
    change (BitVec.ofInt 32 (port.toNat : Int)).toNat = port.toNat
    simp only [BitVec.ofInt_natCast, BitVec.toNat_ofNat]
    omega
  apply UInt16.toNat_inj.mp
  unfold castPort
  rw [UInt32.toNat_toUInt16, hbits, Nat.mod_eq_of_lt hlt]

theorem readInt_port (port : UInt16) :
    readInt (decimal port.toNat) = .ok (Int32.ofInt port.toNat) := by
  have hlt := port.toNat_lt
  unfold readInt
  rw [stoi_decimal (by omega)]
  rfl

theorem readWeight_weight (weight : Int32) : readWeight (decimalInt weight) = .ok weight := by
  unfold readWeight readInt
  rw [if_neg (decimalInt_ne_nil weight), stoi_decimalInt]
  rfl

/-- The loop of `refresh` reads the endpoints whose nodes are there. -/
theorem endpointsOf_names {nodes : Text → Option Text} {path : Text} {eps : List ServiceEndpoint}
    (h : ∀ ep ∈ eps, nodes (path ++ [slash] ++ childName ep.host ep.port) =
      some (decimalInt ep.weight)) :
    endpointsOf nodes path (eps.map fun ep => childName ep.host ep.port) = .ok eps := by
  induction eps with
  | nil => rfl
  | cons ep eps ih =>
    have hdrop : (childName ep.host ep.port).drop (ep.host.length + 1) = decimal ep.port.toNat := by
      unfold childName
      rw [List.append_assoc, ← List.drop_drop, List.drop_left]
      rfl
    have htake : (childName ep.host ep.port).take ep.host.length = ep.host := by
      unfold childName
      rw [List.append_assoc, List.take_left]
    rw [List.map_cons, endpointsOf, rfind_childName]
    simp only [hdrop, htake, readInt_port, h ep (by simp), Option.getD_some, readWeight_weight,
      ih fun e he => h e (by simp [he])]
    change Except.ok (ServiceEndpoint.mk ep.host (castPort (Int32.ofInt ep.port.toNat)) ep.weight ::
      eps) = _
    rw [castPort_port]

theorem Mirrors.found {d : Registry} {calls : List Call} (h : Mirrors d calls) {s : Text}
    (hs : slash ∉ s) : found s d = .ok (entries calls s) := by
  unfold registry.found
  rw [h.children s hs]
  exact endpointsOf_names (h.nodes s)

theorem mirrors_started (strategy : LBStrategy) : Mirrors (Registry.started strategy) [] :=
  ⟨fun _ _ => rfl, by simp [entries], by simp [entries]⟩

theorem mem_enter {new ep : ServiceEndpoint} {eps : List ServiceEndpoint} (h : ep ∈ enter new eps) :
    ep = new ∨ (ep ∈ eps ∧ ep.isAt new.host new.port = false) := by
  unfold enter at h
  split at h
  · obtain ⟨e, he, heq⟩ := List.mem_map.mp h
    cases hat : e.isAt new.host new.port with
    | true =>
      rw [hat, if_pos rfl] at heq
      exact Or.inl heq.symm
    | false =>
      rw [hat, if_neg (by simp)] at heq
      subst heq
      exact Or.inr ⟨he, hat⟩
  · rename_i hnone
    rcases List.mem_append.mp h with hmem | hmem
    · refine Or.inr ⟨hmem, ?_⟩
      have hno := List.any_eq_false.mp (by simpa using hnone) ep hmem
      simpa using hno
    · exact Or.inl (List.mem_singleton.mp hmem)

/-- The names of the entries after a registration. -/
theorem names_enter (new : ServiceEndpoint) (eps : List ServiceEndpoint) :
    (enter new eps).map (fun ep => childName ep.host ep.port) =
      if childName new.host new.port ∈ eps.map (fun ep => childName ep.host ep.port) then
        eps.map fun ep => childName ep.host ep.port
      else (eps.map fun ep => childName ep.host ep.port) ++ [childName new.host new.port] := by
  have hany : eps.any (·.isAt new.host new.port) = true ↔
      childName new.host new.port ∈ eps.map (fun ep => childName ep.host ep.port) := by
    rw [List.any_eq_true, List.mem_map]
    constructor
    · rintro ⟨e, he, hat⟩
      obtain ⟨hh, hp⟩ := isAt_iff.mp hat
      exact ⟨e, he, by rw [hh, hp]⟩
    · rintro ⟨e, he, heq⟩
      exact ⟨e, he, isAt_iff.mpr (childName_inj heq)⟩
  unfold enter
  by_cases hin : eps.any (·.isAt new.host new.port) = true
  · rw [if_pos hin, if_pos (hany.mp hin), List.map_map]
    apply List.map_congr_left
    intro e _
    dsimp only [Function.comp]
    split
    · rename_i hat
      obtain ⟨hh, hp⟩ := isAt_iff.mp hat
      rw [hh, hp]
    · rfl
  · rw [if_neg hin, if_neg (fun hc => hin (hany.mpr hc)), List.map_append]
    rfl

/-- The names of the entries after an unregistration. -/
theorem names_leave (host : Text) (port : UInt16) (eps : List ServiceEndpoint) :
    (leave host port eps).map (fun ep => childName ep.host ep.port) =
      (eps.map fun ep => childName ep.host ep.port).filter (· ≠ childName host port) := by
  unfold leave
  rw [List.filter_map]
  congr 1
  apply List.filter_congr
  intro e _
  rw [Bool.eq_iff_iff]
  simp only [Bool.not_eq_true', Function.comp, decide_eq_true_eq, ← Bool.not_eq_true, isAt_iff]
  constructor
  · exact fun hne heq => hne (childName_inj heq)
  · rintro hne ⟨hh, hp⟩
    exact hne (by rw [hh, hp])

theorem Mirrors.registered {d : Registry} {calls : List Call} (h : Mirrors d calls)
    {service host : Text} (hs : slash ∉ service) (hh : slash ∉ host) (port : UInt16)
    (weight : Int32) :
    Mirrors (registered service host port weight d)
      (.registerService service host port weight :: calls) := by
  have hmem : ∀ s, ∀ ep ∈ entries (.registerService service host port weight :: calls) s,
      (s = service ∧ ep = ⟨host, port, weight⟩) ∨
        (ep ∈ entries calls s ∧ ¬ (s = service ∧ ep.host = host ∧ ep.port = port)) := by
    intro s ep hep
    unfold entries at hep
    split at hep
    · rename_i hsame
      rcases mem_enter hep with heq | ⟨hold, hat⟩
      · exact Or.inl ⟨hsame, heq⟩
      · refine Or.inr ⟨hold, fun hc => ?_⟩
        rw [isAt_iff.mpr hc.2] at hat
        cases hat
    · rename_i hne
      exact Or.inr ⟨hep, fun hc => hne hc.1⟩
  refine ⟨?_, ?_, ?_⟩
  · intro s hslash
    rw [registered_children hs hh, entries]
    split
    · rename_i hsame
      rw [← hsame, names_enter, h.children s hslash]
    · exact h.children s hslash
  · intro s ep hep
    rw [registered_nodes hs hh]
    rcases hmem s ep hep with ⟨rfl, rfl⟩ | ⟨hold, hne⟩
    · exact Function.update_self ..
    · have hplain := h.plain s ep hold
      rw [Function.update_of_ne, Function.update_of_ne]
      · exact h.nodes s ep hold
      · exact nodePath_ne_servicePath hplain.2 hs ep.port
      · exact fun heq => hne (nodePath_inj hplain.2 hh heq)
  · intro s ep hep
    rcases hmem s ep hep with ⟨rfl, rfl⟩ | ⟨hold, -⟩
    · exact ⟨hs, hh⟩
    · exact h.plain s ep hold

theorem Mirrors.unregistered {d : Registry} {calls : List Call} (h : Mirrors d calls)
    {service host : Text} (hh : slash ∉ host) (port : UInt16) :
    Mirrors (dropNode (nodePath service host port) d)
      (.unregisterService service host port :: calls) := by
  have hmem : ∀ s, ∀ ep ∈ entries (.unregisterService service host port :: calls) s,
      ep ∈ entries calls s ∧ ¬ (s = service ∧ ep.host = host ∧ ep.port = port) := by
    intro s ep hep
    unfold entries at hep
    split at hep
    · obtain ⟨hold, hat⟩ := List.mem_filter.mp hep
      refine ⟨hold, fun hc => ?_⟩
      rw [isAt_iff.mpr hc.2] at hat
      cases hat
    · rename_i hne
      exact ⟨hep, fun hc => hne hc.1⟩
  rw [dropNode_tables service hh port]
  refine ⟨?_, ?_, ?_⟩
  · intro s hslash
    rw [entries]
    split
    · rename_i hsame
      subst hsame
      rw [names_leave, ← h.children s hslash]
      exact Function.update_self ..
    · rename_i hne
      rw [← h.children s hslash]
      exact Function.update_of_ne (fun he => hne (servicePath_inj he)) _ _
  · intro s ep hep
    obtain ⟨hold, hne⟩ := hmem s ep hep
    rw [← h.nodes s ep hold]
    exact Function.update_of_ne (fun he => hne (nodePath_inj (h.plain s ep hold).2 hh he)) _ _
  · intro s ep hep
    exact h.plain s ep (hmem s ep hep).1

/-- A call that comes back keeps the tables in step with the entries. -/
theorem Mirrors.effect {d d' : Registry} {calls : List Call} {call : Call} (h : Mirrors d calls)
    (hplain : call.plain) (he : Effect d call d') : Mirrors d' (call :: calls) := by
  cases he with
  | registered _ _ => exact h.registered hplain.1 hplain.2 _ _
  | unregistered => exact h.unregistered hplain.2 _
  | cached lb hcache => exact ⟨h.children, h.nodes, h.plain⟩
  | refreshed lb hcache hfound => exact ⟨h.children, h.nodes, h.plain⟩
  | failed hcache hfound => exact ⟨h.children, h.nodes, h.plain⟩

/-! ## Registrations are read back -/

/-- The calls one after the other. -/
def runCalls : List Call → Prog Unit
  | [] => return ()
  | call :: calls => do
    runCall call
    runCalls calls

/-- The call is no `discover`. -/
def Call.provides : Call → Bool
  | .discover _ _ => false
  | _ => true

theorem fires_unwatched {d : Registry} (hw : ∀ path, d.watchers path = none) (path : Text) :
    fires d path = false := by
  unfold fires
  split <;> simp [hw]

/-- Where there is no watcher, a registration or an unregistration returns and adds none. -/
theorem runCall_provides {d : Registry} {call : Call} (h : call.provides = true)
    (hw : ∀ path, d.watchers path = none) :
    ∃ d', runCall call (idle d) = .returned () (idle d') ∧ Effect d call d' ∧
      ∀ path, d'.watchers path = none := by
  have hfires := fires_unwatched hw
  cases call with
  | registerService service host port weight =>
    refine ⟨_, Prog.bind_returned (a := true) ?_ _, .registered (hfires _) (hfires _), ?_⟩
    · rw [registerService_cases, if_pos ⟨hfires _, hfires _⟩]
    · rw [(registered_frame service host port weight d).2]
      exact hw
  | unregisterService service host port =>
    refine ⟨_, Prog.bind_returned (unregisterService_spec ..) _, .unregistered, ?_⟩
    unfold dropNode
    split <;> exact hw
  | discover service draw => cases h

/-- Without a `discover` there is no watcher, and every call returns. -/
theorem runCalls_spec (calls earlier : List Call) {d : Registry}
    (h : ∀ call ∈ calls, call.plain ∧ call.provides = true) (hm : Mirrors d earlier)
    (hw : ∀ path, d.watchers path = none) :
    ∃ d', runCalls calls (idle d) = .returned () (idle d') ∧
      Mirrors d' (calls.reverse ++ earlier) := by
  induction calls generalizing d earlier with
  | nil => exact ⟨d, rfl, hm⟩
  | cons call calls ih =>
    obtain ⟨hplain, hprovides⟩ := h call (by simp)
    obtain ⟨d1, hret, heffect, hw1⟩ := runCall_provides hprovides hw
    obtain ⟨d', hrest, hm'⟩ := ih (call :: earlier) (fun c hc => h c (by simp [hc]))
      (hm.effect hplain heffect) hw1
    refine ⟨d', (Prog.bind_returned hret _).trans hrest, ?_⟩
    rw [List.reverse_cons, List.append_assoc]
    exact hm'

/-- After any registrations and unregistrations, `refresh` stores one endpoint for each address
that is registered under the service, with the weight of its latest registration, in the order
in which the addresses were entered. -/
theorem registrations_are_read_back (strategy : LBStrategy) (calls : List Call)
    (hcalls : ∀ call ∈ calls, call.plain ∧ call.provides = true) (service : Text)
    (hs : slash ∉ service) :
    ∃ t t', runCalls calls (idle (Registry.started strategy)) = .returned () t ∧
      refresh service t = .returned () t' ∧
      (∀ ep, ep ∈ t'.data.cache service ↔
        ∃ k, standing calls.reverse service ep.host ep.port = some (k, ep.weight)) ∧
      (t'.data.cache service).Pairwise (fun ep ep' =>
        since calls.reverse service ep < since calls.reverse service ep') ∧
      ((t'.data.cache service).map fun ep => (ep.host, ep.port)).Nodup := by
  obtain ⟨d, hrun, hm⟩ := runCalls_spec calls [] hcalls (mirrors_started strategy) fun _ => rfl
  rw [List.append_nil] at hm
  have hrefresh := refresh_spec service d
  rw [hm.found hs] at hrefresh
  have hlisted := listed_entries calls.reverse service
  refine ⟨_, _, hrun, hrefresh, ?_, ?_, ?_⟩
  · change ∀ ep, ep ∈ (stored service _ (watched service d)).cache service ↔ _
    rw [stored_cache]
    exact hlisted.mem
  · change ((stored service _ (watched service d)).cache service).Pairwise _
    rw [stored_cache]
    exact hlisted.order
  · change (((stored service _ (watched service d)).cache service).map _).Nodup
    rw [stored_cache]
    refine List.pairwise_map.mpr (hlisted.order.imp ?_)
    intro ep ep' hlt hsame
    rw [Prod.mk.injEq] at hsame
    unfold since at hlt
    rw [hsame.1, hsame.2] at hlt
    exact Nat.lt_irrefl _ hlt

/-- An empty host that gets a second weight, and a host with a colon. -/
theorem odd_hosts_are_read_back :
    ∃ t t', runCalls [.registerService (ascii ['s']) [] 80 1,
        .registerService (ascii ['s']) (ascii ['a', ':']) 65535 (-3),
        .registerService (ascii ['t']) (ascii ['b']) 1 1, .registerService (ascii ['s']) [] 80 7]
        (idle (Registry.started .roundRobin)) = .returned () t ∧
      refresh (ascii ['s']) t = .returned () t' ∧
      (⟨[], 80, 7⟩ : ServiceEndpoint) ∈ t'.data.cache (ascii ['s']) ∧
      ⟨ascii ['a', ':'], 65535, -3⟩ ∈ t'.data.cache (ascii ['s']) := by
  obtain ⟨t, t', hrun, hrefresh, hmem, -, -⟩ := registrations_are_read_back .roundRobin
    [.registerService (ascii ['s']) [] 80 1,
      .registerService (ascii ['s']) (ascii ['a', ':']) 65535 (-3),
      .registerService (ascii ['t']) (ascii ['b']) 1 1, .registerService (ascii ['s']) [] 80 7]
    (by decide) (ascii ['s']) (by decide)
  exact ⟨t, t', hrun, hrefresh, (hmem _).mpr ⟨0, by decide⟩, (hmem _).mpr ⟨1, by decide⟩⟩

end rpc.registry
