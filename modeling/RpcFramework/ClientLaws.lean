-- The clients of one server do not disturb each other. What the other peers do can
-- be left out of a run, and each call gets the response to its own request, though
-- the requests of other clients have the same ids.
import Mathlib.Data.List.Pairwise
import RpcFramework.Clients

namespace rpc

open net codec runs

namespace Clients

variable {κ ι Msg : Type} [DecidableEq κ] [DecidableEq ι] {pb : Protobuf Msg}
  {args : κ → ι → CallArgs Msg} {services : String → Option (Service Msg)} {threads : Nat}
  {stranger : κ → Bool} {s s' : Clients κ ι Msg} {k : κ}

/-! ## The others can be left out -/

/-- What client `k` does: a step of its threads, or a read of some bytes. -/
def Act.own (k : κ) : Act κ ι Msg → Option (rpc.Act ι ⊕ Nat)
  | .client k' a => if k' = k then some (.inl a) else none
  | .clientRead k' n => if k' = k then some (.inr n) else none
  | _ => none

/-- What the client of a session does. -/
def ownOfSession : Session.Act ι Msg → Option (rpc.Act ι ⊕ Nat)
  | .client a => some (.inl a)
  | .clientRead n => some (.inr n)
  | _ => none

omit [DecidableEq ι] in
theorem own_shown (s : Clients κ ι Msg) (a : Act κ ι Msg) :
    (s.shown k a).bind ownOfSession = a.own k := by
  cases a with
  | client k' a => by_cases he : k' = k <;> simp [shown, Act.own, he, ownOfSession]
  | clientRead k' n => by_cases he : k' = k <;> simp [shown, Act.own, he, ownOfSession]
  | handleRead k' n => by_cases he : k' = k <;> simp [shown, Act.own, he, ownOfSession]
  | strangerRead k' bytes => rfl
  | decode k' => by_cases he : k' = k <;> simp [shown, Act.own, he, ownOfSession]
  | server a =>
    cases ha : Server.shown (Server.alone s.server.received k) k s.server a <;>
      simp [shown, Act.own, ha, ownOfSession]

/-- A client cannot tell whether the server has other peers. For every run of the server with all
its peers there is a run of this client with a server of its own, in which the client does the
same things in the same order, and comes to the same state. The server holds the same bytes for
it, and its connection is in the same state. -/
theorem the_other_peers_can_be_left_out (hk : stranger k = false) {as : List (Act κ ι Msg)}
    (hr : (machine pb args services threads stranger).run (fun _ _ => True)
      (machine pb args services threads stranger).init as = some s) :
    ∃ bs t, (Session.machine pb (args k) services threads).run (fun _ _ => True)
        (Session.machine pb (args k) services threads).init bs = some t ∧
      bs.filterMap ownOfSession = as.filterMap (Act.own k) ∧ t.client = s.client k ∧
      t.server.handed () = s.server.handed k ∧ t.server.connState () = s.server.connState k := by
  have hrun := (session pb args services threads hk).run .init hr
  rw [(session pb args services threads hk).init] at hrun
  exact ⟨_, _, hrun, Simulation.filterMap_trace _ own_shown hr, rfl, rfl, rfl⟩

/-- The call `c` of one client, and the call `d` of the other. Both have the id 1. A stranger
sends bytes that are no frame. -/
def sharedRun (c d : Fin 2) : List (Act (Option Bool) (Fin 2) Hello) :=
  let false' := some false
  let true' := some true
  [.client false' (.socket true), .client false' (.connect true), .client true' (.socket true),
    .client true' (.connect true), .client false' (.enter c), .client false' (.check c),
    .client false' (.draw c), .client false' (.insert c), .client true' (.enter d),
    .client true' (.check d), .client true' (.draw d), .client true' (.insert d),
    .client true' (.write d (some (callFrame helloProto (Session.helloCalls d) 1).length)),
    .client false' (.write c (some (callFrame helloProto (Session.helloCalls c) 1).length)),
    .server (.setState false' .kConnected), .server (.setState true' .kConnected),
    .server (.setState none .kConnected), .strangerRead none (List.replicate 8 0), .decode none,
    .handleRead false' 200, .decode false', .decode false', .server .take,
    .handleRead true' 200, .decode true', .decode true', .server (.call 0),
    .server (.finish 0 .new (.helloResponse "Hello, World!")), .server (.respond 0),
    .server .swap, .server .functor,
    .client false' (.loopHead 0), .clientRead false' 100, .client false' (.parse 0),
    .client false' (.take 0), .client false' (.apply 0), .client false' (.flag 0),
    .client true' (.loopHead 0), .clientRead true' 100, .client true' (.parse 0),
    .client true' (.take 0), .client true' (.apply 0), .client true' (.flag 0)]

theorem the_stranger_and_the_other_client_are_left_out :
    ∃ bs t, (Session.machine helloProto Session.helloCalls helloServices 1).run
        (fun _ _ => True) (Session.machine helloProto Session.helloCalls helloServices 1).init bs =
          some t ∧
      bs.filterMap ownOfSession = (sharedRun 0 1).filterMap (Act.own (some false)) := by
  obtain ⟨s, hs⟩ := Option.isSome_iff_exists.mp (show ((machine helloProto
    (fun _ : Option Bool => Session.helloCalls) helloServices 1 Option.isNone).run
      (fun _ _ => True) (machine helloProto (fun _ => Session.helloCalls) helloServices 1
        Option.isNone).init (sharedRun 0 1)).isSome = true by decide +kernel)
  obtain ⟨bs, t, hrun, hown, -⟩ := the_other_peers_can_be_left_out (k := some false) rfl hs
  exact ⟨bs, t, hrun, hown⟩

/-! ## The outcome of a call -/

omit [DecidableEq κ] [DecidableEq ι] in
/-- Two entries that are seen as one are one, when nothing is seen twice. -/
theorem eq_of_filterMap_nodup {α β : Type} {g : α → Option β} {l : List α}
    (h : (l.filterMap g).Nodup) {x y : α} {b : β} (hx : x ∈ l) (hy : y ∈ l) (hgx : g x = some b)
    (hgy : g y = some b) : x = y := by
  by_contra hne
  have hsymm : Std.Symm fun x y => ∀ b, g x = some b → ∀ b', g y = some b' → b ≠ b' :=
    ⟨fun _ _ h b hb b' hb' => (h b' hb' b hb).symm⟩
  exact (List.pairwise_filterMap.mp h).forall hx hy hne b hgx b hgy rfl

omit [DecidableEq ι] in
/-- A request that the client sees is one that the server received on its connection. -/
theorem received_of_share {server : Server κ Msg} {t' : Ticket Unit} {req : RpcRequest}
    (h : (t', req) ∈ (server.share k).received) :
    ∃ t, t.conn = k ∧ (t, req) ∈ server.received ∧
      Server.alone server.received k t = some t' := by
  obtain ⟨⟨t, req'⟩, hmem, hmap⟩ := List.mem_filterMap.mp h
  obtain ⟨t'', ht, heq⟩ := Option.map_eq_some_iff.mp hmap
  cases heq
  exact ⟨t, (Server.names_alone _ k).conn ht, hmem, ht⟩

omit [DecidableEq ι] in
/-- The client sees each request on its connection. -/
theorem share_of_received {server : Server κ Msg} {t : Ticket κ} {req : RpcRequest}
    (h : (t, req) ∈ server.received) (hk : t.conn = k) :
    ∃ t', Server.alone server.received k t = some t' ∧ (t', req) ∈ (server.share k).received := by
  obtain ⟨t', ht⟩ := Option.isSome_iff_exists.mp (((Server.names_alone server.received k).own t).mpr hk)
  refine ⟨t', ht, List.mem_filterMap.mpr ⟨(t, req), h, ?_⟩⟩
  simp [named, ht]

omit [DecidableEq ι] in
/-- No two requests on the connection are seen under one name. -/
theorem alone_inj {server : Server κ Msg} (h : Server.Ledger [] (server.share k)) {t u : Ticket κ}
    {t' : Ticket Unit} (ht : t ∈ server.received.map (·.1)) (hu : u ∈ server.received.map (·.1))
    (htn : Server.alone server.received k t = some t')
    (hun : Server.alone server.received k u = some t') : t = u := by
  have heq : (server.received.map (·.1)).filterMap (Server.alone server.received k) =
      (server.share k).received.map (·.1) := by
    rw [List.filterMap_map]
    simp [Server.share, Server.through, List.map_filterMap, named, Function.comp_def]
  refine eq_of_filterMap_nodup ?_ ht hu htn hun
  rw [heq]
  exact h.nodup

omit [DecidableEq ι] in
/-- What the server computed for a request in the eyes of the client, it computed. -/
theorem computed_of_share {server : Server κ Msg} (h : Server.Ledger [] (server.share k))
    (hl : Server.Ledger [] server) {t : Ticket κ} {t' : Ticket Unit} {req : RpcRequest}
    {resp : RpcResponse} (hrec : (t, req) ∈ server.received)
    (ht : Server.alone server.received k t = some t')
    (hcomp : Server.Computed pb services (server.share k) t' resp) :
    Server.Computed pb services server t resp := by
  have hnames := Server.names_alone server.received k
  obtain ⟨req', hreq', hcomp⟩ := hcomp
  obtain ⟨u', hu', hshare⟩ := share_of_received hrec (hnames.conn ht)
  rw [ht] at hu'
  cases hu'
  rw [h.request_unique hreq' hshare] at hcomp
  refine ⟨req, hrec, ?_⟩
  rcases hcomp with hrep | ⟨service, method, request, controller, response, hsub, hout, hresp⟩
  · exact Or.inl hrep
  · obtain ⟨⟨u, o⟩, ho, hmap⟩ := List.mem_filterMap.mp hout
    obtain ⟨u', hu, heq⟩ := Option.map_eq_some_iff.mp hmap
    cases heq
    -- the outcome belongs to the same request
    have hmem : u ∈ server.received.map (·.1) := by
      obtain ⟨task, htask, rfl⟩ := List.mem_map.mp (hl.outcomes _ ho)
      exact hl.invoked task htask
    have hsame := alone_inj h (List.mem_map.mpr ⟨_, hrec, rfl⟩) hmem ht hu
    subst hsame
    rw [hnames.requestId _ _ ht] at hresp
    exact Or.inr ⟨service, method, request, controller, response, hsub, ho, hresp⟩

end Clients

end rpc
