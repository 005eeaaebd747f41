-- The calls that the handlers of a server run. Each of them is run for one call of a client, with
-- what this call passed, and no call is run twice, also when its caller was told of a failure.
import RpcFramework.ClientLaws

namespace rpc

open net codec runs

variable {κ ι Msg : Type} [DecidableEq κ] [DecidableEq ι] {pb : Protobuf Msg}
  {typeName : Msg → String} {services : String → Option (Service Msg)} {threads : Nat}

/-! ## The requests of one client -/

namespace Session

variable {args : ι → CallArgs Msg} {s : Session ι Msg}

/-- The requests that the client has written are whole, and no body is too large. What the server
does with them is not told. -/
structure WholeRequests (pb : Protobuf Msg) (typeName : Msg → String) (args : ι → CallArgs Msg)
    (s : Session ι Msg) : Prop where
  roundTrips : pb.RoundTrips typeName
  complete : ∀ w ∈ s.client.writes, ∀ n, w.count = some n → n = w.frame.length
  requests : ∀ w ∈ s.client.writes, ∃ b, b.length ≤ kMaxBodySize ∧
    pb.serializeRequest (rpcRequest pb (args w.call) (s.client.calls w.call).requestId) = some b
  arguments : ∀ c, ∃ b, pb.serialize (args c).request = some b

/-- The server has received the first of the requests that were sent. -/
theorem received_sent (h : (machine pb args services threads).Reach s)
    (hw : WholeRequests pb typeName args s) :
    s.server.received.map (·.2) <+: requestsSent pb args s.client := by
  obtain ⟨fs, hcut, hrec⟩ := requestsRead_reach h
  obtain ⟨hwire, hfits, hparse⟩ := requests_wire h hw.roundTrips hw.complete hw.requests
  rw [hrec, ← hparse]
  exact (hcut.front (deframer_code _) hfits hwire).filterMap _

/-- A request that was received is that of a call that has written it. -/
theorem sender_of_received (h : (machine pb args services threads).Reach s)
    (hw : WholeRequests pb typeName args s) {p : Ticket Unit × RpcRequest}
    (hp : p ∈ s.server.received) :
    ∃ c, (s.client.calls c).pc.sent = true ∧
      p.2 = rpcRequest pb (args c) (s.client.calls c).requestId := by
  obtain ⟨w, hin, heq⟩ := List.mem_map.mp
    ((received_sent h hw).subset (List.mem_map.mpr ⟨p, hp, rfl⟩))
  exact ⟨w.call, (sent_pc (client_reach h).reach hin).1, heq.symm⟩

/-- No two writes of one channel carry the same id. -/
theorem sent_ids_nodup [Fintype ι] (hfew : Fintype.card ι < 2 ^ 32) {client : Channel ι Msg}
    (h : (Channel.machine pb args).Reach client) :
    ((client.sentOn 0).map fun w => (client.calls w.call).requestId).Nodup := by
  have hcalls : ((client.sentOn 0).map (·.call)).Nodup :=
    (Channel.writes_once h).sublist (List.filter_sublist.map _)
  rw [List.nodup_iff_pairwise_ne, List.pairwise_map] at hcalls ⊢
  refine hcalls.imp_of_mem ?_
  intro w v hw hv hne heq
  exact hne (Channel.ids_differ hfew h (sent_pc h hw).2 (sent_pc h hv).2 heq)

/-- A request is received once. -/
theorem received_once [Fintype ι] (hfew : Fintype.card ι < 2 ^ 32)
    (h : (machine pb args services threads).Reach s) (hw : WholeRequests pb typeName args s)
    {p q : Ticket Unit × RpcRequest} (hp : p ∈ s.server.received) (hq : q ∈ s.server.received)
    (hid : p.2.requestId = q.2.requestId) : p = q := by
  have hfront := (received_sent h hw).map (·.requestId)
  rw [requestsSent, List.map_map, List.map_map] at hfront
  exact List.inj_on_of_nodup_map
    ((sent_ids_nodup hfew (client_reach h).reach).sublist hfront.sublist) hp hq hid

end Session

/-! ## The law -/

/-- The handler is called as the call asks: its service, its method, and its arguments. They are
the caller's own message when the method takes messages of its type. -/
structure CallArgs.Runs (pb : Protobuf Msg) (typeName : Msg → String)
    (services : String → Option (Service Msg)) (a : CallArgs Msg) (task : Task κ Msg) : Prop where
  service : services a.service = some task.service
  method : task.service.findMethodByName a.method = some task.method
  parsed : pb.parse task.method.requestPrototype ((pb.serialize a.request).getD []) =
    (task.request, true)
  request : typeName task.method.requestPrototype = typeName a.request → task.request = a.request

omit [DecidableEq κ] in
theorem runs_of_submit {a : CallArgs Msg} {id : UInt32} {task : Task κ Msg} {b : Bytes}
    (hround : pb.RoundTrips typeName) (hb : pb.serialize a.request = some b)
    (h : onRequest pb services (rpcRequest pb a id) =
      .submit task.service task.method task.request) : a.Runs pb typeName services task := by
  obtain ⟨hservice, hmethod, hparsed⟩ := Server.onRequest_submit_iff.mp h
  refine ⟨hservice, hmethod, hparsed, ?_⟩
  intro htype
  have hread := hround.message a.request _ b htype hb
  simp only [rpcRequest, hb, Option.getD_some, hread] at hparsed
  exact (Prod.mk.inj hparsed).1.symm

namespace Clients

variable {args : κ → ι → CallArgs Msg} {stranger : κ → Bool} {s : Clients κ ι Msg} {k : κ}

/-- The handler was called for the call `c` of client `k`. -/
structure Executed (pb : Protobuf Msg) (typeName : Msg → String) (args : κ → ι → CallArgs Msg)
    (services : String → Option (Service Msg)) (s : Clients κ ι Msg) (k : κ) (c : ι)
    (task : Task κ Msg) : Prop where
  invoked : task ∈ s.server.invoked
  conn : task.ticket.conn = k
  requestId : task.ticket.requestId = ((s.client k).calls c).requestId
  sent : ((s.client k).calls c).pc.sent = true
  runs : (args k c).Runs pb typeName services task

end Clients

end rpc
