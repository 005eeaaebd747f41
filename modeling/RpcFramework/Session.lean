-- One channel and one server, joined by a byte stream in each direction. The
-- streams keep the order of the bytes and lose none, and they may deliver them
-- in any pieces. Every call that `on_message` completes is completed with the
-- outcome that the server computed for the request of that call.
import RpcFramework.ChannelOutcome
import RpcFramework.ChannelStream
import RpcFramework.ServerLedger

namespace rpc

open net codec runs deframe

/-- The two ends and the bytes between them. The server's end has the input buffer of its
connection, and is `decoding` while the loop of `Codec::on_message` runs. The last two fields
are the bytes of each stream that have arrived at its far end: of those that the socket of the
channel has accepted, and of those that the server's connection was handed. -/
structure Session (ι Msg : Type) where
  client : Channel ι Msg
  server : Server Unit Msg
  inputBuf : Buffer
  decoding : Bool
  toServer : Nat
  toClient : Nat

variable {ι Msg : Type} [DecidableEq ι]

namespace Session

/-! ## The steps -/

/-- The actions: those of the channel and of the server, the reads at the two ends, and one
pass of the loop of `Codec::on_message`. -/
inductive Act (ι Msg : Type)
  | client (a : rpc.Act ι)
  | clientRead (n : Nat)
  | handleRead (n : Nat)
  | decode
  | server (a : Server.Act Unit Msg)

/-- What the channel and the server do not do by themselves: bytes and frames come from the
streams only, the channel makes one connection, and the loop thread comes to its functors when
it has left the codec. -/
def allowed (s : Session ι Msg) : Act ι Msg → Bool
  | .client (.readv _ (.data _)) => false
  | .client (.socket _) => s.client.sockets = 0
  | .server (.frame _ _) => false
  | .server .swap => !s.decoding
  | _ => true

/-- The next bytes of the responses, when a read asks for `n`. -/
def nextResponses (s : Session ι Msg) (n : Nat) : Bytes :=
  ((s.server.handed ()).drop s.toClient).take n

/-- The next bytes of the requests. -/
def nextRequests (s : Session ι Msg) (n : Nat) : Bytes :=
  ((s.client.wire 0).drop s.toServer).take n

/-- The state that `force_close` stores. -/
def forceClose : ConnState → ConnState
  | .kConnected | .kDisconnecting => .kDisconnecting
  | state => state

/-- One pass of the loop of `Codec::on_message` on the server's end. -/
def decode (pb : Protobuf Msg) (services : String → Option (Service Msg)) (threads : Nat)
    (s : Session ι Msg) : Option (Session ι Msg) :=
  match pass s.inputBuf with
  | .wait => some { s with decoding := false }
  | .error _ =>
    (Server.step pb services threads s.server
      (.setState () (forceClose (s.server.connState ())))).map fun server =>
        { s with server := server, decoding := false }
  | .frame body rest =>
    (Server.step pb services threads s.server (.frame () body)).map fun server =>
      { s with server := server, inputBuf := rest }

def step (pb : Protobuf Msg) (args : ι → CallArgs Msg)
    (services : String → Option (Service Msg)) (threads : Nat) (s : Session ι Msg)
    (a : Act ι Msg) : Option (Session ι Msg) :=
  if s.allowed a then
    match a with
    | .client a =>
      ((Channel.machine pb args).step s.client a).map fun client => { s with client := client }
    | .clientRead n =>
      ((Channel.machine pb args).step s.client (.readv 0 (.data (s.nextResponses n)))).map
        fun client =>
          { s with client := client, toClient := s.toClient + (s.nextResponses n).length }
    | .handleRead n =>
      if s.decoding = false ∧ s.server.loop.functors = [] ∧ s.server.connState () ≠ .kConnecting ∧
          s.nextRequests n ≠ [] ∧ (s.nextRequests n).length ≤ s.inputBuf.iovTotal then
        some { s with
          inputBuf := s.inputBuf.readFd (s.nextRequests n)
          decoding := true
          toServer := s.toServer + (s.nextRequests n).length }
      else none
    | .decode => if s.decoding then s.decode pb services threads else none
    | .server a =>
      (Server.step pb services threads s.server a).map fun server => { s with server := server }
  else none

/-- The channel and the server as one machine. -/
def machine (pb : Protobuf Msg) (args : ι → CallArgs Msg)
    (services : String → Option (Service Msg)) (threads : Nat) :
    Machine (Session ι Msg) (Act ι Msg) where
  init :=
    { client := Channel.init args, server := Server.new, inputBuf := Buffer.new kInitialSize,
      decoding := false, toServer := 0, toClient := 0 }
  step := step pb args services threads

variable {pb : Protobuf Msg} {args : ι → CallArgs Msg}
  {services : String → Option (Service Msg)} {threads : Nat} {s s' : Session ι Msg}
  {a : Act ι Msg}

/-! ## What an action can do -/

/-- The bytes that an action reads into the buffer of the first reader. -/
def bytesRead : rpc.Act ι → Bytes
  | .readv 0 (.data bytes) => bytes
  | _ => []

/-- The actions of the two ends, each with the bytes that it reads. -/
inductive Step (pb : Protobuf Msg) (args : ι → CallArgs Msg)
    (services : String → Option (Service Msg)) (threads : Nat) (s : Session ι Msg) :
    Session ι Msg → Prop
  | client (a : rpc.Act ι) (client : Channel ι Msg) : Channel.OneConnection s.client a →
      bytesRead a <+: (s.server.handed ()).drop s.toClient →
      (Channel.machine pb args).step s.client a = some client →
      Step pb args services threads s
        { s with client := client, toClient := s.toClient + (bytesRead a).length }
  | handleRead (bytes : Bytes) : bytes <+: (s.client.wire 0).drop s.toServer →
      Step pb args services threads s
        { s with
          inputBuf := s.inputBuf.readFd bytes
          decoding := true
          toServer := s.toServer + bytes.length }
  | decoded : Step pb args services threads s { s with decoding := false }
  | frame (body : Bytes) (rest : Buffer) (server : Server Unit Msg) :
      pass s.inputBuf = .frame body rest →
      Server.step pb services threads s.server (.frame () body) = some server →
      Step pb args services threads s { s with server := server, inputBuf := rest }
  | server (a : Server.Act Unit Msg) (server : Server Unit Msg) (decoding : Bool) :
      (∀ k bytes, a ≠ .frame k bytes) →
      Server.step pb services threads s.server a = some server →
      Step pb args services threads s { s with server := server, decoding := decoding }

theorem step_cases (hs : step pb args services threads s a = some s') :
    Step pb args services threads s s' := by
  unfold step at hs
  split at hs
  · rename_i hallow
    cases a with
    | client a =>
      obtain ⟨client, hclient, rfl⟩ := Option.map_eq_some_iff.mp hs
      have hnone : bytesRead a = [] := by
        unfold bytesRead
        split
        · simp [allowed] at hallow
        · rfl
      have hone : Channel.OneConnection s.client a := by
        unfold Channel.OneConnection
        split
        · simpa [allowed] using hallow
        · trivial
      have hstep : Step pb args services threads s _ :=
        .client a client hone (by simp [hnone]) hclient
      simpa [hnone] using hstep
    | clientRead n =>
      obtain ⟨client, hclient, rfl⟩ := Option.map_eq_some_iff.mp hs
      exact .client (.readv 0 (.data (s.nextResponses n))) client trivial
        (List.take_prefix n _) hclient
    | handleRead n =>
      dsimp only at hs
      split at hs
      · cases hs
        exact .handleRead (s.nextRequests n) (List.take_prefix n _)
      · cases hs
    | decode =>
      dsimp only at hs
      split at hs
      · unfold decode at hs
        split at hs
        · cases hs
          exact .decoded
        · obtain ⟨server, hserver, rfl⟩ := Option.map_eq_some_iff.mp hs
          exact .server _ server false (by simp) hserver
        · obtain ⟨server, hserver, rfl⟩ := Option.map_eq_some_iff.mp hs
          exact .frame _ _ server ‹_› hserver
      · cases hs
    | server a =>
      obtain ⟨server, hserver, rfl⟩ := Option.map_eq_some_iff.mp hs
      refine .server a server s.decoding ?_ hserver
      rintro k bytes rfl
      simp [allowed] at hallow
  · cases hs

/-- The channel runs as it does alone, with one connection. -/
theorem client_reach (h : (machine pb args services threads).Reach s) :
    (Channel.machine pb args).ReachUnder Channel.OneConnection s.client := by
  refine h.invariant (I := fun s => (Channel.machine pb args).ReachUnder Channel.OneConnection
    s.client) .init ?_
  intro s a s' _ hi hs
  cases step_cases hs with
  | client a client hone _ hclient => exact hi.step hone hclient
  | _ => exact hi

/-- The server runs as it does alone. -/
theorem server_reach (h : (machine pb args services threads).Reach s) :
    (Server.machine pb services threads).Reach s.server := by
  refine h.invariant (I := fun s => (Server.machine pb services threads).Reach s.server) .init ?_
  intro s a s' _ hi hs
  cases step_cases hs with
  | frame body rest server _ hserver => exact hi.step (a := .frame () body) hserver
  | server a server decoding _ hserver => exact hi.step (a := a) hserver
  | _ => exact hi

/-! ## The stream of the requests -/

/-- The server has read a part of the requests, and has received those whose frames were
complete. -/
def RequestsRead (pb : Protobuf Msg) (s : Session ι Msg) : Prop :=
  ∃ fs, Cut sendRaw (Fits (some kMaxBodySize)) (s.client.wire 0) s.toServer fs s.inputBuf.peek ∧
    s.server.received.map (·.2) = fs.filterMap pb.parseRequest

theorem requestsRead_reach (h : (machine pb args services threads).Reach s) :
    RequestsRead pb s := by
  refine h.invariant (I := RequestsRead pb) ?_ ?_
  · exact ⟨[], by simpa [machine] using Cut.start _, rfl⟩
  · rintro s a s' _ ⟨fs, hcut, hrec⟩ hs
    cases step_cases hs with
    | client a client _ _ hclient =>
      exact ⟨fs, hcut.grow (Channel.wire_grows hclient 0), hrec⟩
    | handleRead bytes hbytes =>
      refine ⟨fs, ?_, hrec⟩
      rw [Buffer.peek_readFd]
      exact hcut.read hbytes
    | decoded => exact ⟨fs, hcut, hrec⟩
    | frame body rest server hpass hserver =>
      have hspec := pass_spec s.inputBuf
      rw [hpass] at hspec
      refine ⟨fs ++ [body], ?_, ?_⟩
      · rw [hspec.2]
        exact hcut.frame (deframer_code (some kMaxBodySize)) hspec.1
      · rw [(Server.added_step hserver).received, hrec, List.filterMap_append]
        cases hparse : pb.parseRequest body <;> simp [hparse]
    | server a server decoding hframe hserver =>
      refine ⟨fs, hcut, ?_⟩
      rw [(Server.added_step hserver).received, hrec]
      cases a with
      | frame k bytes => exact absurd rfl (hframe k bytes)
      | _ => simp

/-! ## The stream of the responses -/

/-- What the channel has made of the frames `gs`: its reader is at one of them, and the calls
that have a response have it from one of them. -/
structure Heard (pb : Protobuf Msg) (gs : List Bytes) (client : Channel ι Msg) : Prop where
  absent : (client.readers 0).pc = .absent → (client.readers 0).buf.peek = []
  message : ∀ f, (client.readers 0).pc = .message f → f ∈ gs
  response : ∀ c resp, (client.calls c).stage.response = some resp →
    resp.requestId = (client.calls c).requestId ∧ ∃ f ∈ gs, pb.parseResponse f = some resp

/-- The channel has read a part of the responses. -/
def ResponsesRead (pb : Protobuf Msg) (s : Session ι Msg) : Prop :=
  ∃ gs, Cut sendRaw (Fits none) (s.server.handed ()) s.toClient gs
      (s.client.readers 0).buf.peek ∧ Heard pb gs s.client

/-- The reader reads on, or gives the next frame. -/
theorem reader_step {client client' : Channel ι Msg} {a : rpc.Act ι} {stream : Bytes} {n : Nat}
    {gs : List Bytes} (hr : (Channel.machine pb args).Reach client)
    (hs : (Channel.machine pb args).step client a = some client')
    (hbytes : bytesRead a <+: stream.drop n)
    (hcut : Cut sendRaw (Fits none) stream n gs (client.readers 0).buf.peek)
    (hheard : Heard pb gs client) :
    ∃ more, Cut sendRaw (Fits none) stream (n + (bytesRead a).length) (gs ++ more)
        (client'.readers 0).buf.peek ∧
      ((client'.readers 0).pc = .absent → (client'.readers 0).buf.peek = []) ∧
      ∀ f, (client'.readers 0).pc = .message f → f ∈ gs ++ more := by
  by_cases hdata : ∃ bytes, a = .readv 0 (.data bytes)
  · obtain ⟨bytes, rfl⟩ := hdata
    obtain ⟨-, rfl⟩ := Channel.step_iff.mp hs
    refine ⟨[], ?_, ?_, ?_⟩
    · rw [List.append_nil]
      simpa [Channel.effect, Buffer.peek_readFd, bytesRead] using hcut.read hbytes
    · simp [Channel.effect]
    · simp [Channel.effect]
  · have hnone : bytesRead a = [] := by
      unfold bytesRead
      split
      · exact absurd ⟨_, rfl⟩ hdata
      · rfl
    have hstep := Channel.readers_step hs 0
    generalize client'.readers 0 = x at hstep
    rw [hnone, List.length_nil, Nat.add_zero]
    cases hstep with
    | same => exact ⟨[], by simpa using hcut, hheard.absent, by simpa using hheard.message⟩
    | start hown =>
      -- the buffer of a reader that has not begun is as empty as the one it begins with
      have hempty := hheard.absent ((Channel.opened_reach hr).connecting 0 hown).2
      rw [hempty] at hcut
      exact ⟨[], by simpa using hcut, by simp, by simp⟩
    | data bytes hpc => exact absurd ⟨bytes, rfl⟩ hdata
    | frame body rest hpc hpass =>
      have hspec := RpcChannel.readerPass_spec (client.readers 0).buf
      rw [hpass] at hspec
      refine ⟨[body], ?_, by simp, by simp⟩
      rw [hspec.2]
      exact hcut.frame (deframer_code none) hspec.1
    | _ => exact ⟨[], by simpa using hcut, by simp, by simp⟩

theorem heard_step {client client' : Channel ι Msg} {a : rpc.Act ι} {stream : Bytes} {n : Nat}
    {gs : List Bytes} (hr : (Channel.machine pb args).ReachUnder Channel.OneConnection client)
    (hs : (Channel.machine pb args).step client a = some client')
    (hbytes : bytesRead a <+: stream.drop n)
    (hcut : Cut sendRaw (Fits none) stream n gs (client.readers 0).buf.peek)
    (hheard : Heard pb gs client) :
    ∃ gs', Cut sendRaw (Fits none) stream (n + (bytesRead a).length) gs'
        (client'.readers 0).buf.peek ∧ Heard pb gs' client' := by
  obtain ⟨more, hcut', habsent, hmessage⟩ := reader_step hr.reach hs hbytes hcut hheard
  refine ⟨gs ++ more, hcut', habsent, hmessage, ?_⟩
  intro c resp hc
  obtain ⟨hid, hold | ⟨r, body, rfl, hbody, hparse, hresp⟩⟩ :=
    Channel.response_step hr.reach hs hc
  · obtain ⟨hresp, f, hf, hparse⟩ := hheard.response c resp hold
    exact ⟨by rw [hid]; exact hresp, f, List.mem_append_left _ hf, hparse⟩
  · have hr0 : r = 0 := Channel.only_reader hr (by simp [hbody])
    rw [hr0] at hbody
    exact ⟨by rw [hid]; exact hresp, body, List.mem_append_left _ (hheard.message body hbody),
      hparse⟩

theorem responsesRead_reach (h : (machine pb args services threads).Reach s) :
    ResponsesRead pb s := by
  refine h.invariant (I := ResponsesRead pb) ?_ ?_
  · refine ⟨[], by simpa [machine, Channel.init] using Cut.start _, ?_, ?_, ?_⟩
    · simp [machine, Channel.init]
    · simp [machine, Channel.init]
    · simp [machine, Channel.init, Stage.response]
  · rintro s a s' hr ⟨gs, hcut, hheard⟩ hs
    cases step_cases hs with
    | client a client _ hbytes hclient =>
      exact heard_step (client_reach hr) hclient hbytes hcut hheard
    | handleRead bytes _ => exact ⟨gs, hcut, hheard⟩
    | decoded => exact ⟨gs, hcut, hheard⟩
    | frame body rest server _ hserver =>
      exact ⟨gs, hcut.grow ((Server.added_step hserver).handed ()), hheard⟩
    | server a server decoding _ hserver =>
      exact ⟨gs, hcut.grow ((Server.added_step hserver).handed ()), hheard⟩

/-! ## What the agreement rests on -/

/-- What is assumed of a run: messages are read back, every `::write` that did not fail took
all its bytes, and no body is too large. A handler fills the response object that it was given,
and the caller's response object has the type that the method gives. -/
structure Assumptions (pb : Protobuf Msg) (typeName : Msg → String) (args : ι → CallArgs Msg)
    (services : String → Option (Service Msg)) (s : Session ι Msg) : Prop where
  roundTrips : pb.RoundTrips typeName
  complete : ∀ w ∈ s.client.writes, ∀ n, w.count = some n → n = w.frame.length
  requests : ∀ w ∈ s.client.writes, ∃ b, b.length ≤ kMaxBodySize ∧
    pb.serializeRequest (rpcRequest pb (args w.call) (s.client.calls w.call).requestId) = some b
  arguments : ∀ c, ∃ b, pb.serialize (args c).request = some b
  responses : ∀ a ∈ s.server.answered, ∀ b, pb.serializeResponse a.response = some b →
    b.length ≤ kMaxBodySize
  results : ∀ o ∈ s.server.outcomes, ∃ b, pb.serialize o.2.2 = some b
  filled : ∀ task ∈ s.server.invoked, ∀ o ∈ s.server.outcomes, o.1 = task.ticket →
    typeName o.2.2 = typeName task.method.responsePrototype
  stubs : ∀ c service method, services (args c).service = some service →
    service.findMethodByName (args c).method = some method →
    typeName (args c).response = typeName method.responsePrototype

variable {typeName : Msg → String}

/-! ## The requests that the server has received -/

/-- The requests of the calls that have written, in the order of `conn_mu_`. -/
def requestsSent (pb : Protobuf Msg) (args : ι → CallArgs Msg) (client : Channel ι Msg) :
    List RpcRequest :=
  (client.sentOn 0).map fun w => rpcRequest pb (args w.call) (client.calls w.call).requestId

/-- The bodies of these requests, as they stand on the wire. -/
def requestBodies (pb : Protobuf Msg) (args : ι → CallArgs Msg) (client : Channel ι Msg) :
    List Bytes :=
  (requestsSent pb args client).map fun r => (pb.serializeRequest r).getD []

/-- When every write took all its bytes and no body is too large, the wire is the code of the
requests, and they are read back from it. -/
theorem requests_wire (h : (machine pb args services threads).Reach s)
    (hround : pb.RoundTrips typeName)
    (hwhole : ∀ w ∈ s.client.writes, ∀ n, w.count = some n → n = w.frame.length)
    (hrequests : ∀ w ∈ s.client.writes, ∃ b, b.length ≤ kMaxBodySize ∧
      pb.serializeRequest (rpcRequest pb (args w.call) (s.client.calls w.call).requestId) = some b) :
    s.client.wire 0 = ((requestBodies pb args s.client).map sendRaw).flatten ∧
      (∀ f ∈ requestBodies pb args s.client, Fits (some kMaxBodySize) f) ∧
      (requestBodies pb args s.client).filterMap pb.parseRequest =
        requestsSent pb args s.client := by
  have hser : ∀ r ∈ requestsSent pb args s.client, ∃ b, b.length ≤ kMaxBodySize ∧
      pb.serializeRequest r = some b := by
    intro r hr
    obtain ⟨w, hw, rfl⟩ := List.mem_map.mp hr
    exact hrequests w (List.mem_of_mem_filter hw)
  refine ⟨?_, ?_, ?_⟩
  · rw [Channel.wire_whole (client_reach h).reach fun w hw _ => hwhole w hw,
      Channel.wholeFrames, requestBodies, requestsSent, List.flatMap]
    simp [callFrame, requestBody, wireBytes_eq_sendRaw, Function.comp_def]
  · intro f hf
    obtain ⟨r, hr, rfl⟩ := List.mem_map.mp hf
    obtain ⟨b, hb, heq⟩ := hser r hr
    rw [heq]
    exact ⟨Nat.lt_of_le_of_lt hb (by decide), by simpa using hb⟩
  · rw [requestBodies, List.filterMap_map]
    refine (List.filterMap_congr ?_).trans List.filterMap_some
    intro r hr
    obtain ⟨b, -, heq⟩ := hser r hr
    simp [heq, hround.request r b heq]

/-- The server has received the first of the requests that were sent, each of them once. -/
theorem received_front (h : (machine pb args services threads).Reach s)
    (ha : Assumptions pb typeName args services s) :
    s.server.received.map (·.2) <+: requestsSent pb args s.client := by
  obtain ⟨fs, hcut, hrec⟩ := requestsRead_reach h
  obtain ⟨hwire, hfits, hparse⟩ := requests_wire h ha.roundTrips ha.complete ha.requests
  rw [hrec, ← hparse]
  exact (hcut.front (deframer_code _) hfits hwire).filterMap _

/-- The write of a call whose request was sent did not fail, so the call has its id. -/
theorem sent_pc {client : Channel ι Msg} (hr : (Channel.machine pb args).Reach client)
    {w : Write ι} (hw : w ∈ client.sentOn 0) :
    (client.calls w.call).pc.sent = true ∧ (client.calls w.call).pc.hasId = true := by
  obtain ⟨hmem, hcond⟩ := List.mem_filter.mp hw
  rcases ((Channel.stream_reach hr).logged w hmem).pc with hsent | hrep
  · refine ⟨hsent, ?_⟩
    cases hpc : (client.calls w.call).pc <;> simp_all [CallPc.sent, CallPc.hasId]
  · simp [hrep] at hcond

/-- No two requests that were received have the same id. -/
theorem received_ids_nodup [Fintype ι] (hfew : Fintype.card ι < 2 ^ 32)
    (h : (machine pb args services threads).Reach s)
    (ha : Assumptions pb typeName args services s) :
    (s.server.received.map (·.2.requestId)).Nodup := by
  have hclient := (client_reach h).reach
  have hcalls : ((s.client.sentOn 0).map (·.call)).Nodup :=
    (Channel.writes_once hclient).sublist (List.filter_sublist.map _)
  have hids : ((requestsSent pb args s.client).map (·.requestId)).Nodup := by
    have heq : (requestsSent pb args s.client).map (·.requestId) =
        ((s.client.sentOn 0).map (·.call)).map fun c => (s.client.calls c).requestId := by
      simp [requestsSent, rpcRequest, Function.comp_def]
    rw [heq]
    refine hcalls.map_on ?_
    intro c hc d hd hcd
    obtain ⟨w, hw, rfl⟩ := List.mem_map.mp hc
    obtain ⟨v, hv, rfl⟩ := List.mem_map.mp hd
    exact Channel.ids_differ hfew hclient (sent_pc hclient hw).2 (sent_pc hclient hv).2 hcd
  have hfront := (received_front h ha).map (·.requestId)
  rw [List.map_map] at hfront
  exact hids.sublist hfront.sublist

/-! ## The responses that the channel has read -/

/-- The bodies of the answers, as they stand on the wire. -/
def answerBodies (pb : Protobuf Msg) (server : Server Unit Msg) : List Bytes :=
  (Server.answersOn server ()).map fun a => (pb.serializeResponse a.response).getD []

omit [DecidableEq ι] in
/-- When no body is too large, what the connection was handed is the code of the answers, and
they are read back from it. -/
theorem answers_wire {server : Server Unit Msg}
    (h : (Server.machine pb services threads).Reach server) (hround : pb.RoundTrips typeName)
    (hresponses : ∀ a ∈ server.answered, ∀ b, pb.serializeResponse a.response = some b →
      b.length ≤ kMaxBodySize) :
    server.handed () = ((answerBodies pb server).map sendRaw).flatten ∧
      (∀ f ∈ answerBodies pb server, Fits none f) ∧
      ∀ f ∈ answerBodies pb server, ∃ a ∈ server.answered, pb.parseResponse f = some a.response := by
  have hcontent := (Server.sound_reach h).content
  have hanswer : ∀ a ∈ Server.answersOn server (), a ∈ server.answered := fun a h =>
    List.mem_of_mem_filter h
  refine ⟨?_, ?_, ?_⟩
  · rw [Server.handed_reach h (), answerBodies, List.flatMap, List.map_map]
    rfl
  · intro f hf
    obtain ⟨a, hmem, rfl⟩ := List.mem_map.mp hf
    obtain ⟨-, -, b, heq⟩ := hcontent.answered a (hanswer a hmem)
    rw [heq]
    exact ⟨Nat.lt_of_le_of_lt (hresponses a (hanswer a hmem) b heq) (by decide), by simp⟩
  · intro f hf
    obtain ⟨a, hmem, rfl⟩ := List.mem_map.mp hf
    obtain ⟨-, -, b, heq⟩ := hcontent.answered a (hanswer a hmem)
    refine ⟨a, hanswer a hmem, ?_⟩
    rw [heq]
    exact hround.response _ b heq

/-- Each response that a call has was an answer of the server. -/
theorem response_answered (h : (machine pb args services threads).Reach s)
    (ha : Assumptions pb typeName args services s) {c : ι} {resp : RpcResponse}
    (hc : (s.client.calls c).stage.response = some resp) :
    resp.requestId = (s.client.calls c).requestId ∧
      ∃ a ∈ s.server.answered, a.response = resp := by
  obtain ⟨gs, hcut, hheard⟩ := responsesRead_reach h
  obtain ⟨hid, f, hf, hparse⟩ := hheard.response c resp hc
  refine ⟨hid, ?_⟩
  obtain ⟨hwire, hfits, hread⟩ := answers_wire (server_reach h) ha.roundTrips ha.responses
  obtain ⟨a, hans, hparsed⟩ := hread f ((hcut.front (deframer_code none) hfits hwire).subset hf)
  rw [hparse] at hparsed
  exact ⟨a, hans, (Option.some.inj hparsed).symm⟩

/-! ## The law -/

/-- The handler was called for a request, with the service, the method and the arguments of the
call. The arguments are the caller's own message when the method takes messages of its type. -/
structure Dispatched (pb : Protobuf Msg) (typeName : Msg → String)
    (services : String → Option (Service Msg)) (a : CallArgs Msg) (server : Server Unit Msg)
    (ticket : Ticket Unit) (task : Task Unit Msg) : Prop where
  invoked : task ∈ server.invoked
  ticket : task.ticket = ticket
  service : services a.service = some task.service
  method : task.service.findMethodByName a.method = some task.method
  parsed : pb.parse task.method.requestPrototype ((pb.serialize a.request).getD []) =
    (task.request, true)
  request : typeName task.method.requestPrototype = typeName a.request → task.request = a.request

/-- The outcome that the server computed for a request, as a controller and a response object
of its caller. -/
inductive Outcome (pb : Protobuf Msg) (typeName : Msg → String)
    (services : String → Option (Service Msg)) (a : CallArgs Msg) (server : Server Unit Msg)
    (ticket : Ticket Unit) : RpcController → Msg → Prop
  | serviceNotFound : services a.service = none →
      Outcome pb typeName services a server ticket
        (a.controller.setFailed ("service not found: " ++ a.service)) a.response
  | methodNotFound (service : Service Msg) : services a.service = some service →
      service.findMethodByName a.method = none →
      Outcome pb typeName services a server ticket
        (a.controller.setFailed ("method not found: " ++ a.method)) a.response
  | badArguments (service : Service Msg) (method : Method Msg) :
      services a.service = some service → service.findMethodByName a.method = some method →
      (pb.parse method.requestPrototype ((pb.serialize a.request).getD [])).2 = false →
      Outcome pb typeName services a server ticket
        (a.controller.setFailed "failed to parse request args") a.response
  | failed (task : Task Unit Msg) (controller : RpcController) (response : Msg) :
      Dispatched pb typeName services a server ticket task →
      (ticket, controller, response) ∈ server.outcomes → controller.failed = true →
      Outcome pb typeName services a server ticket
        (a.controller.setFailed controller.errText) a.response
  | succeeded (task : Task Unit Msg) (controller : RpcController) (response : Msg) :
      Dispatched pb typeName services a server ticket task →
      (ticket, controller, response) ∈ server.outcomes → controller.failed = false →
      Outcome pb typeName services a server ticket a.controller response

/-- The reply of `on_frame` is what the caller of an unknown service or method, or of arguments
that do not parse, gets. -/
theorem outcome_reply (s : Server Unit Msg) (ticket : Ticket Unit) {a : CallArgs Msg}
    {id : UInt32} {resp : RpcResponse}
    (h : onRequest pb services (rpcRequest pb a id) = .reply resp) :
    Outcome pb typeName services a s ticket (outcomeOf pb a resp).1 (outcomeOf pb a resp).2 := by
  unfold onRequest rpcRequest at h
  dsimp only at h
  split at h
  · cases h
    exact .serviceNotFound ‹_›
  · split at h
    · cases h
      exact .methodNotFound _ ‹_› ‹_›
    · split at h
      · cases h
      · cases h
        exact .badArguments _ _ ‹_› ‹_› (by simpa using ‹¬ _ = true›)

/-- The handler was called with what the call passed. -/
theorem dispatched_of_invoked (h : (machine pb args services threads).Reach s)
    (ha : Assumptions pb typeName args services s) {c : ι} {id : UInt32} {ticket : Ticket Unit}
    (hrec : (ticket, rpcRequest pb (args c) id) ∈ s.server.received)
    (hinv : ticket ∈ s.server.invoked.map (·.ticket)) :
    ∃ task, Dispatched pb typeName services (args c) s.server ticket task := by
  obtain ⟨task, htask, rfl⟩ := List.mem_map.mp hinv
  obtain ⟨req, hreq, hsub⟩ := Server.invoked_submitted (server_reach h) task htask
  rw [(Server.sound_reach (server_reach h)).ledger.request_unique hreq hrec] at hsub
  obtain ⟨hservice, hmethod, hparsed⟩ := Server.onRequest_submit_iff.mp hsub
  refine ⟨task, htask, rfl, hservice, hmethod, hparsed, ?_⟩
  intro htype
  obtain ⟨b, hb⟩ := ha.arguments c
  have hread := ha.roundTrips.message (args c).request _ b htype hb
  simp only [rpcRequest, hb, Option.getD_some, hread] at hparsed
  exact (Prod.mk.inj hparsed).1.symm

omit [DecidableEq ι] in
/-- The response to an outcome that a handler gave is what the caller gets. -/
theorem outcome_dispatch (ha : Assumptions pb typeName args services s) {c : ι}
    {ticket : Ticket Unit} {task : Task Unit Msg} {controller : RpcController} {response : Msg}
    (hd : Dispatched pb typeName services (args c) s.server ticket task)
    (hout : (ticket, controller, response) ∈ s.server.outcomes) {resp : RpcResponse}
    (hresp : resp = dispatchResponse pb ticket.requestId controller response) :
    Outcome pb typeName services (args c) s.server ticket (outcomeOf pb (args c) resp).1
      (outcomeOf pb (args c) resp).2 := by
  unfold dispatchResponse at hresp
  split at hresp
  · rename_i hfailed
    subst hresp
    exact .failed task controller response hd hout hfailed
  · rename_i hok
    subst hresp
    obtain ⟨b, hb⟩ := ha.results _ hout
    have htype : typeName (args c).response = typeName response := by
      rw [ha.stubs c task.service task.method hd.service hd.method,
        ha.filled task hd.invoked _ hout hd.ticket.symm]
    have hread := ha.roundTrips.message response (args c).response b htype hb
    simp only [outcomeOf, hb, Option.getD_some, hread, if_true]
    exact .succeeded task controller response hd hout (by simpa using hok)

/-- A call that has a response has its id. -/
theorem response_hasId {client : Channel ι Msg} (hr : (Channel.machine pb args).Reach client)
    {c : ι} {resp : RpcResponse} (hc : (client.calls c).stage.response = some resp) :
    (client.calls c).pc.hasId = true := by
  by_contra hnone
  have hpc : (client.calls c).pc.stored = false ∧ (client.calls c).pc ≠ .failed := by
    cases hpc : (client.calls c).pc <;> simp_all [CallPc.hasId, CallPc.stored]
  rw [((Channel.good_reach hr).fresh c hpc.1 hpc.2).1] at hc
  cases hc

/-- The response of a call was computed for the request of that call. -/
theorem response_computed [Fintype ι] (hfew : Fintype.card ι < 2 ^ 32)
    (h : (machine pb args services threads).Reach s)
    (ha : Assumptions pb typeName args services s) {c : ι} {resp : RpcResponse}
    (hc : (s.client.calls c).stage.response = some resp) :
    (s.client.calls c).pc.sent = true ∧
      ∃ ticket, (ticket, rpcRequest pb (args c) (s.client.calls c).requestId) ∈ s.server.received ∧
        Server.Computed pb services s.server ticket resp := by
  have hclient := (client_reach h).reach
  obtain ⟨hledger, hcontent⟩ := Server.sound_reach (server_reach h)
  obtain ⟨hid, answer, hans, rfl⟩ := response_answered h ha hc
  have hcomputed := (hcontent.answered answer hans).1
  have hticket := hcomputed.requestId hledger
  have hown := hcomputed
  obtain ⟨req, hreq, -⟩ := hcomputed
  have hsent : req ∈ requestsSent pb args s.client :=
    (received_front h ha).subset (List.mem_map.mpr ⟨_, hreq, rfl⟩)
  obtain ⟨w, hw, hreqw⟩ := List.mem_map.mp hsent
  -- the request with the id of the response is the one that the call itself has sent
  have hcall : w.call = c := by
    refine Channel.ids_differ hfew hclient (sent_pc hclient hw).2 (response_hasId hclient hc) ?_
    rw [← hid, hticket, (hledger.named _ hreq).1, ← hreqw]
    rfl
  subst hcall
  rw [← hreqw] at hreq
  exact ⟨(sent_pc hclient hw).1, answer.ticket, hreq, hown⟩

/-- What the server computed for the request of a call is what the caller gets. -/
theorem outcome_of_computed (h : (machine pb args services threads).Reach s)
    (ha : Assumptions pb typeName args services s) {c : ι} {id : UInt32} {ticket : Ticket Unit}
    {resp : RpcResponse} (hrec : (ticket, rpcRequest pb (args c) id) ∈ s.server.received)
    (hcomp : Server.Computed pb services s.server ticket resp) :
    Outcome pb typeName services (args c) s.server ticket (outcomeOf pb (args c) resp).1
      (outcomeOf pb (args c) resp).2 := by
  have hledger := (Server.sound_reach (server_reach h)).ledger
  obtain ⟨req, hreq, hcomp⟩ := hcomp
  rw [hledger.request_unique hreq hrec] at hcomp
  rcases hcomp with hrep | ⟨_, _, _, controller, response, -, hout, hresp⟩
  · exact outcome_reply s.server ticket hrep
  · obtain ⟨task, htask⟩ := dispatched_of_invoked h ha hrec (hledger.outcomes _ hout)
    exact outcome_dispatch ha htask hout hresp

/-- A call that `on_message` has completed has the outcome that the server computed for the
request of that call: the server received this request once, no other call has its id, and the
controller and the response object are as the outcome says. -/
theorem each_call_gets_its_own_outcome [Fintype ι] (hfew : Fintype.card ι < 2 ^ 32)
    (h : (machine pb args services threads).Reach s)
    (ha : Assumptions pb typeName args services s) {c : ι} {resp : RpcResponse}
    (hc : (s.client.calls c).stage = .flagged resp ∨ (s.client.calls c).stage = .finished resp) :
    ∃ ticket, (ticket, rpcRequest pb (args c) (s.client.calls c).requestId) ∈ s.server.received ∧
      (∀ p ∈ s.server.received, p.2.requestId = (s.client.calls c).requestId → p.1 = ticket) ∧
      (∀ d, (s.client.calls d).pc.hasId = true →
        (s.client.calls d).requestId = (s.client.calls c).requestId → d = c) ∧
      Outcome pb typeName services (args c) s.server ticket (s.client.calls c).controller
        (s.client.calls c).response := by
  have hclient := client_reach h
  have hresponse : (s.client.calls c).stage.response = some resp := by
    rcases hc with hc | hc <;> rw [hc] <;> rfl
  obtain ⟨hsent, ticket, hrec, hcomp⟩ := response_computed hfew h ha hresponse
  refine ⟨ticket, hrec, ?_, ?_, ?_⟩
  · intro p hp hpid
    exact congrArg Prod.fst
      (List.inj_on_of_nodup_map (received_ids_nodup hfew h ha) hp hrec hpid)
  · intro d hd hdid
    exact Channel.ids_differ hfew hclient.reach hd (response_hasId hclient.reach hresponse) hdid
  · have hdelivered := Channel.delivered_reach hclient c
      (by intro hpc; simp [hpc, CallPc.sent] at hsent)
      (by intro hpc; simp [hpc, CallPc.sent] at hsent)
    have houtcome : ((s.client.calls c).controller, (s.client.calls c).response) =
        outcomeOf pb (args c) resp := by
      rcases hc with hc | hc
      · rw [hc] at hdelivered
        exact hdelivered
      · rw [hc] at hdelivered
        exact hdelivered
    obtain ⟨hcontroller, hobject⟩ := Prod.ext_iff.mp houtcome
    dsimp only at hcontroller hobject
    rw [hcontroller, hobject]
    exact outcome_of_computed h ha hrec hcomp

/-! ## Two calls of the hello client -/

/-- The second call asks for a method that the hello service does not have. -/
def helloCalls (c : Fin 2) : CallArgs Hello :=
  if c = 0 then sayHello false else { sayHello true with method := "SayNothing" }

/-- The second call writes first, and its answer comes first. The streams are cut inside a
header and inside a body. -/
def helloRun : List (Act (Fin 2) Hello) :=
  [.client (.socket true), .client (.connect true), .client (.enter 0), .client (.check 0),
    .client (.draw 0), .client (.enter 1), .client (.check 1), .client (.draw 1),
    .client (.insert 1), .client (.insert 0),
    .client (.write 1 (some (callFrame helloProto (helloCalls 1) 2).length)),
    .client (.write 0 (some (callFrame helloProto (helloCalls 0) 1).length)),
    .server (.setState () .kConnected), .handleRead 5, .decode, .handleRead 70, .decode, .decode,
    .handleRead 100, .decode, .decode, .server .take, .server (.call 0),
    .server (.finish 0 .new (.helloResponse "Hello, World!")), .server (.respond 0),
    .server .swap, .server .functor, .client (.loopHead 0), .clientRead 20, .client (.parse 0),
    .client (.loopHead 0), .clientRead 100, .client (.parse 0), .client (.take 0),
    .client (.apply 0), .client (.flag 0), .client (.runDone 0), .client (.parse 0),
    .client (.take 0), .client (.apply 0), .client (.flag 0), .client (.runDone 0)]

/-- Every method of the hello server gives a `HelloResponse`. -/
theorem helloServices_response {name method : String} {service : Service Hello} {m : Method Hello}
    (hs : helloServices name = some service) (hm : service.findMethodByName method = some m) :
    m.responsePrototype.typeName = "example.HelloResponse" := by
  unfold helloServices at hs
  split at hs
  · cases hs
    unfold helloService at hm
    dsimp only at hm
    split at hm
    · cases hm
      rfl
    · cases hm
  · cases hs

theorem hello_assumptions {s : Session (Fin 2) Hello}
    (hwrites : ∀ w ∈ s.client.writes, w.count = some w.frame.length)
    (hrequests : ∀ w ∈ s.client.writes, (helloProto.serializeRequest (rpcRequest helloProto
      (helloCalls w.call) (s.client.calls w.call).requestId)).any (·.length ≤ kMaxBodySize) = true)
    (hanswers : ∀ a ∈ s.server.answered,
      (helloProto.serializeResponse a.response).all (·.length ≤ kMaxBodySize) = true)
    (hresults : ∀ o ∈ s.server.outcomes, (helloProto.serialize o.2.2).isSome = true)
    (htypes : ∀ o ∈ s.server.outcomes, o.2.2.typeName = "example.HelloResponse")
    (hmethods : ∀ task ∈ s.server.invoked,
      task.method.responsePrototype.typeName = "example.HelloResponse") :
    Assumptions helloProto Hello.typeName helloCalls helloServices s := by
  have harguments : ∀ c, (helloProto.serialize (helloCalls c).request).isSome = true := by
    decide +kernel
  have hobjects : ∀ c, (helloCalls c).response.typeName = "example.HelloResponse" := by
    decide +kernel
  refine ⟨helloProto_roundTrips, ?_, ?_, ?_, ?_, ?_, ?_, ?_⟩
  · intro w hw n hn
    rw [hwrites w hw] at hn
    exact (Option.some.inj hn).symm
  · intro w hw
    obtain ⟨b, hb, hle⟩ := (Option.any_eq_true _ _).mp (hrequests w hw)
    exact ⟨b, of_decide_eq_true hle, hb⟩
  · intro c
    exact Option.isSome_iff_exists.mp (harguments c)
  · intro a ha b hb
    have hall := hanswers a ha
    rw [hb] at hall
    exact of_decide_eq_true hall
  · intro o ho
    exact Option.isSome_iff_exists.mp (hresults o ho)
  · intro task htask o ho _
    rw [htypes o ho, hmethods task htask]
  · intro c service method hs hm
    rw [helloServices_response hs hm, hobjects c]

theorem two_hello_calls_get_their_own_outcomes :
    ∃ s : Session (Fin 2) Hello, (machine helloProto helloCalls helloServices 1).Reach s ∧
      s.server.received.map (·.2.requestId) = [2, 1] ∧
      ∀ c, ∃ ticket, Outcome helloProto Hello.typeName helloServices (helloCalls c) s.server ticket
        (s.client.calls c).controller (s.client.calls c).response := by
  obtain ⟨s, h, hrec, hstages, h1, h2, h3, h4, h5, h6⟩ : ∃ s : Session (Fin 2) Hello,
      (machine helloProto helloCalls helloServices 1).Reach s ∧
      s.server.received.map (·.2.requestId) = [2, 1] ∧
      (∀ c, (s.client.calls c).stage = .finished
        ((s.client.calls c).stage.response.getD (failure 0 ""))) ∧
      (∀ w ∈ s.client.writes, w.count = some w.frame.length) ∧
      (∀ w ∈ s.client.writes, (helloProto.serializeRequest (rpcRequest helloProto
        (helloCalls w.call) (s.client.calls w.call).requestId)).any
          (·.length ≤ kMaxBodySize) = true) ∧
      (∀ a ∈ s.server.answered,
        (helloProto.serializeResponse a.response).all (·.length ≤ kMaxBodySize) = true) ∧
      (∀ o ∈ s.server.outcomes, (helloProto.serialize o.2.2).isSome = true) ∧
      (∀ o ∈ s.server.outcomes, o.2.2.typeName = "example.HelloResponse") ∧
      (∀ task ∈ s.server.invoked,
        task.method.responsePrototype.typeName = "example.HelloResponse") :=
    Machine.ReachUnder.of_run helloRun (by decide +kernel)
  refine ⟨s, h, hrec, ?_⟩
  intro c
  obtain ⟨ticket, -, -, -, hout⟩ := each_call_gets_its_own_outcome (by decide) h
    (hello_assumptions h1 h2 h3 h4 h5 h6) (Or.inr (hstages c))
  exact ⟨ticket, hout⟩

end Session

end rpc
