-- One channel and one server when nothing fails. The streams are never bad, no
-- whole frame is left in a buffer, and every response that comes in is taken for
-- the call that it is for.
import RpcFramework.ServerProgress
import RpcFramework.Session
import RpcFramework.SmoothRuns

namespace rpc.Session

open net codec runs deframe

variable {ι Msg : Type} [DecidableEq ι]

/-! ## What the two ends keep to -/

/-- What does not depend on the run: messages are read back, the requests of the calls and the
replies to them can be sent, the caller's response object has the type that the method gives,
and each handler that a call asks for has an outcome to give. -/
structure Terms (pb : Protobuf Msg) (typeName : Msg → String) (args : ι → CallArgs Msg)
    (services : String → Option (Service Msg)) : Prop where
  roundTrips : pb.RoundTrips typeName
  requests : ∀ c id, ∃ b, b.length ≤ kMaxBodySize ∧
    pb.serializeRequest (rpcRequest pb (args c) id) = some b
  arguments : ∀ c, ∃ b, pb.serialize (args c).request = some b
  replies : ∀ c id resp, onRequest pb services (rpcRequest pb (args c) id) = .reply resp →
    Sendable pb resp
  stubs : ∀ c service method, services (args c).service = some service →
    service.findMethodByName (args c).method = some method →
    typeName (args c).response = typeName method.responsePrototype
  handlers : ∀ c service method, services (args c).service = some service →
    service.findMethodByName (args c).method = some method →
    ∃ controller response, Serves pb typeName method controller response

/-- The step does not fail. A round of the loop that finds an empty queue is none. -/
def Smooth (pb : Protobuf Msg) (typeName : Msg → String) (args : ι → CallArgs Msg)
    (services : String → Option (Service Msg)) (s : Session ι Msg) : Act ι Msg → Prop
  | .client (.parse _) => True
  | .client (.readv _ _) => False
  | .client a => Channel.Smooth pb args s.client a
  | .server .swap => s.server.loop.pendingFunctors ≠ []
  | .server a => Server.Smooth pb typeName services s.server a
  | .clientRead _ | .handleRead _ | .decode => True

variable {pb : Protobuf Msg} {typeName : Msg → String} {args : ι → CallArgs Msg}
  {services : String → Option (Service Msg)} {threads : Nat} {s s' : Session ι Msg}
  {a : Act ι Msg}

/-- Each end has a run of its own in which nothing fails. -/
structure BothSmooth (pb : Protobuf Msg) (typeName : Msg → String) (args : ι → CallArgs Msg)
    (services : String → Option (Service Msg)) (threads : Nat) (s : Session ι Msg) : Prop where
  client : (Channel.machine pb args).ReachUnder (Channel.Smooth pb args) s.client
  server : (Server.machine pb services threads).ReachUnder
    (Server.Smooth pb typeName services) s.server

theorem assumptions_of_smooth (ht : Terms pb typeName args services)
    (h : BothSmooth pb typeName args services threads s) :
    Assumptions pb typeName args services s := by
  have hclient := Channel.sunny_reach h.client
  have hserver := Server.sunny_reach h.server
  refine ⟨ht.roundTrips, ?_, fun w _ => ht.requests w.call _, ht.arguments, ?_, ?_, ?_, ht.stubs⟩
  · intro w hw n hn
    rw [(hclient.whole w hw).2] at hn
    exact (Option.some.inj hn).symm
  · intro a ha b hb
    obtain ⟨b', hle, hser⟩ := hserver.answered a ha
    rw [hb] at hser
    cases hser
    exact hle
  · exact fun o ho => (hserver.outcomes o ho).1
  · exact hserver.typed h.server.reach

/-! ## The streams are good -/

/-- The bytes that wait in the input buffer of the server are never bad, and a frame among them
is a request of one of the calls. -/
theorem requests_good (ht : Terms pb typeName args services)
    (hr : (machine pb args services threads).Reach s)
    (h : BothSmooth pb typeName args services threads s) :
    (∀ e, codec.pass s.inputBuf ≠ .error e) ∧ ∀ body rest, codec.pass s.inputBuf = .frame body rest →
      ∃ c id, pb.parseRequest body = some (rpcRequest pb (args c) id) := by
  have ha := assumptions_of_smooth ht h
  obtain ⟨fs, hcut, -⟩ := requestsRead_reach hr
  obtain ⟨hwire, hfits, hparse⟩ := requests_wire hr ha.roundTrips ha.complete ha.requests
  have hspec := pass_spec s.inputBuf
  refine ⟨?_, ?_⟩
  · intro e he
    rw [he] at hspec
    exact hcut.not_bad (deframer_code (some kMaxBodySize)) hfits hwire e hspec
  · intro body rest hbody
    rw [hbody] at hspec
    have hfront := (hcut.frame (deframer_code (some kMaxBodySize)) hspec.1).front
      (deframer_code _) hfits hwire
    have hmem : body ∈ requestBodies pb args s.client := hfront.subset (by simp)
    obtain ⟨r, hr, rfl⟩ := List.mem_map.mp hmem
    obtain ⟨w, -, rfl⟩ := List.mem_map.mp hr
    obtain ⟨b, -, hser⟩ := ht.requests w.call (s.client.calls w.call).requestId
    refine ⟨w.call, (s.client.calls w.call).requestId, ?_⟩
    rw [hser, Option.getD_some]
    exact ht.roundTrips.request _ b hser

/-- The bytes that wait in the buffer of the reader are never bad. -/
theorem responses_good (ht : Terms pb typeName args services)
    (hr : (machine pb args services threads).Reach s)
    (h : BothSmooth pb typeName args services threads s) (e : String) :
    RpcChannel.readerPass (s.client.readers 0).buf ≠ .error e := by
  have ha := assumptions_of_smooth ht h
  obtain ⟨gs, hcut, -⟩ := responsesRead_reach hr
  obtain ⟨hwire, hfits, -⟩ := answers_wire (server_reach hr) ha.roundTrips ha.responses
  have hspec := RpcChannel.readerPass_spec (s.client.readers 0).buf
  intro he
  rw [he] at hspec
  exact hcut.not_bad (deframer_code none) hfits hwire e hspec

/-- A step of the channel in a good run of both ends is one that does not fail by itself. -/
theorem client_smooth (ht : Terms pb typeName args services)
    (hr : (machine pb args services threads).Reach s)
    (h : BothSmooth pb typeName args services threads s) {a : rpc.Act ι}
    (ha : Smooth pb typeName args services s (.client a))
    (he : s.client.enabled pb args a = true) : Channel.Smooth pb args s.client a := by
  unfold Smooth at ha
  cases a with
  | parse r =>
    intro e
    have hpc : (s.client.readers r).pc = .parsing := by simpa [Channel.enabled] using he
    have hzero := (Channel.begun_connected (r := r) h.client.reach (Channel.sunny_reach h.client)
      (by simp [hpc])).2
    rw [hzero]
    exact responses_good ht hr h e
  | readv r res => exact absurd ha id
  | _ => exact ha

/-- The changes in a run in which nothing fails, each with what it found. -/
inductive Move (pb : Protobuf Msg) (typeName : Msg → String) (args : ι → CallArgs Msg)
    (services : String → Option (Service Msg)) (threads : Nat) (s : Session ι Msg) :
    Session ι Msg → Prop
  | client (a : rpc.Act ι) (client : Channel ι Msg) : Channel.Smooth pb args s.client a →
      (∀ r res, a ≠ .readv r res) → (Channel.machine pb args).step s.client a = some client →
      Move pb typeName args services threads s { s with client := client }
  | clientRead (bytes : Bytes) (client : Channel ι Msg) : bytes ≠ [] →
      bytes <+: (s.server.handed ()).drop s.toClient →
      (Channel.machine pb args).step s.client (.readv 0 (.data bytes)) = some client →
      Move pb typeName args services threads s
        { s with client := client, toClient := s.toClient + bytes.length }
  | handleRead (bytes : Bytes) : bytes ≠ [] → bytes <+: (s.client.wire 0).drop s.toServer →
      s.decoding = false → Move pb typeName args services threads s
        { s with
          inputBuf := s.inputBuf.readFd bytes
          decoding := true
          toServer := s.toServer + bytes.length }
  | decoded : s.decoding = true → codec.pass s.inputBuf = .wait →
      Move pb typeName args services threads s { s with decoding := false }
  | frame (body : Bytes) (rest : Buffer) (server : Server Unit Msg) : s.decoding = true →
      codec.pass s.inputBuf = .frame body rest →
      Server.Smooth pb typeName services s.server (.frame () body) →
      Server.step pb services threads s.server (.frame () body) = some server →
      Move pb typeName args services threads s { s with server := server, inputBuf := rest }
  | server (a : Server.Act Unit Msg) (server : Server Unit Msg) :
      Server.Smooth pb typeName services s.server a →
      Server.Works s.server a ∨ a = .setState () .kConnected →
      Server.step pb services threads s.server a = some server →
      Move pb typeName args services threads s { s with server := server }

theorem move_of_step (ht : Terms pb typeName args services)
    (hr : (machine pb args services threads).Reach s)
    (h : BothSmooth pb typeName args services threads s)
    (ha : Smooth pb typeName args services s a)
    (hs : step pb args services threads s a = some s') :
    Move pb typeName args services threads s s' := by
  unfold step at hs
  split at hs
  · rename_i hallow
    cases a with
    | client a =>
      obtain ⟨client, hclient, rfl⟩ := Option.map_eq_some_iff.mp hs
      refine .client a client (client_smooth ht hr h ha (Channel.step_iff.mp hclient).1) ?_ hclient
      rintro r res rfl
      exact ha
    | clientRead n =>
      obtain ⟨client, hclient, rfl⟩ := Option.map_eq_some_iff.mp hs
      refine .clientRead (s.nextResponses n) client ?_ (List.take_prefix n _) hclient
      intro hnil
      have he := (Channel.step_iff.mp hclient).1
      simp [Channel.enabled, hnil] at he
    | handleRead n =>
      dsimp only at hs
      split at hs
      · rename_i hguard
        cases hs
        exact .handleRead (s.nextRequests n) hguard.2.2.2.1 (List.take_prefix n _) hguard.1
      · cases hs
    | decode =>
      dsimp only at hs
      obtain ⟨hnotbad, hframe⟩ := requests_good ht hr h
      split at hs
      · rename_i hon
        unfold decode at hs
        split at hs
        · cases hs
          exact .decoded hon ‹_›
        · exact absurd ‹_› (hnotbad _)
        · rename_i body rest hpass
          obtain ⟨server, hserver, rfl⟩ := Option.map_eq_some_iff.mp hs
          refine .frame body rest server hon hpass ?_ hserver
          intro req resp hparse hreply
          obtain ⟨c, id, hreq⟩ := hframe body rest hpass
          rw [hreq] at hparse
          cases hparse
          exact ht.replies c id resp hreply
      · cases hs
    | server a =>
      obtain ⟨server, hserver, rfl⟩ := Option.map_eq_some_iff.mp hs
      have hgood : Server.Smooth pb typeName services s.server a ∧
          (Server.Works s.server a ∨ a = .setState () .kConnected) := by
        cases a with
        | frame k bytes => simp [allowed] at hallow
        | setState k state =>
          obtain ⟨hbefore, rfl⟩ := ha
          exact ⟨⟨hbefore, rfl⟩, Or.inr rfl⟩
        | swap => exact ⟨trivial, Or.inl ha⟩
        | finish i controller response => exact ⟨ha, Or.inl trivial⟩
        | _ => exact ⟨trivial, Or.inl trivial⟩
      exact .server a server hgood.1 hgood.2 hserver
  · cases hs

theorem bothSmooth_move (h : BothSmooth pb typeName args services threads s)
    (hm : Move pb typeName args services threads s s') :
    BothSmooth pb typeName args services threads s' := by
  cases hm with
  | client a client ha _ hs => exact ⟨h.client.step ha hs, h.server⟩
  | clientRead bytes client _ _ hs =>
    exact ⟨h.client.step (a := .readv 0 (.data bytes)) ⟨bytes, rfl⟩ hs, h.server⟩
  | handleRead bytes _ _ _ => exact ⟨h.client, h.server⟩
  | decoded _ _ => exact ⟨h.client, h.server⟩
  | frame body rest server _ _ ha hs => exact ⟨h.client, h.server.step (a := .frame () body) ha hs⟩
  | server a server ha _ hs => exact ⟨h.client, h.server.step (a := a) ha hs⟩

theorem bothSmooth_reach (ht : Terms pb typeName args services)
    (h : (machine pb args services threads).ReachUnder (Smooth pb typeName args services) s) :
    BothSmooth pb typeName args services threads s := by
  refine h.invariant (I := BothSmooth pb typeName args services threads) ⟨.init, .init⟩ ?_
  intro s a s' hr hi ha hs
  exact bothSmooth_move hi (move_of_step ht hr.reach hi ha hs)

theorem move_of_reach (ht : Terms pb typeName args services)
    (h : (machine pb args services threads).ReachUnder (Smooth pb typeName args services) s)
    (ha : Smooth pb typeName args services s a)
    (hs : (machine pb args services threads).step s a = some s') :
    Move pb typeName args services threads s s' :=
  move_of_step ht h.reach (bothSmooth_reach ht h) ha hs

/-! ## Nothing is left in the buffers -/

/-- The server has left the loop of the codec when no whole frame waited. -/
theorem waits_of_decoded (ht : Terms pb typeName args services)
    (h : (machine pb args services threads).ReachUnder (Smooth pb typeName args services) s)
    (hdecoding : s.decoding = false) : codec.pass s.inputBuf = .wait := by
  revert hdecoding
  refine h.invariant (I := fun s => s.decoding = false → codec.pass s.inputBuf = .wait) ?_ ?_
  · intro _
    rfl
  · intro s a s' hr hi ha hs hdecoding
    cases move_of_reach ht hr ha hs with
    | client a client _ _ _ => exact hi hdecoding
    | clientRead bytes client _ _ _ => exact hi hdecoding
    | handleRead bytes _ _ _ => cases hdecoding
    | decoded _ hpass => exact hpass
    | frame body rest server hon _ _ _ =>
      rw [hon] at hdecoding
      cases hdecoding
    | server a server _ _ _ => exact hi hdecoding

/-- The reader goes back to its socket when no whole frame waited. -/
theorem waits_of_drained {client : Channel ι Msg} (h : (Channel.machine pb args).Reach client)
    (r : Nat) (hpc : (client.readers r).pc = .loop ∨ (client.readers r).pc = .reading) :
    RpcChannel.readerPass (client.readers r).buf = .wait := by
  revert hpc
  refine h.invariant (I := fun client => (client.readers r).pc = .loop ∨
    (client.readers r).pc = .reading → RpcChannel.readerPass (client.readers r).buf = .wait) ?_ ?_
  · intro hpc
    simp [Channel.machine, Channel.init] at hpc
  · intro client a client' _ hi hs hpc
    have hstep := Channel.readers_step hs r
    generalize client'.readers r = x at hstep hpc
    cases hstep with
    | same => exact hi hpc
    | start _ =>
      rfl
    | read hloop _ => exact hi (Or.inl hloop)
    | drained _ hpass => exact hpass
    | _ => simp_all

/-! ## Every response is heeded -/

/-- The response in the frame has been taken for the call that it is for. -/
def Heeded (pb : Protobuf Msg) (client : Channel ι Msg) (f : Bytes) : Prop :=
  ∃ c resp, pb.parseResponse f = some resp ∧ (client.calls c).pc.sent = true ∧
    (client.calls c).requestId = resp.requestId ∧ (client.calls c).stage ≠ .untouched

/-- A call that has a response keeps it, with its id. -/
theorem heeded_step {client client' : Channel ι Msg} {a : rpc.Act ι}
    (hr : (Channel.machine pb args).Reach client)
    (hs : (Channel.machine pb args).step client a = some client') {f : Bytes}
    (h : Heeded pb client f) : Heeded pb client' f := by
  obtain ⟨c, resp, hparse, hsent, hid, hstage⟩ := h
  have hcall := Channel.calls_step hr hs c
  have hdraw : a ≠ .draw c := by
    rintro rfl
    have hpc : (client.calls c).pc = .checked := by
      simpa [Channel.enabled] using (Channel.step_iff.mp hs).1
    rw [hpc] at hsent
    cases hsent
  refine ⟨c, resp, hparse, (Channel.CallStep.keeps_outcome hcall).1 hsent, ?_, ?_⟩
  · rw [(Channel.CallStep.keeps_id hcall hdraw).2.1]
    exact hid
  · generalize client'.calls c = k at hcall
    cases hcall with
    | take r resp' _ hun _ => exact absurd hun hstage
    | apply r resp' _ => simp
    | flag r resp' _ => simp
    | runDone r resp' _ => simp [Call.runDone]
    | _ => exact hstage

/-- Each answer is for a call whose request the server has received. -/
theorem answer_call (hr : (machine pb args services threads).Reach s)
    (ha : Assumptions pb typeName args services s) {answer : Answer Unit}
    (hans : answer ∈ s.server.answered) :
    ∃ c, (s.client.calls c).pc.sent = true ∧ (s.client.calls c).pc.hasId = true ∧
      (s.client.calls c).requestId = answer.response.requestId ∧
      (answer.ticket, rpcRequest pb (args c) (s.client.calls c).requestId) ∈ s.server.received := by
  obtain ⟨hledger, hcontent⟩ := Server.sound_reach (server_reach hr)
  have hcomputed := (hcontent.answered answer hans).1
  have hticket := hcomputed.requestId hledger
  obtain ⟨req, hreq, -⟩ := hcomputed
  have hsent : req ∈ requestsSent pb args s.client :=
    (received_front hr ha).subset (List.mem_map.mpr ⟨_, hreq, rfl⟩)
  obtain ⟨w, hw, rfl⟩ := List.mem_map.mp hsent
  obtain ⟨hpc, hid⟩ := sent_pc (client_reach hr).reach hw
  refine ⟨w.call, hpc, hid, ?_, hreq⟩
  rw [hticket, (hledger.named _ hreq).1]
  rfl

/-- The reader takes a response for the call that it is for. -/
theorem heeded_take [Fintype ι] (hfew : Fintype.card ι < 2 ^ 32) {client client' : Channel ι Msg}
    (hr : (Channel.machine pb args).ReachUnder (Channel.Smooth pb args) client) {r : Nat}
    (hs : (Channel.machine pb args).step client (.take r) = some client') {f : Bytes}
    (hpc : (client.readers r).pc = .message f) {c : ι} {resp : RpcResponse}
    (hparse : pb.parseResponse f = some resp) (hsent : (client.calls c).pc.sent = true)
    (hid : (client.calls c).requestId = resp.requestId) : Heeded pb client' f := by
  by_cases hstage : (client.calls c).stage = .untouched
  · have hstored : (client.calls c).pc.stored = true := by
      cases hcpc : (client.calls c).pc <;> simp_all [CallPc.sent, CallPc.stored]
    have htable := Channel.in_table hfew hr.reach (Channel.sunny_reach hr) hstored hstage
    rw [hid] at htable
    obtain ⟨-, rfl⟩ := Channel.step_iff.mp hs
    refine ⟨c, resp, hparse, ?_, ?_, ?_⟩ <;>
      simp [Channel.effect, hpc, hparse, htable, Channel.setReader, Channel.modify, hsent, hid]
  · exact heeded_step hr.reach hs ⟨c, resp, hparse, hsent, hid, hstage⟩

/-- The frames of the responses that have come in. -/
def framesIn (s : Session ι Msg) : List Bytes :=
  ((deframer none).drain ((s.server.handed ()).take s.toClient)).frames

/-- The frames that the reader has not yet come to. -/
def framesAhead (client : Channel ι Msg) : List Bytes :=
  ((deframer none).drain (client.readers 0).buf.peek).frames

/-- The reader has come to each response that came in, or has it before it. -/
def AllHeeded (pb : Protobuf Msg) (s : Session ι Msg) : Prop :=
  ∀ f ∈ framesIn s, f ∈ framesAhead s.client ∨ (s.client.readers 0).pc = .message f ∨
    Heeded pb s.client f

/-- What the reader has before it in a step that reads nothing: it goes to the next frame, or
the frames stay as they are. -/
theorem ahead_step {client client' : Channel ι Msg} {a : rpc.Act ι}
    (hr : (Channel.machine pb args).Reach client) (habsent : (client.readers 0).pc = .absent →
      (client.readers 0).buf.peek = []) (hread : ∀ r res, a ≠ .readv r res)
    (hs : (Channel.machine pb args).step client a = some client') :
    (∃ body, framesAhead client = body :: framesAhead client' ∧
      (client.readers 0).pc = .parsing ∧ (client'.readers 0).pc = .message body) ∨
    (framesAhead client' = framesAhead client ∧ ∀ f, (client.readers 0).pc = .message f →
      (client'.readers 0).pc = .message f ∨ a = .take 0) := by
  have hstep := Channel.readers_step hs 0
  unfold framesAhead
  generalize client'.readers 0 = x at hstep
  cases hstep with
  | same => exact Or.inr ⟨rfl, fun f hf => Or.inl hf⟩
  | start hown =>
    have hnone := ((Channel.opened_reach hr).connecting 0 hown).2
    refine Or.inr ⟨?_, fun f hf => by rw [hnone] at hf; cases hf⟩
    rw [habsent hnone]
    rfl
  | frame body rest hpc hpass =>
    refine Or.inl ⟨body, ?_, hpc, rfl⟩
    have hspec := RpcChannel.readerPass_spec (client.readers 0).buf
    rw [hpass] at hspec
    rw [(deframer none).drain_frame hspec.1, hspec.2]
  | data bytes _ => exact absurd rfl (hread 0 _)
  | endOfFile _ => exact absurd rfl (hread 0 _)
  | readError _ => exact absurd rfl (hread 0 _)
  | drop body hpc => exact Or.inr ⟨rfl, fun _ _ => Or.inr rfl⟩
  | take body resp c hpc _ _ => exact Or.inr ⟨rfl, fun _ _ => Or.inr rfl⟩
  | _ => exact Or.inr ⟨rfl, fun f hf => by simp_all⟩

theorem allHeeded_client [Fintype ι] (hfew : Fintype.card ι < 2 ^ 32)
    (ht : Terms pb typeName args services)
    (hr : (machine pb args services threads).Reach s)
    (hboth : BothSmooth pb typeName args services threads s) (h : AllHeeded pb s)
    {a : rpc.Act ι} {client : Channel ι Msg} (hread : ∀ r res, a ≠ .readv r res)
    (hs : (Channel.machine pb args).step s.client a = some client) :
    AllHeeded pb { s with client := client } := by
  have hclient := hboth.client.reach
  have ha := assumptions_of_smooth ht hboth
  obtain ⟨gs, hcut, hheard⟩ := responsesRead_reach hr
  obtain ⟨hwire, hfits, hparsed⟩ := answers_wire (server_reach hr) ha.roundTrips ha.responses
  intro f hf
  rcases ahead_step hclient hheard.absent hread hs with
    ⟨body, hahead, hparsing, hmessage⟩ | ⟨hahead, hmessage⟩
  · rcases h f hf with hin | hat | hheeded
    · rw [hahead] at hin
      rcases List.mem_cons.mp hin with rfl | hin
      · exact Or.inr (Or.inl hmessage)
      · exact Or.inl hin
    · rw [hparsing] at hat
      cases hat
    · exact Or.inr (Or.inr (heeded_step hclient hs hheeded))
  · rcases h f hf with hin | hat | hheeded
    · rw [← hahead] at hin
      exact Or.inl hin
    · rcases hmessage f hat with hat' | rfl
      · exact Or.inr (Or.inl hat')
      · have hmem := (hcut.front (deframer_code none) hfits hwire).subset (hheard.message f hat)
        obtain ⟨answer, hans, hparse⟩ := hparsed f hmem
        obtain ⟨c, hsent, -, hid, -⟩ := answer_call hr ha hans
        exact Or.inr (Or.inr (heeded_take hfew hboth.client hs hat hparse hsent hid))
    · exact Or.inr (Or.inr (heeded_step hclient hs hheeded))

theorem allHeeded_read (hr : (machine pb args services threads).Reach s) (h : AllHeeded pb s)
    {bytes : Bytes} {client : Channel ι Msg}
    (hbytes : bytes <+: (s.server.handed ()).drop s.toClient)
    (hs : (Channel.machine pb args).step s.client (.readv 0 (.data bytes)) = some client) :
    AllHeeded pb { s with client := client, toClient := s.toClient + bytes.length } := by
  obtain ⟨gs, hcut, -⟩ := responsesRead_reach hr
  have hcode := deframer_code none
  obtain ⟨he, heffect⟩ := Channel.step_iff.mp hs
  have hreading : (s.client.readers 0).pc = .reading := by
    simp only [Channel.enabled, Bool.and_eq_true, decide_eq_true_eq] at he
    exact he.1
  have hbefore : framesIn s = gs ++ framesAhead s.client := by
    unfold framesIn
    rw [hcut.taken, hcode.drain_encode gs hcut.fit]
    rfl
  have hpeek : (client.readers 0).buf.peek = (s.client.readers 0).buf.peek ++ bytes := by
    rw [← heffect]
    simp [Channel.effect, Buffer.peek_readFd]
  have hafter : framesIn { s with client := client, toClient := s.toClient + bytes.length } =
      gs ++ framesAhead client := by
    unfold framesIn framesAhead
    rw [(hcut.read hbytes).taken, hcode.drain_encode gs hcut.fit, hpeek]
  -- bytes that come in leave the frames before them where they were
  have hmore : ∀ f ∈ framesAhead s.client, f ∈ framesAhead client := by
    intro f hf
    unfold framesAhead
    rw [hpeek, (deframer none).drain_append]
    exact List.mem_append_left _ hf
  intro f hf
  rw [hafter] at hf
  rcases List.mem_append.mp hf with hf | hf
  · rcases h f (by rw [hbefore]; exact List.mem_append_left _ hf) with hin | hat | hheeded
    · exact Or.inl (hmore f hin)
    · rw [hreading] at hat
      cases hat
    · exact Or.inr (Or.inr (heeded_step (client_reach hr).reach hs hheeded))
  · exact Or.inl hf

theorem allHeeded_move [Fintype ι] (hfew : Fintype.card ι < 2 ^ 32)
    (ht : Terms pb typeName args services)
    (hr : (machine pb args services threads).Reach s)
    (hboth : BothSmooth pb typeName args services threads s) (h : AllHeeded pb s)
    (hm : Move pb typeName args services threads s s') : AllHeeded pb s' := by
  obtain ⟨gs, hcut, hheard⟩ := responsesRead_reach hr
  have hserver : ∀ server', s.server.handed () <+: server'.handed () →
      AllHeeded pb { s with server := server' } := by
    intro server' hgrow f hf
    refine h f ?_
    have hsame : (server'.handed ()).take s.toClient = (s.server.handed ()).take s.toClient := by
      obtain ⟨t, ht⟩ := hgrow
      rw [← ht, List.take_append_of_le_length hcut.within]
    unfold framesIn at hf
    rwa [hsame] at hf
  cases hm with
  | handleRead bytes _ _ _ => exact h
  | decoded _ _ => exact h
  | frame body rest server _ _ _ hs => exact hserver server ((Server.added_step hs).handed ())
  | server a server _ _ hs => exact hserver server ((Server.added_step hs).handed ())
  | client a client ha hread hs => exact allHeeded_client hfew ht hr hboth h hread hs
  | clientRead bytes client hne hbytes hs => exact allHeeded_read hr h hbytes hs

theorem allHeeded_reach [Fintype ι] (hfew : Fintype.card ι < 2 ^ 32)
    (ht : Terms pb typeName args services)
    (h : (machine pb args services threads).ReachUnder (Smooth pb typeName args services) s) :
    AllHeeded pb s := by
  refine h.invariant (I := AllHeeded pb) ?_ ?_
  · intro f hf
    have hnone : framesIn (machine pb args services threads).init = [] := by
      unfold framesIn
      exact congrArg _ ((deframer none).drain_wait rfl)
    rw [hnone] at hf
    cases hf
  · intro s a s' hr hi ha hs
    exact allHeeded_move hfew ht hr.reach (bothSmooth_reach ht hr) hi (move_of_reach ht hr ha hs)

end rpc.Session
