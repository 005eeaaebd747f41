-- A session without failures comes to rest. Whatever the order in which the callers,
-- the reader, the workers and the loop thread go on, and in whatever pieces the
-- streams arrive, every call comes back with its own outcome.
import RpcFramework.ChannelFinal
import RpcFramework.ChannelProgress
import RpcFramework.SessionSmooth

namespace rpc

open net codec runs deframe

namespace Session

variable {ι Msg : Type} [DecidableEq ι] {pb : Protobuf Msg} {typeName : Msg → String}
  {args : ι → CallArgs Msg} {services : String → Option (Service Msg)} {threads : Nat}
  {s s' : Session ι Msg} {a : Act ι Msg}

/-- The connection of the server is still to be opened. -/
def openLeft (server : Server Unit Msg) : Nat :=
  if server.connState () = .kConnecting then 1 else 0

/-- The bytes of the requests that are left to read and to decode. A byte counts for more
before it is read. -/
def requestsLeft (s : Session ι Msg) : Nat :=
  3 * ((s.client.wire 0).length - s.toServer) + s.inputBuf.peek.length + if s.decoding then 1 else 0

/-- The bytes of the responses that are left to read and to parse. -/
def responsesLeft (s : Session ι Msg) : Nat :=
  4 * ((s.server.handed ()).length - s.toClient) + s.client.readerLeft

/-- What is left: for the callers, for the requests on their way, for the requests that the
server has, and for the responses on their way. A step forward in one of these may add to those
after it only. -/
def left [Fintype ι] (s : Session ι Msg) : Nat × Nat × Nat × Nat :=
  (s.client.callsLeft + openLeft s.server, s.requestsLeft, s.server.workLeft, s.responsesLeft)

def Less : Nat × Nat × Nat × Nat → Nat × Nat × Nat × Nat → Prop :=
  Prod.Lex (· < ·) (Prod.Lex (· < ·) (Prod.Lex (· < ·) (· < ·)))

theorem less_wf : WellFounded Less :=
  Nat.lt_wfRel.wf.prod_lex (Nat.lt_wfRel.wf.prod_lex (Nat.lt_wfRel.wf.prod_lex Nat.lt_wfRel.wf))

theorem connState_onFrame (s : Server Unit Msg) (bytes : Bytes) :
    (s.onFrame pb services () bytes).connState = s.connState := by
  unfold Server.onFrame
  split
  · rfl
  · dsimp only
    split
    · exact (Server.untouched_send pb _ _ _).connState
    · rfl

theorem less_of {x y : Nat × Nat × Nat × Nat} (h : x.1 < y.1 ∨ x.1 = y.1 ∧
    (x.2.1 < y.2.1 ∨ x.2.1 = y.2.1 ∧
      (x.2.2.1 < y.2.2.1 ∨ x.2.2.1 = y.2.2.1 ∧ x.2.2.2 < y.2.2.2))) : Less x y := by
  simp only [Less, Prod.lex_def]
  exact h

theorem left_move [Fintype ι] (hboth : BothSmooth pb typeName args services threads s)
    (hm : Move pb typeName args services threads s s') : Less s'.left s.left := by
  cases hm with
  | client a client ha hread hs =>
    rcases Channel.left_step hboth.client ha hread hs with hlt | ⟨hcalls, hwire, hlt⟩
    · exact less_of (Or.inl (by simp only [left]; omega))
    · refine less_of (Or.inr ⟨?_, Or.inr ⟨?_, Or.inr ⟨rfl, ?_⟩⟩⟩)
      · simp only [left, hcalls]
      · simp only [left, requestsLeft, hwire]
      · simp only [left, responsesLeft]
        omega
  | clientRead bytes client hne hbytes hs =>
    obtain ⟨hcalls, hwire, hreader⟩ := Channel.left_read hs
    refine less_of (Or.inr ⟨?_, Or.inr ⟨?_, Or.inr ⟨rfl, ?_⟩⟩⟩)
    · simp only [left, hcalls]
    · simp only [left, requestsLeft, hwire]
    · have hpos := List.length_pos_iff.mpr hne
      have hle := hbytes.length_le
      rw [List.length_drop] at hle
      simp only [left, responsesLeft, hreader]
      omega
  | handleRead bytes hne hbytes hoff =>
    refine less_of (Or.inr ⟨rfl, Or.inl ?_⟩)
    have hpos := List.length_pos_iff.mpr hne
    have hle := hbytes.length_le
    rw [List.length_drop] at hle
    simp only [left, requestsLeft, hoff, Buffer.peek_readFd, List.length_append]
    simp only [Bool.false_eq_true, if_false, if_true]
    omega
  | decoded hon hpass =>
    refine less_of (Or.inr ⟨rfl, Or.inl ?_⟩)
    simp [left, requestsLeft, hon]
  | frame body rest server hon hpass ha hs =>
    have hspec := pass_spec s.inputBuf
    rw [hpass] at hspec
    have hfits := (look_frame hspec.1).1
    have hopen : server.connState = s.server.connState := by
      simp only [Server.step] at hs
      split at hs
      · cases hs
        exact connState_onFrame s.server body
      · cases hs
    refine less_of (Or.inr ⟨?_, Or.inl ?_⟩)
    · simp only [left, openLeft, hopen]
    · simp only [left, requestsLeft, hspec.2, List.length_drop, kHeaderSize] at hfits ⊢
      omega
  | server a server ha hworks hs =>
    rcases hworks with hworks | rfl
    · have hopen := (Server.untouched_step hworks hs).connState
      refine less_of (Or.inr ⟨?_, Or.inr ⟨rfl, Or.inl (Server.workLeft_step hworks hs)⟩⟩)
      simp only [left, openLeft, hopen]
    · refine less_of (Or.inl ?_)
      obtain ⟨hbefore, -⟩ := ha
      simp only [Server.step] at hs
      cases hs
      simp [left, openLeft, hbefore]

/-! ## Where nothing is left to do -/

/-- At rest no step of the channel that does not fail can be taken. -/
theorem client_rest (hrest : (machine pb args services threads).AtRest
      (Smooth pb typeName args services) s) {a : rpc.Act ι}
    (ha : Smooth pb typeName args services s (.client a)) (hallow : s.allowed (.client a) = true) :
    s.client.enabled pb args a = false := by
  have hnone := hrest (.client a) ha
  simp only [machine, step, hallow, if_true, Option.map_eq_none_iff] at hnone
  simpa [Channel.machine] using hnone

theorem connected_of_rest (hboth : BothSmooth pb typeName args services threads s)
    (hrest : (machine pb args services threads).AtRest (Smooth pb typeName args services) s) :
    s.client.connected = true ∧ s.client.sockfd = some 0 ∧ (s.client.readers 0).pc ≠ .absent := by
  rcases (Channel.sunny_reach hboth.client).phase with
    ⟨hown, hzero, -⟩ | ⟨hown, -, -, -⟩ | ⟨-, -, hon, hfd, hpc⟩
  · have hoff := client_rest hrest (a := .socket true) ⟨rfl, hzero⟩ (by simp [allowed, hzero])
    simp [Channel.enabled, hown] at hoff
  · have hoff := client_rest hrest (a := .connect true) rfl rfl
    simp [Channel.enabled, hown] at hoff
  · exact ⟨hon, hfd, hpc⟩

/-- At rest a call waits for its response, or has returned. -/
theorem call_of_rest (hboth : BothSmooth pb typeName args services threads s)
    (hrest : (machine pb args services threads).AtRest (Smooth pb typeName args services) s)
    (c : ι) : (s.client.calls c).pc = .returned ∨
      (s.client.calls c).pc = .waiting ∧ (s.client.calls c).doneFlag = false := by
  obtain ⟨hon, hfd, -⟩ := connected_of_rest hboth hrest
  have hcalm := (Channel.sunny_reach hboth.client).calm c
  have hfree : s.client.connMu = none := by
    by_contra hheld
    obtain ⟨d, hd⟩ := Option.ne_none_iff_exists'.mp hheld
    exact (Channel.sunny_reach hboth.client).not_writeFailed d
      (((Channel.good_reach hboth.client.reach).mutex d).mp hd)
  have h1 := client_rest hrest (a := .enter c) trivial rfl
  have h2 := client_rest hrest (a := .check c) hon rfl
  have h3 := client_rest hrest (a := .draw c) trivial rfl
  have h4 := client_rest hrest (a := .insert c) trivial rfl
  have h5 := client_rest hrest (a := .write c _) rfl rfl
  have h6 := client_rest hrest (a := .wait c) trivial rfl
  have h7 := client_rest hrest (a := .wake c) trivial rfl
  simp only [Channel.enabled, hfree, hfd] at h1 h2 h3 h4 h5 h6 h7
  cases hpc : (s.client.calls c).pc <;> simp_all [CallPc.troubled]

/-- At rest the reader is at its `readv`. -/
theorem reading_of_rest (hboth : BothSmooth pb typeName args services threads s)
    (hrest : (machine pb args services threads).AtRest (Smooth pb typeName args services) s) :
    (s.client.readers 0).pc = .reading := by
  obtain ⟨hon, -, hbegun⟩ := connected_of_rest hboth hrest
  have hstays := (Channel.sunny_reach hboth.client).stays 0
  have h1 := client_rest hrest (a := .loopHead 0) trivial rfl
  have h2 := client_rest hrest (a := .parse 0) trivial rfl
  have h3 := client_rest hrest (a := .take 0) trivial rfl
  have h4 := client_rest hrest (a := .apply 0) trivial rfl
  have h5 := client_rest hrest (a := .flag 0) trivial rfl
  have h6 := client_rest hrest (a := .runDone 0) trivial rfl
  simp only [Channel.enabled] at h1 h2 h3 h4 h5 h6
  cases hpc : (s.client.readers 0).pc <;> simp_all [ReaderPc.leaves]

/-- At rest no step of the server that does not fail can be taken, and the loop of the codec is
left. -/
theorem server_rest (hrest : (machine pb args services threads).AtRest
      (Smooth pb typeName args services) s) {a : Server.Act Unit Msg}
    (ha : Smooth pb typeName args services s (.server a)) (hallow : s.allowed (.server a) = true) :
    Server.step pb services threads s.server a = none := by
  have hnone := hrest (.server a) ha
  simpa only [machine, step, hallow, if_true, Option.map_eq_none_iff] using hnone

theorem open_of_rest (hboth : BothSmooth pb typeName args services threads s)
    (hrest : (machine pb args services threads).AtRest (Smooth pb typeName args services) s) :
    s.server.connState () = .kConnected := by
  rcases (Server.sunny_reach hboth.server).opens () with hbefore | hopen
  · have hnone := server_rest hrest (a := .setState () .kConnected) ⟨hbefore, rfl⟩ rfl
    simp [Server.step] at hnone
  · exact hopen

theorem functors_of_rest (hrest : (machine pb args services threads).AtRest
      (Smooth pb typeName args services) s) : s.server.loop.functors = [] := by
  by_contra hne
  obtain ⟨f, fs, hf⟩ := List.exists_cons_of_ne_nil hne
  have hnone := server_rest hrest (a := .functor) trivial rfl
  simp [Server.step, EventLoop.next, hf] at hnone

/-- At rest the codec has nothing to decode. -/
theorem decoded_of_rest (ht : Terms pb typeName args services)
    (hr : (machine pb args services threads).ReachUnder (Smooth pb typeName args services) s)
    (hrest : (machine pb args services threads).AtRest (Smooth pb typeName args services) s) :
    s.decoding = false := by
  have hboth := bothSmooth_reach ht hr
  by_contra hon
  have hnone := hrest .decode trivial
  simp only [machine, step, allowed, if_true, Bool.eq_true_of_not_eq_false hon] at hnone
  unfold decode at hnone
  split at hnone
  · cases hnone
  · exact (requests_good ht hr.reach hboth).1 _ ‹_›
  · simp [Server.step, functors_of_rest hrest, open_of_rest hboth hrest] at hnone

/-- At rest the server holds no request. -/
theorem idle_of_rest (hthreads : 0 < threads) (ht : Terms pb typeName args services)
    (hr : (machine pb args services threads).ReachUnder (Smooth pb typeName args services) s)
    (hrest : (machine pb args services threads).AtRest (Smooth pb typeName args services) s) :
    s.server.tasks = [] ∧ s.server.running = [] ∧ s.server.loop.queued = [] := by
  have hboth := bothSmooth_reach ht hr
  have ha := assumptions_of_smooth ht hboth
  refine Server.idle_of_stuck pb services hthreads
    (server_rest hrest trivial rfl) (fun i => server_rest hrest trivial rfl) ?_
    (fun i => server_rest hrest trivial rfl) ?_ (server_rest hrest trivial rfl)
  · intro i r hi _
    obtain ⟨⟨req, hreq, hsub⟩, -⟩ :=
      (Server.sound_reach (server_reach hr.reach)).content.running r (List.mem_of_getElem? hi)
    -- the request is one of the calls, so its handler has an outcome to give
    have hsent := (received_front hr.reach ha).subset (List.mem_map.mpr ⟨_, hreq, rfl⟩)
    obtain ⟨w, -, rfl⟩ := List.mem_map.mp hsent
    obtain ⟨hservice, hmethod, -⟩ := Server.onRequest_submit_iff.mp hsub
    obtain ⟨controller, response, hserves⟩ := ht.handlers w.call _ _ hservice hmethod
    refine ⟨controller, response, server_rest hrest ?_ rfl⟩
    intro r' hr'
    rw [hi] at hr'
    cases hr'
    exact hserves
  · intro hne
    exact server_rest hrest hne (by simp [allowed, decoded_of_rest ht hr hrest])

theorem iovTotal_pos (b : Buffer) : 1 ≤ b.iovTotal := by
  unfold Buffer.iovTotal Buffer.kExtraSize
  split <;> omega

/-- At rest all the bytes of the requests have been read. -/
theorem requests_of_rest (ht : Terms pb typeName args services)
    (hr : (machine pb args services threads).ReachUnder (Smooth pb typeName args services) s)
    (hrest : (machine pb args services threads).AtRest (Smooth pb typeName args services) s) :
    (s.client.wire 0).length ≤ s.toServer := by
  have hboth := bothSmooth_reach ht hr
  have hnone := hrest (.handleRead 1) trivial
  by_contra hlt
  have hone : (s.nextRequests 1).length = 1 := by
    rw [nextRequests, List.length_take, List.length_drop]
    omega
  have hne : s.nextRequests 1 ≠ [] := by
    intro hnil
    rw [hnil] at hone
    cases hone
  simp [machine, step, allowed, decoded_of_rest ht hr hrest, functors_of_rest hrest,
    open_of_rest hboth hrest, hne, hone] at hnone
  have := iovTotal_pos s.inputBuf
  omega

/-- At rest all the bytes of the responses have been read. -/
theorem responses_of_rest (ht : Terms pb typeName args services)
    (hr : (machine pb args services threads).ReachUnder (Smooth pb typeName args services) s)
    (hrest : (machine pb args services threads).AtRest (Smooth pb typeName args services) s) :
    (s.server.handed ()).length ≤ s.toClient := by
  have hboth := bothSmooth_reach ht hr
  have hnone := hrest (.clientRead 1) trivial
  by_contra hlt
  have hone : (s.nextResponses 1).length = 1 := by
    rw [nextResponses, List.length_take, List.length_drop]
    omega
  have hne : s.nextResponses 1 ≠ [] := by
    intro hnil
    rw [hnil] at hone
    cases hone
  have hpos := iovTotal_pos (s.client.readers 0).buf
  simp [machine, step, allowed, Channel.machine, Channel.enabled, reading_of_rest hboth hrest,
    (connected_of_rest hboth hrest).2.1, hne, hone] at hnone
  omega

/-- At rest the server has received the requests of all calls that have written. -/
theorem received_of_rest (ht : Terms pb typeName args services)
    (hr : (machine pb args services threads).ReachUnder (Smooth pb typeName args services) s)
    (hrest : (machine pb args services threads).AtRest (Smooth pb typeName args services) s) :
    s.server.received.map (·.2) = requestsSent pb args s.client := by
  have ha := assumptions_of_smooth ht (bothSmooth_reach ht hr)
  obtain ⟨fs, hcut, hrec⟩ := requestsRead_reach hr.reach
  obtain ⟨hwire, hfits, hparse⟩ := requests_wire hr.reach ha.roundTrips ha.complete ha.requests
  have hspec := pass_spec s.inputBuf
  rw [waits_of_decoded ht hr (decoded_of_rest ht hr hrest)] at hspec
  rw [hrec, ← hparse, hcut.all_found (deframer_code (some kMaxBodySize))
    (requests_of_rest ht hr hrest) hspec hfits hwire]

/-- At rest the frames that have come in are all the answers, and the reader has come to each
of them. -/
theorem heeded_of_rest [Fintype ι] (hfew : Fintype.card ι < 2 ^ 32)
    (ht : Terms pb typeName args services)
    (hr : (machine pb args services threads).ReachUnder (Smooth pb typeName args services) s)
    (hrest : (machine pb args services threads).AtRest (Smooth pb typeName args services) s) :
    ∀ f ∈ answerBodies pb s.server, Heeded pb s.client f := by
  have hboth := bothSmooth_reach ht hr
  have ha := assumptions_of_smooth ht hboth
  have hreading := reading_of_rest hboth hrest
  obtain ⟨hwire, hfits, -⟩ := answers_wire (server_reach hr.reach) ha.roundTrips ha.responses
  have hframes : framesIn s = answerBodies pb s.server := by
    have hcode := (deframer_code none).drain_encode (answerBodies pb s.server) hfits []
    rw [List.append_nil, ← hwire, (deframer none).drain_wait (deframer none).nil_waits] at hcode
    rw [framesIn, List.take_of_length_le (responses_of_rest ht hr hrest), hcode]
    exact List.append_nil _
  have hahead : framesAhead s.client = [] := by
    have hspec := RpcChannel.readerPass_spec (s.client.readers 0).buf
    rw [waits_of_drained hboth.client.reach 0 (Or.inr hreading)] at hspec
    rw [framesAhead, (deframer none).drain_wait hspec]
  intro f hf
  rcases allHeeded_reach hfew ht hr f (by rw [hframes]; exact hf) with hin | hat | hheeded
  · rw [hahead] at hin
    cases hin
  · rw [hreading] at hat
    cases hat
  · exact hheeded

/-- A call whose write did not fail stands in the log of the writes. -/
theorem sent_logged {client : Channel ι Msg} (h : (Channel.machine pb args).Reach client) (c : ι)
    (hc : (client.calls c).pc.sent = true) : ∃ w ∈ client.writes, w.call = c := by
  revert hc
  refine h.invariant (I := fun client => (client.calls c).pc.sent = true →
    ∃ w ∈ client.writes, w.call = c) ?_ ?_
  · intro hc
    cases hc
  · intro client a client' hr hi hs hc
    have hcall := Channel.calls_step hr hs c
    obtain ⟨he, rfl⟩ := Channel.step_iff.mp hs
    by_cases hwrite : ∃ d count, a = .write d count
    · obtain ⟨d, count, rfl⟩ := hwrite
      have hadded : ∃ w : Write ι, w.call = d ∧
          (client.effect pb args (.write d count)).writes = client.writes ++ [w] := by
        rcases Channel.write_cases he with ⟨fd, n, -, -, hw, -⟩ | ⟨fd, -, hw, -⟩
        · exact ⟨_, rfl, hw⟩
        · exact ⟨_, rfl, hw⟩
      obtain ⟨w, hcall', hw⟩ := hadded
      rw [hw]
      by_cases hcd : c = d
      · exact ⟨w, by simp, by rw [hcall', hcd]⟩
      · generalize (client.effect pb args (.write d count)).calls c = k at hcall hc
        cases hcall with
        | same =>
          obtain ⟨v, hv, hvc⟩ := hi hc
          exact ⟨v, List.mem_append_left _ hv, hvc⟩
        | written n hpc => exact absurd rfl hcd
        | writeFailed count hpc => exact absurd rfl hcd
    · rw [((Channel.frame_effect pb args client a).stream
        fun d count hd => hwrite ⟨d, count, hd⟩).2]
      refine hi ?_
      generalize (client.effect pb args a).calls c = k at hcall hc
      cases hcall with
      | enter _ => cases hc
      | check _ => cases hc
      | refuse _ => cases hc
      | draw id ticket _ => cases hc
      | insert late _ => cases hc
      | written n _ => exact absurd ⟨c, _, rfl⟩ hwrite
      | writeFailed count _ => cases hc
      | failWrite _ => cases hc
      | wait hpc => rw [hpc]; rfl
      | wake hpc _ => rw [hpc]; rfl
      | apply r resp _ => simpa using hc
      | _ => exact hc

/-- At rest every call that has written has been taken from the table for its response. -/
theorem answered_of_rest [Fintype ι] (hfew : Fintype.card ι < 2 ^ 32) (hthreads : 0 < threads)
    (ht : Terms pb typeName args services)
    (hr : (machine pb args services threads).ReachUnder (Smooth pb typeName args services) s)
    (hrest : (machine pb args services threads).AtRest (Smooth pb typeName args services) s)
    {c : ι} (hsent : (s.client.calls c).pc.sent = true) :
    (s.client.calls c).stage ≠ .untouched := by
  have hboth := bothSmooth_reach ht hr
  have hclient := hboth.client.reach
  have hsunny := Server.sunny_reach hboth.server
  obtain ⟨hledger, hcontent⟩ := Server.sound_reach (server_reach hr.reach)
  -- the request of the call was received, and is answered
  obtain ⟨w, hw, rfl⟩ := sent_logged hclient c hsent
  have hcalm := (Channel.sunny_reach hboth.client).calm w.call
  have hmem : w ∈ s.client.sentOn 0 := by
    refine List.mem_filter.mpr ⟨hw, ?_⟩
    have hfd := ((Channel.sunny_reach hboth.client).whole w hw).1
    cases hpc : (s.client.calls w.call).pc <;> simp_all [CallPc.reported, CallPc.sent]
  have hreq : rpcRequest pb (args w.call) (s.client.calls w.call).requestId ∈
      s.server.received.map (·.2) := by
    rw [received_of_rest ht hr hrest]
    exact List.mem_map.mpr ⟨w, hmem, rfl⟩
  obtain ⟨⟨ticket, req⟩, hreceived, hreqeq⟩ := List.mem_map.mp hreq
  dsimp only at hreqeq
  subst hreqeq
  have hanswered : ticket ∈ s.server.answered.map (·.ticket) := by
    have hplace := Server.settled_of_idle hledger (idle_of_rest hthreads ht hr hrest)
      (List.mem_map.mpr ⟨_, hreceived, rfl⟩)
    simpa [hsunny.dropped, hsunny.refused] using hplace
  obtain ⟨answer, hans, rfl⟩ := List.mem_map.mp hanswered
  -- the reader has come to the answer, and the call it is for is this one
  obtain ⟨hcomputed, -, body, hser⟩ := hcontent.answered answer hans
  have hbody : body ∈ answerBodies pb s.server := by
    refine List.mem_map.mpr ⟨answer, List.mem_filter.mpr ⟨hans, ?_⟩, by rw [hser]; rfl⟩
    simp
  obtain ⟨d, resp, hparse, hdsent, hdid, hstage⟩ :=
    heeded_of_rest hfew ht hr hrest body hbody
  rw [ht.roundTrips.response _ body hser] at hparse
  cases hparse
  have hsame : d = w.call := by
    refine Channel.ids_differ hfew hclient ?_ (sent_pc hclient hmem).2 ?_
    · cases hpc : (s.client.calls d).pc <;> simp_all [CallPc.sent, CallPc.hasId]
    · rw [hdid, hcomputed.requestId hledger, (hledger.named _ hreceived).1]
      rfl
  rw [← hsame]
  exact hstage

/-! ## The law -/

/-- A call whose closure `on_message` has passed has the outcome that the server computed. -/
theorem outcome_of_finished [Fintype ι] (hfew : Fintype.card ι < 2 ^ 32)
    (hr : (machine pb args services threads).Reach s)
    (ha : Assumptions pb typeName args services s) {c : ι} {resp : RpcResponse}
    (hc : (s.client.calls c).stage = .finished resp) :
    ∃ ticket, (ticket, rpcRequest pb (args c) (s.client.calls c).requestId) ∈ s.server.received ∧
      Outcome pb typeName services (args c) s.server ticket (s.client.calls c).controller
        (s.client.calls c).response := by
  obtain ⟨hsent, ticket, hrec, hcomputed⟩ := response_computed hfew hr ha (by rw [hc]; rfl)
  refine ⟨ticket, hrec, ?_⟩
  have hdelivered := Channel.delivered_reach (client_reach hr) c
    (by intro hpc; rw [hpc] at hsent; cases hsent) (by intro hpc; rw [hpc] at hsent; cases hsent)
  rw [hc] at hdelivered
  obtain ⟨hcontroller, hresponse⟩ := Prod.ext_iff.mp hdelivered
  dsimp only at hcontroller hresponse
  rw [hcontroller, hresponse]
  exact outcome_of_computed hr ha hrec hcomputed

/-- At rest a call has returned, and `on_message` has finished with it. -/
theorem finished_of_rest [Fintype ι] (hfew : Fintype.card ι < 2 ^ 32) (hthreads : 0 < threads)
    (ht : Terms pb typeName args services)
    (hr : (machine pb args services threads).ReachUnder (Smooth pb typeName args services) s)
    (hrest : (machine pb args services threads).AtRest (Smooth pb typeName args services) s)
    (c : ι) : (s.client.calls c).pc = .returned ∧
      ∃ resp, (s.client.calls c).stage = .finished resp := by
  have hboth := bothSmooth_reach ht hr
  have hclient := hboth.client.reach
  have hreading := reading_of_rest hboth hrest
  have hcall := call_of_rest hboth hrest c
  have hstage := answered_of_rest hfew hthreads ht hr hrest (c := c)
    (by rcases hcall with hpc | ⟨hpc, -⟩ <;> rw [hpc] <;> rfl)
  -- the only reader that has begun holds no call
  have hhands : ∀ r st, (s.client.readers r).pc.holds ≠ some (c, st) := by
    intro r st hholds
    have hbegun : (s.client.readers r).pc ≠ .absent := by
      intro habsent
      rw [habsent] at hholds
      cases hholds
    rw [(Channel.begun_connected hclient (Channel.sunny_reach hboth.client) hbegun).2,
      hreading] at hholds
    cases hholds
  have hhand : Channel.Stage.inHand (s.client.calls c).stage = false := by
    by_contra hin
    obtain ⟨r, st, hholds⟩ := Channel.held_reach hclient c (Bool.eq_true_of_not_eq_false hin)
    exact hhands r st hholds
  have hflag := Channel.flag_of_handled hclient c hstage hhand
  refine ⟨?_, ?_⟩
  · rcases hcall with hpc | ⟨-, hoff⟩
    · exact hpc
    · rw [hflag] at hoff
      cases hoff
  · cases hst : (s.client.calls c).stage with
    | untouched => exact absurd hst hstage
    | taken resp => rw [hst] at hhand; cases hhand
    | applied resp => rw [hst] at hhand; cases hhand
    | flagged resp =>
      obtain ⟨r, hpc⟩ := Channel.flagged_held hclient c resp hst
      exact absurd (by rw [hpc]; rfl) (hhands r (.flagged resp))
    | finished resp => exact ⟨resp, rfl⟩

/-- When nothing fails, every call comes back. Whatever the order in which the callers, the
reader, the workers and the loop thread take their steps, and in whatever pieces the bytes
arrive, they come to a state in which each call has returned, its closure, if it has one, has
run once, the server has received its request, and the controller and the response object are
the outcome that the server computed for this request. -/
theorem every_call_returns_with_its_outcome [Fintype ι] (hfew : Fintype.card ι < 2 ^ 32)
    (hthreads : 0 < threads) (ht : Terms pb typeName args services)
    (h : (machine pb args services threads).ReachUnder (Smooth pb typeName args services) s) :
    (machine pb args services threads).Inevitable (Smooth pb typeName args services)
      (Smooth pb typeName args services) (fun s' => ∀ c,
        (s'.client.calls c).pc = .returned ∧
        (s'.client.calls c).doneRuns = (if (args c).hasDone then 1 else 0) ∧
        ∃ ticket, (ticket, rpcRequest pb (args c) (s'.client.calls c).requestId) ∈
            s'.server.received ∧
          Outcome pb typeName services (args c) s'.server ticket (s'.client.calls c).controller
            (s'.client.calls c).response) s := by
  refine Machine.inevitable_of_measure less_wf left
    (I := (machine pb args services threads).ReachUnder (Smooth pb typeName args services)) ?_ ?_ h
  · intro s₁ a s₂ hr ha hs
    exact ⟨hr.step ha hs, left_move (bothSmooth_reach ht hr) (move_of_reach ht hr ha hs)⟩
  · intro s' hr hrest c
    have hboth := bothSmooth_reach ht hr
    obtain ⟨hreturned, resp, hfinished⟩ := finished_of_rest hfew hthreads ht hr hrest c
    refine ⟨hreturned, ?_, ?_⟩
    · rw [Channel.runs_exact hboth.client c, hfinished]
      rfl
    · exact outcome_of_finished hfew hr.reach (assumptions_of_smooth ht hboth) hfinished

/-! ## The two calls of the hello client -/

theorem hello_sendable (resp : RpcResponse)
    (h : resp.resultData.length + (proto3.putText resp.errorMsg).length ≤ 2 ^ 20) :
    Sendable helloProto resp := by
  obtain ⟨b, hb, hser⟩ := helloProto_response_size resp h
  exact ⟨b, hb.trans (by decide), hser⟩

theorem hello_terms : Terms helloProto Hello.typeName helloCalls helloServices := by
  have hsizes : ∀ c, (proto3.putText (helloCalls c).service).length +
      (proto3.putText (helloCalls c).method).length +
        ((helloProto.serialize (helloCalls c).request).getD []).length ≤ 2 ^ 20 := by
    decide +kernel
  have hobjects : ∀ c, (helloCalls c).response.typeName = "example.HelloResponse" := by
    decide +kernel
  have harguments : ∀ c, (helloProto.serialize (helloCalls c).request).isSome = true := by
    decide +kernel
  refine ⟨helloProto_roundTrips, ?_, fun c => Option.isSome_iff_exists.mp (harguments c), ?_, ?_, ?_⟩
  · intro c id
    obtain ⟨b, hb, hser⟩ := helloProto_request_size (rpcRequest helloProto (helloCalls c) id)
      (hsizes c)
    exact ⟨b, hb.trans (by decide), hser⟩
  · intro c id resp hreply
    have htexts : ∀ c, ∀ text ∈ ["service not found: " ++ (helloCalls c).service,
        "method not found: " ++ (helloCalls c).method, "failed to parse request args"],
        (proto3.putText text).length ≤ 2 ^ 20 := by
      decide +kernel
    have htext := htexts c
    simp only [List.forall_mem_cons] at htext
    obtain ⟨hservice, hmethod, hargs, -⟩ := htext
    unfold onRequest rpcRequest at hreply
    dsimp only at hreply
    split at hreply
    · cases hreply
      exact hello_sendable _ (by simpa [failure] using hservice)
    · split at hreply
      · cases hreply
        exact hello_sendable _ (by simpa [failure] using hmethod)
      · split at hreply
        · cases hreply
        · cases hreply
          exact hello_sendable _ (by simpa [failure] using hargs)
  · intro c service method hs hm
    rw [helloServices_response hs hm, hobjects c]
  · intro c service method hs hm
    refine ⟨.new, .helloResponse "Hello, World!", ?_, ?_, ?_⟩
    · rw [helloServices_response hs hm]
      rfl
    · exact Option.isSome_iff_exists.mp (by decide +kernel)
    · intro id
      have hresult : ((helloProto.serialize (.helloResponse "Hello, World!")).getD []).length +
          (proto3.putText "").length ≤ 2 ^ 20 := by
        decide +kernel
      exact hello_sendable _ (by simpa [dispatchResponse, RpcController.new] using hresult)

/-- A call of a method that there is and one of a method that there is not, from the start. -/
theorem two_hello_calls_return :
    (machine helloProto helloCalls helloServices 1).Inevitable
      (Smooth helloProto Hello.typeName helloCalls helloServices)
      (Smooth helloProto Hello.typeName helloCalls helloServices)
      (fun s' => ∀ c, (s'.client.calls c).pc = .returned)
      (machine helloProto helloCalls helloServices 1).init := by
  have hreturn := every_call_returns_with_its_outcome (by decide) (by decide) hello_terms
    (.init (m := machine helloProto helloCalls helloServices 1))
  exact hreturn.mono fun s' hs' c => (hs' c).1

end Session

end rpc
