-- Runs in which nothing fails: the channel connects once and stays connected, every
-- write takes all its bytes, and the server's connection stays open. What the two
-- ends are then known to be like, each by itself.
import RpcFramework.ChannelOutcome
import RpcFramework.ChannelStream
import RpcFramework.ServerLedger

namespace rpc

open net codec runs

variable {ι Msg : Type} [DecidableEq ι]

/-! ## The channel -/

/-- The call reports a failure, or is about to. -/
def CallPc.troubled : CallPc → Bool
  | .refused | .writeFailed | .failed => true
  | _ => false

/-- The call has not yet looked at `connected_`. -/
def CallPc.early : CallPc → Bool
  | .idle | .entered => true
  | _ => false

/-- The reader has left its loop, or is about to. -/
def ReaderPc.leaves : ReaderPc ι → Bool
  | .closing _ | .exited _ => true
  | _ => false

namespace Channel

/-- The step does not fail: a call looks at `connected_` when it is set, a write takes all its
bytes, a read gives bytes, the stream is not bad, the owner connects once and does not
disconnect. -/
def Smooth (pb : Protobuf Msg) (args : ι → CallArgs Msg) (s : Channel ι Msg) : Act ι → Prop
  | .check _ => s.connected = true
  | .write c count => count = some (callFrame pb (args c) (s.calls c).requestId).length
  | .readv _ res => ∃ bytes, res = .data bytes
  | .parse r => ∀ e, RpcChannel.readerPass (s.readers r).buf ≠ .error e
  | .socket ok => ok = true ∧ s.sockets = 0
  | .connect ok => ok = true
  | .disconnect => False
  | _ => True

/-- How far the owner is. -/
inductive Phase (s : Channel ι Msg) : Prop
  | before : s.owner = .idle → s.sockets = 0 → s.connected = false → Phase s
  | connecting : s.owner = .connecting 0 → s.sockets = 1 → s.connected = false →
      s.sockfd = some 0 → Phase s
  | connected : s.owner = .idle → s.sockets = 1 → s.connected = true → s.sockfd = some 0 →
      (s.readers 0).pc ≠ .absent → Phase s

/-- What a run without failures keeps. -/
structure Sunny (s : Channel ι Msg) : Prop where
  phase : s.Phase
  calm : ∀ c, (s.calls c).pc.troubled = false
  begun : ∀ c, (s.calls c).pc.early = false → s.connected = true
  whole : ∀ w ∈ s.writes, w.fd = some 0 ∧ w.count = some w.frame.length
  unswept : s.swept = false
  stays : ∀ r, (s.readers r).pc.leaves = false

variable {pb : Protobuf Msg} {args : ι → CallArgs Msg} {s s' : Channel ι Msg} {a : Act ι}

omit [DecidableEq ι] in
theorem smooth_oneConnection (ha : Smooth pb args s a) : OneConnection s a := by
  cases a with
  | socket ok => exact ha.2
  | _ => trivial

omit [DecidableEq ι] in
theorem Sunny.not_writeFailed (h : Sunny s) (c : ι) : (s.calls c).pc ≠ .writeFailed := by
  intro hpc
  have hcalm := h.calm c
  rw [hpc] at hcalm
  cases hcalm

omit [DecidableEq ι] in
/-- A call that is past its look at `connected_` finds the connection as the owner left it. -/
theorem Sunny.linked (h : Sunny s) (hcon : s.connected = true) :
    s.owner = .idle ∧ s.sockets = 1 ∧ s.sockfd = some 0 ∧ (s.readers 0).pc ≠ .absent := by
  rcases h.phase with ⟨-, -, hoff⟩ | ⟨-, -, hoff, -⟩ | ⟨h1, h2, -, h4, h5⟩
  · rw [hoff] at hcon
    cases hcon
  · rw [hoff] at hcon
    cases hcon
  · exact ⟨h1, h2, h4, h5⟩

/-- Only the owner moves the owner, the socket and `connected_`. -/
theorem link_effect (h : Sunny s) (he : s.enabled pb args a = true) (ha : Smooth pb args s a)
    (hsocket : ∀ ok, a ≠ .socket ok) (hconnect : ∀ ok, a ≠ .connect ok) :
    (s.effect pb args a).owner = s.owner ∧ (s.effect pb args a).sockets = s.sockets ∧
      (s.effect pb args a).connected = s.connected ∧ (s.effect pb args a).sockfd = s.sockfd := by
  cases a with
  | socket ok => exact absurd rfl (hsocket ok)
  | connect ok => exact absurd rfl (hconnect ok)
  | disconnect => exact absurd ha id
  | close =>
    have hclosing : s.owner = .closing := by simpa [enabled] using he
    rcases h.phase with ⟨hown, -⟩ | ⟨hown, -⟩ | ⟨hown, -⟩ <;>
      rw [hclosing] at hown <;> cases hown
  | readv r res =>
    obtain ⟨bytes, rfl⟩ := ha
    exact ⟨rfl, rfl, rfl, rfl⟩
  | parse r =>
    simp only [effect]
    split
    · exact ⟨rfl, rfl, rfl, rfl⟩
    · exact absurd ‹_› (ha _)
    · exact ⟨rfl, rfl, rfl, rfl⟩
  | check c =>
    simp only [effect]
    split <;> exact ⟨rfl, rfl, rfl, rfl⟩
  | write c count =>
    simp only [effect]
    split <;> exact ⟨rfl, rfl, rfl, rfl⟩
  | take r =>
    simp only [effect]
    split
    · split
      · exact ⟨rfl, rfl, rfl, rfl⟩
      · split <;> exact ⟨rfl, rfl, rfl, rfl⟩
    · exact ⟨rfl, rfl, rfl, rfl⟩
  | sweep r =>
    simp only [effect]
    split <;> exact ⟨rfl, rfl, rfl, rfl⟩
  | apply r =>
    simp only [effect]
    split <;> exact ⟨rfl, rfl, rfl, rfl⟩
  | flag r =>
    simp only [effect]
    split <;> exact ⟨rfl, rfl, rfl, rfl⟩
  | runDone r =>
    simp only [effect]
    split <;> exact ⟨rfl, rfl, rfl, rfl⟩
  | _ => exact ⟨rfl, rfl, rfl, rfl⟩

theorem phase_step (h : Sunny s) (ha : Smooth pb args s a)
    (hs : (machine pb args).step s a = some s') :
    s'.Phase ∧ (s.connected = true → s'.connected = true) := by
  have hreader := readers_step hs
  obtain ⟨he, rfl⟩ := step_iff.mp hs
  by_cases hsocket : ∃ ok, a = .socket ok
  · obtain ⟨ok, rfl⟩ := hsocket
    obtain ⟨rfl, hzero⟩ := ha
    rcases h.phase with ⟨-, -, hoff⟩ | ⟨-, hone, -⟩ | ⟨-, hone, -⟩
    · refine ⟨.connecting ?_ ?_ hoff ?_, id⟩ <;> simp [effect, hzero]
    · omega
    · omega
  by_cases hconnect : ∃ ok, a = .connect ok
  · obtain ⟨ok, rfl⟩ := hconnect
    cases ha
    rcases h.phase with ⟨hown, -⟩ | ⟨hown, hone, -, hfd⟩ | ⟨hown, -⟩
    · simp [enabled, hown] at he
    · refine ⟨.connected ?_ ?_ ?_ ?_ ?_, fun _ => ?_⟩ <;> simp [effect, hown, hone, hfd]
    · simp [enabled, hown] at he
  obtain ⟨h1, h2, h3, h4⟩ := link_effect h he ha (fun ok ho => hsocket ⟨ok, ho⟩)
    fun ok ho => hconnect ⟨ok, ho⟩
  refine ⟨?_, fun hcon => h3.trans hcon⟩
  rcases h.phase with ⟨hown, hone, hoff⟩ | ⟨hown, hone, hoff, hfd⟩ | ⟨hown, hone, hon, hfd, hpc⟩
  · exact .before (h1.trans hown) (h2.trans hone) (h3.trans hoff)
  · exact .connecting (h1.trans hown) (h2.trans hone) (h3.trans hoff) (h4.trans hfd)
  · refine .connected (h1.trans hown) (h2.trans hone) (h3.trans hon) (h4.trans hfd) ?_
    have hstep := hreader 0
    generalize (s.effect pb args a).readers 0 = x at hstep
    cases hstep with
    | same => exact hpc
    | _ => simp

/-- A call that writes finds the socket, and its write takes the whole frame. -/
theorem write_smooth (h : Sunny s) {c : ι} {count : Option Nat}
    (he : s.enabled pb args (.write c count) = true) (ha : Smooth pb args s (.write c count)) :
    s.effect pb args (.write c count) =
      { s.modify c fun k =>
          { k with pc := if (args c).hasDone then .returned else .written } with
        wire := Function.update s.wire 0
          (s.wire 0 ++ callFrame pb (args c) (s.calls c).requestId)
        writes := s.writes ++ [⟨c, some 0, callFrame pb (args c) (s.calls c).requestId,
          some (callFrame pb (args c) (s.calls c).requestId).length⟩] } := by
  simp only [enabled, Bool.and_eq_true, decide_eq_true_eq] at he
  obtain ⟨-, -, hfd, -⟩ := h.linked (h.begun c (by rw [he.1.1]; rfl))
  cases ha
  simp only [effect, hfd, List.take_length]

theorem calm_step (hr : (machine pb args).Reach s) (h : Sunny s) (ha : Smooth pb args s a)
    (hs : (machine pb args).step s a = some s') (c : ι) :
    (s'.calls c).pc.troubled = false ∧
      ((s'.calls c).pc.early = false → (s.calls c).pc.early = false ∨ s.connected = true) := by
  have hcall := calls_step hr hs c
  obtain ⟨he, rfl⟩ := step_iff.mp hs
  have hold := h.calm c
  generalize hk : (s.effect pb args a).calls c = k at hcall ⊢
  cases hcall with
  | same => exact ⟨hold, Or.inl⟩
  | enter hpc => exact ⟨rfl, fun hearly => by cases hearly⟩
  | check hpc => exact ⟨rfl, fun _ => Or.inr ha⟩
  | refuse hpc =>
    have hcon : s.connected = true := ha
    simp [effect, hcon, modify, Call.runDone] at hk
  | draw id ticket hpc => exact ⟨rfl, fun _ => Or.inl (by rw [hpc]; rfl)⟩
  | insert late hpc => exact ⟨rfl, fun _ => Or.inl (by rw [hpc]; rfl)⟩
  | written n hpc =>
    refine ⟨?_, fun _ => Or.inl (by rw [hpc]; rfl)⟩
    dsimp only
    split <;> rfl
  | writeFailed count hpc =>
    rw [write_smooth h he ha] at hk
    have hpcs := congrArg Call.pc hk
    simp only [modify, Function.update_self] at hpcs
    split at hpcs <;> cases hpcs
  | failWrite hpc => exact absurd hpc (h.not_writeFailed c)
  | wait hpc =>
    refine ⟨?_, fun _ => Or.inl (by rw [hpc]; rfl)⟩
    dsimp only
    split <;> rfl
  | wake hpc _ => exact ⟨rfl, fun _ => Or.inl (by rw [hpc]; rfl)⟩
  | apply r resp _ => exact ⟨by simpa using hold, fun hearly => Or.inl (by simpa using hearly)⟩
  | _ => exact ⟨hold, Or.inl⟩

/-- A reader that has begun is the first, and finds the channel connected. -/
theorem begun_connected (hr : (machine pb args).Reach s) (h : Sunny s) {r : Nat}
    (hpc : (s.readers r).pc ≠ .absent) : s.connected = true ∧ r = 0 := by
  have hopened := opened_reach hr
  have hbelow : r < s.sockets := by
    by_contra hge
    exact hpc (hopened.unopened r (by omega))
  rcases h.phase with ⟨-, hone, -⟩ | ⟨hown, hone, -, -⟩ | ⟨-, hone, hon, -, -⟩
  · omega
  · have hzero : r = 0 := by omega
    rw [hzero] at hpc
    exact absurd (hopened.connecting 0 hown).2 hpc
  · exact ⟨hon, by omega⟩

theorem stays_step (hr : (machine pb args).Reach s) (h : Sunny s) (ha : Smooth pb args s a)
    (hs : (machine pb args).step s a = some s') (r : Nat) : (s'.readers r).pc.leaves = false := by
  have hstep := readers_step hs r
  have hold := h.stays r
  generalize s'.readers r = x at hstep
  cases hstep with
  | same => exact hold
  | leave hpc hoff =>
    rw [(begun_connected (r := r) hr h (by simp [hpc])).1] at hoff
    cases hoff
  | endOfFile hpc =>
    obtain ⟨bytes, hbytes⟩ := ha
    cases hbytes
  | readError hpc =>
    obtain ⟨bytes, hbytes⟩ := ha
    cases hbytes
  | sweep cause hpc =>
    rw [hpc] at hold
    cases hold
  | badMagic e hpc hpass => exact absurd hpass (ha e)
  | _ => rfl

theorem whole_step (h : Sunny s) (ha : Smooth pb args s a)
    (hs : (machine pb args).step s a = some s') :
    ∀ w ∈ s'.writes, w.fd = some 0 ∧ w.count = some w.frame.length := by
  obtain ⟨he, rfl⟩ := step_iff.mp hs
  by_cases hwrite : ∃ c count, a = .write c count
  · obtain ⟨c, count, rfl⟩ := hwrite
    rw [write_smooth h he ha]
    intro w hw
    rcases List.mem_append.mp hw with hw | hw
    · exact h.whole w hw
    · rw [List.mem_singleton.mp hw]
      exact ⟨rfl, rfl⟩
  · rw [((frame_effect pb args s a).stream fun c count hc => hwrite ⟨c, count, hc⟩).2]
    exact h.whole

theorem sunny_reach (h : (machine pb args).ReachUnder (Smooth pb args) s) : Sunny s := by
  refine h.invariant (I := Sunny) ?_ ?_
  · refine ⟨.before rfl rfl rfl, ?_, ?_, ?_, rfl, ?_⟩ <;>
      simp [machine, init, CallPc.troubled, CallPc.early, ReaderPc.leaves]
  · intro s a s' hr hi ha hs
    obtain ⟨hphase, hcon⟩ := phase_step hi ha hs
    have hcalm := calm_step hr.reach hi ha hs
    refine ⟨hphase, fun c => (hcalm c).1, ?_, whole_step hi ha hs, ?_, stays_step hr.reach hi ha hs⟩
    · intro c hearly
      rcases (hcalm c).2 hearly with hbefore | hnow
      · exact hcon (hi.begun c hbefore)
      · exact hcon hnow
    · obtain ⟨he, rfl⟩ := step_iff.mp hs
      by_cases hsweep : ∃ r, a = .sweep r
      · obtain ⟨r, rfl⟩ := hsweep
        have hstays := hi.stays r
        simp only [enabled] at he
        split at he
        · rename_i cause hpc
          rw [hpc] at hstays
          cases hstays
        · cases he
      · rw [(frame_effect pb args s a).swept fun r hr => hsweep ⟨r, hr⟩]
        exact hi.unswept

/-! ## The calls of such a run -/

/-- With few calls the counter of the ids never comes round. -/
theorem window_of_few [Fintype ι] (hfew : Fintype.card ι < 2 ^ 32)
    (h : (machine pb args).Reach s) : (machine pb args).ReachUnder InWindow s := by
  induction h with
  | init => exact .init
  | @step s s' a hr _ hs ih =>
    refine ih.step ?_ hs
    have hdrawn := drawn_le_card hr
    cases a with
    | draw c =>
      intro d _
      omega
    | _ => trivial

/-- A call that was stored is in the table, until a response comes for it. -/
theorem in_table [Fintype ι] (hfew : Fintype.card ι < 2 ^ 32) (hr : (machine pb args).Reach s)
    (h : Sunny s) {c : ι} (hst : (s.calls c).pc.stored = true)
    (hun : (s.calls c).stage = .untouched) :
    s.pendingCalls (s.calls c).requestId = some c := by
  rcases (kept_reach (window_of_few hfew hr)).kept c hst with hfin | htable | hhand
  · have hcalm := h.calm c
    simp only [Call.finished, Bool.or_eq_true, decide_eq_true_eq] at hfin
    rcases hfin with hflag | hfailed
    · have hswept := swept_of_marked hr hflag hun
      rw [h.unswept] at hswept
      cases hswept
    · rw [hfailed] at hcalm
      cases hcalm
  · exact htable
  · rw [hun] at hhand
    cases hhand

/-- A call that is flagged is still in the hand of the reader that has flagged it. -/
theorem flagged_held (h : (machine pb args).Reach s) (c : ι) (resp : RpcResponse)
    (hc : (s.calls c).stage = .flagged resp) : ∃ r, (s.readers r).pc = .flagged c resp := by
  revert hc
  refine h.invariant (I := fun s => (s.calls c).stage = .flagged resp →
    ∃ r, (s.readers r).pc = .flagged c resp) ?_ ?_
  · intro hc
    simp [machine, init] at hc
  · intro s a s' hr hi hs hc
    have hcall := calls_step hr hs c
    have hreader := readers_step hs
    obtain ⟨he, rfl⟩ := step_iff.mp hs
    by_cases hrun : ∃ q, a = .runDone q
    · obtain ⟨q, rfl⟩ := hrun
      simp only [enabled] at he
      split at he
      · rename_i e resp' hq
        simp only [effect, hq] at hc ⊢
        have hce : c ≠ e := by
          rintro rfl
          simp [setReader, modify, Call.runDone] at hc
        obtain ⟨r, hpc⟩ := hi (by simpa [setReader, modify, hce] using hc)
        have hrq : r ≠ q := by
          rintro rfl
          rw [hq] at hpc
          cases hpc
          exact hce rfl
        exact ⟨r, by simpa [setReader, modify, hrq] using hpc⟩
      · cases he
    -- a reader at this call goes on by running the closure only
    have hstays : (s.calls c).stage = .flagged resp →
        ∃ r, ((s.effect pb args a).readers r).pc = .flagged c resp := by
      intro hst
      obtain ⟨r, hpc⟩ := hi hst
      have hstep := hreader r
      refine ⟨r, ?_⟩
      generalize (s.effect pb args a).readers r = x at hstep
      cases hstep with
      | same => exact hpc
      | runDone => exact absurd ⟨r, rfl⟩ hrun
      | start hown => exact absurd hown (not_restarted hr (by simp [hpc]))
      | _ => simp_all
    generalize hk : (s.effect pb args a).calls c = k at hcall hc
    cases hcall with
    | take r resp' _ _ _ => cases hc
    | apply r resp' _ => cases hc
    | runDone r resp' _ => cases hc
    | flag q resp' hst =>
      simp only [enabled] at he
      split at he
      · rename_i e resp'' hq
        have hstage := congrArg Call.stage hk
        simp only [effect, hq] at hstage ⊢
        have hce : c = e := by
          by_contra hce
          simp [setReader, modify, hce, hst] at hstage
        subst hce
        simp only [setReader, modify, Function.update_self] at hstage
        cases hstage
        cases hc
        exact ⟨q, by simp [setReader]⟩
      · cases he
    | _ => exact hstays hc

/-- The closure of a call has run when `on_message` is through with it, and not before. -/
theorem runs_exact (h : (machine pb args).ReachUnder (Smooth pb args) s) (c : ι) :
    (s.calls c).doneRuns = if (args c).hasDone then messageRuns (s.calls c).stage else 0 := by
  refine h.invariant (I := fun s => (s.calls c).doneRuns =
    if (args c).hasDone then messageRuns (s.calls c).stage else 0) ?_ ?_
  · simp [machine, init, messageRuns]
  · intro s a s' hr hi ha hs
    have hsunny := sunny_reach hr
    have hcalm := (calm_step hr.reach hsunny ha hs c).1
    have hcall := calls_step hr.reach hs c
    generalize s'.calls c = k at hcall hcalm
    cases hcall with
    | refuse hpc => cases hcalm
    | failWrite hpc => cases hcalm
    | take r resp _ hun _ => simpa [hun, messageRuns] using hi
    | apply r resp hst => simpa [hst, messageRuns] using hi
    | flag r resp hst => simpa [hst, messageRuns] using hi
    | runDone r resp hst =>
      rw [hst] at hi
      simp only [Call.runDone, hi, messageRuns]
      split <;> simp_all
    | _ => exact hi

end Channel

/-! ## The server -/

/-- The response is serialised, and no receiver refuses its body. -/
def Sendable (pb : Protobuf Msg) (resp : RpcResponse) : Prop :=
  ∃ b, b.length ≤ kMaxBodySize ∧ pb.serializeResponse resp = some b

/-- What a handler may give: it fills the response object that it was given, and the response
to its outcome can be sent. -/
structure Serves (pb : Protobuf Msg) (typeName : Msg → String) (method : Method Msg)
    (controller : RpcController) (response : Msg) : Prop where
  filled : typeName response = typeName method.responsePrototype
  serialised : ∃ b, pb.serialize response = some b
  sendable : ∀ id, Sendable pb (dispatchResponse pb id controller response)

namespace Server

variable {κ : Type}

/-- The step does not fail: the replies and the outcomes can be sent, and a connection is
opened and not closed. -/
def Smooth (pb : Protobuf Msg) (typeName : Msg → String)
    (services : String → Option (Service Msg)) (s : Server κ Msg) : Act κ Msg → Prop
  | .frame _ bytes => ∀ req resp, pb.parseRequest bytes = some req →
      onRequest pb services req = .reply resp → Sendable pb resp
  | .finish i controller response => ∀ r, s.running[i]? = some r →
      Serves pb typeName r.task.method controller response
  | .setState k state => s.connState k = .kConnecting ∧ state = .kConnected
  | _ => True

/-- What a run without failures keeps. -/
structure Sunny (pb : Protobuf Msg) (typeName : Msg → String)
    (services : String → Option (Service Msg)) (s : Server κ Msg) : Prop where
  opens : ∀ k, s.connState k = .kConnecting ∨ s.connState k = .kConnected
  outcomes : ∀ o ∈ s.outcomes, (∃ b, pb.serialize o.2.2 = some b) ∧
    ∃ task, Submitted pb services s task ∧ task.ticket = o.1 ∧
      typeName o.2.2 = typeName task.method.responsePrototype
  finished : ∀ r ∈ s.running, ∀ controller response, r.progress = .finished controller response →
    ∀ id, Sendable pb (dispatchResponse pb id controller response)
  queued : ∀ p ∈ s.loop.queued, Sendable pb p.2
  answered : ∀ a ∈ s.answered, Sendable pb a.response
  dropped : s.dropped = []
  refused : s.refused = []

variable [DecidableEq κ] {pb : Protobuf Msg} {typeName : Msg → String}
  {services : String → Option (Service Msg)} {threads : Nat} {s s' : Server κ Msg}
  {a : Act κ Msg}

/-- A response that can be sent is sent on an open connection. -/
theorem sunny_send (h : Sunny pb typeName services s) {ticket : Ticket κ} {resp : RpcResponse}
    (hopen : s.connState ticket.conn = .kConnected) (hresp : Sendable pb resp) :
    Sunny pb typeName services (s.send pb ticket resp) := by
  obtain ⟨b, hb, hser⟩ := hresp
  rcases send_cases pb s ticket resp with ⟨body, -, -, heq⟩ | ⟨hclosed, -⟩ | ⟨hnone, -⟩
  · rw [heq]
    refine ⟨h.opens, h.outcomes, h.finished, h.queued, ?_, h.dropped, h.refused⟩
    intro a ha
    rcases List.mem_append.mp ha with ha | ha
    · exact h.answered a ha
    · rw [List.mem_singleton.mp ha]
      exact ⟨b, hb, hser⟩
  · exact absurd hopen hclosed
  · rw [hser] at hnone
    cases hnone

theorem sunny_onFrame (h : Sunny pb typeName services s) {k : κ} {bytes : Bytes}
    (ha : Smooth pb typeName services s (.frame k bytes)) (hk : s.connState k ≠ .kConnecting) :
    Sunny pb typeName services (s.onFrame pb services k bytes) := by
  have hopen := (h.opens k).resolve_left hk
  unfold onFrame
  split
  · exact h
  · rename_i req hreq
    dsimp only
    have hreceived : Sunny pb typeName services { s with
        received := s.received ++ [(⟨s.received.length, k, req.requestId⟩, req)] } := by
      refine ⟨h.opens, ?_, h.finished, h.queued, h.answered, h.dropped, h.refused⟩
      intro o ho
      obtain ⟨hser, task, hsub, hticket⟩ := h.outcomes o ho
      exact ⟨hser, task, hsub.mono ⟨fun p hp => List.mem_append_left _ hp, fun _ h => h⟩, hticket⟩
    split
    · rename_i resp hreply
      exact sunny_send hreceived hopen (ha req resp hreq hreply)
    · exact ⟨hreceived.opens, hreceived.outcomes, hreceived.finished, hreceived.queued,
        hreceived.answered, hreceived.dropped, hreceived.refused⟩

omit [DecidableEq κ] in
/-- A worker goes on with the task at place `i`. -/
theorem sunny_advance (h : Sunny pb typeName services s) {i : Nat} {r : Running κ Msg}
    (hr : ∀ controller response, r.progress = .finished controller response →
      ∀ id, Sendable pb (dispatchResponse pb id controller response)) :
    Sunny pb typeName services (s.advance i r) := by
  refine ⟨h.opens, h.outcomes, ?_, h.queued, h.answered, h.dropped, h.refused⟩
  intro q hq
  rcases List.mem_append.mp hq with hq | hq
  · exact h.finished q (List.mem_of_mem_eraseIdx hq)
  · rw [List.mem_singleton.mp hq]
    exact hr

theorem sunny_step (hr : (machine pb services threads).Reach s)
    (h : Sunny pb typeName services s) (ha : Smooth pb typeName services s a)
    (hs : step pb services threads s a = some s') : Sunny pb typeName services s' := by
  have hsound := sound_reach hr
  unfold step at hs
  cases a with
  | frame k bytes =>
    dsimp only at hs
    split at hs
    · rename_i hguard
      cases hs
      exact sunny_onFrame h ha hguard.2
    · cases hs
  | take =>
    dsimp only at hs
    split at hs
    · cases hs
    · split at hs
      · cases hs
        refine ⟨h.opens, h.outcomes, ?_, h.queued, h.answered, h.dropped, h.refused⟩
        intro r hr controller response hprogress
        rcases List.mem_append.mp hr with hr | hr
        · exact h.finished r hr controller response hprogress
        · rw [List.mem_singleton.mp hr] at hprogress
          cases hprogress
      · cases hs
  | call i =>
    dsimp only at hs
    split at hs
    · cases hs
      obtain ⟨h1, h2, h3, h4, h5, h6, h7⟩ :=
        sunny_advance (i := i) (r := ⟨_, .called⟩) h (fun _ _ hp => by cases hp)
      exact ⟨h1, h2, h3, h4, h5, h6, h7⟩
    · cases hs
  | finish i controller response =>
    dsimp only at hs
    split at hs
    · rename_i task hi
      cases hs
      have hserves := ha _ hi
      obtain ⟨hsub, -⟩ := hsound.content.running _ (List.mem_of_getElem? hi)
      obtain ⟨h1, -, h3, h4, h5, h6, h7⟩ :=
        sunny_advance (i := i) (r := ⟨task, .finished controller response⟩) h
          (fun _ _ hp => by cases hp; exact hserves.sendable)
      refine ⟨h1, ?_, h3, h4, h5, h6, h7⟩
      have hgrown : Grown s { s.advance i ⟨task, .finished controller response⟩ with
          outcomes := s.outcomes ++ [(task.ticket, controller, response)] } :=
        ⟨fun _ h => h, fun _ h => List.mem_append_left _ h⟩
      intro o ho
      rcases List.mem_append.mp ho with ho | ho
      · obtain ⟨hser, task', hsub', hticket⟩ := h.outcomes o ho
        exact ⟨hser, task', hsub'.mono hgrown, hticket⟩
      · rw [List.mem_singleton.mp ho]
        exact ⟨hserves.serialised, task, hsub.mono hgrown, rfl, hserves.filled⟩
    · cases hs
  | respond i =>
    dsimp only at hs
    split at hs
    · rename_i task controller response hi
      cases hs
      refine ⟨h.opens, h.outcomes, ?_, ?_, h.answered, h.dropped, h.refused⟩
      · exact fun r hr => h.finished r (List.mem_of_mem_eraseIdx hr)
      · intro p hp
        rw [EventLoop.queued_queueInLoop] at hp
        rcases List.mem_append.mp hp with hp | hp
        · exact h.queued p hp
        · rw [List.mem_singleton.mp hp]
          exact h.finished _ (List.mem_of_getElem? hi) controller response rfl _
    · cases hs
  | swap =>
    obtain ⟨l, hl, rfl⟩ := Option.map_eq_some_iff.mp hs
    refine ⟨h.opens, h.outcomes, h.finished, ?_, h.answered, h.dropped, h.refused⟩
    intro p hp
    exact h.queued p (by rwa [EventLoop.queued_swap hl] at hp)
  | functor =>
    obtain ⟨⟨⟨t, resp⟩, l⟩, hl, rfl⟩ := Option.map_eq_some_iff.mp hs
    have hqueued := EventLoop.queued_next hl
    have hmem : (t, resp) ∈ s.loop.queued := by
      rw [hqueued]
      exact List.mem_cons_self
    obtain ⟨req, hreq, -⟩ := hsound.content.queued _ hmem
    have hopen := (h.opens t.conn).resolve_left (hsound.ledger.named _ hreq).2
    have hrest : Sunny pb typeName services { s with loop := l } := by
      refine ⟨h.opens, h.outcomes, h.finished, ?_, h.answered, h.dropped, h.refused⟩
      intro p hp
      refine h.queued p ?_
      rw [hqueued]
      exact List.mem_cons_of_mem _ hp
    exact sunny_send hrest hopen (h.queued _ hmem)
  | setState k state =>
    obtain ⟨hbefore, rfl⟩ := ha
    simp only at hs
    cases hs
    refine ⟨?_, h.outcomes, h.finished, h.queued, h.answered, h.dropped, h.refused⟩
    intro k'
    by_cases hk : k' = k
    · subst hk
      simp
    · simpa [hk] using h.opens k'

theorem sunny_reach
    (h : (machine pb services threads).ReachUnder (Smooth pb typeName services) s) :
    Sunny pb typeName services s := by
  refine h.invariant (I := Sunny pb typeName services) ?_ ?_
  · refine ⟨fun _ => Or.inl rfl, ?_, ?_, ?_, ?_, rfl, rfl⟩ <;> simp [machine, new]
  · intro s a s' hr hi ha hs
    exact sunny_step hr.reach hi ha hs

/-- A handler gave an object of the type of its method. -/
theorem Sunny.typed (hr : (machine pb services threads).Reach s)
    (h : Sunny pb typeName services s) :
    ∀ task ∈ s.invoked, ∀ o ∈ s.outcomes, o.1 = task.ticket →
      typeName o.2.2 = typeName task.method.responsePrototype := by
  intro task htask o ho hticket
  obtain ⟨-, task', ⟨req', hreq', hsub'⟩, hticket', htype⟩ := h.outcomes o ho
  obtain ⟨req, hreq, hsub⟩ := invoked_submitted hr task htask
  -- both tasks are the one of the same request
  rw [hticket', hticket] at hreq'
  rw [(sound_reach hr).ledger.request_unique hreq' hreq, hsub] at hsub'
  have hmethod : task.method = task'.method := by
    injection hsub'
  rw [htype, hmethod]

end Server

end rpc
