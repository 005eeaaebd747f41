-- What a response does to its call. `on_message` writes the outcome of a call
-- once, over the controller and the response object that the caller passed, as
-- long as one connection is made: the only reader has then swept nothing while
-- it still reads.
import RpcFramework.ChannelClose

namespace rpc

open net codec runs

variable {ι Msg : Type} [DecidableEq ι]

/-! ## The outcome of one call -/

/-- The response that `on_message` has taken the call for. -/
def Stage.response : Stage → Option RpcResponse
  | .untouched => none
  | .taken resp | .applied resp | .flagged resp | .finished resp => some resp

/-- The controller and the response object that `on_message` leaves to the caller. -/
def outcomeOf (pb : Protobuf Msg) (a : CallArgs Msg) (resp : RpcResponse) :
    RpcController × Msg :=
  if resp.success then (a.controller, (pb.parse a.response resp.resultData).1)
  else (a.controller.setFailed resp.errorMsg, a.response)

/-- What the controller and the response object of a call hold, when it was neither refused
nor reported and no sweep has marked it. -/
def Call.Delivered (pb : Protobuf Msg) (a : CallArgs Msg) (k : Call Msg) : Prop :=
  k.pc ≠ .refused → k.pc ≠ .failed →
    match k.stage with
    | .untouched => k.doneFlag = false → (k.controller, k.response) = (a.controller, a.response)
    | .taken _ => (k.controller, k.response) = (a.controller, a.response)
    | .applied resp | .flagged resp | .finished resp =>
      (k.controller, k.response) = outcomeOf pb a resp

/-- Writing the outcome changes the controller and the response object only. -/
theorem Call.apply_eq (pb : Protobuf Msg) (a : CallArgs Msg) (resp : RpcResponse) {k : Call Msg}
    (hk : (k.controller, k.response) = (a.controller, a.response)) :
    k.apply pb resp =
      { k with controller := (outcomeOf pb a resp).1, response := (outcomeOf pb a resp).2 } := by
  obtain ⟨hc, hr⟩ := Prod.mk.inj hk
  unfold Call.apply outcomeOf
  split
  · rw [← hc, ← hr]
  · rw [← hc, ← hr]

namespace Channel

variable {pb : Protobuf Msg} {args : ι → CallArgs Msg} {s s' : Channel ι Msg} {a : Act ι}

omit [DecidableEq ι] in
/-- Each change of a call keeps its outcome, if a response finds it unmarked. -/
theorem CallStep.keeps_delivered {c : ι} {k k' : Call Msg} (h : CallStep pb (args c) c k a k')
    (htake : ∀ r, a = .take r → k.stage = .untouched → k'.stage ≠ .untouched → k.doneFlag = false)
    (hk : k.Delivered pb (args c)) : k'.Delivered pb (args c) := by
  unfold Call.Delivered at *
  cases h with
  | same => exact hk
  | refuse hpc => exact fun hne => absurd rfl hne
  | failWrite hpc => exact fun _ hne => absurd rfl hne
  | sweep r hst hun =>
    intro _ _
    simp [Call.sweep, hun]
  | take r resp hst hun hid =>
    intro h1 h2
    have hinit := hk h1 h2
    rw [hun] at hinit
    exact hinit (htake r rfl hun (by simp))
  | apply r resp hst =>
    intro h1 h2
    simp only [Call.apply_pc] at h1 h2
    have hinit := hk h1 h2
    rw [hst] at hinit
    rw [Call.apply_eq pb (args c) resp hinit]
  | flag r resp hst =>
    intro h1 h2
    have hout := hk h1 h2
    rw [hst] at hout
    exact hout
  | runDone r resp hst =>
    intro h1 h2
    have hout := hk h1 h2
    rw [hst] at hout
    exact hout
  | enter hpc => exact fun _ _ => hk (by simp [hpc]) (by simp [hpc])
  | check hpc => exact fun _ _ => hk (by simp [hpc]) (by simp [hpc])
  | draw id ticket hpc => exact fun _ _ => hk (by simp [hpc]) (by simp [hpc])
  | insert late hpc => exact fun _ _ => hk (by simp [hpc]) (by simp [hpc])
  | written n hpc => exact fun _ _ => hk (by simp [hpc]) (by simp [hpc])
  | writeFailed count hpc => exact fun _ _ => hk (by simp [hpc]) (by simp [hpc])
  | wait hpc => exact fun _ _ => hk (by simp [hpc]) (by simp [hpc])
  | wake hpc _ => exact fun _ _ => hk (by simp [hpc]) (by simp [hpc])

/-! ## No response after the sweep -/

/-- A call that is marked but not answered was marked by a sweep. -/
theorem swept_of_marked (h : (machine pb args).Reach s) {c : ι}
    (hflag : (s.calls c).doneFlag = true) (hun : (s.calls c).stage = .untouched) :
    s.swept = true := by
  revert hflag hun
  refine h.invariant (I := fun s => (s.calls c).doneFlag = true → (s.calls c).stage = .untouched →
    s.swept = true) ?_ ?_
  · intro hflag
    simp [machine, init] at hflag
  · intro s a s' hr hi hs hflag hun
    have hcall := calls_step hr hs c
    obtain ⟨he, rfl⟩ := step_iff.mp hs
    by_cases hsweep : ∃ q, a = .sweep q
    · obtain ⟨q, rfl⟩ := hsweep
      simp only [enabled] at he
      split at he
      · rename_i cause hq
        simp [effect, hq]
      · cases he
    · rw [(frame_effect pb args s a).swept fun q hq => hsweep ⟨q, hq⟩]
      generalize (s.effect pb args a).calls c = k' at hcall hflag hun
      cases hcall with
      | sweep r _ _ => exact absurd ⟨r, rfl⟩ hsweep
      | take r resp _ _ _ => cases hun
      | apply r resp _ => cases hun
      | flag r resp _ => cases hun
      | runDone r resp _ => cases hun
      | _ => exact hi hflag hun

/-- A reader that has left its loop does not come back. -/
theorem exited_stays (h : (machine pb args).Reach s) (hs : (machine pb args).step s a = some s')
    {r : Nat} {cause : ExitCause} (hr : (s.readers r).pc = .exited cause) :
    (s'.readers r).pc = .exited cause := by
  have hstep := readers_step hs r
  generalize s'.readers r = x at hstep
  cases hstep with
  | same => exact hr
  | start hown => exact absurd hown (not_restarted h (by simp [hr]))
  | _ => simp_all

/-- When a sweep has run, its reader is gone. -/
theorem gone_of_swept (h : (machine pb args).Reach s) (hsw : s.swept = true) : Gone s := by
  revert hsw
  refine h.invariant (I := fun s => s.swept = true → Gone s) ?_ ?_
  · intro hsw
    simp [machine, init] at hsw
  · intro s a s' hr hi hs hsw
    by_cases hsweep : ∃ q, a = .sweep q
    · obtain ⟨q, rfl⟩ := hsweep
      obtain ⟨he, rfl⟩ := step_iff.mp hs
      simp only [enabled] at he
      split at he
      · rename_i cause hq
        exact ⟨q, cause, by simp [effect, hq, setReader], closing_cause hr hq⟩
      · cases he
    · have hold : s.swept = true := by
        rw [← (frame_effect pb args s a).swept fun q hq => hsweep ⟨q, hq⟩,
          (step_iff.mp hs).2, hsw]
      obtain ⟨r, cause, hq, hcause⟩ := hi hold
      exact ⟨r, cause, exited_stays hr hs hq, hcause⟩

/-- The only reader is at a message, so no call was marked by a sweep. -/
theorem unmarked_at_message (h : (machine pb args).ReachUnder OneConnection s) {r : Nat}
    {body : Bytes} (hr : (s.readers r).pc = .message body) {c : ι}
    (hun : (s.calls c).stage = .untouched) : (s.calls c).doneFlag = false := by
  by_contra hflag
  have hswept := swept_of_marked h.reach (by simpa using hflag) hun
  obtain ⟨q, cause, hq, -⟩ := gone_of_swept h.reach hswept
  have hr0 : r = 0 := only_reader h (by simp [hr])
  have hq0 : q = 0 := only_reader h (by simp [hq])
  rw [hr0] at hr
  rw [hq0, hr] at hq
  cases hq

/-- A call leaves the table for a response that a frame of its reader holds. -/
theorem taken_for {r : Nat} (hs : (machine pb args).step s (.take r) = some s') {c : ι}
    (hun : (s.calls c).stage = .untouched) (hst : (s'.calls c).stage ≠ .untouched) :
    ∃ body resp, (s.readers r).pc = .message body ∧ pb.parseResponse body = some resp ∧
      s.pendingCalls resp.requestId = some c ∧ (s'.calls c).stage = .taken resp := by
  obtain ⟨he, rfl⟩ := step_iff.mp hs
  simp only [effect] at hst ⊢
  split at hst
  · rename_i body hbody
    split at hst
    · exact absurd hun hst
    · rename_i resp hresp
      split at hst
      · exact absurd hun hst
      · rename_i d hd
        have hcd : c = d := by
          by_contra hne
          exact hst (by simp [setReader, modify, hne, hun])
        subst hcd
        exact ⟨body, resp, hbody, hresp, hd, by simp [setReader, modify]⟩
  · exact absurd hun hst

/-- A call has the response that it had, or has just left the table for it. -/
theorem response_step (h : (machine pb args).Reach s) (hs : (machine pb args).step s a = some s')
    {c : ι} {resp : RpcResponse} (hc : (s'.calls c).stage.response = some resp) :
    (s'.calls c).requestId = (s.calls c).requestId ∧ ((s.calls c).stage.response = some resp ∨
      ∃ r body, a = .take r ∧ (s.readers r).pc = .message body ∧
        pb.parseResponse body = some resp ∧ resp.requestId = (s.calls c).requestId) := by
  have hstep := calls_step h hs c
  have hdraw : a ≠ .draw c := by
    rintro rfl
    have hpc : (s.calls c).pc = .checked := by simpa [enabled] using (step_iff.mp hs).1
    have hun := ((good_reach h).fresh c (by simp [hpc, CallPc.stored]) (by simp [hpc])).1
    rw [CallStep.keeps_stage hstep rfl, hun] at hc
    cases hc
  refine ⟨(CallStep.keeps_id hstep hdraw).2.1, ?_⟩
  by_cases hun : (s.calls c).stage = .untouched
  · have htouched : (s'.calls c).stage ≠ .untouched := by
      intro hnone
      rw [hnone] at hc
      cases hc
    generalize hk : s'.calls c = k' at hstep hc htouched
    cases hstep with
    | take r resp' _ _ hid =>
      obtain ⟨body, resp'', hbody, hparse, -, hst⟩ := taken_for hs hun (by rw [hk]; exact htouched)
      rw [hk] at hst
      cases hst
      cases hc
      exact Or.inr ⟨r, body, rfl, hbody, hparse, hid.symm⟩
    | apply r resp' hst => simp [hun] at hst
    | flag r resp' hst => simp [hun] at hst
    | runDone r resp' hst => simp [hun] at hst
    | _ => exact absurd hun htouched
  · left
    generalize s'.calls c = k' at hstep hc
    cases hstep with
    | take r resp' _ hun' _ => exact absurd hun' hun
    | apply r resp' hst => rw [hst]; exact hc
    | flag r resp' hst => rw [hst]; exact hc
    | runDone r resp' hst => rw [hst]; exact hc
    | _ => exact hc

theorem delivered_reach (h : (machine pb args).ReachUnder OneConnection s) (c : ι) :
    (s.calls c).Delivered pb (args c) := by
  refine h.invariant (I := fun s => (s.calls c).Delivered pb (args c)) ?_ ?_
  · intro _ _ _
    rfl
  · intro s a s' hr hi _ hs
    refine CallStep.keeps_delivered (calls_step hr.reach hs c) ?_ hi
    rintro r rfl hun hst
    obtain ⟨body, resp, hbody, -⟩ := taken_for hs hun hst
    exact unmarked_at_message hr hbody hun

end Channel

end rpc
