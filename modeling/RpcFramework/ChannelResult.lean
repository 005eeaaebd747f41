-- What a successful call returns. `on_message` reads `result_data` into the
-- response object of the caller and does not look at whether that succeeded. So a
-- call without a failure has the server's result as long as each result that is
-- read parses.
import RpcFramework.ChannelTable

namespace rpc

open net codec runs

variable {ι Msg : Type} [DecidableEq ι]

/-- The response whose outcome `on_message` has written. -/
def Stage.outcome : Stage → Option RpcResponse
  | .untouched | .taken _ => none
  | .applied resp | .flagged resp | .finished resp => some resp

/-- The call has the server's result, or has failed: what it was answered with is a success, and
its response object is the message that `result_data` decodes to. -/
def Call.Honest (pb : Protobuf Msg) (a : CallArgs Msg) (k : Call Msg) : Prop :=
  ∀ resp, k.stage.outcome = some resp → k.controller.failed = false →
    resp.success = true ∧ pb.parse a.response resp.resultData = (k.response, true)

namespace Channel

variable {pb : Protobuf Msg} {args : ι → CallArgs Msg} {s s' : Channel ι Msg} {a : Act ι}

/-- A response object is written to when the outcome is, and not before. -/
theorem response_kept (h : (machine pb args).Reach s) (c : ι)
    (hc : (s.calls c).stage.outcome = none) : (s.calls c).response = (args c).response := by
  revert hc
  refine h.invariant (I := fun s => (s.calls c).stage.outcome = none →
    (s.calls c).response = (args c).response) ?_ ?_
  · exact fun _ => rfl
  · intro s a s' hr hi hs hc
    have hstep := calls_step hr hs c
    generalize s'.calls c = k' at hstep hc
    cases hstep with
    | take r resp _ hun _ => exact hi (by rw [hun]; rfl)
    | apply r resp _ => cases hc
    | flag r resp _ => cases hc
    | runDone r resp _ => cases hc
    | _ => exact hi hc

/-- The result that `on_message` reads parses, unless the call has failed before. -/
def ResultParses (pb : Protobuf Msg) (s : Channel ι Msg) : Act ι → Prop
  | .apply r => ∀ c resp, (s.readers r).pc = .taken c resp → resp.success = true →
      (s.calls c).controller.failed = false →
      (pb.parse (s.calls c).response resp.resultData).2 = true
  | _ => True

instance (pb : Protobuf Msg) (s : Channel ι Msg) (a : Act ι) : Decidable (ResultParses pb s a) :=
  match a with
  | .apply r =>
    match hr : (s.readers r).pc with
    | .taken c resp =>
      decidable_of_iff (resp.success = true → (s.calls c).controller.failed = false →
        (pb.parse (s.calls c).response resp.resultData).2 = true) <| by
          simp only [ResultParses, hr, ReaderPc.taken.injEq, and_imp]
          refine ⟨?_, fun h => h c resp rfl rfl⟩
          rintro h _ _ rfl rfl
          exact h
    | .absent | .loop | .reading | .closing _ | .parsing | .message _ | .applied _ _ | .flagged _ _
    | .exited _ => isTrue (by simp [ResultParses, hr])
  | .enter _ | .check _ | .draw _ | .insert _ | .write _ _ | .failWrite _ | .wait _ | .wake _
  | .loopHead _ | .readv _ _ | .sweep _ | .parse _ | .take _ | .flag _ | .runDone _ | .socket _
  | .connect _ | .disconnect | .close => isTrue trivial

omit [DecidableEq ι] in
/-- Each change of a call keeps it honest, if a result that is read parses. -/
theorem CallStep.keeps_honest {c : ι} {k k' : Call Msg} (h : CallStep pb (args c) c k a k')
    (hresponse : k.stage.outcome = none → k.response = (args c).response)
    (hparse : ∀ r resp, a = .apply r → k.stage = .taken resp → k'.stage = .applied resp →
      resp.success = true → k.controller.failed = false →
      (pb.parse k.response resp.resultData).2 = true)
    (hk : k.Honest pb (args c)) : k'.Honest pb (args c) := by
  intro resp hout hok
  cases h with
  | refuse hpc => cases hok
  | failWrite hpc => cases hok
  | sweep r hst hun => cases hok
  | take r resp hst hun hid => cases hout
  | apply r resp' hst =>
    cases hout
    have hread := hparse r resp rfl hst rfl
    have hold := hresponse (by rw [hst]; rfl)
    unfold Call.apply at hok ⊢
    split at hok
    · rename_i hsuccess
      rw [if_pos hsuccess]
      refine ⟨hsuccess, ?_⟩
      have hboth := hread hsuccess hok
      rw [hold] at hboth
      rw [hold, ← hboth]
    · cases hok
  | flag r resp' hst => exact hk resp (by rw [hst]; exact hout) hok
  | runDone r resp' hst => exact hk resp (by rw [hst]; exact hout) hok
  | _ => exact hk resp hout hok

/-- The reader that writes an outcome is the one that has taken the call. -/
theorem applied_by {r : Nat} (h : (machine pb args).Reach s)
    (hs : (machine pb args).step s (.apply r) = some s') {c : ι} {resp : RpcResponse}
    (hst : (s.calls c).stage = .taken resp) (hst' : (s'.calls c).stage = .applied resp) :
    (s.readers r).pc = .taken c resp := by
  obtain ⟨he, rfl⟩ := step_iff.mp hs
  simp only [effect] at hst'
  split at hst'
  · rename_i d resp' hr
    by_cases hcd : c = d
    · subst hcd
      have hheld : (s.readers r).pc.holds = some (c, .taken resp') := by simp [hr, ReaderPc.holds]
      have hsame := (good_reach h).holder r c _ hheld
      rw [hst] at hsame
      cases hsame
      exact hr
    · simp [setReader, modify, hcd, hst] at hst'
  · rw [hst] at hst'
    cases hst'

/-- In a run in which every result that is read parses, whatever the peer sends and however the
calls interleave: a call that `on_message` has completed and whose controller is not failed was
answered with a success, and has exactly the message that the result decodes to; and one whose
result does not parse has failed. -/
theorem a_success_is_the_servers_result (h : (machine pb args).ReachUnder (ResultParses pb) s)
    {c : ι} {resp : RpcResponse} (hc : (s.calls c).stage.outcome = some resp) :
    ((s.calls c).controller.failed = false → resp.success = true ∧
        pb.parse (args c).response resp.resultData = ((s.calls c).response, true)) ∧
      ((pb.parse (args c).response resp.resultData).2 = false →
        (s.calls c).controller.failed = true) := by
  have hhonest : (s.calls c).Honest pb (args c) := by
    refine h.invariant (I := fun s => (s.calls c).Honest pb (args c)) ?_ ?_
    · intro resp hout
      cases hout
    · intro s a s' hr hi ha hs
      refine CallStep.keeps_honest (calls_step hr.reach hs c) (response_kept hr.reach c) ?_ hi
      rintro r resp rfl hst hst' hsuccess hok
      exact ha c resp (applied_by hr.reach hs hst hst') hsuccess hok
  refine ⟨hhonest resp hc, ?_⟩
  intro hparse
  by_contra hok
  have hboth := (hhonest resp hc (by simpa using hok)).2
  rw [hboth] at hparse
  cases hparse

/-- The hello client sends its request, and the body of a frame comes back. -/
def answeredWith (body : Bytes) : List (Act Unit) :=
  [.socket true, .connect true, .enter (), .check (), .draw (), .insert (), .write () (some 5),
    .loopHead 0, .readv 0 (.data (wireBytes body)), .parse 0, .take 0, .apply 0, .flag 0,
    .runDone 0]

theorem a_greeting_is_the_servers_result :
    ∃ s resp, (machine helloProto fun _ : Unit => sayHello true).ReachUnder
        (ResultParses helloProto) s ∧
      (s.calls ()).stage.outcome = some resp ∧ resp.success = true ∧
      helloProto.parse (.helloResponse "") resp.resultData = ((s.calls ()).response, true) := by
  obtain ⟨s, hs, hout, hok⟩ : ∃ s, (machine helloProto fun _ : Unit => sayHello true).ReachUnder
        (ResultParses helloProto) s ∧
      (s.calls ()).stage.outcome = some ⟨1, true, [10, 2, 104, 105], ""⟩ ∧
      (s.calls ()).controller.failed = false :=
    Machine.ReachUnder.of_run (answeredWith [8, 1, 16, 1, 26, 4, 10, 2, 104, 105])
      (by decide +kernel)
  obtain ⟨hsuccess, hparse⟩ := (a_success_is_the_servers_result hs hout).1 hok
  exact ⟨s, _, hs, hout, hsuccess, hparse⟩

/-- The result is one byte, which is no message. The call has completed and has not failed. -/
theorem a_cut_result_is_reported_as_success :
    ∃ s, (machine helloProto fun _ : Unit => sayHello true).Reach s ∧
      (s.calls ()).stage = .finished ⟨1, true, [10], ""⟩ ∧ (s.calls ()).doneRuns = 1 ∧
      (helloProto.parse (.helloResponse "") [10]).2 = false ∧
      (s.calls ()).controller.failed = false :=
  Machine.ReachUnder.of_run (answeredWith [8, 1, 16, 1, 26, 1, 10]) (by decide +kernel)

/-- Whenever a result that is read does not parse, the call goes on to complete as a success. -/
theorem an_unparsed_result_is_reported_as_success (h : (machine pb args).Reach s)
    (hs : (machine pb args).step s a = some s') (ha : ¬ ResultParses pb s a) :
    ∃ c resp r t, (machine pb args).step s' (.flag r) = some t ∧
      (t.calls c).stage.outcome = some resp ∧ (t.calls c).doneFlag = true ∧
      (t.calls c).controller.failed = false ∧
      (pb.parse (args c).response resp.resultData).2 = false := by
  obtain ⟨he, rfl⟩ := step_iff.mp hs
  cases a with
  | apply r =>
    simp only [ResultParses, not_forall, Bool.not_eq_true] at ha
    obtain ⟨c, resp, hr, hsuccess, hok, hparse⟩ := ha
    have hheld : (s.readers r).pc.holds = some (c, .taken resp) := by simp [hr, ReaderPc.holds]
    have hst := (good_reach h).holder r c _ hheld
    rw [response_kept h c (by rw [hst]; rfl)] at hparse
    have happlied : ((s.effect pb args (.apply r)).readers r).pc = .applied c resp := by
      simp [effect, hr, setReader]
    refine ⟨c, resp, r, _, step_iff.mpr ⟨by simp [enabled, happlied], rfl⟩, ?_, ?_, ?_, hparse⟩
    · simp [effect, hr, setReader, modify, Stage.outcome]
    · simp [effect, hr, setReader, modify]
    · simp [effect, hr, setReader, modify, Call.apply, hsuccess, hok]
  | _ => exact absurd trivial ha

end Channel

end rpc
