-- How often a closure is run. It is run where a call is refused, where a failed
-- write is reported, and at the end of `on_message`. Only the last of these has
-- first won the call out of the table, so a response that comes before the
-- failure of its own request's write makes the closure run twice.
import RpcFramework.ChannelTable

namespace rpc.Channel

open net codec runs

variable {ι Msg : Type} [DecidableEq ι] {pb : Protobuf Msg} {args : ι → CallArgs Msg}
  {s s' : Channel ι Msg} {a : Act ι}

/-! ## The runs of a closure are accounted for -/

/-- The caller has reported a failure, and so has run the closure. -/
def reportRuns : CallPc → Nat
  | .refused | .failed => 1
  | _ => 0

/-- `on_message` has finished with the call, and so has run the closure. -/
def messageRuns : Stage → Nat
  | .finished _ => 1
  | _ => 0

/-- A closure ran no more often than the places that run it were passed. -/
def RunsCounted (k : Call Msg) : Prop := k.doneRuns ≤ reportRuns k.pc + messageRuns k.stage

omit [DecidableEq ι] in
theorem runsCounted_step {c : ι} {k k' : Call Msg} (h : CallStep pb (args c) c k a k')
    (hk : RunsCounted k) : RunsCounted k' := by
  unfold RunsCounted at *
  cases h with
  | same => exact hk
  | enter hpc => simpa [hpc, reportRuns] using hk
  | check hpc => simpa [hpc, reportRuns] using hk
  | refuse hpc =>
    simp only [hpc, reportRuns] at hk
    simp only [Call.runDone, reportRuns]
    split <;> omega
  | draw id ticket hpc => simpa [hpc, reportRuns] using hk
  | insert late hpc => simpa [hpc, reportRuns] using hk
  | written n hpc =>
    simp only [hpc, reportRuns] at hk
    simp only
    split <;> simpa [reportRuns] using hk
  | writeFailed count hpc => simpa [hpc, reportRuns] using hk
  | failWrite hpc =>
    simp only [hpc, reportRuns] at hk
    simp only [Call.runDone, reportRuns]
    split <;> omega
  | wait hpc =>
    simp only [hpc, reportRuns] at hk
    simp only
    split <;> simpa [reportRuns] using hk
  | wake hpc _ => simpa [hpc, reportRuns] using hk
  | sweep r _ _ => exact hk
  | take r resp _ hun => simpa [hun, messageRuns] using hk
  | apply r resp hst =>
    simpa [hst, messageRuns] using hk
  | flag r resp hst => simpa [hst, messageRuns] using hk
  | runDone r resp hst =>
    simp only [hst, messageRuns] at hk
    simp only [Call.runDone, messageRuns]
    split <;> omega

theorem runsCounted_reach (h : (machine pb args).Reach s) (c : ι) : RunsCounted (s.calls c) := by
  revert c
  refine h.invariant (I := fun s => ∀ c, RunsCounted (s.calls c)) ?_ ?_
  · intro c
    simp [RunsCounted, machine, init]
  · intro s a s' hr hi hs c
    exact runsCounted_step (calls_step hr hs c) (hi c)

/-- A call in the table has not run its closure. -/
theorem not_run_in_table (h : (machine pb args).Reach s) {i : UInt32} {c : ι}
    (hc : s.pendingCalls i = some c) : (s.calls c).doneRuns = 0 := by
  obtain ⟨-, hst, hun⟩ := (good_reach h).table i c hc
  have hk := runsCounted_reach h c
  unfold RunsCounted at hk
  have hreport : reportRuns (s.calls c).pc = 0 := by
    cases hpc : (s.calls c).pc <;> simp_all [reportRuns, CallPc.stored]
  simpa [hun, hreport, messageRuns] using hk

/-! ## The law -/

/-- No response has taken the call out of the table when the failure of its write is reported. -/
def Unanswered (args : ι → CallArgs Msg) (s : Channel ι Msg) : Act ι → Prop
  | .failWrite c => (args c).hasDone = true → (s.calls c).stage = .untouched
  | _ => True

instance (args : ι → CallArgs Msg) (s : Channel ι Msg) (a : Act ι) :
    Decidable (Unanswered args s a) :=
  match a with
  | .failWrite c =>
    inferInstanceAs (Decidable ((args c).hasDone = true → (s.calls c).stage = .untouched))
  | .enter _ | .check _ | .draw _ | .insert _ | .write _ _ | .wait _ | .wake _ | .loopHead _
  | .readv _ _ | .sweep _ | .parse _ | .take _ | .apply _ | .flag _ | .runDone _ | .socket _
  | .connect _ | .disconnect | .close => isTrue trivial

/-- A call with a closure that reported a failed write was never taken by `on_message`. -/
theorem failed_untouched (h : (machine pb args).ReachUnder (Unanswered args) s) (c : ι)
    (hdone : (args c).hasDone = true) (hpc : (s.calls c).pc = .failed) :
    (s.calls c).stage = .untouched := by
  revert c
  refine h.invariant (I := fun s => ∀ c, (args c).hasDone = true →
    (s.calls c).pc = .failed → (s.calls c).stage = .untouched) ?_ ?_
  · intro c _ hpc
    simp [machine, init] at hpc
  · intro s a s' hr hi ha hs c hdone
    have hstep := calls_step hr.reach hs c
    have hi := hi c hdone
    generalize s'.calls c = k' at hstep
    cases hstep with
    | same => exact hi
    | failWrite hpc =>
      intro _
      exact ha hdone
    | sweep r _ _ => exact hi
    | take r resp hst hun _ =>
      intro (hpc : (s.calls c).pc = .failed)
      simp [hpc, CallPc.stored] at hst
    | apply r resp hst =>
      intro hpc
      simp only [Call.apply_pc] at hpc
      simp [hi hpc] at hst
    | flag r resp hst =>
      intro hpc
      simp [hi hpc] at hst
    | runDone r resp hst =>
      intro hpc
      simp [hi hpc] at hst
    | written n _ =>
      intro hpc
      simp only at hpc
      split at hpc <;> cases hpc
    | wait _ =>
      intro hpc
      simp only at hpc
      split at hpc <;> cases hpc
    | _ => intro hpc; cases hpc

/-- Against any peer, and with any results of `::write`, a closure is run at most once, when no
failed write is reported for a call that a response has already taken. -/
theorem a_closure_runs_at_most_once (h : (machine pb args).ReachUnder (Unanswered args) s)
    (c : ι) (hdone : (args c).hasDone = true) : (s.calls c).doneRuns ≤ 1 := by
  have hk := runsCounted_reach h.reach c
  unfold RunsCounted at hk
  have hfailed := failed_untouched h c hdone
  by_cases hpc : (s.calls c).pc = .failed
  · rw [hpc, hfailed hpc] at hk
    exact hk
  · by_cases href : (s.calls c).pc = .refused
    · have hun := ((good_reach h.reach).fresh c (by simp [href, CallPc.stored]) hpc).1
      rw [href, hun] at hk
      exact hk
    · have hreport : reportRuns (s.calls c).pc = 0 := by
        cases hc : (s.calls c).pc <;> simp_all [reportRuns]
      have hmessage : messageRuns (s.calls c).stage ≤ 1 := by
        cases (s.calls c).stage <;> simp [messageRuns]
      omega

/-- A connection is made, one call is stored, and a response to it comes in. -/
def answeredEarly : List (Act Unit) :=
  [.socket true, .connect true, .enter (), .check (), .draw (), .insert (), .loopHead 0,
    .readv 0 (.data [0xCA, 0xFE, 0xBA, 0xBE, 0, 0, 0, 2, 8, 1]), .parse 0, .take 0, .apply 0,
    .flag 0, .runDone 0]

theorem an_early_answer_runs_the_closure_once :
    ∃ s, (machine helloProto fun _ : Unit => sayHello true).ReachUnder
      (Unanswered fun _ => sayHello true) s ∧
      (s.calls ()).doneRuns = 1 ∧ (s.calls ()).doneRuns ≤ 1 := by
  obtain ⟨s, hs, hone⟩ : ∃ s, (machine helloProto fun _ : Unit => sayHello true).ReachUnder
      (Unanswered fun _ => sayHello true) s ∧ (s.calls ()).doneRuns = 1 :=
    Machine.ReachUnder.of_run answeredEarly (by decide +kernel)
  exact ⟨s, hs, hone, a_closure_runs_at_most_once hs () rfl⟩

/-- The write of the answered request then fails, and the failure is reported all the same. -/
theorem a_failed_write_after_the_answer_runs_the_closure_twice :
    ∃ s, (machine helloProto fun _ : Unit => sayHello true).Reach s ∧
      (s.calls ()).doneRuns = 2 :=
  Machine.ReachUnder.of_run (answeredEarly ++ [.write () none, .failWrite ()]) (by decide +kernel)

end rpc.Channel
