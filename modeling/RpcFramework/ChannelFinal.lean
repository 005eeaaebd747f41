-- Who writes to the controller and to the response of a call, and when that is
-- still allowed. The sweep sets `done_flag` and leaves the call in the table, so
-- the sweep of the next connection, or a late response, finds it there again.
import Mathlib.Data.Fintype.Basic
import RpcFramework.ChannelOutcome

namespace rpc

open net codec runs

variable {ι Msg : Type} [DecidableEq ι]

/-- `done_flag` was set, or the closure was run. -/
def Call.completed (k : Call Msg) : Bool := k.doneFlag || decide (0 < k.doneRuns)

theorem Call.completed_iff {k : Call Msg} :
    k.completed = true ↔ k.doneFlag = true ∨ 0 < k.doneRuns := by
  simp [Call.completed]

theorem Call.not_completed {k : Call Msg} (hflag : k.doneFlag = false) (hruns : k.doneRuns = 0) :
    k.completed = false := by
  simp [Call.completed, hflag, hruns]

namespace Channel

variable {pb : Protobuf Msg} {args : ι → CallArgs Msg} {s s' : Channel ι Msg} {a : Act ι}

/-! ## The writes to a call's objects -/

/-- The action writes to the controller or to the response of call `c`: "not connected", "write
failed", "connection closed", or the outcome of a response. -/
def Touches (s : Channel ι Msg) (c : ι) : Act ι → Prop
  | .check d => d = c ∧ s.connected = false
  | .failWrite d => d = c
  | .sweep _ => s.pendingCalls (s.calls c).requestId = some c
  | .apply r => ∃ resp, (s.readers r).pc = .taken c resp
  | _ => False

/-- The four actions of `Touches`. -/
def Act.reports : Act ι → Bool
  | .check _ | .failWrite _ | .sweep _ | .apply _ => true
  | _ => false

omit [DecidableEq ι] in
theorem CallStep.keeps_objects {c : ι} {k k' : Call Msg} (h : CallStep pb (args c) c k a k')
    (ha : Act.reports a = false) : k'.controller = k.controller ∧ k'.response = k.response := by
  cases h with
  | check | refuse | failWrite | sweep | apply => cases ha
  | _ => exact ⟨rfl, rfl⟩

/-- An action that does not touch a call leaves its controller and its response as they are. -/
theorem untouched_same (h : (machine pb args).Reach s)
    (hs : (machine pb args).step s a = some s') {c : ι} (hc : ¬ Touches s c a) :
    (s'.calls c).controller = (s.calls c).controller ∧
      (s'.calls c).response = (s.calls c).response := by
  have hcall := calls_step h hs c
  obtain ⟨-, rfl⟩ := step_iff.mp hs
  cases ha : Act.reports a with
  | false => exact CallStep.keeps_objects hcall ha
  | true =>
    cases a with
    | check d =>
      simp only [effect]
      split
      · by_cases hcd : c = d <;> simp [modify, hcd]
      · rename_i hconn
        have hcd : c ≠ d := fun hcd => hc ⟨hcd.symm, by simpa using hconn⟩
        simp [modify, hcd]
    | failWrite d =>
      have hcd : c ≠ d := fun hcd => hc hcd.symm
      simp [effect, modify, hcd]
    | sweep r =>
      simp only [effect]
      split
      · have hout : ¬ s.pendingCalls (s.calls c).requestId = some c := hc
        simp [hout]
      · exact ⟨rfl, rfl⟩
    | apply r =>
      simp only [effect]
      split
      · rename_i d resp hr
        have hcd : c ≠ d := by
          rintro rfl
          exact hc ⟨resp, hr⟩
        simp [setReader, modify, hcd]
      · exact ⟨rfl, rfl⟩
    | _ => cases ha

/-! ## Completion is for good -/

omit [DecidableEq ι] in
theorem CallStep.stays_completed {c : ι} {k k' : Call Msg} (h : CallStep pb (args c) c k a k')
    (hk : k.completed = true) : k'.completed = true := by
  rw [Call.completed_iff] at hk ⊢
  cases h with
  | refuse | failWrite | runDone =>
    simp only [Call.runDone]
    exact hk.imp_right (Nat.lt_add_right _)
  | sweep | flag => exact Or.inl rfl
  | apply r resp _ => simpa using hk
  | _ => exact hk

/-- `on_message` sets `done_flag` before the closure is run, and nothing clears it. -/
theorem flag_of_handled (h : (machine pb args).Reach s) (c : ι)
    (hun : (s.calls c).stage ≠ .untouched) (hhand : Stage.inHand (s.calls c).stage = false) :
    (s.calls c).doneFlag = true := by
  revert hun hhand
  refine h.invariant (I := fun s => (s.calls c).stage ≠ .untouched →
    Stage.inHand (s.calls c).stage = false → (s.calls c).doneFlag = true) ?_ ?_
  · intro hun
    simp [machine, init] at hun
  · intro s a s' hr hi hs hun hhand
    have hstep := calls_step hr hs c
    generalize s'.calls c = k' at hstep hun hhand
    cases hstep with
    | take r resp _ _ _ => cases hhand
    | apply r resp _ => cases hhand
    | sweep r _ _ => rfl
    | flag r resp _ => rfl
    | runDone r resp hst => exact hi (by simp [hst]) (by simp [hst, Stage.inHand])
    | _ => exact hi hun hhand

/-- A caller that has not reported a failure did not run the closure, so a call without
`done_flag` has not completed. -/
theorem open_of_unflagged (h : (machine pb args).Reach s) {c : ι}
    (hpc : reportRuns (s.calls c).pc = 0) (hflag : (s.calls c).doneFlag = false) :
    (s.calls c).completed = false := by
  apply Call.not_completed hflag
  have hk := runsCounted_reach h c
  unfold RunsCounted at hk
  have hmessage : messageRuns (s.calls c).stage = 0 := by
    cases hst : (s.calls c).stage with
    | finished resp =>
      have := flag_of_handled h c (by simp [hst]) (by simp [hst, Stage.inHand])
      rw [hflag] at this
      cases this
    | _ => rfl
  omega

/-! ## The law -/

/-- The call that the response in the hands of reader `r` names. -/
def named (pb : Protobuf Msg) (s : Channel ι Msg) (r : Nat) : Option ι :=
  match (s.readers r).pc with
  | .message frame => (pb.parseResponse frame).bind fun resp => s.pendingCalls resp.requestId
  | _ => none

/-- No call that a sweep has marked is swept again, is named by a response, or has its write
fail; and no call with a closure has its write fail while `on_message` is about to write its
outcome. -/
def Tidy (pb : Protobuf Msg) (args : ι → CallArgs Msg) (s : Channel ι Msg) : Act ι → Prop
  | .sweep _ => ∀ c, s.pendingCalls (s.calls c).requestId = some c → (s.calls c).doneFlag = false
  | .take r => ∀ c, named pb s r = some c → (s.calls c).doneFlag = false
  | .failWrite c => (s.calls c).doneFlag = false ∧
      ((args c).hasDone = true → ∀ resp, (s.calls c).stage ≠ .taken resp)
  | _ => True

instance [Fintype ι] (pb : Protobuf Msg) (args : ι → CallArgs Msg) (s : Channel ι Msg)
    (a : Act ι) : Decidable (Tidy pb args s a) :=
  match a with
  | .sweep _ => inferInstanceAs (Decidable (∀ c,
      s.pendingCalls (s.calls c).requestId = some c → (s.calls c).doneFlag = false))
  | .take r => inferInstanceAs (Decidable (∀ c,
      named pb s r = some c → (s.calls c).doneFlag = false))
  | .failWrite c =>
    match hst : (s.calls c).stage with
    | .taken resp => decidable_of_iff ((s.calls c).doneFlag = false ∧ (args c).hasDone = false) <| by
        simp [Tidy, hst]
    | .untouched | .applied _ | .flagged _ | .finished _ =>
      decidable_of_iff ((s.calls c).doneFlag = false) <| by simp [Tidy, hst]
  | .enter _ | .check _ | .draw _ | .insert _ | .write _ _ | .wait _ | .wake _ | .loopHead _
  | .readv _ _ | .parse _ | .apply _ | .flag _ | .runDone _ | .socket _ | .connect _
  | .disconnect | .close => isTrue trivial

/-- A call that waits for its outcome has not completed. -/
theorem taken_open (h : (machine pb args).ReachUnder (Tidy pb args) s) (c : ι) {resp : RpcResponse}
    (hst : (s.calls c).stage = .taken resp) : (s.calls c).completed = false := by
  revert resp
  refine h.invariant (I := fun s => ∀ {resp}, (s.calls c).stage = .taken resp →
    (s.calls c).completed = false) ?_ ?_
  · intro resp hst
    simp [machine, init] at hst
  · intro s a s' hr hi ha hs resp hst
    have hstep := calls_step hr.reach hs c
    have hgood := good_reach hr.reach
    generalize hk : s'.calls c = k' at hstep hst ⊢
    cases hstep with
    | refuse hpc =>
      have hun := (hgood.fresh c (by simp [hpc, CallPc.stored]) (by simp [hpc])).1
      rw [show (s.calls c).stage = .taken resp from hst] at hun
      cases hun
    | failWrite hpc =>
      obtain ⟨-, hdone⟩ := ha
      have hnone : (args c).hasDone = false := by
        by_contra hclosure
        exact hdone (by simpa using hclosure) resp hst
      simpa [Call.completed, Call.runDone, hnone] using hi hst
    | sweep r _ hun =>
      rw [show (s.calls c).stage = .taken resp from hst] at hun
      cases hun
    | take r resp' _ hun _ =>
      obtain ⟨body, resp'', hbody, hparse, hin, -⟩ := taken_for hs hun (by simp [hk])
      have hflag : (s.calls c).doneFlag = false := by
        apply ha c
        simp [named, hbody, hparse, hin]
      exact Call.not_completed hflag (not_run_in_table hr.reach hin)
    | apply r resp' _ => cases hst
    | flag r resp' _ => cases hst
    | runDone r resp' _ => cases hst
    | _ => exact hi hst

/-- A tidy action writes to the objects of calls that are still open. -/
theorem open_when_touched (h : (machine pb args).ReachUnder (Tidy pb args) s)
    (ha : Tidy pb args s a) (he : s.enabled pb args a = true) {c : ι} (hc : Touches s c a) :
    (s.calls c).completed = false := by
  have hgood := good_reach h.reach
  cases a with
  | check d =>
    obtain ⟨rfl, -⟩ := hc
    have hpc : (s.calls d).pc = .entered := by simpa [enabled] using he
    have hfresh := hgood.fresh d (by simp [hpc, CallPc.stored]) (by simp [hpc])
    exact open_of_unflagged h.reach (by simp [hpc, reportRuns]) hfresh.2
  | failWrite d =>
    obtain rfl : d = c := hc
    have hpc : (s.calls d).pc = .writeFailed := by simpa [enabled] using he
    exact open_of_unflagged h.reach (by simp [hpc, reportRuns]) ha.1
  | sweep r => exact Call.not_completed (ha c hc) (not_run_in_table h.reach hc)
  | apply r =>
    obtain ⟨resp, hr⟩ := hc
    have hheld : (s.readers r).pc.holds = some (c, .taken resp) := by simp [hr, ReaderPc.holds]
    exact taken_open h c (hgood.holder r c _ hheld)
  | _ => exact absurd hc id

/-- Over any number of connections, and against any peer, a call that has completed keeps its
controller and its response for good, and no action writes to them, when every action of the run
is tidy. -/
theorem a_completed_call_is_left_alone (h : (machine pb args).ReachUnder (Tidy pb args) s) {c : ι}
    (hc : (s.calls c).completed = true)
    (hl : (machine pb args).LaterUnder (Tidy pb args) s s') :
    (s'.calls c).completed = true ∧
      (s'.calls c).controller = (s.calls c).controller ∧
      (s'.calls c).response = (s.calls c).response ∧
      ∀ a t, Tidy pb args s' a → (machine pb args).step s' a = some t → ¬ Touches s' c a := by
  have hopen : ∀ u a t, (machine pb args).ReachUnder (Tidy pb args) u → Tidy pb args u a →
      (machine pb args).step u a = some t → (u.calls c).completed = true → ¬ Touches u c a := by
    intro u a t hu ha hs hcu htouch
    rw [open_when_touched hu ha (step_iff.mp hs).1 htouch] at hcu
    cases hcu
  have hkept : (s'.calls c).completed = true ∧
      (s'.calls c).controller = (s.calls c).controller ∧
      (s'.calls c).response = (s.calls c).response := by
    refine hl.keeps (I := fun t => (t.calls c).completed = true ∧
      (t.calls c).controller = (s.calls c).controller ∧
      (t.calls c).response = (s.calls c).response) ?_ h ⟨hc, rfl, rfl⟩
    rintro u a t hu ⟨hcu, hcontroller, hresponse⟩ ha hs
    obtain ⟨h1, h2⟩ := untouched_same hu.reach hs (hopen u a t hu ha hs hcu)
    exact ⟨CallStep.stays_completed (calls_step hu.reach hs c) hcu, h1.trans hcontroller,
      h2.trans hresponse⟩
  obtain ⟨h1, h2, h3⟩ := hkept
  exact ⟨h1, h2, h3, fun a t ha hs => hopen s' a t (h.later hl) ha hs h1⟩

/-- The call of the hello client is answered, and the peer then closes the connection. -/
def answeredThenClosed : List (Act Unit) :=
  [.write () (some 5), .parse 0, .loopHead 0, .readv 0 .endOfFile, .sweep 0]

theorem an_answered_call_outlives_the_connection :
    ∃ s s', (machine helloProto fun _ : Unit => sayHello true).ReachUnder
        (Tidy helloProto fun _ => sayHello true) s ∧
      (machine helloProto fun _ : Unit => sayHello true).LaterUnder
        (Tidy helloProto fun _ => sayHello true) s s' ∧
      (s.calls ()).completed = true ∧ s'.swept = true ∧
      (s'.calls ()).controller = (s.calls ()).controller ∧
      (s'.calls ()).response = (s.calls ()).response := by
  obtain ⟨s, s', hs, hl, hc, hswept⟩ :
      ∃ s s', (machine helloProto fun _ : Unit => sayHello true).ReachUnder
          (Tidy helloProto fun _ => sayHello true) s ∧
        (machine helloProto fun _ : Unit => sayHello true).LaterUnder
          (Tidy helloProto fun _ => sayHello true) s s' ∧
        (s.calls ()).completed = true ∧ s'.swept = true :=
    Machine.ReachUnder.of_runs answeredEarly answeredThenClosed (by decide +kernel)
  obtain ⟨-, hcontroller, hresponse, -⟩ := a_completed_call_is_left_alone hs hc hl
  exact ⟨s, s', hs, hl, hc, hswept, hcontroller, hresponse⟩

/-- A waiting call is completed by the sweep of the first connection and returns to its caller.
When the second connection closes, its sweep writes to the call's controller again. -/
theorem a_second_sweep_finds_the_call_again :
    ∃ s s', (machine helloProto fun _ : Unit => sayHello false).Reach s ∧
      (s.calls ()).completed = true ∧ (s.calls ()).pc = .returned ∧
      (machine helloProto fun _ => sayHello false).step s (.sweep 1) = some s' ∧
      Touches s () (.sweep 1) := by
  obtain ⟨s, hs, hc, hpc, hclosing, hin⟩ : ∃ s,
      (machine helloProto fun _ : Unit => sayHello false).Reach s ∧
      (s.calls ()).completed = true ∧ (s.calls ()).pc = .returned ∧
      (s.readers 1).pc = .closing .endOfFile ∧
      s.pendingCalls (s.calls ()).requestId = some () :=
    Machine.ReachUnder.of_run (hungUp false ++ [.sweep 0, .wait (), .socket true, .connect true,
      .loopHead 1, .readv 1 .endOfFile]) (by decide +kernel)
  have hstep : (machine helloProto fun _ : Unit => sayHello false).step s (.sweep 1) = some _ :=
    step_iff.mpr ⟨by simp [enabled, hclosing], rfl⟩
  exact ⟨s, _, hs, hc, hpc, hstep, hin⟩

/-! ## No part of the condition is idle -/

/-- An action that is not tidy writes to a call that has completed, or completes a call to which
a reader writes next. -/
theorem an_untidy_action_ends_in_a_write (h : (machine pb args).Reach s)
    (hs : (machine pb args).step s a = some s') (ha : ¬ Tidy pb args s a) :
    ∃ c, ((s.calls c).completed = true ∧ Touches s c a) ∨
      ((s'.calls c).completed = true ∧ ∃ r t, (machine pb args).step s' (.apply r) = some t ∧
        Touches s' c (.apply r)) := by
  have hcall := calls_step h hs
  obtain ⟨he, rfl⟩ := step_iff.mp hs
  have hnext : ∀ c r resp, ((s.effect pb args a).calls c).completed = true →
      ((s.effect pb args a).readers r).pc = .taken c resp →
      ∃ c, ((s.calls c).completed = true ∧ Touches s c a) ∨
        (((s.effect pb args a).calls c).completed = true ∧ ∃ r t,
          (machine pb args).step (s.effect pb args a) (.apply r) = some t ∧
          Touches (s.effect pb args a) c (.apply r)) := by
    intro c r resp hc hr
    exact ⟨c, Or.inr ⟨hc, r, _, step_iff.mpr ⟨by simp [enabled, hr], rfl⟩, resp, hr⟩⟩
  cases a with
  | sweep r =>
    simp only [Tidy, not_forall, Bool.not_eq_false] at ha
    obtain ⟨c, hin, hflag⟩ := ha
    exact ⟨c, Or.inl ⟨Call.completed_iff.mpr (Or.inl hflag), hin⟩⟩
  | take r =>
    simp only [Tidy, not_forall, Bool.not_eq_false] at ha
    obtain ⟨c, hc, hflag⟩ := ha
    have hcompleted := CallStep.stays_completed (hcall c) (Call.completed_iff.mpr (Or.inl hflag))
    unfold named at hc
    split at hc
    · rename_i frame hr
      obtain ⟨resp, hresp, hin⟩ := Option.bind_eq_some_iff.mp hc
      refine hnext c r resp hcompleted ?_
      simp [effect, hr, hresp, hin, setReader]
    · cases hc
  | failWrite c =>
    by_cases hflag : (s.calls c).doneFlag = true
    · exact ⟨c, Or.inl ⟨Call.completed_iff.mpr (Or.inl hflag), rfl⟩⟩
    · simp only [Tidy, hflag, true_and, not_forall, not_not] at ha
      obtain ⟨hdone, resp, hst⟩ := ha
      obtain ⟨r, st, hr⟩ := held_reach h c (by simp [hst, Stage.inHand])
      have hpc : (s.readers r).pc = .taken c resp := by
        have heq := (good_reach h).holder r c st hr
        rw [hst] at heq
        subst heq
        cases hpc : (s.readers r).pc <;> simp_all [ReaderPc.holds]
      refine hnext c r resp ?_ (by simpa [effect, modify] using hpc)
      simp [Call.completed, effect, modify, Call.runDone, hdone]
  | _ => exact absurd trivial ha

end Channel

end rpc
