-- What becomes of the open calls when a reader leaves its loop. The sweep after
-- a `readv` without bytes marks every call in the table and wakes its waiter,
-- but it runs no closure, and the other two exits do not sweep at all. A call
-- that is stored after the sweep is not marked by anyone.
import RpcFramework.ChannelDone
import RpcFramework.ChannelIds
import RpcFramework.ChannelReader

namespace rpc

open net codec runs

variable {ι Msg : Type} [DecidableEq ι]

/-! ## The calls in the table when a reader leaves -/

/-- What a caller is owed when the connection is gone. -/
structure Call.Closed (a : CallArgs Msg) (k : Call Msg) : Prop where
  failed : k.controller.failed = true
  flag : k.doneFlag = true
  ran : a.hasDone = true → k.doneRuns = 1

/-- The action is a step of `on_message`. -/
def Act.handles : Act ι → Bool
  | .take _ | .apply _ | .flag _ | .runDone _ => true
  | _ => false

namespace Channel

variable {pb : Protobuf Msg} {args : ι → CallArgs Msg} {s s' t : Channel ι Msg} {a : Act ι}

/-- The call is in the table. -/
def Pending (s : Channel ι Msg) (c : ι) : Prop := ∃ i, s.pendingCalls i = some c

omit [DecidableEq ι] in
/-- A controller stays failed, and a `done_flag` stays set. -/
theorem CallStep.stays_failed {c : ι} {k k' : Call Msg} (h : CallStep pb (args c) c k a k') :
    (k.controller.failed = true → k'.controller.failed = true) ∧
      (k.doneFlag = true → k'.doneFlag = true) := by
  cases h with
  | refuse _ => exact ⟨fun _ => rfl, id⟩
  | failWrite _ => exact ⟨fun _ => rfl, id⟩
  | sweep r _ _ => exact ⟨fun _ => rfl, fun _ => rfl⟩
  | apply r resp _ =>
    simp only
    unfold Call.apply
    split
    · exact ⟨id, id⟩
    · exact ⟨fun _ => rfl, id⟩
  | flag r resp _ => exact ⟨id, fun _ => rfl⟩
  | _ => exact ⟨id, id⟩

/-- A call without a closure that is closed stays closed. -/
theorem closed_later (h : (machine pb args).Reach s) (ht : (machine pb args).Later s t) {c : ι}
    (hdone : (args c).hasDone = false) (hc : (s.calls c).Closed (args c)) :
    (t.calls c).Closed (args c) := by
  have hkeep := ht.keeps (I := fun t => (machine pb args).Reach t ∧ (t.calls c).Closed (args c)) ?_
    ⟨h, hc⟩
  · exact hkeep.2
  · rintro u a u' ⟨hu, hcu⟩ hs
    obtain ⟨hfail, hflag⟩ := CallStep.stays_failed (calls_step hu hs c)
    refine ⟨hu.step hs, hfail hcu.failed, hflag hcu.flag, ?_⟩
    intro hd
    rw [hdone] at hd
    cases hd

/-- A call that was marked but not answered was marked by a sweep, and so it has failed. -/
theorem marked_failed (h : (machine pb args).Reach s) {c : ι} (hflag : (s.calls c).doneFlag = true)
    (hun : (s.calls c).stage = .untouched) : (s.calls c).controller.failed = true := by
  revert hflag hun
  refine h.invariant (I := fun s => (s.calls c).doneFlag = true → (s.calls c).stage = .untouched →
    (s.calls c).controller.failed = true) ?_ ?_
  · intro hflag
    simp [machine, init] at hflag
  · intro s a s' hr hi hs hflag hun
    have hstep := calls_step hr hs c
    generalize s'.calls c = k' at hstep hflag hun
    cases hstep with
    | refuse _ => rfl
    | failWrite _ => rfl
    | sweep r _ _ => rfl
    | take r resp _ _ _ => cases hun
    | apply r resp _ => cases hun
    | flag r resp _ => cases hun
    | runDone r resp _ => cases hun
    | _ => exact hi hflag hun

/-- The sweep marks the calls in the table, and runs no closure. -/
theorem sweep_marks (h : (machine pb args).Reach s) {r : Nat} {cause : ExitCause}
    (hr : (s.readers r).pc = .closing cause) {c : ι} (hc : Pending s c) :
    ((s.effect pb args (.sweep r)).calls c).controller.failed = true ∧
      ((s.effect pb args (.sweep r)).calls c).doneFlag = true ∧
      ((s.effect pb args (.sweep r)).calls c).doneRuns = 0 := by
  obtain ⟨i, hi⟩ := hc
  have hid := ((good_reach h).table i c hi).1
  have hruns := not_run_in_table h hi
  have hcall : (s.effect pb args (.sweep r)).calls c = (s.calls c).sweep := by
    simp [effect, hr, hid, hi]
  rw [hcall]
  exact ⟨rfl, rfl, hruns⟩

/-- A call that has not run its closure is closed when it has none, and was marked. -/
theorem closed_iff {a : CallArgs Msg} {k : Call Msg} (hruns : k.doneRuns = 0) :
    k.Closed a ↔ a.hasDone = false ∧ k.controller.failed = true ∧ k.doneFlag = true := by
  constructor
  · intro hk
    refine ⟨?_, hk.failed, hk.flag⟩
    by_contra hd
    have hone := hk.ran (by simpa using hd)
    omega
  · rintro ⟨hd, hfail, hflag⟩
    refine ⟨hfail, hflag, ?_⟩
    intro hd'
    rw [hd] at hd'
    cases hd'

/-- A reader that leaves its loop finishes a call in the table, for good, exactly when the call
has no closure, and the reader leaves because `readv` gave no bytes, or the sweep of an earlier
reader has marked the call. -/
theorem leaving_finishes_a_call_iff (h : (machine pb args).Reach s)
    (hs : (machine pb args).step s a = some s') {r : Nat} {cause : ExitCause}
    (hin : (s.readers r).pc ≠ .exited cause) (hout : (s'.readers r).pc = .exited cause)
    {c : ι} (hc : Pending s c) :
    (s'.calls c).Closed (args c) ↔ (args c).hasDone = false ∧
      (cause = .endOfFile ∨ cause = .readError ∨ (s.calls c).doneFlag = true) := by
  rcases exit_cases h hs hin hout with ⟨hcause, rfl, hr⟩ | ⟨hcause, hcalls⟩
  · obtain ⟨hfail, hflag, hruns⟩ := sweep_marks h hr hc
    rw [(step_iff.mp hs).2] at hfail hflag hruns
    rw [closed_iff hruns]
    rcases hcause with rfl | rfl <;> simp [hfail, hflag]
  · obtain ⟨i, hi⟩ := hc
    have hun := ((good_reach h).table i c hi).2.2
    have hmark := fun hflag => marked_failed h (c := c) hflag hun
    rw [hcalls, closed_iff (not_run_in_table h hi)]
    constructor
    · rintro ⟨hd, -, hflag⟩
      exact ⟨hd, Or.inr (Or.inr hflag)⟩
    · rintro ⟨hd, h1 | h1 | hflag⟩
      · rcases hcause with h2 | h2 <;> rw [h1] at h2 <;> cases h2
      · rcases hcause with h2 | h2 <;> rw [h1] at h2 <;> cases h2
      · exact ⟨hd, hmark hflag, hflag⟩

/-- A reader that leaves its loop has finished every call in the table, for good, exactly when
none of them has a closure, and the reader leaves because `readv` gave no bytes, or the sweep
of an earlier reader has marked them. -/
theorem leaving_finishes_every_call_iff (h : (machine pb args).Reach s)
    (hs : (machine pb args).step s a = some s') {r : Nat} {cause : ExitCause}
    (hin : (s.readers r).pc ≠ .exited cause) (hout : (s'.readers r).pc = .exited cause) :
    (∀ c, Pending s c → ∀ t, (machine pb args).Later s' t → (t.calls c).Closed (args c)) ↔
      ∀ c, Pending s c → (args c).hasDone = false ∧
        (cause = .endOfFile ∨ cause = .readError ∨ (s.calls c).doneFlag = true) := by
  constructor
  · intro hall c hc
    exact (leaving_finishes_a_call_iff h hs hin hout hc).mp (hall c hc s' (.refl s'))
  · intro hall c hc t ht
    have hclosed := (leaving_finishes_a_call_iff h hs hin hout hc).mpr (hall c hc)
    exact closed_later (h.step hs) ht (hall c hc).1 hclosed

/-- The peer closes the connection while one call is open. -/
def hungUp (hasDone : Bool) : List (Act Unit) :=
  [.socket true, .connect true, .enter (), .check (), .draw (), .insert (),
    .write () (some (callFrame helloProto (sayHello hasDone) 1).length), .loopHead 0,
    .readv 0 .endOfFile]

theorem a_waiting_call_is_finished_by_the_sweep :
    ∃ s s', (machine helloProto fun _ : Unit => sayHello false).Reach s ∧ Pending s () ∧
      (machine helloProto fun _ => sayHello false).step s (.sweep 0) = some s' ∧
      (s'.readers 0).pc = .exited .endOfFile ∧
      ∀ t, (machine helloProto fun _ => sayHello false).Later s' t →
        (t.calls ()).Closed (sayHello false) := by
  obtain ⟨s, h, hr, hc⟩ : ∃ s, (machine helloProto fun _ : Unit => sayHello false).Reach s ∧
      (s.readers 0).pc = .closing .endOfFile ∧ s.pendingCalls 1 = some () :=
    Machine.ReachUnder.of_run (hungUp false) (by decide +kernel)
  have hs : (machine helloProto fun _ : Unit => sayHello false).step s (.sweep 0) = some _ :=
    step_iff.mpr ⟨by simp [enabled, hr], rfl⟩
  have hout : ((s.effect helloProto (fun _ => sayHello false) (.sweep 0)).readers 0).pc =
      .exited .endOfFile := by
    simp [effect, setReader, hr]
  exact ⟨s, _, h, ⟨1, hc⟩, hs, hout,
    (leaving_finishes_every_call_iff h hs (by simp [hr]) hout).mpr
      (fun _ _ => ⟨rfl, Or.inl rfl⟩) () ⟨1, hc⟩⟩

/-- With a closure the same call is in the table when the reader leaves, and nobody has run its
closure. -/
theorem a_closure_is_lost_at_the_end_of_file :
    ∃ s s', (machine helloProto fun _ : Unit => sayHello true).Reach s ∧ Pending s () ∧
      (machine helloProto fun _ => sayHello true).step s (.sweep 0) = some s' ∧
      (s.readers 0).pc = .closing .endOfFile ∧ (s'.readers 0).pc = .exited .endOfFile ∧
      ¬ (s'.calls ()).Closed (sayHello true) := by
  obtain ⟨s, h, hr, hc⟩ : ∃ s, (machine helloProto fun _ : Unit => sayHello true).Reach s ∧
      (s.readers 0).pc = .closing .endOfFile ∧ s.pendingCalls 1 = some () :=
    Machine.ReachUnder.of_run (hungUp true) (by decide +kernel)
  have hs : (machine helloProto fun _ : Unit => sayHello true).step s (.sweep 0) = some _ :=
    step_iff.mpr ⟨by simp [enabled, hr], rfl⟩
  have hout : ((s.effect helloProto (fun _ => sayHello true) (.sweep 0)).readers 0).pc =
      .exited .endOfFile := by
    simp [effect, setReader, hr]
  refine ⟨s, _, h, ⟨1, hc⟩, hs, hr, hout, ?_⟩
  rw [leaving_finishes_a_call_iff h hs (by simp [hr]) hout ⟨1, hc⟩]
  simp [sayHello]

/-! ## A call in the hand of a reader -/

omit [DecidableEq ι] in
/-- Only `on_message` changes the stage of a call. -/
theorem CallStep.keeps_stage {c : ι} {k k' : Call Msg} (h : CallStep pb (args c) c k a k')
    (ha : a.handles = false) : k'.stage = k.stage := by
  cases h with
  | take => cases ha
  | apply => cases ha
  | flag => cases ha
  | runDone => cases ha
  | _ => rfl

omit [DecidableEq ι] in
/-- Only `on_message` makes a reader let go of a call. -/
theorem keeps_hold {r : Nat} {x : Reader ι} (h : ReaderStep pb s r a x) {p : ι × Stage}
    (hr : (s.readers r).pc.holds = some p) (hown : s.owner ≠ .connecting r)
    (ha : a.handles = false) : x.pc.holds = some p := by
  cases h with
  | same => exact hr
  | start h => exact absurd h hown
  | take => cases ha
  | drop => cases ha
  | apply => cases ha
  | flag => cases ha
  | runDone => cases ha
  | read hpc _ => simp [hpc, ReaderPc.holds] at hr
  | leave hpc _ => simp [hpc, ReaderPc.holds] at hr
  | data bytes hpc => simp [hpc, ReaderPc.holds] at hr
  | endOfFile hpc => simp [hpc, ReaderPc.holds] at hr
  | readError hpc => simp [hpc, ReaderPc.holds] at hr
  | sweep cause hpc => simp [hpc, ReaderPc.holds] at hr
  | drained hpc _ => simp [hpc, ReaderPc.holds] at hr
  | badMagic e hpc _ => simp [hpc, ReaderPc.holds] at hr
  | frame body rest hpc _ => simp [hpc, ReaderPc.holds] at hr

/-- Some reader holds the call. -/
def Held (s : Channel ι Msg) (c : ι) : Prop := ∃ r st, (s.readers r).pc.holds = some (c, st)

/-- A reader `q` that works on call `e` leaves the holders of the other calls alone. -/
theorem held_advance {q : Nat} {e : ι} (f : Call Msg → Call Msg) (pc : ReaderPc ι)
    (hq : ∀ d st, (s.readers q).pc.holds = some (d, st) → d = e)
    (hi : ∀ c, Stage.inHand (s.calls c).stage = true → Held s c)
    (hself : Stage.inHand (f (s.calls e)).stage = true → ∃ st, pc.holds = some (e, st)) (c : ι)
    (hc : Stage.inHand (((s.modify e f).setReader q pc).calls c).stage = true) :
    Held ((s.modify e f).setReader q pc) c := by
  by_cases hce : c = e
  · subst hce
    simp only [setReader, modify, Function.update_self] at hc
    obtain ⟨st, hst⟩ := hself hc
    exact ⟨q, st, by simp [setReader, hst]⟩
  · simp only [setReader, modify, Function.update_of_ne hce] at hc
    obtain ⟨r, st, hr⟩ := hi c hc
    have hrq : r ≠ q := by
      rintro rfl
      exact hce (hq c st hr)
    exact ⟨r, st, by simpa [setReader, modify, hrq] using hr⟩

/-- A call that `on_message` has taken and not flagged is in the hand of a reader. -/
theorem held_reach (h : (machine pb args).Reach s) (c : ι)
    (hc : Stage.inHand (s.calls c).stage = true) : Held s c := by
  revert c
  refine h.invariant (I := fun s => ∀ c, Stage.inHand (s.calls c).stage = true → Held s c) ?_ ?_
  · intro c hc
    simp [machine, init, Stage.inHand] at hc
  · intro s a s' hr hi hs c hc
    have hcall := calls_step hr hs
    have hreader := readers_step hs
    obtain ⟨-, rfl⟩ := step_iff.mp hs
    cases ha : a.handles with
    | false =>
      rw [CallStep.keeps_stage (hcall c) ha] at hc
      obtain ⟨r, st, hst⟩ := hi c hc
      have hown : s.owner ≠ .connecting r := by
        apply not_restarted hr
        intro habs
        simp [habs, ReaderPc.holds] at hst
      exact ⟨r, st, keeps_hold (hreader r) hst hown ha⟩
    | true =>
      cases a with
      | take q =>
        cases hq : (s.readers q).pc with
        | message body =>
          -- a reader at a message holds nothing, so it is not the holder of any call
          have hnone : (s.readers q).pc.holds = none := by simp [hq, ReaderPc.holds]
          have hskip : ∀ c, Stage.inHand (s.calls c).stage = true →
              Held (s.setReader q .parsing) c := by
            intro c hc
            obtain ⟨r, st, hst⟩ := hi c hc
            have hrq : r ≠ q := by
              rintro rfl
              simp [hnone] at hst
            exact ⟨r, st, by simpa [setReader, hrq] using hst⟩
          simp only [effect, hq] at hc ⊢
          split at hc
          · exact hskip c hc
          · split at hc
            · exact hskip c hc
            · exact held_advance _ _ (by simp [hnone]) hi (fun _ => ⟨_, rfl⟩) c hc
        | _ =>
          simp only [effect, hq] at hc ⊢
          exact hi c hc
      | apply q =>
        cases hq : (s.readers q).pc with
        | taken e resp =>
          simp only [effect, hq] at hc ⊢
          refine held_advance _ _ ?_ hi (fun _ => ⟨_, rfl⟩) c hc
          intro d st hd
          simp only [hq, ReaderPc.holds, Option.some.injEq, Prod.mk.injEq] at hd
          exact hd.1.symm
        | _ =>
          simp only [effect, hq] at hc ⊢
          exact hi c hc
      | flag q =>
        cases hq : (s.readers q).pc with
        | applied e resp =>
          simp only [effect, hq] at hc ⊢
          refine held_advance _ _ ?_ hi ?_ c hc
          · intro d st hd
            simp only [hq, ReaderPc.holds, Option.some.injEq, Prod.mk.injEq] at hd
            exact hd.1.symm
          · intro hhand
            cases hhand
        | _ =>
          simp only [effect, hq] at hc ⊢
          exact hi c hc
      | runDone q =>
        cases hq : (s.readers q).pc with
        | flagged e resp =>
          simp only [effect, hq] at hc ⊢
          refine held_advance _ _ ?_ hi ?_ c hc
          · intro d st hd
            simp only [hq, ReaderPc.holds, Option.some.injEq, Prod.mk.injEq] at hd
            exact hd.1.symm
          · intro hhand
            cases hhand
        | _ =>
          simp only [effect, hq] at hc ⊢
          exact hi c hc
      | _ => cases ha

/-! ## Calls that come after the sweep -/

/-- The reader has left its loop after a `readv` without bytes. -/
def Gone (s : Channel ι Msg) : Prop :=
  ∃ r cause, (s.readers r).pc = .exited cause ∧ (cause = .endOfFile ∨ cause = .readError)

/-- One connection is made, and no id comes round while its call is open. No call without a
closure that was stored after the sweep gets its request written. -/
def InTime (args : ι → CallArgs Msg) (s : Channel ι Msg) : Act ι → Prop
  | .write c (some _) => (args c).hasDone = false → (s.calls c).late = false
  | .socket _ => s.sockets = 0
  | a => InWindow s a

instance [Fintype ι] (args : ι → CallArgs Msg) (s : Channel ι Msg) (a : Act ι) :
    Decidable (InTime args s a) :=
  match a with
  | .write c (some _) =>
    inferInstanceAs (Decidable ((args c).hasDone = false → (s.calls c).late = false))
  | .socket _ => inferInstanceAs (Decidable (s.sockets = 0))
  | .draw c => inferInstanceAs (Decidable (InWindow s (.draw c)))
  | .enter _ | .check _ | .insert _ | .write _ none | .failWrite _ | .wait _ | .wake _
  | .loopHead _ | .readv _ _ | .sweep _ | .parse _ | .take _ | .apply _ | .flag _ | .runDone _
  | .connect _ | .disconnect | .close => isTrue trivial

omit [DecidableEq ι] in
theorem InTime.inWindow (h : InTime args s a) : InWindow s a := by
  unfold InTime at h
  split at h
  · trivial
  · trivial
  · exact h

omit [DecidableEq ι] in
theorem InTime.oneConnection (h : InTime args s a) : OneConnection s a := by
  cases a with
  | socket ok => exact h
  | _ => trivial

/-- When the reader is gone, the sweep has run. -/
theorem swept_of_gone (h : (machine pb args).Reach s) (hg : Gone s) : s.swept = true := by
  revert hg
  refine h.invariant (I := fun s => Gone s → s.swept = true) ?_ ?_
  · rintro ⟨r, cause, hr, -⟩
    simp [machine, init] at hr
  · rintro s a s' hreach hi hs ⟨r, cause, hr, hcause⟩
    by_cases hin : (s.readers r).pc = .exited cause
    · have hswept := hi ⟨r, cause, hin, hcause⟩
      obtain ⟨-, rfl⟩ := step_iff.mp hs
      by_cases hsweep : ∃ q, a = .sweep q
      · obtain ⟨q, rfl⟩ := hsweep
        simp only [effect]
        split
        · rfl
        · exact hswept
      · rw [(frame_effect pb args s a).swept fun q hq => hsweep ⟨q, hq⟩]
        exact hswept
    · rcases exit_cases hreach hs hin hr with ⟨-, rfl, hclosing⟩ | ⟨hother, -⟩
      · obtain ⟨-, rfl⟩ := step_iff.mp hs
        simp [effect, hclosing]
      · rcases hcause with rfl | rfl <;> rcases hother with h | h <;> cases h

omit [DecidableEq ι] in
/-- Only its insertion decides whether a call is late. -/
theorem CallStep.keeps_late {c : ι} {k k' : Call Msg} (h : CallStep pb (args c) c k a k')
    (ha : a ≠ .insert c) : k'.late = k.late := by
  cases h with
  | insert => exact absurd rfl ha
  | apply r resp _ => exact k.apply_late pb resp
  | _ => rfl

/-- At the sweep, every stored call is complete or is marked. -/
theorem sweep_finishes (h : (machine pb args).ReachUnder (InTime args) s) {r : Nat}
    {cause : ExitCause} (hr : (s.readers r).pc = .closing cause) {c : ι}
    (hst : (s.calls c).pc.stored = true) :
    ((s.effect pb args (.sweep r)).calls c).finished = true := by
  have hs : (machine pb args).step s (.sweep r) = some _ :=
    step_iff.mpr ⟨by simp [enabled, hr], rfl⟩
  have hlater := CallStep.finished_later (calls_step h.reach hs c)
  rcases (kept_reach (h.mono fun _ _ => InTime.inWindow)).kept c hst with hf | hin | hhand
  · exact hlater.1 hf
  · simp [Call.finished, (sweep_marks h.reach hr ⟨_, hin⟩).2.1]
  · -- the only reader is at its sweep, so it has no call in its hand
    exfalso
    obtain ⟨q, st, hq⟩ := held_reach h.reach c hhand
    have hq0 : q = 0 := by
      apply only_reader (h.mono fun _ _ => InTime.oneConnection)
      intro habs
      simp [habs, ReaderPc.holds] at hq
    have hr0 : r = 0 := only_reader (h.mono fun _ _ => InTime.oneConnection) (by simp [hr])
    simp [hq0, ← hr0, hr, ReaderPc.holds] at hq

/-- When the reader is gone, every stored call is complete, or was stored after the sweep. -/
theorem settled_when_gone (h : (machine pb args).ReachUnder (InTime args) s) (hg : Gone s) (c : ι)
    (hst : (s.calls c).pc.stored = true) :
    (s.calls c).finished = true ∨ (s.calls c).late = true := by
  revert c
  revert hg
  refine h.invariant (I := fun s => Gone s → ∀ c, (s.calls c).pc.stored = true →
    (s.calls c).finished = true ∨ (s.calls c).late = true) ?_ ?_
  · rintro ⟨r, cause, hr, -⟩
    simp [machine, init] at hr
  · rintro s a s' hreach hi _ hs ⟨r, cause, hr, hcause⟩ c hst
    have hcall := calls_step hreach.reach hs c
    by_cases hin : (s.readers r).pc = .exited cause
    · have hgone : Gone s := ⟨r, cause, hin, hcause⟩
      by_cases hins : a = .insert c
      · subst hins
        obtain ⟨-, rfl⟩ := step_iff.mp hs
        exact Or.inr (by simp [effect, modify, swept_of_gone hreach.reach hgone])
      · rw [CallStep.keeps_late hcall hins]
        rcases hi hgone c ((CallStep.stored_before hcall hst).resolve_right hins) with hf | hl
        · exact Or.inl ((CallStep.finished_later hcall).1 hf)
        · exact Or.inr hl
    · rcases exit_cases hreach.reach hs hin hr with ⟨-, rfl, hclosing⟩ | ⟨hother, -⟩
      · have hold := (CallStep.stored_before hcall hst).resolve_right (by simp)
        obtain ⟨-, rfl⟩ := step_iff.mp hs
        exact Or.inl (sweep_finishes hreach hclosing hold)
      · rcases hcause with rfl | rfl <;> rcases hother with h | h <;> cases h

/-- A call that waits for its answer was stored before the sweep. -/
theorem waiting_in_time (h : (machine pb args).ReachUnder (InTime args) s) (c : ι)
    (hpc : (s.calls c).pc = .written ∨ (s.calls c).pc = .waiting) : (s.calls c).late = false := by
  revert hpc
  refine h.invariant (I := fun s => (s.calls c).pc = .written ∨ (s.calls c).pc = .waiting →
    (s.calls c).late = false) ?_ ?_
  · intro hpc
    simp [machine, init] at hpc
  · intro s a s' hr hi ha hs hpc
    have hstep := calls_step hr.reach hs c
    generalize s'.calls c = k' at hstep hpc
    cases hstep with
    | same => exact hi hpc
    | written n hold =>
      -- a call with a closure has returned, so this one has none
      simp only at hpc
      split at hpc
      · simp at hpc
      · rename_i hdone
        exact ha (by simpa using hdone)
    | wait hold => exact hi (Or.inl hold)
    | sweep r _ _ => exact hi hpc
    | take r resp _ _ _ => exact hi hpc
    | apply r resp _ =>
      simp only [Call.apply_pc, Call.apply_late] at hpc ⊢
      exact hi hpc
    | flag r resp _ => exact hi hpc
    | runDone r resp _ => exact hi hpc
    | _ => simp [Call.runDone] at hpc

/-- When the reader is gone, no caller waits for a `done_flag` that is not set. -/
theorem no_caller_is_left_waiting (h : (machine pb args).ReachUnder (InTime args) s) {r : Nat}
    {cause : ExitCause} (hr : (s.readers r).pc = .exited cause)
    (hcause : cause = .endOfFile ∨ cause = .readError) (c : ι) :
    ¬ ((s.calls c).pc = .waiting ∧ (s.calls c).doneFlag = false) := by
  rintro ⟨hpc, hflag⟩
  rcases settled_when_gone h ⟨r, cause, hr, hcause⟩ c (by simp [hpc, CallPc.stored]) with hf | hl
  · simp [Call.finished, hflag, hpc] at hf
  · rw [waiting_in_time h c (Or.inr hpc)] at hl
    cases hl

/-- The call is stored and its write succeeds, then the peer closes the connection. -/
theorem a_call_before_the_sweep_is_not_left_waiting :
    ∃ s, (machine helloProto fun _ : Unit => sayHello false).ReachUnder
      (InTime fun _ => sayHello false) s ∧ (s.readers 0).pc = .exited .endOfFile ∧
      (s.calls ()).pc = .waiting ∧
      ¬ ((s.calls ()).pc = .waiting ∧ (s.calls ()).doneFlag = false) := by
  obtain ⟨s, hs, hr, hw⟩ : ∃ s, (machine helloProto fun _ : Unit => sayHello false).ReachUnder
      (InTime fun _ => sayHello false) s ∧ (s.readers 0).pc = .exited .endOfFile ∧
      (s.calls ()).pc = .waiting :=
    Machine.ReachUnder.of_run (hungUp false ++ [.wait (), .sweep 0]) (by decide +kernel)
  exact ⟨s, hs, hr, hw, no_caller_is_left_waiting hs hr (Or.inl rfl) ()⟩

/-- The peer closes the connection after the caller's look at `connected_`. The sweep runs, and
then the call is stored, is written to a socket that still takes bytes, and waits. -/
theorem a_call_after_the_sweep_is_left_waiting :
    ∃ s, (machine helloProto fun _ : Unit => sayHello false).Reach s ∧
      (s.readers 0).pc = .exited .endOfFile ∧
      (s.calls ()).pc = .waiting ∧ (s.calls ()).doneFlag = false :=
  Machine.ReachUnder.of_run [.socket true, .connect true, .enter (), .check (), .loopHead 0,
    .readv 0 .endOfFile, .sweep 0, .draw (), .insert (),
    .write () (some (callFrame helloProto (sayHello false) 1).length), .wait ()] (by decide +kernel)

end Channel

end rpc
