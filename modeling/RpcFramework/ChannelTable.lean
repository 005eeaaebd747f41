-- The table of pending calls. A call stands in it under its own id only, a
-- response takes it out before anything is written to it, and then one reader
-- alone works on it. Every action of every thread keeps this.
import RpcFramework.Channel

namespace rpc

open net codec runs

variable {ι Msg : Type} [DecidableEq ι]

/-! ## The invariant of the table -/

/-- The call has drawn its id. -/
def CallPc.hasId : CallPc → Bool
  | .idle | .entered | .refused | .checked => false
  | _ => true

/-- The call was stored in the table, and has not reported a failed write. -/
def CallPc.stored : CallPc → Bool
  | .inserted | .writeFailed | .written | .waiting | .returned => true
  | _ => false

/-- The call that a reader works on, and its stage there. -/
def ReaderPc.holds : ReaderPc ι → Option (ι × Stage)
  | .taken c resp => some (c, .taken resp)
  | .applied c resp => some (c, .applied resp)
  | .flagged c resp => some (c, .flagged resp)
  | _ => none

namespace Channel

/-- The table, the calls and the readers agree: a call in the table stands under its own id and
no reader has touched it, and a reader knows the stage of the call it holds alone. -/
structure Good (s : Channel ι Msg) : Prop where
  table : ∀ i c, s.pendingCalls i = some c → (s.calls c).requestId = i ∧
    (s.calls c).pc.stored = true ∧ (s.calls c).stage = .untouched
  fresh : ∀ c, (s.calls c).pc.stored = false → (s.calls c).pc ≠ .failed →
    (s.calls c).stage = .untouched ∧ (s.calls c).doneFlag = false
  holder : ∀ r c st, (s.readers r).pc.holds = some (c, st) → (s.calls c).stage = st
  alone : ∀ r r' c st st', (s.readers r).pc.holds = some (c, st) →
    (s.readers r').pc.holds = some (c, st') → r = r'
  mutex : ∀ c, s.connMu = some c ↔ (s.calls c).pc = .writeFailed

variable {pb : Protobuf Msg} {args : ι → CallArgs Msg} {s s' : Channel ι Msg} {a : Act ι}

omit [DecidableEq ι] in
theorem good_init (args : ι → CallArgs Msg) : Good (init args) where
  table := by simp [init]
  fresh := by simp [init]
  holder := by simp [init, ReaderPc.holds]
  alone := by simp [init, ReaderPc.holds]
  mutex := by simp [init]

/-- A step of a caller that leaves the table alone, and neither enters nor leaves the branch of
a failed write. -/
theorem good_modify (h : Good s) (c : ι) (f : Call Msg → Call Msg)
    (hstage : (f (s.calls c)).stage = (s.calls c).stage)
    (hstored : (s.calls c).pc.stored = true →
      (f (s.calls c)).requestId = (s.calls c).requestId ∧ (f (s.calls c)).pc.stored = true)
    (hfresh : (f (s.calls c)).pc.stored = false → (f (s.calls c)).pc ≠ .failed →
      (s.calls c).pc.stored = false ∧ (s.calls c).pc ≠ .failed ∧
        (f (s.calls c)).doneFlag = (s.calls c).doneFlag)
    (hmutex : (f (s.calls c)).pc = .writeFailed ↔ (s.calls c).pc = .writeFailed) :
    Good (s.modify c f) := by
  obtain ⟨h1, h2, h3, h4, h5⟩ := h
  refine ⟨?_, ?_, ?_, h4, ?_⟩
  · intro i d hd
    obtain ⟨hid, hst, hun⟩ := h1 i d hd
    by_cases hdc : d = c
    · subst hdc
      simp [modify, hstored hst, hstage, hid, hun]
    · simp [modify, hdc, hid, hst, hun]
  · intro d hd hf
    by_cases hdc : d = c
    · subst hdc
      simp only [modify, Function.update_self] at hd hf ⊢
      obtain ⟨h6, h7, h8⟩ := hfresh hd hf
      rw [hstage, h8]
      exact h2 d h6 h7
    · simp only [modify, Function.update_of_ne hdc] at hd hf ⊢
      exact h2 d hd hf
  · intro r d st hr
    by_cases hdc : d = c
    · subst hdc
      simp [modify, hstage, h3 r d st hr]
    · simp [modify, hdc, h3 r d st hr]
  · intro d
    by_cases hdc : d = c
    · subst hdc
      simp [modify, hmutex, h5]
    · simp [modify, hdc, h5]

omit [DecidableEq ι] in
/-- A reader that moves to a place where it holds no call. -/
theorem good_setReader (h : Good s) (r : Nat) (x : Reader ι) (hx : x.pc.holds = none) :
    Good { s with readers := Function.update s.readers r x } := by
  obtain ⟨h1, h2, h3, h4, h5⟩ := h
  refine ⟨h1, h2, ?_, ?_, h5⟩
  · intro q c st hq
    by_cases hqr : q = r
    · subst hqr
      simp [hx] at hq
    · simp only [Function.update_of_ne hqr] at hq
      exact h3 q c st hq
  · intro q q' c st st' hq hq'
    by_cases hqr : q = r
    · subst hqr
      simp [hx] at hq
    · by_cases hqr' : q' = r
      · subst hqr'
        simp [hx] at hq'
      · simp only [Function.update_of_ne hqr, Function.update_of_ne hqr'] at hq hq'
        exact h4 q q' c st st' hq hq'

omit [DecidableEq ι] in
/-- No reader holds a call that no reader has touched. -/
theorem Good.not_held (h : Good s) {c : ι} (hc : (s.calls c).stage = .untouched) (r : Nat)
    (st : Stage) : (s.readers r).pc.holds ≠ some (c, st) := by
  intro hr
  have hst := h.holder r c st hr
  rw [hc] at hst
  subst hst
  cases hpc : (s.readers r).pc <;> simp [ReaderPc.holds, hpc] at hr

/-- A reader that holds a call takes it to its next stage, and the call keeps what the table
knows of it. -/
theorem good_advance (h : Good s) {r : Nat} {c : ι} {st : Stage}
    (hr : (s.readers r).pc.holds = some (c, st)) (f : Call Msg → Call Msg) (pc : ReaderPc ι)
    (hpc : (f (s.calls c)).pc = (s.calls c).pc)
    (hnext : ∀ st', pc.holds = some (c, st') → (f (s.calls c)).stage = st')
    (honly : ∀ d st', pc.holds = some (d, st') → d = c) :
    Good ((s.modify c f).setReader r pc) := by
  have htouched : (s.calls c).stage ≠ .untouched := fun hun => h.not_held hun r st hr
  obtain ⟨h1, h2, h3, h4, h5⟩ := h
  have hother : ∀ d, d ≠ c → (s.modify c f).calls d = s.calls d := fun d hd => by
    simp [modify, hd]
  have hself : (s.modify c f).calls c = f (s.calls c) := by simp [modify]
  refine ⟨?_, ?_, ?_, ?_, ?_⟩
  · intro i d hd
    have hdc : d ≠ c := by
      rintro rfl
      exact htouched (h1 i d hd).2.2
    simp only [setReader, hother d hdc]
    exact h1 i d hd
  · intro d hd hf
    by_cases hdc : d = c
    · subst hdc
      simp only [setReader, hself, hpc] at hd hf
      exact absurd (h2 d hd hf).1 htouched
    · simp only [setReader, hother d hdc] at hd hf ⊢
      exact h2 d hd hf
  · intro q d st' hq
    by_cases hqr : q = r
    · subst hqr
      simp only [setReader, Function.update_self] at hq
      have hdc := honly d st' hq
      subst hdc
      simp only [setReader, hself]
      exact hnext st' hq
    · simp only [setReader, Function.update_of_ne hqr] at hq
      have hdc : d ≠ c := by
        rintro rfl
        exact hqr (h4 q r d st' st hq hr)
      simp only [setReader, hother d hdc]
      exact h3 q d st' hq
  · intro q q' d st1 st2 hq hq'
    by_cases hqr : q = r
    · subst hqr
      by_cases hqr' : q' = q
      · exact hqr'.symm
      · simp only [setReader, Function.update_self, Function.update_of_ne hqr'] at hq hq'
        have hdc := honly d st1 hq
        subst hdc
        exact (h4 q' q d st2 st hq' hr).symm
    · by_cases hqr' : q' = r
      · subst hqr'
        simp only [setReader, Function.update_self, Function.update_of_ne hqr] at hq hq'
        have hdc := honly d st2 hq'
        subst hdc
        exact h4 q q' d st1 st hq hr
      · simp only [setReader, Function.update_of_ne hqr, Function.update_of_ne hqr'] at hq hq'
        exact h4 q q' d st1 st2 hq hq'
  · intro d
    by_cases hdc : d = c
    · subst hdc
      simp [setReader, modify, hpc, h5]
    · simp [setReader, modify, hdc, h5]

/-- A call that is stored under its id, over whatever stood there. -/
theorem good_insert (h : Good s) {c : ι} (hpc : (s.calls c).pc = .drawn) :
    Good (s.effect pb args (.insert c)) := by
  obtain ⟨h1, h2, h3, h4, h5⟩ := h
  have hfresh := h2 c (by simp [hpc, CallPc.stored]) (by simp [hpc])
  refine ⟨?_, ?_, ?_, h4, ?_⟩
  · intro i d hd
    by_cases hdc : d = c
    · subst hdc
      simp only [effect, modify, Function.update_apply] at hd ⊢
      split at hd
      · rename_i hi
        simp [hi, CallPc.stored, hfresh]
      · have hst := (h1 i d hd).2.1
        simp [hpc, CallPc.stored] at hst
    · simp only [effect, modify, Function.update_apply, if_neg hdc] at hd ⊢
      split at hd
      · cases hd
        exact absurd rfl hdc
      · exact h1 i d hd
  · intro d hd hf
    by_cases hdc : d = c
    · subst hdc
      simp [effect, modify, CallPc.stored] at hd
    · simp only [effect, modify, Function.update_of_ne hdc] at hd hf ⊢
      exact h2 d hd hf
  · intro r d st hr
    by_cases hdc : d = c
    · subst hdc
      simp [effect, modify, h3 r d st hr]
    · simp [effect, modify, hdc, h3 r d st hr]
  · intro d
    by_cases hdc : d = c
    · subst hdc
      simp [effect, modify, h5, hpc]
    · simp [effect, modify, hdc, h5]

/-- A failed write takes `conn_mu_` with it. -/
theorem good_writeFailed (h : Good s) {c : ι} (hpc : (s.calls c).pc = .inserted)
    (hmu : s.connMu = none) (w : List (Write ι)) :
    Good { s.modify c fun k => { k with pc := .writeFailed } with
      connMu := some c, writes := w } := by
  obtain ⟨h1, h2, h3, h4, h5⟩ := h
  refine ⟨?_, ?_, ?_, h4, ?_⟩
  · intro i d hd
    obtain ⟨hid, hst, hun⟩ := h1 i d hd
    by_cases hdc : d = c
    · subst hdc
      simp [modify, CallPc.stored, hid, hun]
    · simp [modify, hdc, hid, hst, hun]
  · intro d hd hf
    by_cases hdc : d = c
    · subst hdc
      simp [modify, CallPc.stored] at hd
    · simp only [modify, Function.update_of_ne hdc] at hd hf ⊢
      exact h2 d hd hf
  · intro r d st hr
    by_cases hdc : d = c
    · subst hdc
      simp [modify, h3 r d st hr]
    · simp [modify, hdc, h3 r d st hr]
  · intro d
    by_cases hdc : d = c
    · subst hdc
      simp [modify]
    · have hd := h5 d
      rw [hmu] at hd
      simp only [modify, Function.update_of_ne hdc, Option.some.injEq, ← hd]
      simp [Ne.symm hdc]

/-- The report of a failed write removes whatever stands under the id, and frees `conn_mu_`. -/
theorem good_failWrite (h : Good s) {c : ι} (hpc : (s.calls c).pc = .writeFailed) :
    Good (s.effect pb args (.failWrite c)) := by
  obtain ⟨h1, h2, h3, h4, h5⟩ := h
  refine ⟨?_, ?_, ?_, h4, ?_⟩
  · intro i d hd
    simp only [effect, modify, Function.update_apply] at hd ⊢
    split at hd
    · cases hd
    · rename_i hi
      obtain ⟨hid, hst, hun⟩ := h1 i d hd
      have hdc : d ≠ c := by
        rintro rfl
        exact hi hid.symm
      simp [hdc, hid, hst, hun]
  · intro d hd hf
    by_cases hdc : d = c
    · subst hdc
      simp [effect, modify, Call.runDone] at hf
    · simp only [effect, modify, Function.update_of_ne hdc] at hd hf ⊢
      exact h2 d hd hf
  · intro r d st hr
    by_cases hdc : d = c
    · subst hdc
      simp [effect, modify, Call.runDone, h3 r d st hr]
    · simp [effect, modify, hdc, h3 r d st hr]
  · intro d
    by_cases hdc : d = c
    · subst hdc
      simp [effect, modify, Call.runDone]
    · have hd := h5 d
      rw [(h5 c).mpr hpc] at hd
      simp only [effect, modify, Function.update_of_ne hdc, ← hd]
      simp [Ne.symm hdc]

/-- The sweep marks the calls in the table, and leaves them there. -/
theorem good_sweep (h : Good s) {r : Nat} {cause : ExitCause}
    (hr : (s.readers r).pc = .closing cause) : Good (s.effect pb args (.sweep r)) := by
  have hmove : Good (s.setReader r (.exited cause)) := good_setReader h r _ rfl
  obtain ⟨h1, h2, h3, h4, h5⟩ := hmove
  have hsame : ∀ c, ((s.effect pb args (.sweep r)).calls c).pc = (s.calls c).pc ∧
      ((s.effect pb args (.sweep r)).calls c).requestId = (s.calls c).requestId ∧
      ((s.effect pb args (.sweep r)).calls c).stage = (s.calls c).stage := by
    intro c
    simp only [effect, hr]
    split <;> simp [Call.sweep]
  have hreaders : (s.effect pb args (.sweep r)).readers =
      (s.setReader r (.exited cause)).readers := by
    simp [effect, hr]
  have htable : (s.effect pb args (.sweep r)).pendingCalls = s.pendingCalls := by
    simp [effect, hr, setReader]
  refine ⟨?_, ?_, ?_, ?_, ?_⟩
  · intro i c hc
    rw [(hsame c).1, (hsame c).2.1, (hsame c).2.2]
    rw [htable] at hc
    exact h1 i c hc
  · intro c hc hf
    rw [(hsame c).1] at hc hf
    obtain ⟨hun, hflag⟩ := h2 c hc hf
    refine ⟨by rw [(hsame c).2.2]; exact hun, ?_⟩
    simp only [effect, hr]
    split
    · rename_i hin
      have hst := (h1 _ c hin).2.1
      exact absurd hst (by simpa [setReader] using hc)
    · exact hflag
  · intro q c st hq
    rw [(hsame c).2.2]
    rw [hreaders] at hq
    exact h3 q c st hq
  · intro q q' c st st' hq hq'
    rw [hreaders] at hq hq'
    exact h4 q q' c st st' hq hq'
  · intro c
    rw [(hsame c).1]
    simpa [effect, hr, setReader] using h5 c

/-- A response takes the call that stands under its id out of the table. -/
theorem good_taken (h : Good s) {r : Nat} {c : ι} {resp : RpcResponse}
    (hc : s.pendingCalls resp.requestId = some c) :
    Good { (s.modify c fun k => { k with stage := .taken resp }).setReader r (.taken c resp) with
      pendingCalls := Function.update s.pendingCalls resp.requestId none } := by
  obtain ⟨hid, hst, hun⟩ := h.table _ _ hc
  have hnot := h.not_held hun
  obtain ⟨h1, h2, h3, h4, h5⟩ := h
  refine ⟨?_, ?_, ?_, ?_, ?_⟩
  · intro i d hd
    simp only [Function.update_apply] at hd
    split at hd
    · cases hd
    · rename_i hi
      have hdc : d ≠ c := by
        rintro rfl
        exact hi ((h1 i d hd).1.symm.trans hid)
      simpa [setReader, modify, hdc] using h1 i d hd
  · intro d hd hf
    by_cases hdc : d = c
    · subst hdc
      simp [setReader, modify, hst] at hd
    · simp only [setReader, modify, Function.update_of_ne hdc] at hd hf ⊢
      exact h2 d hd hf
  · intro q d st hq
    by_cases hqr : q = r
    · subst hqr
      simp only [setReader, Function.update_self, ReaderPc.holds, Option.some.injEq,
        Prod.mk.injEq] at hq
      obtain ⟨rfl, rfl⟩ := hq
      simp [setReader, modify]
    · simp only [setReader, modify, Function.update_of_ne hqr] at hq
      have hdc : d ≠ c := by
        rintro rfl
        exact hnot q st hq
      simpa [setReader, modify, hdc] using h3 q d st hq
  · intro q q' d st st' hq hq'
    by_cases hqr : q = r
    · by_cases hqr' : q' = r
      · rw [hqr, hqr']
      · simp only [hqr, setReader, modify, Function.update_self, Function.update_of_ne hqr',
          ReaderPc.holds, Option.some.injEq, Prod.mk.injEq] at hq hq'
        obtain ⟨rfl, -⟩ := hq
        exact absurd hq' (hnot q' st')
    · by_cases hqr' : q' = r
      · simp only [hqr', setReader, modify, Function.update_self, Function.update_of_ne hqr,
          ReaderPc.holds, Option.some.injEq, Prod.mk.injEq] at hq hq'
        obtain ⟨rfl, -⟩ := hq'
        exact absurd hq (hnot q st)
      · simp only [setReader, modify, Function.update_of_ne hqr,
          Function.update_of_ne hqr'] at hq hq'
        exact h4 q q' d st st' hq hq'
  · intro d
    by_cases hdc : d = c
    · subst hdc
      simp [setReader, modify, h5]
    · simp [setReader, modify, hdc, h5]

/-- Every action keeps the invariant. -/
theorem good_effect (h : Good s) (he : s.enabled pb args a = true) :
    Good (s.effect pb args a) := by
  cases a with
  | enter c =>
    have hpc : (s.calls c).pc = .idle := by simpa [enabled] using he
    simp only [effect]
    apply good_modify h <;> simp [hpc, CallPc.stored]
  | check c =>
    have hpc : (s.calls c).pc = .entered := by simpa [enabled] using he
    simp only [effect]
    split
    · apply good_modify h <;> simp [hpc, CallPc.stored]
    · apply good_modify h <;> simp [hpc, CallPc.stored, Call.runDone]
  | draw c =>
    have hpc : (s.calls c).pc = .checked := by simpa [enabled] using he
    have hmove := good_modify h c
      (fun k => { k with pc := .drawn, requestId := s.nextRequestId, ticket := s.drawn })
      rfl (by simp [hpc, CallPc.stored]) (by simp [hpc, CallPc.stored]) (by simp [hpc])
    exact ⟨hmove.table, hmove.fresh, hmove.holder, hmove.alone, hmove.mutex⟩
  | insert c => exact good_insert h (by simpa [enabled] using he)
  | write c count =>
    simp only [enabled, Bool.and_eq_true, decide_eq_true_eq, Option.isNone_iff_eq_none] at he
    obtain ⟨⟨hpc, hmu⟩, -⟩ := he
    simp only [effect]
    split
    · have hmove := good_modify h c
        (fun k => { k with pc := if (args c).hasDone then .returned else .written })
        rfl (by intro _; dsimp only; split <;> simp [CallPc.stored])
        (by dsimp only; split <;> simp [CallPc.stored]) (by dsimp only; split <;> simp [hpc])
      exact ⟨hmove.table, hmove.fresh, hmove.holder, hmove.alone, hmove.mutex⟩
    · exact good_writeFailed h hpc hmu _
  | failWrite c => exact good_failWrite h (by simpa [enabled] using he)
  | wait c =>
    have hpc : (s.calls c).pc = .written := by simpa [enabled] using he
    simp only [effect]
    apply good_modify h
    · rfl
    · intro _; dsimp only; split <;> simp [CallPc.stored]
    · dsimp only; split <;> simp [CallPc.stored]
    · dsimp only; split <;> simp [hpc]
  | wake c =>
    have hpc : (s.calls c).pc = .waiting := by
      simp only [enabled, Bool.and_eq_true, decide_eq_true_eq] at he
      exact he.1
    simp only [effect]
    apply good_modify h <;> simp [hpc, CallPc.stored]
  | loopHead r =>
    apply good_setReader h
    split <;> rfl
  | readv r res =>
    cases res with
    | data bytes => exact good_setReader h r _ rfl
    | endOfFile =>
      have hmove := good_setReader h r ⟨.closing .endOfFile, (s.readers r).buf⟩ rfl
      exact ⟨hmove.table, hmove.fresh, hmove.holder, hmove.alone, hmove.mutex⟩
    | error =>
      have hmove := good_setReader h r ⟨.closing .readError, (s.readers r).buf⟩ rfl
      exact ⟨hmove.table, hmove.fresh, hmove.holder, hmove.alone, hmove.mutex⟩
  | sweep r =>
    simp only [enabled] at he
    split at he
    · exact good_sweep h ‹_›
    · cases he
  | parse r =>
    simp only [effect]
    split
    · exact good_setReader h r _ rfl
    · have hmove := good_setReader h r ⟨.exited .badMagic, (s.readers r).buf⟩ rfl
      exact ⟨hmove.table, hmove.fresh, hmove.holder, hmove.alone, hmove.mutex⟩
    · exact good_setReader h r _ rfl
  | take r =>
    simp only [effect]
    split
    · split
      · exact good_setReader h r _ rfl
      · split
        · exact good_setReader h r _ rfl
        · exact good_taken h ‹_›
    · exact h
  | apply r =>
    simp only [effect]
    split
    · rename_i c resp hr
      have hheld : (s.readers r).pc.holds = some (c, .taken resp) := by simp [hr, ReaderPc.holds]
      apply good_advance h hheld
      · simp
      · simp [ReaderPc.holds]
      · simp [ReaderPc.holds]
    · exact h
  | flag r =>
    simp only [effect]
    split
    · rename_i c resp hr
      have hheld : (s.readers r).pc.holds = some (c, .applied resp) := by simp [hr, ReaderPc.holds]
      apply good_advance h hheld <;>
        simp [ReaderPc.holds]
    · exact h
  | runDone r =>
    simp only [effect]
    split
    · rename_i c resp hr
      have hheld : (s.readers r).pc.holds = some (c, .flagged resp) := by simp [hr, ReaderPc.holds]
      apply good_advance h hheld <;>
        simp [ReaderPc.holds, Call.runDone]
    · exact h
  | socket ok =>
    simp only [effect]
    split <;> exact ⟨h.table, h.fresh, h.holder, h.alone, h.mutex⟩
  | connect ok =>
    simp only [effect]
    split
    · split
      · rename_i fd _ _
        have hmove := good_setReader h fd ⟨.loop, Buffer.new kInitialSize⟩ rfl
        exact ⟨hmove.table, hmove.fresh, hmove.holder, hmove.alone, hmove.mutex⟩
      · exact ⟨h.table, h.fresh, h.holder, h.alone, h.mutex⟩
    · exact h
  | disconnect =>
    simp only [effect]
    split
    · exact ⟨h.table, h.fresh, h.holder, h.alone, h.mutex⟩
    · exact h
  | close => exact ⟨h.table, h.fresh, h.holder, h.alone, h.mutex⟩

theorem good_reach (h : (machine pb args).Reach s) : Good s := by
  refine h.invariant (good_init args) ?_
  intro s a s' _ hg hs
  obtain ⟨he, rfl⟩ := step_iff.mp hs
  exact good_effect hg he

end Channel

/-! ## What an action can do to one call -/

/-- The changes of one call, each with the action that makes it and the place from which it is
made. -/
inductive CallStep (pb : Protobuf Msg) (a : CallArgs Msg) (c : ι) (k : Call Msg) :
    Act ι → Call Msg → Prop
  | same (act : Act ι) : CallStep pb a c k act k
  | enter : k.pc = .idle → CallStep pb a c k (.enter c) { k with pc := .entered }
  | check : k.pc = .entered → CallStep pb a c k (.check c) { k with pc := .checked }
  | refuse : k.pc = .entered → CallStep pb a c k (.check c) (Call.runDone a
      { k with pc := .refused, controller := k.controller.setFailed "not connected" })
  | draw (id : UInt32) (ticket : Nat) : k.pc = .checked →
      CallStep pb a c k (.draw c) { k with pc := .drawn, requestId := id, ticket := ticket }
  | insert (late : Bool) : k.pc = .drawn →
      CallStep pb a c k (.insert c) { k with pc := .inserted, late := late }
  | written (n : Nat) : k.pc = .inserted → CallStep pb a c k (.write c (some n))
      { k with pc := if a.hasDone then .returned else .written }
  | writeFailed (count : Option Nat) : k.pc = .inserted →
      CallStep pb a c k (.write c count) { k with pc := .writeFailed }
  | failWrite : k.pc = .writeFailed → CallStep pb a c k (.failWrite c) (Call.runDone a
      { k with pc := .failed, controller := k.controller.setFailed "write failed" })
  | wait : k.pc = .written → CallStep pb a c k (.wait c)
      { k with pc := if k.doneFlag then .returned else .waiting }
  | wake : k.pc = .waiting → k.doneFlag = true →
      CallStep pb a c k (.wake c) { k with pc := .returned }
  | sweep (r : Nat) : k.pc.stored = true → k.stage = .untouched →
      CallStep pb a c k (.sweep r) k.sweep
  | take (r : Nat) (resp : RpcResponse) : k.pc.stored = true → k.stage = .untouched →
      k.requestId = resp.requestId →
      CallStep pb a c k (.take r) { k with stage := .taken resp }
  | apply (r : Nat) (resp : RpcResponse) : k.stage = .taken resp →
      CallStep pb a c k (.apply r) { k.apply pb resp with stage := .applied resp }
  | flag (r : Nat) (resp : RpcResponse) : k.stage = .applied resp →
      CallStep pb a c k (.flag r) { k with doneFlag := true, stage := .flagged resp }
  | runDone (r : Nat) (resp : RpcResponse) : k.stage = .flagged resp →
      CallStep pb a c k (.runDone r) (Call.runDone a { k with stage := .finished resp })

namespace Channel

variable {pb : Protobuf Msg} {args : ι → CallArgs Msg} {s s' : Channel ι Msg} {a : Act ι}

/-- A change of call `c` is seen at `c` only. -/
theorem callStep_update (args : ι → CallArgs Msg) (s : Channel ι Msg) {c : ι} {k : Call Msg}
    (hk : CallStep pb (args c) c (s.calls c) a k) (d : ι) :
    CallStep pb (args d) d (s.calls d) a (Function.update s.calls c k d) := by
  by_cases hdc : d = c
  · subst hdc
    rwa [Function.update_self]
  · rw [Function.update_of_ne hdc]
    exact .same a

/-- Every action does one of these to each call. -/
theorem callStep_effect (h : Good s) (he : s.enabled pb args a = true) (d : ι) :
    CallStep pb (args d) d (s.calls d) a ((s.effect pb args a).calls d) := by
  cases a with
  | enter c =>
    exact callStep_update args s (.enter (by simpa [enabled] using he)) d
  | check c =>
    have hpc : (s.calls c).pc = .entered := by simpa [enabled] using he
    simp only [effect]
    split
    · exact callStep_update args s (.check hpc) d
    · exact callStep_update args s (.refuse hpc) d
  | draw c =>
    exact callStep_update args s (.draw _ _ (by simpa [enabled] using he)) d
  | insert c =>
    exact callStep_update args s (.insert _ (by simpa [enabled] using he)) d
  | write c count =>
    simp only [enabled, Bool.and_eq_true, decide_eq_true_eq] at he
    simp only [effect]
    split
    · exact callStep_update args s (.written _ he.1.1) d
    · exact callStep_update args s (.writeFailed _ he.1.1) d
  | failWrite c =>
    exact callStep_update args s (.failWrite (by simpa [enabled] using he)) d
  | wait c =>
    exact callStep_update args s (.wait (by simpa [enabled] using he)) d
  | wake c =>
    simp only [enabled, Bool.and_eq_true, decide_eq_true_eq] at he
    exact callStep_update args s (.wake he.1 he.2) d
  | sweep r =>
    simp only [effect]
    split
    · by_cases hin : s.pendingCalls (s.calls d).requestId = some d
      · obtain ⟨-, hst, hun⟩ := h.table _ _ hin
        simp only [if_pos hin]
        exact .sweep r hst hun
      · simp only [if_neg hin]
        exact .same _
    · exact .same _
  | take r =>
    simp only [effect]
    split
    · split
      · exact .same _
      · split
        · exact .same _
        · rename_i c hc
          obtain ⟨hid, hst, hun⟩ := h.table _ _ hc
          exact callStep_update args s (.take r _ hst hun hid) d
    · exact .same _
  | apply r =>
    simp only [effect]
    split
    · rename_i c resp hr
      exact callStep_update args s (.apply r resp (h.holder r c _ (by simp [hr, ReaderPc.holds]))) d
    · exact .same _
  | flag r =>
    simp only [effect]
    split
    · rename_i c resp hr
      exact callStep_update args s (.flag r resp (h.holder r c _ (by simp [hr, ReaderPc.holds]))) d
    · exact .same _
  | runDone r =>
    simp only [effect]
    split
    · rename_i c resp hr
      exact callStep_update args s
        (.runDone r resp (h.holder r c _ (by simp [hr, ReaderPc.holds]))) d
    · exact .same _
  | loopHead r => exact .same _
  | readv r res => cases res <;> exact .same _
  | parse r =>
    simp only [effect]
    split <;> exact .same _
  | socket ok =>
    simp only [effect]
    split <;> exact .same _
  | connect ok =>
    simp only [effect]
    split
    · split <;> exact .same _
    · exact .same _
  | disconnect =>
    simp only [effect]
    split <;> exact .same _
  | close => exact .same _

/-- The changes of the table. -/
inductive TableStep (s : Channel ι Msg) : Act ι → Channel ι Msg → Prop
  | same {act : Act ι} {s' : Channel ι Msg} : (∀ c, act ≠ .insert c) → (∀ c, act ≠ .failWrite c) →
      s'.pendingCalls = s.pendingCalls → TableStep s act s'
  | insert {c : ι} {s' : Channel ι Msg} : (s.calls c).pc = .drawn →
      s'.pendingCalls = Function.update s.pendingCalls (s.calls c).requestId (some c) →
      (∀ d, d ≠ c → s'.calls d = s.calls d) → TableStep s (.insert c) s'
  | failWrite {c : ι} {s' : Channel ι Msg} : (s.calls c).pc = .writeFailed →
      s'.pendingCalls = Function.update s.pendingCalls (s.calls c).requestId none →
      (∀ d, d ≠ c → s'.calls d = s.calls d) → (s'.calls c).pc = .failed →
      TableStep s (.failWrite c) s'
  | take {r : Nat} {c : ι} {resp : RpcResponse} {s' : Channel ι Msg} :
      s.pendingCalls resp.requestId = some c →
      s'.pendingCalls = Function.update s.pendingCalls resp.requestId none →
      (s'.calls c).stage = .taken resp → (∀ d, d ≠ c → s'.calls d = s.calls d) →
      TableStep s (.take r) s'

/-- Every action does one of these to the table. -/
theorem tableStep_effect (he : s.enabled pb args a = true) :
    TableStep s a (s.effect pb args a) := by
  cases a with
  | insert c =>
    refine .insert (by simpa [enabled] using he) rfl ?_
    intro d hd
    simp [effect, modify, hd]
  | failWrite c =>
    refine .failWrite (by simpa [enabled] using he) rfl ?_ ?_
    · intro d hd
      simp [effect, modify, hd]
    · simp [effect, modify, Call.runDone]
  | take r =>
    simp only [effect]
    split
    · split
      · exact .same (by simp) (by simp) rfl
      · split
        · exact .same (by simp) (by simp) rfl
        · rename_i c hc
          refine .take hc rfl ?_ ?_
          · simp [setReader, modify]
          · intro d hd
            simp [setReader, modify, hd]
    · exact .same (by simp) (by simp) rfl
  | check c =>
    refine .same (by simp) (by simp) ?_
    simp only [effect]
    split <;> rfl
  | write c count =>
    refine .same (by simp) (by simp) ?_
    simp only [effect]
    split <;> rfl
  | readv r res => cases res <;> exact .same (by simp) (by simp) rfl
  | sweep r =>
    refine .same (by simp) (by simp) ?_
    simp only [effect]
    split <;> rfl
  | parse r =>
    refine .same (by simp) (by simp) ?_
    simp only [effect]
    split <;> rfl
  | apply r =>
    refine .same (by simp) (by simp) ?_
    simp only [effect]
    split <;> rfl
  | flag r =>
    refine .same (by simp) (by simp) ?_
    simp only [effect]
    split <;> rfl
  | runDone r =>
    refine .same (by simp) (by simp) ?_
    simp only [effect]
    split <;> rfl
  | socket ok =>
    refine .same (by simp) (by simp) ?_
    simp only [effect]
    split <;> rfl
  | connect ok =>
    refine .same (by simp) (by simp) ?_
    simp only [effect]
    split
    · split <;> rfl
    · rfl
  | disconnect =>
    refine .same (by simp) (by simp) ?_
    simp only [effect]
    split <;> rfl
  | _ => exact .same (by simp) (by simp) rfl

/-- What only some actions change: the counter of the ids, the bytes on the sockets, the mark
of the sweep, and the number of the sockets. -/
structure Frame (s : Channel ι Msg) (a : Act ι) (s' : Channel ι Msg) : Prop where
  counter : (∀ c, a ≠ .draw c) → s'.nextRequestId = s.nextRequestId ∧ s'.drawn = s.drawn
  stream : (∀ c count, a ≠ .write c count) → s'.wire = s.wire ∧ s'.writes = s.writes
  swept : (∀ r, a ≠ .sweep r) → s'.swept = s.swept
  sockets : a ≠ .socket true → s'.sockets = s.sockets

theorem frame_effect (pb : Protobuf Msg) (args : ι → CallArgs Msg) (s : Channel ι Msg)
    (a : Act ι) : Frame s a (s.effect pb args a) := by
  have hsame : Frame s a s := ⟨fun _ => ⟨rfl, rfl⟩, fun _ => ⟨rfl, rfl⟩, fun _ => rfl, fun _ => rfl⟩
  cases a with
  | draw c => exact ⟨fun h => absurd rfl (h c), hsame.stream, hsame.swept, hsame.sockets⟩
  | write c count =>
    simp only [effect]
    split <;> exact ⟨hsame.counter, fun h => absurd rfl (h c _), hsame.swept, hsame.sockets⟩
  | sweep r =>
    simp only [effect]
    split
    · exact ⟨hsame.counter, hsame.stream, fun h => absurd rfl (h r), hsame.sockets⟩
    · exact hsame
  | socket ok =>
    cases ok with
    | true => exact ⟨hsame.counter, hsame.stream, hsame.swept, fun h => absurd rfl h⟩
    | false => exact ⟨hsame.counter, hsame.stream, hsame.swept, hsame.sockets⟩
  | check c =>
    simp only [effect]
    split <;> exact ⟨hsame.counter, hsame.stream, hsame.swept, hsame.sockets⟩
  | readv r res => cases res <;> exact ⟨hsame.counter, hsame.stream, hsame.swept, hsame.sockets⟩
  | parse r =>
    simp only [effect]
    split <;> exact ⟨hsame.counter, hsame.stream, hsame.swept, hsame.sockets⟩
  | take r =>
    simp only [effect]
    split
    · split
      · exact ⟨hsame.counter, hsame.stream, hsame.swept, hsame.sockets⟩
      · split <;> exact ⟨hsame.counter, hsame.stream, hsame.swept, hsame.sockets⟩
    · exact hsame
  | apply r =>
    simp only [effect]
    split <;> exact ⟨hsame.counter, hsame.stream, hsame.swept, hsame.sockets⟩
  | flag r =>
    simp only [effect]
    split <;> exact ⟨hsame.counter, hsame.stream, hsame.swept, hsame.sockets⟩
  | runDone r =>
    simp only [effect]
    split <;> exact ⟨hsame.counter, hsame.stream, hsame.swept, hsame.sockets⟩
  | connect ok =>
    simp only [effect]
    split
    · split <;> exact ⟨hsame.counter, hsame.stream, hsame.swept, hsame.sockets⟩
    · exact hsame
  | disconnect =>
    simp only [effect]
    split
    · exact ⟨hsame.counter, hsame.stream, hsame.swept, hsame.sockets⟩
    · exact hsame
  | _ => exact ⟨hsame.counter, hsame.stream, hsame.swept, hsame.sockets⟩

/-- What every change of one call keeps, every step of the channel keeps. -/
theorem calls_step (h : (machine pb args).Reach s) (hs : (machine pb args).step s a = some s')
    (c : ι) : CallStep pb (args c) c (s.calls c) a (s'.calls c) := by
  obtain ⟨he, rfl⟩ := step_iff.mp hs
  exact callStep_effect (good_reach h) he c

end Channel

end rpc
