-- The tasks of the pool. A task that was pushed is in the queue, in the hands of
-- one worker, or finished. A worker returns only when it finds `stop_` set and
-- the queue empty under the lock, and a push needs a look at `stop_` under the
-- same lock, so nothing comes into the queue after the last worker.
import Mathlib.Data.List.Nodup
import RpcFramework.ThreadPool

namespace rpc.net.ThreadPool

open runs locks

variable {n : Nat} {ι : Type} [DecidableEq ι] {s s' : ThreadPool n ι} {a : Act n ι}

/-! ## The tasks -/

/-- Every task that was pushed is in the queue, in the hands of one worker, or finished, and in
one of these places only; and the queue is served in order. -/
structure Ledger (s : ThreadPool n ι) : Prop where
  order : s.taken ++ s.tasks = s.submitted
  nodup : s.submitted.Nodup
  pushed : ∀ c, c ∈ s.submitted ↔ (s.submits c).hasPushed = true
  taken : ∀ c, c ∈ s.taken ↔ (∃ w, (s.workers w).hand = some c) ∨ c ∈ s.finished
  apart : ∀ w c, (s.workers w).hand = some c → c ∉ s.finished
  alone : ∀ w w' c, (s.workers w).hand = some c → (s.workers w').hand = some c → w = w'
  once : s.finished.Nodup

/-- The lists are the same, and so are the hands and what was pushed. -/
structure SameTasks (s s' : ThreadPool n ι) : Prop where
  tasks : s'.tasks = s.tasks
  submitted : s'.submitted = s.submitted
  taken : s'.taken = s.taken
  finished : s'.finished = s.finished
  hands : ∀ w, (s'.workers w).hand = (s.workers w).hand
  pushed : ∀ c, (s'.submits c).hasPushed = (s.submits c).hasPushed

omit [DecidableEq ι] in
theorem Ledger.same (h : Ledger s) (hs : SameTasks s s') : Ledger s' := by
  obtain ⟨htasks, hsub, htaken, hfin, hhands, hpushed⟩ := hs
  refine ⟨?_, ?_, ?_, ?_, ?_, ?_, ?_⟩
  · rw [htaken, htasks, hsub]
    exact h.order
  · rw [hsub]
    exact h.nodup
  · intro c
    rw [hsub, hpushed]
    exact h.pushed c
  · intro c
    simp only [htaken, hhands, hfin]
    exact h.taken c
  · intro w c
    rw [hhands, hfin]
    exact h.apart w c
  · intro w w' c
    rw [hhands, hhands]
    exact h.alone w w' c
  · rw [hfin]
    exact h.once

omit [DecidableEq ι] in
/-- A thread that moves within one value of `f` leaves `f` alone everywhere. -/
theorem update_same {α β γ : Type} [DecidableEq α] (f : β → γ) {g : α → β} {i : α} {b : β}
    (h : f b = f (g i)) (j : α) : f (Function.update g i b j) = f (g j) := by
  by_cases hj : j = i
  · subst hj
    rw [Function.update_self, h]
  · rw [Function.update_of_ne hj]

omit [DecidableEq ι] in
theorem sameTasks_worker {w : Fin n} {pc : WorkerPc ι} (mu : Option (LockOwner n ι))
    (h : pc.hand = (s.workers w).hand) :
    SameTasks s { s with workers := Function.update s.workers w pc, mu := mu } :=
  ⟨rfl, rfl, rfl, rfl, update_same WorkerPc.hand h, fun _ => rfl⟩

theorem sameTasks_submit {c : ι} {pc : SubmitPc} (mu : Option (LockOwner n ι))
    (h : pc.hasPushed = (s.submits c).hasPushed) :
    SameTasks s { s with submits := Function.update s.submits c pc, mu := mu } :=
  ⟨rfl, rfl, rfl, rfl, fun _ => rfl, update_same SubmitPc.hasPushed h⟩

omit [DecidableEq ι] in
theorem SameTasks.trans {s₁ s₂ s₃ : ThreadPool n ι} (h : SameTasks s₁ s₂) (h' : SameTasks s₂ s₃) :
    SameTasks s₁ s₃ :=
  ⟨h'.tasks.trans h.tasks, h'.submitted.trans h.submitted, h'.taken.trans h.taken,
    h'.finished.trans h.finished, fun w => (h'.hands w).trans (h.hands w),
    fun c => (h'.pushed c).trans (h.pushed c)⟩

/-- The moves that neither push nor pop nor finish a task. -/
theorem sameTasks_move (hm : Move s a s') : SameTasks s s' ∨
    (∃ w t rest, s.workers w = .passed ∧ s.tasks = t :: rest ∧
      s' = { s.setWorker w (.holding t) with tasks := rest, taken := s.taken ++ [t] }) ∨
    (∃ w t, s.workers w = .running t ∧
      s' = { s.setWorker w .ready with finished := s.finished ++ [t] }) ∨
    ∃ c, s.submits c = .checked ∧ s' =
      { s.setSubmit c .pushed with tasks := s.tasks ++ [c], submitted := s.submitted ++ [c] } := by
  cases hm with
  | take w t rest hw ht => exact Or.inr (Or.inl ⟨w, t, rest, hw, ht, rfl⟩)
  | finish w t hw => exact Or.inr (Or.inr (Or.inl ⟨w, t, hw, rfl⟩))
  | push c hc => exact Or.inr (Or.inr (Or.inr ⟨c, hc, rfl⟩))
  | lock w hw _ =>
    refine Or.inl (sameTasks_worker _ ?_)
    rcases hw with hw | hw <;> simp [hw, WorkerPc.hand]
  | pass w hw _ => exact Or.inl (sameTasks_worker _ (by simp [hw, WorkerPc.hand]))
  | decline w hw _ _ => exact Or.inl (sameTasks_worker _ (by simp [hw, WorkerPc.hand]))
  | block w hw => exact Or.inl (sameTasks_worker _ (by simp [hw, WorkerPc.hand]))
  | wakeUp w hw => exact Or.inl (sameTasks_worker _ (by simp [hw, WorkerPc.hand]))
  | leave w hw _ _ => exact Or.inl (sameTasks_worker _ (by simp [hw, WorkerPc.hand]))
  | crash w hw _ _ => exact Or.inl (sameTasks_worker _ (by simp [hw, WorkerPc.hand]))
  | unlock w t hw => exact Or.inl (sameTasks_worker _ (by simp [hw, WorkerPc.hand]))
  | back w hw => exact Or.inl (sameTasks_worker _ (by simp [hw, WorkerPc.hand]))
  | submitLock c hc _ => exact Or.inl (sameTasks_submit _ (by simp [hc, SubmitPc.hasPushed]))
  | refuse c hc _ => exact Or.inl (sameTasks_submit _ (by simp [hc, SubmitPc.hasPushed]))
  | check c hc _ => exact Or.inl (sameTasks_submit _ (by simp [hc, SubmitPc.hasPushed]))
  | release c hc => exact Or.inl (sameTasks_submit _ (by simp [hc, SubmitPc.hasPushed]))
  | raise c hc => exact Or.inl (sameTasks_submit _ (by simp [hc, SubmitPc.hasPushed]))
  | notifyNone c hc => exact Or.inl (sameTasks_submit _ (by simp [hc, SubmitPc.hasPushed]))
  | notifyOne c w hc hw =>
    have hcall : SameTasks s (s.setSubmit c .returned) :=
      sameTasks_submit _ (by simp [hc, SubmitPc.hasPushed])
    refine Or.inl (hcall.trans (sameTasks_worker _ ?_))
    simp [setSubmit, hw, WorkerPc.hand]
  | store _ => exact Or.inl ⟨rfl, rfl, rfl, rfl, fun _ => rfl, fun _ => rfl⟩
  | notifyAll _ =>
    refine Or.inl ⟨rfl, rfl, rfl, rfl, ?_, fun _ => rfl⟩
    intro w
    by_cases hw : s.workers w = .blocked <;> simp [hw, WorkerPc.hand]
  | join _ _ => exact Or.inl ⟨rfl, rfl, rfl, rfl, fun _ => rfl, fun _ => rfl⟩

/-- A move that adds nothing to the logs moves no task. -/
theorem sameTasks_of_logs (hm : Move s a s') (htaken : s'.taken = s.taken)
    (hfinished : s'.finished = s.finished) (hsubmitted : s'.submitted = s.submitted) :
    SameTasks s s' := by
  rcases sameTasks_move hm with h | ⟨w, t, rest, -, -, rfl⟩ | ⟨w, t, -, rfl⟩ | ⟨c, -, rfl⟩
  · exact h
  · simp at htaken
  · simp at hfinished
  · simp at hsubmitted

omit [DecidableEq ι] in
/-- A task in the queue is in no hands, and is not finished. -/
theorem Ledger.waiting (h : Ledger s) {t : ι} (ht : t ∈ s.tasks) :
    (∀ w, (s.workers w).hand ≠ some t) ∧ t ∉ s.finished := by
  have hnodup := h.nodup
  rw [← h.order] at hnodup
  have hnot : t ∉ s.taken := fun htaken => List.disjoint_of_nodup_append hnodup htaken ht
  rw [h.taken] at hnot
  exact ⟨fun w hw => hnot (Or.inl ⟨w, hw⟩), fun hf => hnot (Or.inr hf)⟩

omit [DecidableEq ι] in
theorem ledger_take (h : Ledger s) {w : Fin n} {t : ι} {rest : List ι}
    (hw : s.workers w = .passed) (ht : s.tasks = t :: rest) : Ledger
      { s.setWorker w (.holding t) with tasks := rest, taken := s.taken ++ [t] } := by
  obtain ⟨hfree, hunfinished⟩ := h.waiting (t := t) (by simp [ht])
  have hself : ((s.setWorker w (.holding t)).workers w).hand = some t := by
    simp [setWorker, WorkerPc.hand]
  have hother : ∀ w', w' ≠ w → (s.setWorker w (.holding t)).workers w' = s.workers w' :=
    fun w' hne => by simp [setWorker, hne]
  have hbefore : (s.workers w).hand = none := by rw [hw]; rfl
  refine ⟨?_, h.nodup, h.pushed, ?_, ?_, ?_, h.once⟩
  · have horder := h.order
    rw [ht] at horder
    simpa [setWorker] using horder
  · intro c
    rw [List.mem_append, h.taken, List.mem_singleton]
    refine ⟨?_, ?_⟩
    · rintro ((⟨w', hw'⟩ | hf) | rfl)
      · have hne : w' ≠ w := by
          rintro rfl
          rw [hbefore] at hw'
          cases hw'
        exact Or.inl ⟨w', by rw [hother w' hne]; exact hw'⟩
      · exact Or.inr hf
      · exact Or.inl ⟨w, hself⟩
    · rintro (⟨w', hw'⟩ | hf)
      · by_cases hne : w' = w
        · subst hne
          rw [hself] at hw'
          exact Or.inr (Option.some.inj hw').symm
        · rw [hother w' hne] at hw'
          exact Or.inl (Or.inl ⟨w', hw'⟩)
      · exact Or.inl (Or.inr hf)
  · intro w' c hc
    by_cases hne : w' = w
    · subst hne
      rw [hself] at hc
      cases hc
      exact hunfinished
    · rw [hother w' hne] at hc
      exact h.apart w' c hc
  · intro w₁ w₂ c h₁ h₂
    by_cases hne₁ : w₁ = w <;> by_cases hne₂ : w₂ = w
    · rw [hne₁, hne₂]
    · subst hne₁
      rw [hself] at h₁
      cases h₁
      rw [hother w₂ hne₂] at h₂
      exact absurd h₂ (hfree w₂)
    · subst hne₂
      rw [hself] at h₂
      cases h₂
      rw [hother w₁ hne₁] at h₁
      exact absurd h₁ (hfree w₁)
    · rw [hother w₁ hne₁] at h₁
      rw [hother w₂ hne₂] at h₂
      exact h.alone w₁ w₂ c h₁ h₂

omit [DecidableEq ι] in
theorem ledger_finish (h : Ledger s) {w : Fin n} {t : ι} (hw : s.workers w = .running t) :
    Ledger { s.setWorker w .ready with finished := s.finished ++ [t] } := by
  have hbefore : (s.workers w).hand = some t := by rw [hw]; rfl
  have hself : ((s.setWorker w .ready).workers w).hand = none := by simp [setWorker, WorkerPc.hand]
  have hother : ∀ w', w' ≠ w → (s.setWorker w .ready).workers w' = s.workers w' :=
    fun w' hne => by simp [setWorker, hne]
  -- a hand that holds something now is another's, and held it before
  have hheld : ∀ w' c, ((s.setWorker w .ready).workers w').hand = some c →
      w' ≠ w ∧ (s.workers w').hand = some c := by
    intro w' c hc
    have hne : w' ≠ w := by
      rintro rfl
      rw [hself] at hc
      cases hc
    exact ⟨hne, by rwa [hother w' hne] at hc⟩
  refine ⟨h.order, h.nodup, h.pushed, ?_, ?_, ?_, ?_⟩
  · intro c
    change c ∈ s.taken ↔ (∃ w', ((s.setWorker w .ready).workers w').hand = some c) ∨
      c ∈ s.finished ++ [t]
    rw [List.mem_append, List.mem_singleton, h.taken]
    refine ⟨?_, ?_⟩
    · rintro (⟨w', hw'⟩ | hf)
      · by_cases hne : w' = w
        · subst hne
          rw [hbefore] at hw'
          exact Or.inr (Or.inr (Option.some.inj hw').symm)
        · exact Or.inl ⟨w', by rw [hother w' hne]; exact hw'⟩
      · exact Or.inr (Or.inl hf)
    · rintro (⟨w', hw'⟩ | hf | rfl)
      · exact Or.inl ⟨w', (hheld w' c hw').2⟩
      · exact Or.inr hf
      · exact Or.inl ⟨w, hbefore⟩
  · intro w' c hc hf
    obtain ⟨hne, hc⟩ := hheld w' c hc
    rcases List.mem_append.mp hf with hf | hf
    · exact h.apart w' c hc hf
    · rw [List.mem_singleton.mp hf] at hc
      exact hne (h.alone w' w t hc hbefore)
  · intro w₁ w₂ c h₁ h₂
    exact h.alone w₁ w₂ c (hheld w₁ c h₁).2 (hheld w₂ c h₂).2
  · exact List.Nodup.append h.once (List.nodup_singleton t)
      (List.disjoint_singleton.mpr (h.apart w t hbefore))

theorem ledger_push (h : Ledger s) {c : ι} (hc : s.submits c = .checked) : Ledger
    { s.setSubmit c .pushed with tasks := s.tasks ++ [c], submitted := s.submitted ++ [c] } := by
  have hnew : c ∉ s.submitted := by
    rw [h.pushed, hc]
    simp [SubmitPc.hasPushed]
  refine ⟨?_, ?_, ?_, h.taken, h.apart, h.alone, h.once⟩
  · change s.taken ++ (s.tasks ++ [c]) = s.submitted ++ [c]
    rw [← List.append_assoc, h.order]
  · exact List.Nodup.append h.nodup (List.nodup_singleton c) (List.disjoint_singleton.mpr hnew)
  · intro d
    rw [List.mem_append, List.mem_singleton, h.pushed]
    by_cases hd : d = c
    · subst hd
      simp [setSubmit, SubmitPc.hasPushed]
    · simp [setSubmit, hd]

theorem ledger_reach (h : machine.Reach s) : Ledger s := by
  refine h.invariant (I := Ledger) ?_ ?_
  · refine ⟨rfl, List.nodup_nil, ?_, ?_, ?_, ?_, List.nodup_nil⟩ <;>
      simp [machine, new, SubmitPc.hasPushed, WorkerPc.hand]
  · intro s a s' _ hi hs
    rcases sameTasks_move (move_of_step hs) with hsame | ⟨w, t, rest, hw, ht, rfl⟩ |
      ⟨w, t, hw, rfl⟩ | ⟨c, hc, rfl⟩
    · exact hi.same hsame
    · exact ledger_take hi hw ht
    · exact ledger_finish hi hw
    · exact ledger_push hi hc

/-! ## The shutdown -/

/-- Once a worker has decided to return, the queue is empty and stays so: `stop_` is set, and no
call is between its look at `stop_` and its push. -/
def Shut (s : ThreadPool n ι) : Prop :=
  (∃ w, (s.workers w).gone = true) →
    s.stop = true ∧ s.tasks = [] ∧ ∀ c, s.submits c ≠ .checked

omit [DecidableEq ι] in
theorem gone_update {workers : Fin n → WorkerPc ι} {w : Fin n} {pc : WorkerPc ι}
    (hpc : pc.gone = true → (workers w).gone = true)
    (h : ∃ w', (Function.update workers w pc w').gone = true) :
    ∃ w', (workers w').gone = true := by
  obtain ⟨w', hw'⟩ := h
  by_cases hne : w' = w
  · subst hne
    rw [Function.update_self] at hw'
    exact ⟨w', hpc hw'⟩
  · rw [Function.update_of_ne hne] at hw'
    exact ⟨w', hw'⟩

theorem checked_update {submits : ι → SubmitPc} {c : ι} {pc : SubmitPc} (hpc : pc ≠ .checked)
    (h : ∀ d, submits d ≠ .checked) (d : ι) : Function.update submits c pc d ≠ .checked := by
  by_cases hd : d = c
  · subst hd
    rwa [Function.update_self]
  · rw [Function.update_of_ne hd]
    exact h d

theorem shut_move (hlock : LockKept s) (h : Shut s) (hm : Move s a s') : Shut s' := by
  intro hgone
  cases hm with
  | leave w hw hstop htasks =>
    refine ⟨hstop, htasks, ?_⟩
    intro c hc
    -- the worker has the lock, so no call has it
    have hsame := hlock.alone (t := .worker w) (u := .submit c) (by simp [holders, hw]; rfl)
      (by change (s.submits c).locks = true; rw [show s.submits c = .checked from hc]; rfl)
    cases hsame
  | take w t rest hw ht =>
    obtain ⟨-, htasks, -⟩ := h (gone_update (fun hpc => by cases hpc) hgone)
    rw [ht] at htasks
    cases htasks
  | push c hc => exact absurd hc ((h hgone).2.2 c)
  | check c hc hstop =>
    have := (h hgone).1
    rw [hstop] at this
    cases this
  | lock w _ _ => exact h (gone_update (fun hpc => by cases hpc) hgone)
  | pass w _ _ => exact h (gone_update (fun hpc => by cases hpc) hgone)
  | decline w _ _ _ => exact h (gone_update (fun hpc => by cases hpc) hgone)
  | block w _ => exact h (gone_update (fun hpc => by cases hpc) hgone)
  | wakeUp w _ => exact h (gone_update (fun hpc => by cases hpc) hgone)
  | crash w _ _ _ => exact h (gone_update (fun hpc => by cases hpc) hgone)
  | unlock w t _ => exact h (gone_update (fun hpc => by cases hpc) hgone)
  | back w hw => exact h (gone_update (fun _ => by rw [hw]; rfl) hgone)
  | finish w t _ => exact h (gone_update (fun hpc => by cases hpc) hgone)
  | submitLock c _ _ =>
    obtain ⟨hstop, htasks, hnone⟩ := h hgone
    exact ⟨hstop, htasks, checked_update (by simp) hnone⟩
  | refuse c _ _ =>
    obtain ⟨hstop, htasks, hnone⟩ := h hgone
    exact ⟨hstop, htasks, checked_update (by simp) hnone⟩
  | release c _ =>
    obtain ⟨hstop, htasks, hnone⟩ := h hgone
    exact ⟨hstop, htasks, checked_update (by simp) hnone⟩
  | raise c _ =>
    obtain ⟨hstop, htasks, hnone⟩ := h hgone
    exact ⟨hstop, htasks, checked_update (by simp) hnone⟩
  | notifyOne c w _ _ =>
    obtain ⟨hstop, htasks, hnone⟩ := h (gone_update (fun hpc => by cases hpc) hgone)
    exact ⟨hstop, htasks, checked_update (by simp) hnone⟩
  | notifyNone c _ =>
    obtain ⟨hstop, htasks, hnone⟩ := h hgone
    exact ⟨hstop, htasks, checked_update (by simp) hnone⟩
  | store _ =>
    obtain ⟨-, htasks, hnone⟩ := h hgone
    exact ⟨rfl, htasks, hnone⟩
  | notifyAll _ =>
    obtain ⟨w, hw⟩ := hgone
    simp only at hw
    split at hw
    · cases hw
    · exact h ⟨w, hw⟩
  | join _ _ => exact h hgone

theorem shut_reach (h : machine.Reach s) : Shut s := by
  refine h.invariant (I := Shut) ?_ ?_
  · rintro ⟨w, hw⟩
    cases hw
  · intro s a s' hr hi hs
    exact shut_move (lockKept_reach hr) hi (move_of_step hs)

/-- A worker that has passed the wait finds a task, or may return; so none takes the front of an
empty queue. -/
def Fed (s : ThreadPool n ι) : Prop :=
  ∀ w, (s.workers w = .passed → s.stop = true ∨ s.tasks ≠ []) ∧ s.workers w ≠ .broken

omit [DecidableEq ι] in
/-- A worker comes to a place other than the end of its wait, and the queue keeps its tasks. -/
theorem fed_worker (h : Fed s) {w : Fin n} {pc : WorkerPc ι} (hpassed : pc ≠ .passed)
    (hbroken : pc ≠ .broken) (w' : Fin n) :
    (Function.update s.workers w pc w' = .passed → s.stop = true ∨ s.tasks ≠ []) ∧
      Function.update s.workers w pc w' ≠ .broken := by
  by_cases hw : w' = w
  · subst hw
    rw [Function.update_self]
    exact ⟨fun hpc => absurd hpc hpassed, hbroken⟩
  · rw [Function.update_of_ne hw]
    exact h w'

theorem fed_move (hlock : LockKept s) (h : Fed s) (hm : Move s a s') : Fed s' := by
  cases hm with
  | pass w hw hfed =>
    intro w'
    by_cases hne : w' = w
    · subst hne
      simp only [setWorker, Function.update_self]
      exact ⟨fun _ => hfed, by simp⟩
    · simp only [setWorker, Function.update_of_ne hne]
      exact h w'
  | take w t rest hw _ =>
    intro w'
    by_cases hne : w' = w
    · subst hne
      simp [setWorker]
    · simp only [setWorker, Function.update_of_ne hne]
      refine ⟨fun hpassed => ?_, (h w').2⟩
      -- two workers at the end of the wait would both have the lock
      have hsame := hlock.alone (t := .worker w') (u := .worker w)
        (by change (s.workers w').locks = true; rw [hpassed]; rfl)
        (by change (s.workers w).locks = true; rw [hw]; rfl)
      cases hsame
      exact absurd rfl hne
  | crash w hw hstop htasks =>
    rcases (h w).1 hw with hs | hs
    · rw [hstop] at hs
      cases hs
    · exact absurd htasks hs
  | push c _ => exact fun w => ⟨fun _ => Or.inr (by simp), (h w).2⟩
  | store _ => exact fun w => ⟨fun _ => Or.inl rfl, (h w).2⟩
  | notifyAll _ =>
    intro w
    simp only
    split
    · simp
    · exact h w
  | lock w _ _ => exact fed_worker h (by simp) (by simp)
  | decline w _ _ _ => exact fed_worker h (by simp) (by simp)
  | block w _ => exact fed_worker h (by simp) (by simp)
  | wakeUp w _ => exact fed_worker h (by simp) (by simp)
  | leave w _ _ _ => exact fed_worker h (by simp) (by simp)
  | unlock w t _ => exact fed_worker h (by simp) (by simp)
  | back w _ => exact fed_worker h (by simp) (by simp)
  | finish w t _ => exact fed_worker h (by simp) (by simp)
  | notifyOne c w _ _ => exact fed_worker h (by simp) (by simp)
  | submitLock c _ _ => exact h
  | refuse c _ _ => exact h
  | check c _ _ => exact h
  | release c _ => exact h
  | raise c _ => exact h
  | notifyNone c _ => exact h
  | join _ _ => exact h

theorem fed_reach (h : machine.Reach s) : Fed s := by
  refine h.invariant (I := Fed) ?_ ?_
  · intro w
    simp [machine, new]
  · intro s a s' hr hi hs
    exact fed_move (lockKept_reach hr) hi (move_of_step hs)

/-! ## The law -/

/-- Where a task can be. -/
inductive Place (n : Nat)
  | queue
  | hands (w : Fin n)
  | finished
  deriving DecidableEq

/-- The task is in the place. -/
def At (s : ThreadPool n ι) (c : ι) : Place n → Prop
  | .queue => c ∈ s.tasks
  | .hands w => (s.workers w).hand = some c
  | .finished => c ∈ s.finished

omit [DecidableEq ι] in
theorem Ledger.place (h : Ledger s) {c : ι} (hc : c ∈ s.submitted) : ∃! place, s.At c place := by
  have hwhere := hc
  rw [← h.order, List.mem_append] at hwhere
  by_cases hqueue : c ∈ s.tasks
  · obtain ⟨hfree, hunfinished⟩ := h.waiting hqueue
    refine ⟨.queue, hqueue, ?_⟩
    rintro (_ | w | _) hplace
    · rfl
    · exact absurd hplace (hfree w)
    · exact absurd hplace hunfinished
  · rcases (h.taken c).mp (hwhere.resolve_right hqueue) with ⟨w, hw⟩ | hf
    · refine ⟨.hands w, hw, ?_⟩
      rintro (_ | w' | _) hplace
      · exact absurd hplace hqueue
      · rw [h.alone w' w c hplace hw]
      · exact absurd hplace (h.apart w c hw)
    · refine ⟨.finished, hf, ?_⟩
      rintro (_ | w | _) hplace
      · exact absurd hplace hqueue
      · exact absurd hf (h.apart w c hplace)
      · rfl

/-- In every state of a pool with a worker: each task whose `submit` has returned is in one of
the queue, the hands of one worker, and the finished tasks, and it is there once; the tasks are
taken in the order in which they were pushed, and never from an empty queue; and when all the
workers have returned, the queue is empty and every such task is finished. -/
theorem every_accepted_task_runs_once (hn : 0 < n) (h : (machine (n := n)).Reach s) :
    (∀ c, s.submits c = .returned → ∃! place, s.At c place) ∧
      s.tasks.Nodup ∧ s.finished.Nodup ∧
      s.taken ++ s.tasks = s.submitted ∧ (∀ w, s.workers w ≠ .broken) ∧
      ((∀ w, s.workers w = .returned) →
        s.tasks = [] ∧ ∀ c, s.submits c = .returned → c ∈ s.finished) := by
  have hled := ledger_reach h
  have hnodup := hled.nodup
  rw [← hled.order] at hnodup
  have hpushed : ∀ c, s.submits c = .returned → c ∈ s.submitted := by
    intro c hc
    rw [hled.pushed, hc]
    rfl
  refine ⟨fun c hc => hled.place (hpushed c hc), hnodup.of_append_right, hled.once, hled.order,
    fun w => (fed_reach h w).2, ?_⟩
  intro hall
  obtain ⟨-, hempty, -⟩ := shut_reach h ⟨⟨0, hn⟩, by rw [hall]; rfl⟩
  refine ⟨hempty, ?_⟩
  intro c hc
  obtain ⟨place, hplace, -⟩ := hled.place (hpushed c hc)
  cases place with
  | queue =>
    change c ∈ s.tasks at hplace
    rw [hempty] at hplace
    cases hplace
  | hands w =>
    change (s.workers w).hand = some c at hplace
    rw [hall] at hplace
    cases hplace
  | finished => exact hplace

/-- One task is submitted, and `stop_` is stored just before the worker takes it. -/
def stoppedEarly : List (Act 1 Unit) :=
  [.submitLock (), .submitTest (), .push (), .submitUnlock (), .notifyOne () none, .lock 0,
    .test 0, .store, .pick 0, .notifyAll, .unlock 0, .finish 0, .lock 0, .test 0, .pick 0,
    .unlock 0, .join]

theorem a_task_before_the_stop_is_finished :
    ∃ s, (machine : Machine (ThreadPool 1 Unit) (Act 1 Unit)).Reach s ∧
      s.destructor = .joined ∧ s.tasks = [] ∧ () ∈ s.finished := by
  obtain ⟨s, h, hjoined, hreturned, hall⟩ :
      ∃ s, (machine : Machine (ThreadPool 1 Unit) (Act 1 Unit)).Reach s ∧
        s.destructor = .joined ∧ s.submits () = .returned ∧ ∀ w, s.workers w = .returned :=
    Machine.ReachUnder.of_run stoppedEarly (by decide +kernel)
  obtain ⟨-, -, -, -, -, hdone⟩ := every_accepted_task_runs_once (by decide) h
  obtain ⟨hempty, hfinished⟩ := hdone hall
  exact ⟨s, h, hjoined, hempty, hfinished () hreturned⟩

end rpc.net.ThreadPool
