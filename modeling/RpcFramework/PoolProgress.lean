-- The pool at work. When no more call of `submit` begins, the workers come to rest,
-- with the destructor or without it, and then no task waits. The pool notifies once
-- for each task, after it has given up the lock; so while a task waits, a worker is
-- awake or a notification is still to come.
import Mathlib.Algebra.Order.BigOperators.Group.Finset
import RpcFramework.PoolTasks
import RpcFramework.Progress

namespace rpc.net

open runs locks

/-! ## The task that waits -/

/-- The worker will look at the queue again before it blocks, without being woken. -/
def WorkerPc.awake {ι : Type} : WorkerPc ι → Bool
  | .ready | .testing | .woken | .passed | .holding _ | .running _ => true
  | .sleepy | .blocked | .leaving | .returned | .broken => false

/-- The call has pushed its task, and has yet to notify a worker. -/
def SubmitPc.notifies : SubmitPc → Bool
  | .pushed | .released => true
  | .idle | .locked | .checked | .refused | .returned | .threw => false

/-- How many steps the worker has before it blocks or returns, when no task comes. A task in its
hands brings it back to the top of its loop. -/
def WorkerPc.left {ι : Type} : WorkerPc ι → Nat
  | .blocked | .returned | .broken => 0
  | .sleepy | .leaving => 1
  | .passed => 2
  | .testing => 3
  | .ready | .woken => 4
  | .running _ => 5
  | .holding _ => 6

/-- What the call has left once it has pushed. A notification gives four steps to a worker. -/
def SubmitPc.left : SubmitPc → Nat
  | .pushed => 6
  | .released => 5
  | .idle | .locked | .checked | .refused | .returned | .threw => 0

/-- What the call has left before it pushes. The push adds a task, and then the call has to
notify. -/
def SubmitPc.beforePush : SubmitPc → Nat
  | .locked => 13
  | .checked => 12
  | .refused => 1
  | .idle | .pushed | .released | .returned | .threw => 0

/-- What the destructor of a pool of `n` workers has left. It may wake them all. -/
def DestructorPc.left (n : Nat) : DestructorPc → Nat
  | .idle => 4 * n + 3
  | .stored => 4 * n + 2
  | .notified => 1
  | .joined => 0

namespace ThreadPool

variable {n : Nat} {ι : Type} [DecidableEq ι] {s s' : ThreadPool n ι} {a : Act n ι}

/-- A worker that is about to block has the lock, and the queue is still as empty as it was when
the worker looked. -/
def Sleepy (s : ThreadPool n ι) : Prop := ∀ w, s.workers w = .sleepy → s.tasks = []

/-- While a task waits, a worker is awake or will be notified. -/
def Attended (s : ThreadPool n ι) : Prop :=
  s.tasks ≠ [] → (∃ c, (s.submits c).notifies = true) ∨ ∃ w, (s.workers w).awake = true

omit [DecidableEq ι] in
theorem sleepy_worker (h : Sleepy s) {w : Fin n} {pc : WorkerPc ι} (hpc : pc ≠ .sleepy)
    (w' : Fin n) (hw' : Function.update s.workers w pc w' = .sleepy) : s.tasks = [] := by
  by_cases hne : w' = w
  · subst hne
    rw [Function.update_self] at hw'
    exact absurd hw' hpc
  · rw [Function.update_of_ne hne] at hw'
    exact h w' hw'

theorem sleepy_move (hlock : LockKept s) (h : Sleepy s) (hm : Move s a s') : Sleepy s' := by
  cases hm with
  | decline w _ _ htasks => exact fun _ _ => htasks
  | take w t rest hw ht =>
    intro w' hw'
    have hnil := sleepy_worker h (by simp) w' hw'
    rw [ht] at hnil
    cases hnil
  | push c hc =>
    intro w hw
    -- the call has the lock, and so has the worker
    have hsame := hlock.alone (t := .worker w) (u := .submit c)
      (by change (s.workers w).locks = true; rw [show s.workers w = .sleepy from hw]; rfl)
      (by change (s.submits c).locks = true; rw [hc]; rfl)
    cases hsame
  | notifyAll _ =>
    intro w hw
    simp only at hw
    split at hw
    · cases hw
    · exact h w hw
  | lock w _ _ => exact sleepy_worker h (by simp)
  | pass w _ _ => exact sleepy_worker h (by simp)
  | block w _ => exact sleepy_worker h (by simp)
  | wakeUp w _ => exact sleepy_worker h (by simp)
  | leave w _ _ _ => exact sleepy_worker h (by simp)
  | crash w _ _ _ => exact sleepy_worker h (by simp)
  | unlock w t _ => exact sleepy_worker h (by simp)
  | back w _ => exact sleepy_worker h (by simp)
  | finish w t _ => exact sleepy_worker h (by simp)
  | notifyOne c w _ _ => exact sleepy_worker h (by simp)
  | submitLock c _ _ => exact h
  | refuse c _ _ => exact h
  | check c _ _ => exact h
  | release c _ => exact h
  | raise c _ => exact h
  | notifyNone c _ => exact h
  | store _ => exact h
  | join _ _ => exact h

theorem sleepy_reach (h : machine.Reach s) : Sleepy s := by
  refine h.invariant (I := Sleepy) (fun w hw => by cases hw) ?_
  intro s a s' hr hi hs
  exact sleepy_move (lockKept_reach hr) hi (move_of_step hs)

/-- What some thread has, it or another has after a move that keeps it. -/
theorem exists_update {τ β : Type} [DecidableEq τ] {has : β → Bool} {pcs : τ → β} {t : τ} {pc : β}
    (hpc : has (pcs t) = true → has pc = true) (h : ∃ u, has (pcs u) = true) :
    ∃ u, has (Function.update pcs t pc u) = true := by
  obtain ⟨u, hu⟩ := h
  by_cases hne : u = t
  · subst hne
    exact ⟨u, by rw [Function.update_self]; exact hpc hu⟩
  · exact ⟨u, by rwa [Function.update_of_ne hne]⟩

omit [DecidableEq ι] in
theorem attended_worker (h : Attended s) {w : Fin n} {pc : WorkerPc ι}
    (hpc : (s.workers w).awake = true → pc.awake = true) (htasks : s.tasks ≠ []) :
    (∃ c, (s.submits c).notifies = true) ∨
      ∃ w', (Function.update s.workers w pc w').awake = true :=
  (h htasks).imp_right (exists_update hpc)

theorem attended_submit (h : Attended s) {c : ι} {pc : SubmitPc}
    (hpc : (s.submits c).notifies = true → pc.notifies = true) (htasks : s.tasks ≠ []) :
    (∃ d, (Function.update s.submits c pc d).notifies = true) ∨
      ∃ w, (s.workers w).awake = true :=
  (h htasks).imp_left (exists_update hpc)

omit [DecidableEq ι] in
/-- When no worker is blocked and a task waits, a worker is awake: one that is about to block has
seen an empty queue, and so has one that returns. -/
theorem awake_of_unblocked (hn : 0 < n) (hsleepy : Sleepy s) (hshut : Shut s) (hfed : Fed s)
    (hnone : ∀ w, s.workers w ≠ .blocked) (htasks : s.tasks ≠ []) :
    ∃ w, (s.workers w).awake = true := by
  refine ⟨⟨0, hn⟩, ?_⟩
  have hstays : (s.workers ⟨0, hn⟩).gone ≠ true := fun hgone => htasks (hshut ⟨_, hgone⟩).2.1
  cases hw : s.workers ⟨0, hn⟩ with
  | sleepy => exact absurd (hsleepy _ hw) htasks
  | blocked => exact absurd hw (hnone _)
  | leaving => exact absurd (by rw [hw]; rfl) hstays
  | returned => exact absurd (by rw [hw]; rfl) hstays
  | broken => exact absurd hw (hfed _).2
  | _ => rfl

theorem attended_step (hn : 0 < n) (hr : machine.Reach s) (h : Attended s)
    (hs : s.step a = some s') : Attended s' := by
  have hm := move_of_step hs
  cases hm with
  | notifyNone c hc =>
    have hnone : ∀ w, s.workers w ≠ .blocked := by
      simp only [step, hc, if_true] at hs
      by_contra hsome
      rw [if_neg hsome] at hs
      cases hs
    exact fun htasks => Or.inr (awake_of_unblocked (s := s) hn (sleepy_reach hr) (shut_reach hr)
      (fed_reach hr) hnone htasks)
  | notifyOne c w _ _ =>
    exact fun _ => Or.inr ⟨w, by simp [setWorker, WorkerPc.awake]⟩
  | decline w _ _ htasks => exact fun hne => absurd htasks hne
  | leave w _ _ htasks => exact fun hne => absurd htasks hne
  | crash w _ _ htasks => exact fun hne => absurd htasks hne
  | take w t rest _ _ => exact fun _ => Or.inr ⟨w, by simp [setWorker, WorkerPc.awake]⟩
  | push c _ => exact fun _ => Or.inl ⟨c, by simp [setSubmit, SubmitPc.notifies]⟩
  | release c _ => exact fun _ => Or.inl ⟨c, by simp [setSubmit, SubmitPc.notifies]⟩
  | notifyAll _ =>
    intro htasks
    refine (h htasks).imp_right ?_
    rintro ⟨w, hw⟩
    refine ⟨w, ?_⟩
    by_cases hblocked : s.workers w = .blocked
    · simp [hblocked, WorkerPc.awake]
    · simpa [hblocked] using hw
  | lock w _ _ => exact attended_worker h fun _ => rfl
  | pass w _ _ => exact attended_worker h fun _ => rfl
  | block w hw => exact attended_worker h fun hawake => by rw [hw] at hawake; cases hawake
  | wakeUp w _ => exact attended_worker h fun _ => rfl
  | unlock w t _ => exact attended_worker h fun _ => rfl
  | back w hw => exact attended_worker h fun hawake => by rw [hw] at hawake; cases hawake
  | finish w t _ => exact attended_worker h fun _ => rfl
  | submitLock c hc _ => exact attended_submit h fun hnot => by rw [hc] at hnot; cases hnot
  | refuse c hc _ => exact attended_submit h fun hnot => by rw [hc] at hnot; cases hnot
  | check c hc _ => exact attended_submit h fun hnot => by rw [hc] at hnot; cases hnot
  | raise c hc => exact attended_submit h fun hnot => by rw [hc] at hnot; cases hnot
  | store _ => exact h
  | join _ _ => exact h

theorem attended_reach (hn : 0 < n) (h : machine.Reach s) : Attended s := by
  refine h.invariant (I := Attended) (fun htasks => absurd rfl htasks) ?_
  intro s a s' hr hi hs
  exact attended_step hn hr hi hs

/-! ## What is left to do -/

/-- What the owner of the lock has left before it pushes, when it is a call of `submit`. -/
def lockLeft : Option (LockOwner n ι) → (ι → SubmitPc) → Nat
  | some (.submit c), submits => (submits c).beforePush
  | _, _ => 0

/-- The steps that are left for all threads, with the tasks that wait. -/
def left (s : ThreadPool n ι) : Nat :=
  5 * s.tasks.length + ∑ w, (s.workers w).left + lockLeft s.mu s.submits +
    ∑ c ∈ s.submitted.toFinset, (s.submits c).left + s.destructor.left n

/-- Every step but the start of a call, and the end of a wait that nobody has notified. -/
def Works (_ : ThreadPool n ι) : Act n ι → Prop
  | .submitLock _ | .wakeUp _ => False
  | _ => True

/-- Those of these steps that do not wait for the destructor. -/
def Owed (s : ThreadPool n ι) : Act n ι → Prop
  | .store | .notifyAll | .join => False
  | a => Works s a

/-- The workers that `notify_all` wakes have four steps more each. -/
theorem left_woken (workers : Fin n → WorkerPc ι) :
    ∑ w, (if workers w = .blocked then .woken else workers w : WorkerPc ι).left ≤
      ∑ w, (workers w).left + 4 * n := by
  have hone : ∀ w ∈ Finset.univ,
      (if workers w = .blocked then .woken else workers w : WorkerPc ι).left ≤
        (workers w).left + 4 := by
    intro w _
    split
    · exact Nat.le_add_left 4 _
    · omega
  refine (Finset.sum_le_sum hone).trans ?_
  rw [Finset.sum_add_distrib, Finset.sum_const, Finset.card_univ, Fintype.card_fin]
  exact Nat.add_le_add_left (Nat.mul_comm n 4).le _

omit [DecidableEq ι] in
/-- A worker that is the owner of the lock, or takes it or gives it back, leaves no call of
`submit` as the owner. -/
theorem lockLeft_worker (h : LockKept s) {w : Fin n} (hw : (s.workers w).locks = true)
    (submits : ι → SubmitPc) : lockLeft s.mu submits = 0 := by
  rw [(h (.worker w)).mpr hw]
  rfl

theorem left_worker {w : Fin n} {pc : WorkerPc ι} {mu : Option (LockOwner n ι)}
    (hpc : pc.left < (s.workers w).left)
    (hmu : lockLeft mu s.submits = lockLeft s.mu s.submits) :
    left { s with workers := Function.update s.workers w pc, mu := mu } < left s := by
  have hsum := sum_update WorkerPc.left s.workers (Finset.mem_univ w) pc
  simp only [left, hmu]
  omega

/-- A call that has not pushed, and goes on. -/
theorem left_submit {c : ι} {pc : SubmitPc} {mu : Option (LockOwner n ι)}
    (hpc : pc.left = (s.submits c).left)
    (hmu : lockLeft mu (Function.update s.submits c pc) < lockLeft s.mu s.submits) :
    left { s with submits := Function.update s.submits c pc, mu := mu } < left s := by
  have hsum : ∑ d ∈ s.submitted.toFinset, (Function.update s.submits c pc d).left =
      ∑ d ∈ s.submitted.toFinset, (s.submits d).left :=
    Finset.sum_congr rfl fun d _ => update_same SubmitPc.left hpc d
  simp only [left, hsum]
  omega

/-- The push costs a call what the task, the unlock and the notification need. -/
theorem left_push (hlock : LockKept s) (hledger : Ledger s) {c : ι} (hc : s.submits c = .checked) :
    left { s.setSubmit c .pushed with tasks := s.tasks ++ [c], submitted := s.submitted ++ [c] } <
      left s := by
  have hlocks : (s.submits c).locks = true := by rw [hc]; rfl
  have hmu : s.mu = some (.submit c) := (hlock (.submit c)).mpr hlocks
  have hnew : c ∉ s.submitted.toFinset := by
    rw [List.mem_toFinset, hledger.pushed, hc]
    simp [SubmitPc.hasPushed]
  have hsum : ∑ d ∈ (s.submitted ++ [c]).toFinset, (Function.update s.submits c .pushed d).left =
      6 + ∑ d ∈ s.submitted.toFinset, (s.submits d).left := by
    rw [List.toFinset_append, List.toFinset_cons, List.toFinset_nil, insert_empty_eq,
      Finset.union_comm, ← Finset.insert_eq, Finset.sum_insert hnew, Function.update_self]
    refine congrArg _ (Finset.sum_congr rfl fun d hd => ?_)
    rw [Function.update_of_ne (ne_of_mem_of_not_mem hd hnew)]
  have hbefore : lockLeft s.mu s.submits = 12 := by
    rw [hmu]
    simp [lockLeft, hc, SubmitPc.beforePush]
  have hafter : lockLeft s.mu (Function.update s.submits c .pushed) = 0 := by
    rw [hmu]
    simp [lockLeft, SubmitPc.beforePush]
  simp only [left, setSubmit, hsum, hbefore, hafter, List.length_append, List.length_singleton]
  omega

/-- A call that has pushed, and goes on. -/
theorem left_notify (hledger : Ledger s) {c : ι} (pc : SubmitPc) {k k' : Nat}
    (hc : (s.submits c).hasPushed = true) (hk : (s.submits c).left = k) (hk' : pc.left = k') :
    ∑ d ∈ s.submitted.toFinset, (Function.update s.submits c pc d).left + k =
      ∑ d ∈ s.submitted.toFinset, (s.submits d).left + k' := by
  rw [← hk, ← hk']
  exact sum_update SubmitPc.left s.submits (List.mem_toFinset.mpr ((hledger.pushed c).mpr hc)) pc

/-- A call that is as far from its push as before it moved. -/
theorem lockLeft_same (mu : Option (LockOwner n ι)) {c : ι} {pc : SubmitPc}
    (hpc : pc.beforePush = (s.submits c).beforePush) :
    lockLeft mu (Function.update s.submits c pc) = lockLeft mu s.submits := by
  rcases mu with _ | _ | d
  · rfl
  · rfl
  · exact update_same SubmitPc.beforePush hpc d

theorem left_release (hledger : Ledger s) {c : ι} (hc : s.submits c = .pushed) :
    left { s.setSubmit c .released with mu := none } < left s := by
  have hcalls : _ + 6 = _ + 5 :=
    left_notify hledger .released (by rw [hc]; rfl) (by rw [hc]; rfl) rfl
  simp only [left, setSubmit, lockLeft]
  omega

/-- A notification costs a call more than it gives to the worker that it wakes. -/
theorem left_returned (hledger : Ledger s) {c : ι} (hc : s.submits c = .released) :
    left (s.setSubmit c .returned) + 5 = left s := by
  have hcalls : _ + 5 = _ + 0 :=
    left_notify hledger .returned (by rw [hc]; rfl) (by rw [hc]; rfl) rfl
  have hmu : lockLeft s.mu (Function.update s.submits c .returned) = lockLeft s.mu s.submits :=
    lockLeft_same s.mu (by rw [hc]; rfl)
  simp only [left, setSubmit, hmu]
  omega

theorem left_move (hlock : LockKept s) (hledger : Ledger s) (ha : Works s a) (hm : Move s a s') :
    s'.left < s.left := by
  have hcaller : ∀ c, (s.submits c).locks = true → s.mu = some (.submit c) :=
    fun c hc => (hlock (.submit c)).mpr hc
  cases hm with
  | submitLock c _ _ => exact absurd ha id
  | wakeUp w _ => exact absurd ha id
  | lock w hw hmu =>
    refine left_worker (s := s) ?_ ?_
    · rcases hw with hw | hw <;> simp [hw, WorkerPc.left]
    · rw [hmu]
      rfl
  | pass w hw _ => exact left_worker (s := s) (by simp [hw, WorkerPc.left]) rfl
  | decline w hw _ _ => exact left_worker (s := s) (by simp [hw, WorkerPc.left]) rfl
  | leave w hw _ _ => exact left_worker (s := s) (by simp [hw, WorkerPc.left]) rfl
  | crash w hw _ _ => exact left_worker (s := s) (by simp [hw, WorkerPc.left]) rfl
  | finish w t hw =>
    change left { s with workers := Function.update s.workers w .ready, mu := s.mu } < left s
    exact left_worker (s := s) (by simp [hw, WorkerPc.left]) rfl
  | block w hw =>
    refine left_worker (s := s) (by simp [hw, WorkerPc.left]) ?_
    exact (lockLeft_worker hlock (by rw [hw]; rfl) s.submits).symm
  | unlock w t hw =>
    refine left_worker (s := s) (by simp [hw, WorkerPc.left]) ?_
    exact (lockLeft_worker hlock (by rw [hw]; rfl) s.submits).symm
  | back w hw =>
    refine left_worker (s := s) (by simp [hw, WorkerPc.left]) ?_
    exact (lockLeft_worker hlock (by rw [hw]; rfl) s.submits).symm
  | take w t rest hw ht =>
    have hsum := sum_update WorkerPc.left s.workers (Finset.mem_univ w) (.holding t)
    simp only [left, setWorker, ht, List.length_cons, hw] at hsum ⊢
    simp only [WorkerPc.left] at hsum ⊢
    omega
  | refuse c hc _ =>
    refine left_submit (s := s) (by simp [hc, SubmitPc.left]) ?_
    simp [hcaller c (by rw [hc]; rfl), lockLeft, hc, SubmitPc.beforePush]
  | check c hc _ =>
    refine left_submit (s := s) (by simp [hc, SubmitPc.left]) ?_
    simp [hcaller c (by rw [hc]; rfl), lockLeft, hc, SubmitPc.beforePush]
  | raise c hc =>
    refine left_submit (s := s) (by simp [hc, SubmitPc.left]) ?_
    simp [hcaller c (by rw [hc]; rfl), lockLeft, hc, SubmitPc.beforePush]
  | push c hc => exact left_push hlock hledger hc
  | release c hc => exact left_release hledger hc
  | notifyOne c w hc hw =>
    have hcall := left_returned hledger hc
    have hsum := sum_update WorkerPc.left s.workers (Finset.mem_univ w) .woken
    have hblocked : (s.workers w).left = 0 := by rw [hw]; rfl
    have hwoken : (WorkerPc.woken : WorkerPc ι).left = 4 := rfl
    simp only [left, setWorker, setSubmit] at hcall ⊢
    omega
  | notifyNone c hc =>
    have hcall := left_returned hledger hc
    omega
  | store hd => simp [left, hd, DestructorPc.left]
  | notifyAll hd =>
    have hsum := left_woken s.workers
    simp only [left, hd, DestructorPc.left]
    omega
  | join hd _ => simp [left, hd, DestructorPc.left]

/-! ## The law -/

/-- A thread that has the lock can go on. -/
theorem free_of_atRest (hr : machine.Reach s) (hrest : machine.AtRest Owed s) : s.mu = none := by
  have hlock := lockKept_reach hr
  cases hmu : s.mu with
  | none => rfl
  | some o =>
    have hlocks := (hlock o).mp hmu
    cases o with
    | worker w =>
      change (s.workers w).locks = true at hlocks
      have htest := hrest (.test w) trivial
      have hblock := hrest (.block w) trivial
      have hpick := hrest (.pick w) trivial
      have hunlock := hrest (.unlock w) trivial
      cases hw : s.workers w with
      | broken => exact absurd hw (fed_reach hr w).2
      | _ => simp_all [machine, step, WorkerPc.locks]
    | submit c =>
      change (s.submits c).locks = true at hlocks
      have htest := hrest (.submitTest c) trivial
      have hpush := hrest (.push c) trivial
      have hunlock := hrest (.submitUnlock c) trivial
      cases hc : s.submits c <;> simp_all [machine, step, SubmitPc.locks]

/-- At rest a worker is blocked, or has returned. -/
theorem asleep_of_atRest (hr : machine.Reach s) (hrest : machine.AtRest Owed s) (w : Fin n) :
    s.workers w = .blocked ∨ s.workers w = .returned := by
  have hmu := free_of_atRest hr hrest
  have hfree : (s.workers w).locks ≠ true := by
    intro hlocks
    have howner := (lockKept_reach hr (.worker w)).mpr hlocks
    rw [hmu] at howner
    cases howner
  have hlock := hrest (.lock w) trivial
  have hfinish := hrest (.finish w) trivial
  cases hw : s.workers w <;> simp_all [machine, step, WorkerPc.locks]

/-- At rest a call of `submit` has not begun, or is over. -/
theorem over_of_atRest (hr : machine.Reach s) (hrest : machine.AtRest Owed s) (c : ι) :
    s.submits c = .idle ∨ s.submits c = .returned ∨ s.submits c = .threw := by
  have hmu := free_of_atRest hr hrest
  have hfree : (s.submits c).locks ≠ true := by
    intro hlocks
    have howner := (lockKept_reach hr (.submit c)).mpr hlocks
    rw [hmu] at howner
    cases howner
  have hnone := hrest (.notifyOne c none) trivial
  have hsome := fun w => hrest (.notifyOne c (some w)) trivial
  cases hc : s.submits c <;> simp_all [machine, step, SubmitPc.locks]

/-- At rest no task waits: nobody would attend to it. -/
theorem drained_of_atRest (hn : 0 < n) (hr : machine.Reach s) (hrest : machine.AtRest Owed s) :
    s.tasks = [] := by
  by_contra hne
  rcases attended_reach hn hr hne with ⟨c, hc⟩ | ⟨w, hw⟩
  · rcases over_of_atRest hr hrest c with hover | hover | hover <;> rw [hover] at hc <;> cases hc
  · rcases asleep_of_atRest hr hrest w with hasleep | hasleep <;> rw [hasleep] at hw <;> cases hw

omit [DecidableEq ι] in
/-- Where no task waits and none is in the hands of a worker, all are finished. -/
theorem Ledger.finished_of_drained (h : Ledger s) (htasks : s.tasks = [])
    (hhands : ∀ w, (s.workers w).hand = none) {c : ι} (hc : c ∈ s.submitted) :
    c ∈ s.finished := by
  rw [← h.order, htasks, List.append_nil, h.taken] at hc
  rcases hc with ⟨w, hw⟩ | hf
  · rw [hhands] at hw
    cases hw
  · exact hf

theorem submitted_move (hm : Move s a s') : s.submitted ⊆ s'.submitted := by
  cases hm with
  | push c _ => exact List.subset_append_left _ _
  | _ => exact List.Subset.refl _

/-- When no more call of `submit` begins, every task that was pushed is finished in the end, and
every call that is under way returns or throws, whether the destructor runs or not: no worker
waits for a notification that will not come while a task is in the queue. -/
theorem every_pushed_task_is_finished (hn : 0 < n) (h : machine.Reach s) :
    machine.Inevitable Works Owed (fun s' =>
      (∀ c ∈ s.submitted, c ∈ s'.finished) ∧ s'.tasks = [] ∧
      (∀ c, s'.submits c = .idle ∨ (s'.submits c = .returned ∧ c ∈ s'.finished) ∨
        s'.submits c = .threw) ∧
      ∀ w : Fin n, s'.workers w = .blocked ∨ s'.workers w = .returned) s := by
  refine Machine.inevitable_of_measure (r := (· < ·)) Nat.lt_wfRel.wf left
    (I := fun s' => machine.Reach s' ∧ s.submitted ⊆ s'.submitted) ?_ ?_ ⟨h, List.Subset.refl _⟩
  · rintro s₁ a s₂ ⟨hr, hsub⟩ ha hs
    have hm := move_of_step hs
    exact ⟨⟨hr.step hs, List.Subset.trans hsub (submitted_move hm)⟩,
      left_move (lockKept_reach hr) (ledger_reach hr) ha hm⟩
  · rintro s' ⟨hr, hsub⟩ hrest
    have hledger := ledger_reach hr
    have hasleep := asleep_of_atRest hr hrest
    have htasks := drained_of_atRest hn hr hrest
    have hdone : ∀ c ∈ s'.submitted, c ∈ s'.finished := by
      refine fun c hc => hledger.finished_of_drained htasks ?_ hc
      intro w
      rcases hasleep w with hw | hw <;> rw [hw] <;> rfl
    refine ⟨fun c hc => hdone c (hsub hc), htasks, ?_, hasleep⟩
    intro c
    rcases over_of_atRest hr hrest c with hidle | hreturned | hthrew
    · exact Or.inl hidle
    · exact Or.inr (Or.inl ⟨hreturned, hdone c ((hledger.pushed c).mpr (by rw [hreturned]; rfl))⟩)
    · exact Or.inr (Or.inr hthrew)

/-- One worker has blocked, and the task of the first of two calls is in the queue when the
destructor has stored `stop_`. -/
theorem a_waiting_task_is_finished :
    ∃ s : ThreadPool 1 Bool, machine.Reach s ∧ s.tasks = [true] ∧
      machine.Inevitable Works Owed (fun s' => true ∈ s'.finished ∧ s'.tasks = []) s := by
  obtain ⟨s, h, hsub, htasks⟩ : ∃ s : ThreadPool 1 Bool, machine.Reach s ∧
      true ∈ s.submitted ∧ s.tasks = [true] :=
    Machine.ReachUnder.of_run [.lock 0, .test 0, .block 0, .submitLock true, .submitTest true,
      .push true, .submitUnlock true, .store, .submitLock false] (by decide +kernel)
  refine ⟨s, h, htasks, ?_⟩
  exact (every_pushed_task_is_finished (by decide) h).mono fun s' hs' => ⟨hs'.1 true hsub, hs'.2.1⟩

end ThreadPool

end rpc.net
