-- The thread pool: workers that take tasks from a queue, callers of `submit`,
-- and the destructor. `mu_` guards the queue, but the destructor stores `stop_`
-- without it, so every look at `stop_` is a step of its own. A list of actions
-- is an interleaving of all these threads.
import Mathlib.Data.Fintype.Basic
import RpcFramework.Locks
import RpcFramework.Runs

namespace rpc.net

open runs locks

/-! ## The state -/

/-- Where a worker stands. It is `ready` to lock `mu_` at the top of its loop. With the lock it
is `testing` the predicate of the wait, and then has `passed`, or it is `sleepy` and about to
block. It is `blocked` in the wait without the lock, and `woken` it wants the lock again. With a
task it is `holding` the lock, and then `running` without it. `leaving` it has decided to return
and still has the lock. `broken` it has taken the front of an empty queue. -/
inductive WorkerPc (ι : Type)
  | ready | testing | sleepy | blocked | woken | passed
  | holding (t : ι)
  | running (t : ι)
  | leaving | returned | broken
  deriving DecidableEq

/-- Where a call of `submit` stands. `checked` it has found `stop_` false. `refused` it throws,
and still has the lock. `released` it has yet to notify a worker. -/
inductive SubmitPc
  | idle | locked | checked | refused | pushed | released | returned | threw
  deriving DecidableEq

/-- Where the destructor stands. -/
inductive DestructorPc
  | idle | stored | notified | joined
  deriving DecidableEq

/-- Who holds `mu_`. -/
inductive LockOwner (n : Nat) (ι : Type)
  | worker (w : Fin n)
  | submit (c : ι)
  deriving DecidableEq

/-- A pool of `n` workers. A task is named by the call of `submit` that brings it. The last
three fields only record what happened: the tasks that were pushed, popped and finished, each
list in order. -/
structure ThreadPool (n : Nat) (ι : Type) where
  tasks : List ι
  mu : Option (LockOwner n ι)
  stop : Bool
  workers : Fin n → WorkerPc ι
  submits : ι → SubmitPc
  destructor : DestructorPc
  submitted : List ι
  taken : List ι
  finished : List ι

/-- The worker stands where it has `mu_`. -/
def WorkerPc.locks {ι : Type} : WorkerPc ι → Bool
  | .testing | .sleepy | .passed | .holding _ | .leaving | .broken => true
  | .ready | .blocked | .woken | .running _ | .returned => false

/-- The task in the hands of the worker. -/
def WorkerPc.hand {ι : Type} : WorkerPc ι → Option ι
  | .holding t | .running t => some t
  | _ => none

/-- The worker has decided to return. -/
def WorkerPc.gone {ι : Type} : WorkerPc ι → Bool
  | .leaving | .returned => true
  | _ => false

/-- The call of `submit` stands where it has `mu_`. -/
def SubmitPc.locks : SubmitPc → Bool
  | .locked | .checked | .refused | .pushed => true
  | .idle | .released | .returned | .threw => false

/-- The call of `submit` has pushed its task. -/
def SubmitPc.hasPushed : SubmitPc → Bool
  | .pushed | .released | .returned => true
  | _ => false

/-- The destructor has called `notify_all`. -/
def DestructorPc.past : DestructorPc → Bool
  | .notified | .joined => true
  | .idle | .stored => false

namespace ThreadPool

variable {n : Nat} {ι : Type}

def new : ThreadPool n ι where
  tasks := []
  mu := none
  stop := false
  workers := fun _ => .ready
  submits := fun _ => .idle
  destructor := .idle
  submitted := []
  taken := []
  finished := []

def setWorker (s : ThreadPool n ι) (w : Fin n) (pc : WorkerPc ι) : ThreadPool n ι :=
  { s with workers := Function.update s.workers w pc }

variable [DecidableEq ι]

def setSubmit (s : ThreadPool n ι) (c : ι) (pc : SubmitPc) : ThreadPool n ι :=
  { s with submits := Function.update s.submits c pc }

/-! ## The steps -/

/-- The actions of the workers, of the calls of `submit`, and of the destructor. A wait may also
end for no reason. `notifyOne` names the worker that it wakes, if one is blocked. -/
inductive Act (n : Nat) (ι : Type)
  | lock (w : Fin n)
  | test (w : Fin n)
  | block (w : Fin n)
  | wakeUp (w : Fin n)
  | pick (w : Fin n)
  | unlock (w : Fin n)
  | finish (w : Fin n)
  | submitLock (c : ι)
  | submitTest (c : ι)
  | push (c : ι)
  | submitUnlock (c : ι)
  | notifyOne (c : ι) (w : Option (Fin n))
  | store
  | notifyAll
  | join

/-- After the wait: return, or take the task at the front. -/
def pickTask (s : ThreadPool n ι) (w : Fin n) : ThreadPool n ι :=
  if s.stop && s.tasks.isEmpty then s.setWorker w .leaving
  else
    match s.tasks with
    | [] => s.setWorker w .broken
    | t :: rest => { s.setWorker w (.holding t) with tasks := rest, taken := s.taken ++ [t] }

/-- The state after an action, when it can be taken. -/
def step (s : ThreadPool n ι) : Act n ι → Option (ThreadPool n ι)
  | .lock w =>
    if (s.workers w = .ready ∨ s.workers w = .woken) ∧ s.mu = none then
      some { s.setWorker w .testing with mu := some (.worker w) }
    else none
  | .test w =>
    if s.workers w = .testing then
      some (s.setWorker w (if s.stop || !s.tasks.isEmpty then .passed else .sleepy))
    else none
  | .block w =>
    if s.workers w = .sleepy then some { s.setWorker w .blocked with mu := none } else none
  | .wakeUp w => if s.workers w = .blocked then some (s.setWorker w .woken) else none
  | .pick w => if s.workers w = .passed then some (s.pickTask w) else none
  | .unlock w =>
    match s.workers w with
    | .holding t => some { s.setWorker w (.running t) with mu := none }
    | .leaving => some { s.setWorker w .returned with mu := none }
    | _ => none
  | .finish w =>
    match s.workers w with
    | .running t => some { s.setWorker w .ready with finished := s.finished ++ [t] }
    | _ => none
  | .submitLock c =>
    if s.submits c = .idle ∧ s.mu = none then
      some { s.setSubmit c .locked with mu := some (.submit c) }
    else none
  | .submitTest c =>
    if s.submits c = .locked then
      some (s.setSubmit c (if s.stop then .refused else .checked))
    else none
  | .push c =>
    if s.submits c = .checked then
      some { s.setSubmit c .pushed with tasks := s.tasks ++ [c], submitted := s.submitted ++ [c] }
    else none
  | .submitUnlock c =>
    match s.submits c with
    | .pushed => some { s.setSubmit c .released with mu := none }
    | .refused => some { s.setSubmit c .threw with mu := none }
    | _ => none
  | .notifyOne c w =>
    if s.submits c = .released then
      match w with
      | some w =>
        if s.workers w = .blocked then some ((s.setSubmit c .returned).setWorker w .woken)
        else none
      | none => if ∀ w, s.workers w ≠ .blocked then some (s.setSubmit c .returned) else none
    else none
  | .store =>
    if s.destructor = .idle then some { s with stop := true, destructor := .stored } else none
  | .notifyAll =>
    if s.destructor = .stored then
      some { s with
        workers := fun w => if s.workers w = .blocked then .woken else s.workers w
        destructor := .notified }
    else none
  | .join =>
    if s.destructor = .notified ∧ ∀ w, s.workers w = .returned then
      some { s with destructor := .joined }
    else none

def machine : Machine (ThreadPool n ι) (Act n ι) where
  init := new
  step := step

/-! ## What a step can do -/

/-- The changes of the pool, each with its action and what it found. -/
inductive Move (s : ThreadPool n ι) : Act n ι → ThreadPool n ι → Prop
  | lock (w : Fin n) : (s.workers w = .ready ∨ s.workers w = .woken) → s.mu = none →
      Move s (.lock w) { s.setWorker w .testing with mu := some (.worker w) }
  | pass (w : Fin n) : s.workers w = .testing → (s.stop = true ∨ s.tasks ≠ []) →
      Move s (.test w) (s.setWorker w .passed)
  | decline (w : Fin n) : s.workers w = .testing → s.stop = false → s.tasks = [] →
      Move s (.test w) (s.setWorker w .sleepy)
  | block (w : Fin n) : s.workers w = .sleepy →
      Move s (.block w) { s.setWorker w .blocked with mu := none }
  | wakeUp (w : Fin n) : s.workers w = .blocked → Move s (.wakeUp w) (s.setWorker w .woken)
  | leave (w : Fin n) : s.workers w = .passed → s.stop = true → s.tasks = [] →
      Move s (.pick w) (s.setWorker w .leaving)
  | take (w : Fin n) (t : ι) (rest : List ι) : s.workers w = .passed → s.tasks = t :: rest →
      Move s (.pick w) { s.setWorker w (.holding t) with tasks := rest, taken := s.taken ++ [t] }
  | crash (w : Fin n) : s.workers w = .passed → s.stop = false → s.tasks = [] →
      Move s (.pick w) (s.setWorker w .broken)
  | unlock (w : Fin n) (t : ι) : s.workers w = .holding t →
      Move s (.unlock w) { s.setWorker w (.running t) with mu := none }
  | back (w : Fin n) : s.workers w = .leaving →
      Move s (.unlock w) { s.setWorker w .returned with mu := none }
  | finish (w : Fin n) (t : ι) : s.workers w = .running t →
      Move s (.finish w) { s.setWorker w .ready with finished := s.finished ++ [t] }
  | submitLock (c : ι) : s.submits c = .idle → s.mu = none →
      Move s (.submitLock c) { s.setSubmit c .locked with mu := some (.submit c) }
  | refuse (c : ι) : s.submits c = .locked → s.stop = true →
      Move s (.submitTest c) (s.setSubmit c .refused)
  | check (c : ι) : s.submits c = .locked → s.stop = false →
      Move s (.submitTest c) (s.setSubmit c .checked)
  | push (c : ι) : s.submits c = .checked → Move s (.push c)
      { s.setSubmit c .pushed with tasks := s.tasks ++ [c], submitted := s.submitted ++ [c] }
  | release (c : ι) : s.submits c = .pushed →
      Move s (.submitUnlock c) { s.setSubmit c .released with mu := none }
  | raise (c : ι) : s.submits c = .refused →
      Move s (.submitUnlock c) { s.setSubmit c .threw with mu := none }
  | notifyOne (c : ι) (w : Fin n) : s.submits c = .released → s.workers w = .blocked →
      Move s (.notifyOne c (some w)) ((s.setSubmit c .returned).setWorker w .woken)
  | notifyNone (c : ι) : s.submits c = .released →
      Move s (.notifyOne c none) (s.setSubmit c .returned)
  | store : s.destructor = .idle → Move s .store { s with stop := true, destructor := .stored }
  | notifyAll : s.destructor = .stored → Move s .notifyAll { s with
      workers := fun w => if s.workers w = .blocked then .woken else s.workers w
      destructor := .notified }
  | join : s.destructor = .notified → (∀ w, s.workers w = .returned) →
      Move s .join { s with destructor := .joined }

variable {s s' : ThreadPool n ι} {a : Act n ι}

theorem move_of_step (h : s.step a = some s') : Move s a s' := by
  cases a with
  | test w =>
    simp only [step] at h
    split at h
    · rename_i hw
      cases h
      cases hstop : s.stop with
      | true => exact .pass w hw (Or.inl hstop)
      | false =>
        cases ht : s.tasks with
        | nil => exact .decline w hw hstop ht
        | cons t rest => exact .pass w hw (Or.inr (by simp [ht]))
    · cases h
  | pick w =>
    simp only [step] at h
    split at h
    · rename_i hw
      cases h
      unfold pickTask
      cases ht : s.tasks with
      | nil =>
        cases hstop : s.stop with
        | true => exact .leave w hw hstop ht
        | false => exact .crash w hw hstop ht
      | cons t rest =>
        rw [if_neg (by simp)]
        exact .take w t rest hw ht
    · cases h
  | submitTest c =>
    simp only [step] at h
    split at h
    · rename_i hc
      cases h
      cases hstop : s.stop with
      | true => exact .refuse c hc hstop
      | false => exact .check c hc hstop
    · cases h
  | unlock w =>
    simp only [step] at h
    split at h
    · cases h
      exact .unlock w _ ‹_›
    · cases h
      exact .back w ‹_›
    · cases h
  | finish w =>
    simp only [step] at h
    split at h
    · cases h
      exact .finish w _ ‹_›
    · cases h
  | submitUnlock c =>
    simp only [step] at h
    split at h
    · cases h
      exact .release c ‹_›
    · cases h
      exact .raise c ‹_›
    · cases h
  | notifyOne c w =>
    simp only [step] at h
    split at h
    · rename_i hc
      cases w with
      | some w =>
        simp only at h
        split at h
        · cases h
          exact .notifyOne c w hc ‹_›
        · cases h
      | none =>
        simp only at h
        split at h
        · cases h
          exact .notifyNone c hc
        · cases h
    · cases h
  | _ =>
    simp only [step] at h
    split at h
    · rename_i hg
      cases h
      first
        | exact .lock _ hg.1 hg.2
        | exact .block _ hg
        | exact .wakeUp _ hg
        | exact .submitLock _ hg.1 hg.2
        | exact .push _ hg
        | exact .store hg
        | exact .notifyAll hg
        | exact .join hg.1 hg.2
    · cases h

/-! ## The lock -/

/-- Who stands where he has `mu_`. -/
def holders (workers : Fin n → WorkerPc ι) (submits : ι → SubmitPc) : LockOwner n ι → Bool
  | .worker w => (workers w).locks
  | .submit c => (submits c).locks

omit [DecidableEq ι] in
theorem holders_update_worker [DecidableEq (LockOwner n ι)] (workers : Fin n → WorkerPc ι)
    (submits : ι → SubmitPc) (w : Fin n) (pc : WorkerPc ι) :
    holders (Function.update workers w pc) submits =
      Function.update (holders workers submits) (.worker w) pc.locks := by
  funext o
  cases o with
  | worker w' =>
    by_cases hw : w' = w
    · subst hw
      simp [holders]
    · simp [holders, hw]
  | submit c => simp [holders]

theorem holders_update_submit (workers : Fin n → WorkerPc ι) (submits : ι → SubmitPc) (c : ι)
    (pc : SubmitPc) :
    holders workers (Function.update submits c pc) =
      Function.update (holders workers submits) (.submit c) pc.locks := by
  funext o
  cases o with
  | worker w => simp [holders]
  | submit c' =>
    by_cases hc : c' = c
    · subst hc
      simp [holders]
    · simp [holders, hc]

/-- The owner of `mu_` is the thread that stands where it has it. -/
def LockKept (s : ThreadPool n ι) : Prop := Guarded s.mu (holders s.workers s.submits)

theorem lockKept_worker (h : LockKept s) {w : Fin n} {pc : WorkerPc ι}
    (hpc : (s.workers w).locks = pc.locks) :
    Guarded s.mu (holders (Function.update s.workers w pc) s.submits) := by
  rw [holders_update_worker]
  exact h.keep hpc

theorem lockKept_submit (h : LockKept s) {c : ι} {pc : SubmitPc}
    (hpc : (s.submits c).locks = pc.locks) :
    Guarded s.mu (holders s.workers (Function.update s.submits c pc)) := by
  rw [holders_update_submit]
  exact h.keep hpc

theorem lockKept_lock_worker (h : LockKept s) (hmu : s.mu = none) {w : Fin n} {pc : WorkerPc ι}
    (hpc : pc.locks = true) :
    Guarded (some (.worker w)) (holders (Function.update s.workers w pc) s.submits) := by
  unfold LockKept at h
  rw [hmu] at h
  rw [holders_update_worker, hpc]
  exact h.lock

theorem lockKept_lock_submit (h : LockKept s) (hmu : s.mu = none) {c : ι} {pc : SubmitPc}
    (hpc : pc.locks = true) :
    Guarded (some (.submit c)) (holders s.workers (Function.update s.submits c pc)) := by
  unfold LockKept at h
  rw [hmu] at h
  rw [holders_update_submit, hpc]
  exact h.lock

theorem lockKept_unlock_worker (h : LockKept s) {w : Fin n} {pc : WorkerPc ι}
    (hw : (s.workers w).locks = true) (hpc : pc.locks = false) :
    Guarded none (holders (Function.update s.workers w pc) s.submits) := by
  rw [holders_update_worker, hpc]
  exact h.unlock hw

theorem lockKept_unlock_submit (h : LockKept s) {c : ι} {pc : SubmitPc}
    (hc : (s.submits c).locks = true) (hpc : pc.locks = false) :
    Guarded none (holders s.workers (Function.update s.submits c pc)) := by
  rw [holders_update_submit, hpc]
  exact h.unlock hc

theorem lockKept_move (h : LockKept s) (hm : Move s a s') : LockKept s' := by
  cases hm with
  | lock w _ hmu => exact lockKept_lock_worker h hmu rfl
  | pass w hw _ => exact lockKept_worker h (by simp [hw, WorkerPc.locks])
  | decline w hw _ _ => exact lockKept_worker h (by simp [hw, WorkerPc.locks])
  | block w hw => exact lockKept_unlock_worker h (by simp [hw, WorkerPc.locks]) rfl
  | wakeUp w hw => exact lockKept_worker h (by simp [hw, WorkerPc.locks])
  | leave w hw _ _ => exact lockKept_worker h (by simp [hw, WorkerPc.locks])
  | take w t rest hw _ => exact lockKept_worker h (by simp [hw, WorkerPc.locks])
  | crash w hw _ _ => exact lockKept_worker h (by simp [hw, WorkerPc.locks])
  | unlock w t hw => exact lockKept_unlock_worker h (by simp [hw, WorkerPc.locks]) rfl
  | back w hw => exact lockKept_unlock_worker h (by simp [hw, WorkerPc.locks]) rfl
  | finish w t hw => exact lockKept_worker h (by simp [hw, WorkerPc.locks])
  | submitLock c _ hmu => exact lockKept_lock_submit h hmu rfl
  | refuse c hc _ => exact lockKept_submit h (by simp [hc, SubmitPc.locks])
  | check c hc _ => exact lockKept_submit h (by simp [hc, SubmitPc.locks])
  | push c hc => exact lockKept_submit h (by simp [hc, SubmitPc.locks])
  | release c hc => exact lockKept_unlock_submit h (by simp [hc, SubmitPc.locks]) rfl
  | raise c hc => exact lockKept_unlock_submit h (by simp [hc, SubmitPc.locks]) rfl
  | notifyOne c w hc hw =>
    have hcall : LockKept (s.setSubmit c .returned) := lockKept_submit h (by simp [hc, SubmitPc.locks])
    exact lockKept_worker hcall (by rw [show (s.setSubmit c .returned).workers w = _ from hw]; rfl)
  | notifyNone c hc => exact lockKept_submit h (by simp [hc, SubmitPc.locks])
  | store _ => exact h
  | notifyAll _ =>
    have hsame : holders (fun w => if s.workers w = .blocked then .woken else s.workers w)
        s.submits = holders s.workers s.submits := by
      funext o
      cases o with
      | worker w =>
        simp only [holders]
        split
        · rename_i hw
          rw [hw]
          rfl
        · rfl
      | submit c => rfl
    unfold LockKept
    rw [hsame]
    exact h
  | join _ _ => exact h

theorem lockKept_reach (h : machine.Reach s) : LockKept s := by
  refine h.invariant (I := LockKept) ?_ fun s a s' _ hi hs => lockKept_move hi (move_of_step hs)
  intro o
  cases o <;> simp [machine, new, holders, WorkerPc.locks, SubmitPc.locks]

end ThreadPool

end rpc.net
