-- The end of the pool. The destructor stores `stop_` and notifies all workers,
-- both without `mu_`. A worker that has looked at `stop_` before the store may
-- not yet have blocked when the notification comes; then nothing wakes it.
import RpcFramework.ThreadPool

namespace rpc.net.ThreadPool

open runs

variable {n : Nat} {ι : Type} [DecidableEq ι] {s s' : ThreadPool n ι} {a : Act n ι}

/-- A worker sleeps, and the notification of the destructor has passed it by. -/
def Hung (s : ThreadPool n ι) : Prop :=
  s.destructor.past = true ∧ s.stop = true ∧ ∃ w, s.workers w = .blocked

instance (s : ThreadPool n ι) : Decidable s.Hung := inferInstanceAs (Decidable (_ ∧ _ ∧ _))

/-- No worker stands between its look at the predicate and its block when `notify_all` is
called. -/
def Timely (s : ThreadPool n ι) : Act n ι → Prop
  | .notifyAll => ∀ w, s.workers w ≠ .sleepy
  | _ => True

instance (s : ThreadPool n ι) (a : Act n ι) : Decidable (Timely s a) :=
  match a with
  | .notifyAll => inferInstanceAs (Decidable (∀ w, s.workers w ≠ .sleepy))
  | .lock _ | .test _ | .block _ | .wakeUp _ | .pick _ | .unlock _ | .finish _ | .submitLock _
  | .submitTest _ | .push _ | .submitUnlock _ | .notifyOne _ _ | .store | .join => isTrue trivial

/-- After the store, `stop_` stays set. -/
def Stopped (s : ThreadPool n ι) : Prop := s.destructor ≠ .idle → s.stop = true

theorem stopped_move (h : Stopped s) (hm : Move s a s') : Stopped s' := by
  cases hm with
  | store _ => exact fun _ => rfl
  | notifyAll hd => exact fun _ => h (by simp [hd])
  | join hd _ => exact fun _ => h (by simp [hd])
  | _ => exact h

theorem stopped_reach (h : machine.Reach s) : Stopped s := by
  refine h.invariant (I := Stopped) ?_ fun s a s' _ hi hs => stopped_move hi (move_of_step hs)
  exact fun hd => absurd rfl hd

/-- After `notify_all` no worker sleeps, and none is about to. -/
def Awake (s : ThreadPool n ι) : Prop :=
  s.destructor.past = true → ∀ w, s.workers w ≠ .sleepy ∧ s.workers w ≠ .blocked

omit [DecidableEq ι] in
theorem awake_worker (h : Awake s) {w : Fin n} {pc : WorkerPc ι} (hsleepy : pc ≠ .sleepy)
    (hblocked : pc ≠ .blocked) (hd : s.destructor.past = true) (w' : Fin n) :
    Function.update s.workers w pc w' ≠ .sleepy ∧ Function.update s.workers w pc w' ≠ .blocked := by
  by_cases hw : w' = w
  · subst hw
    rw [Function.update_self]
    exact ⟨hsleepy, hblocked⟩
  · rw [Function.update_of_ne hw]
    exact h hd w'

theorem awake_move (hstop : Stopped s) (h : Awake s) (ha : Timely s a) (hm : Move s a s') :
    Awake s' := by
  cases hm with
  | notifyAll _ =>
    intro _ w
    have hnot := ha w
    by_cases hw : s.workers w = .blocked <;> simp [hw, hnot]
  | decline w hw hoff _ =>
    intro hd
    have hset := hstop fun hidle => by simp [DestructorPc.past, setWorker, hidle] at hd
    rw [hoff] at hset
    cases hset
  | block w hw => exact fun hd => absurd hw (h hd w).1
  | store hidle => exact fun hd => by cases hd
  | join hd _ => exact fun _ => h (by simp [hd, DestructorPc.past])
  | lock w _ _ => exact awake_worker h (by simp) (by simp)
  | pass w _ _ => exact awake_worker h (by simp) (by simp)
  | wakeUp w _ => exact awake_worker h (by simp) (by simp)
  | leave w _ _ _ => exact awake_worker h (by simp) (by simp)
  | take w t rest _ _ => exact awake_worker h (by simp) (by simp)
  | crash w _ _ _ => exact awake_worker h (by simp) (by simp)
  | unlock w t _ => exact awake_worker h (by simp) (by simp)
  | back w _ => exact awake_worker h (by simp) (by simp)
  | finish w t _ => exact awake_worker h (by simp) (by simp)
  | notifyOne c w _ _ => exact awake_worker h (by simp) (by simp)
  | _ => exact h

/-- When no worker stands between its look at the predicate and its block as `notify_all` is
called, no worker is ever left asleep. When one does, its block leaves it asleep for good. -/
theorem the_shutdown_leaves_no_worker_asleep (h : machine.ReachUnder Timely s) :
    ¬ s.Hung ∧ ∀ w s₁, s.workers w = .sleepy → s.step .notifyAll = some s₁ →
      ∃ s₂, s₁.step (.block w) = some s₂ ∧ s₂.Hung := by
  have hawake : Awake s := by
    refine h.invariant (I := Awake) (fun hd => by cases hd) ?_
    intro s a s' hr hi ha hs
    exact awake_move (stopped_reach hr.reach) hi ha (move_of_step hs)
  refine ⟨?_, ?_⟩
  · rintro ⟨hpast, -, w, hw⟩
    exact (hawake hpast w).2 hw
  · intro w s₁ hw hs
    have hstop := stopped_reach h.reach
    simp only [step] at hs
    split at hs
    · rename_i hd
      cases hs
      refine ⟨_, if_pos (by simp [hw]), ?_⟩
      exact ⟨rfl, hstop (by simp [hd]), w, by simp [setWorker]⟩
    · cases hs

/-- A worker looks at the predicate and blocks, and then the destructor comes. -/
def blockedFirst (w : Fin 1) : List (Act 1 Unit) :=
  [.lock w, .test w, .block w, .store, .notifyAll, .lock w, .test w, .pick w, .unlock w, .join]

theorem a_worker_that_blocked_is_woken :
    ∃ s, (machine : Machine (ThreadPool 1 Unit) (Act 1 Unit)).ReachUnder Timely s ∧
      s.destructor = .joined ∧ ¬ s.Hung := by
  obtain ⟨s, h, hd⟩ : ∃ s, (machine : Machine (ThreadPool 1 Unit) (Act 1 Unit)).ReachUnder Timely s ∧
      s.destructor = .joined :=
    Machine.ReachUnder.of_run (blockedFirst 0) (by decide +kernel)
  exact ⟨s, h, hd, (the_shutdown_leaves_no_worker_asleep h).1⟩

/-- The destructor comes between the look and the block. -/
theorem a_worker_about_to_block_is_left_asleep :
    ∃ s, (machine : Machine (ThreadPool 1 Unit) (Act 1 Unit)).Reach s ∧ s.Hung :=
  Machine.ReachUnder.of_run [.lock 0, .test 0, .store, .notifyAll, .block 0] (by decide +kernel)

end rpc.net.ThreadPool
