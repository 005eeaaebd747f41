-- Waking the loop. A push by another thread is always followed by a write to the
-- eventfd. The loop thread skips the write in its handlers, since it comes to the
-- queue before it polls again. So while it polls, a functor that waits has been
-- announced, or is about to be.
import RpcFramework.LoopThreads

namespace rpc.net

open runs

/-- The loop thread comes to `poll` before it comes to the queue. -/
def LoopPc.afterSwap {F : Type} : LoopPc F → Bool
  | .outside | .head | .polling | .running | .inFunctor _ => true
  | .handling _ | .inHandler _ | .swapping => false

/-- The loop thread is in `do_pending_functors`, behind the store of
`calling_pending_functors_`. -/
def LoopPc.drains {F : Type} : LoopPc F → Bool
  | .swapping | .running | .inFunctor _ => true
  | _ => false

/-- The loop thread is in `loop`. -/
def LoopPc.inside {F : Type} : LoopPc F → Bool
  | .outside => false
  | _ => true

namespace LoopThreads

variable {τ F : Type} [DecidableEq τ] {loopThread : τ} {s s' : LoopThreads τ F} {a : Act τ F}

/-- The loop thread queues functors only after it has entered `loop`: from the handlers of
channels and from functors. -/
def FromInside (loopThread : τ) (s : LoopThreads τ F) : Act τ F → Prop
  | .push t _ => t = loopThread → s.pc.inside = true
  | _ => True

instance (loopThread : τ) (s : LoopThreads τ F) (a : Act τ F) :
    Decidable (FromInside loopThread s a) :=
  match a with
  | .push t _ => inferInstanceAs (Decidable (t = loopThread → s.pc.inside = true))
  | .wake _ | .quit _ | .wakeQuit _ | .enter | .check | .poll _ | .handle | .handlerReturns
  | .storeCalling | .swap | .next | .functorReturns | .clearCalling => isTrue trivial

/-- A thread stands between its push and its `wakeup`. The loop thread gets there only when it
finds the flag set. -/
def Announcing (loopThread : τ) (s : LoopThreads τ F) (t : τ) : Prop :=
  s.threads t = .pushed ∧ (t = loopThread → s.calling = true)

/-- The flag is set while functors run; the loop thread is inside no call while no code of the
user runs; and a functor that waits when the loop comes to `poll` is announced. -/
structure Alert (loopThread : τ) (s : LoopThreads τ F) : Prop where
  calling : s.pc.drains = true → s.calling = true
  still : s.pc.userRuns = false → s.threads loopThread = .idle
  told : s.pc.afterSwap = true → s.queue.pendingFunctors ≠ [] →
    0 < s.eventfd ∨ ∃ t, Announcing loopThread s t

omit [DecidableEq τ] in
/-- `wakeup` changes the counter only, and leaves it positive. -/
theorem alert_wakeup (h : s.pc.drains = true → s.calling = true)
    (hstill : s.pc.userRuns = false → s.threads loopThread = .idle) : Alert loopThread s.wakeup := by
  unfold wakeup
  split
  · exact ⟨h, hstill, fun _ _ => Or.inl (Nat.succ_pos _)⟩
  · exact ⟨h, hstill, fun _ _ => Or.inl (by omega)⟩

theorem still_setThread (h : Alert loopThread s) {t : τ} {pc : QueuePc}
    (ht : t = loopThread → s.pc.userRuns = true) (hpc : s.pc.userRuns = false) :
    (s.setThread t pc).threads loopThread = .idle := by
  have hne : loopThread ≠ t := by
    rintro rfl
    rw [ht rfl] at hpc
    cases hpc
  simp only [setThread, Function.update_of_ne hne]
  exact h.still hpc

theorem still_idle (h : Alert loopThread s) (t : τ) (hpc : s.pc.userRuns = false) :
    (s.setThread t .idle).threads loopThread = .idle := by
  by_cases ht : loopThread = t
  · simp [setThread, ht]
  · simp only [setThread, Function.update_of_ne ht]
    exact h.still hpc

/-- An announcement of one thread stands while another thread moves. -/
theorem announcing_setThread {t u : τ} {pc : QueuePc} (hu : Announcing loopThread s u)
    (hne : u ≠ t) : Announcing loopThread (s.setThread t pc) u := by
  refine ⟨?_, hu.2⟩
  simp only [setThread, Function.update_of_ne hne]
  exact hu.1

/-- A thread that announced nothing moves to where it announces nothing. -/
theorem told_setThread (h : Alert loopThread s) {t : τ} {pc : QueuePc}
    (ht : ¬ Announcing loopThread s t) (hswap : s.pc.afterSwap = true)
    (hne : s.queue.pendingFunctors ≠ []) :
    0 < s.eventfd ∨ ∃ u, Announcing loopThread (s.setThread t pc) u := by
  rcases h.told hswap hne with hpos | ⟨u, hu⟩
  · exact Or.inl hpos
  · have hut : u ≠ t := by
      rintro rfl
      exact ht hu
    exact Or.inr ⟨u, announcing_setThread hu hut⟩

theorem alert_push (h : Alert loopThread s) {t : τ} {f : F}
    (huser : t = loopThread → s.pc.userRuns = true)
    (hin : t = loopThread → s.pc.inside = true) :
    Alert loopThread { s.setThread t .pushed with
      queue := s.queue.queueInLoop f, pushed := s.pushed ++ [f] } := by
  refine ⟨h.calling, still_setThread h huser, ?_⟩
  intro hswap _
  refine Or.inr ⟨t, by simp [setThread], ?_⟩
  intro ht
  -- the loop thread is in a functor, since it is neither outside nor in a handler
  have hu := huser ht
  have hi := hin ht
  apply h.calling
  change s.pc.afterSwap = true at hswap
  cases hpc : s.pc <;> simp_all [LoopPc.userRuns, LoopPc.inside, LoopPc.afterSwap, LoopPc.drains]

theorem alert_move (h : Alert loopThread s) (ha : FromInside loopThread s a)
    (hm : Move loopThread s a s') : Alert loopThread s' := by
  cases hm with
  | push t f _ huser => exact alert_push h huser ha
  | wake t _ _ => exact alert_wakeup (s := s.setThread t .idle) h.calling (still_idle h t)
  | wakeQuit t _ => exact alert_wakeup (s := s.setThread t .idle) h.calling (still_idle h t)
  | skip t _ hloop hoff =>
    refine ⟨h.calling, still_idle h t, told_setThread h ?_⟩
    intro hann
    rw [hann.2 hloop] at hoff
    cases hoff
  | skipQuit t ht =>
    refine ⟨h.calling, still_idle h t, told_setThread h ?_⟩
    intro hann
    rw [hann.1] at ht
    cases ht
  | quit t ht huser =>
    refine ⟨h.calling, still_setThread h huser, told_setThread h ?_⟩
    intro hann
    rw [hann.1] at ht
    cases ht
  | enter hpc hidle =>
    exact ⟨by simp [LoopPc.drains], fun _ => hidle,
      fun _ => h.told (by simp [hpc, LoopPc.afterSwap])⟩
  | leave hpc _ =>
    exact ⟨by simp [LoopPc.drains], by simp [LoopPc.userRuns],
      fun _ => h.told (by simp [hpc, LoopPc.afterSwap])⟩
  | turn hpc _ =>
    exact ⟨by simp [LoopPc.drains], fun _ => h.still (by simp [hpc, LoopPc.userRuns]),
      fun _ => h.told (by simp [hpc, LoopPc.afterSwap])⟩
  | poll ready hpc =>
    exact ⟨by simp [LoopPc.drains], fun _ => h.still (by simp [hpc, LoopPc.userRuns]),
      by simp [LoopPc.afterSwap]⟩
  | handleRead ready hpc =>
    exact ⟨by simp [LoopPc.drains], fun _ => h.still (by simp [hpc, LoopPc.userRuns]),
      by simp [LoopPc.afterSwap]⟩
  | handle ready hpc =>
    exact ⟨by simp [LoopPc.drains], by simp [LoopPc.userRuns], by simp [LoopPc.afterSwap]⟩
  | handlerReturns ready hpc hidle =>
    exact ⟨by simp [LoopPc.drains], fun _ => hidle, by simp [LoopPc.afterSwap]⟩
  | storeCalling hpc =>
    exact ⟨by simp, fun _ => h.still (by simp [hpc, LoopPc.userRuns]), by simp [LoopPc.afterSwap]⟩
  | swap l hpc hl =>
    refine ⟨fun _ => h.calling (by simp [hpc, LoopPc.drains]),
      fun _ => h.still (by simp [hpc, LoopPc.userRuns]), ?_⟩
    intro _ hne
    exact absurd (EventLoop.pendingFunctors_swap hl) hne
  | next f l hpc hl =>
    refine ⟨fun _ => h.calling (by simp [hpc, LoopPc.drains]), by simp [LoopPc.userRuns], ?_⟩
    intro _ hne
    simp only [EventLoop.pendingFunctors_next hl] at hne
    exact h.told (by simp [hpc, LoopPc.afterSwap]) hne
  | functorReturns f hpc hidle =>
    exact ⟨fun _ => h.calling (by simp [hpc, LoopPc.drains]), fun _ => hidle,
      fun _ => h.told (by simp [hpc, LoopPc.afterSwap])⟩
  | clearCalling hpc _ =>
    have hidle := h.still (by simp [hpc, LoopPc.userRuns])
    refine ⟨by simp [LoopPc.drains], fun _ => hidle, ?_⟩
    intro _ hne
    rcases h.told (by simp [hpc, LoopPc.afterSwap]) hne with hpos | ⟨t, ht, -⟩
    · exact Or.inl hpos
    · refine Or.inr ⟨t, ht, ?_⟩
      rintro rfl
      rw [hidle] at ht
      cases ht

/-- Whenever the loop thread enters `poll` or is inside it, and functors wait in the queue, the
counter of the eventfd is positive, or some other thread is between its push and its `wakeup`. -/
theorem no_wakeup_is_lost (h : (machine loopThread).ReachUnder (FromInside loopThread) s)
    (hpoll : s.pc = .polling) (hne : s.queue.pendingFunctors ≠ []) :
    0 < s.eventfd ∨ ∃ t, t ≠ loopThread ∧ s.threads t = .pushed := by
  have halert : Alert loopThread s := by
    refine h.invariant (I := Alert loopThread) ?_ ?_
    · refine ⟨?_, fun _ => rfl, ?_⟩
      · simp [machine, new, LoopPc.drains]
      · simp [machine, new, EventLoop.new]
    · intro s a s' _ hi ha hs
      exact alert_move hi ha (move_of_step hs)
  have hidle := halert.still (by simp [hpoll, LoopPc.userRuns])
  rcases halert.told (by simp [hpoll, LoopPc.afterSwap]) hne with hpos | ⟨t, ht, -⟩
  · exact Or.inl hpos
  · refine Or.inr ⟨t, ?_, ht⟩
    rintro rfl
    rw [hidle] at ht
    cases ht

/-- A functor queues another from inside the batch, and the loop comes to `poll` again. -/
def queuedFromFunctor : List (Act Bool Nat) :=
  [.enter, .push false 1, .check, .poll [], .storeCalling, .swap, .next, .push true 2, .wake true,
    .functorReturns, .clearCalling, .check]

theorem a_functor_that_waits_is_announced :
    ∃ s, (machine true : Machine (LoopThreads Bool Nat) (Act Bool Nat)).ReachUnder
      (FromInside true) s ∧ s.pc = .polling ∧ s.queue.pendingFunctors = [2] ∧
      (0 < s.eventfd ∨ ∃ t, t ≠ true ∧ s.threads t = .pushed) := by
  obtain ⟨s, h, hpc, hpend⟩ :
      ∃ s, (machine true : Machine (LoopThreads Bool Nat) (Act Bool Nat)).ReachUnder
        (FromInside true) s ∧ s.pc = .polling ∧ s.queue.pendingFunctors = [2] :=
    Machine.ReachUnder.of_run queuedFromFunctor (by decide +kernel)
  exact ⟨s, h, hpc, hpend, no_wakeup_is_lost h hpc (by simp [hpend])⟩

end LoopThreads

end rpc.net
