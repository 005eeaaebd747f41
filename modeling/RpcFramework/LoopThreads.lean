-- The event loop and the threads around it. The loop thread polls, handles the
-- channels that are ready, and runs the functors of the queue; it and all other
-- threads may queue functors and ask the loop to quit. The eventfd is a counter.
-- A list of actions is an interleaving of the threads.
import Mathlib.Algebra.Group.Nat.Defs
import Mathlib.Logic.Function.Basic
import RpcFramework.EventLoop
import RpcFramework.Runs

namespace rpc.net

open runs

/-! ## The state -/

/-- What `poll` finds ready: the eventfd, or a channel of a user. -/
inductive ReadyChannel
  | wakeup | user
  deriving DecidableEq

/-- Where the loop thread stands: outside of `loop`; before its load of `quit_`; entering or
inside `poll`; among the channels that are ready, or in the handler of one; in
`do_pending_functors` before the swap; between two functors of the batch, or in one. -/
inductive LoopPc (F : Type)
  | outside | head | polling
  | handling (ready : List ReadyChannel)
  | inHandler (ready : List ReadyChannel)
  | swapping | running
  | inFunctor (f : F)
  deriving DecidableEq

/-- The functor that runs. -/
def LoopPc.current {F : Type} : LoopPc F → List F
  | .inFunctor f => [f]
  | _ => []

/-- Code of the user runs on the loop thread. -/
def LoopPc.userRuns {F : Type} : LoopPc F → Bool
  | .outside | .inHandler _ | .inFunctor _ => true
  | _ => false

/-- Where a thread stands: between its calls, or inside `queue_in_loop` after the push, or inside
`quit` after the store. -/
inductive QueuePc
  | idle | pushed | quitting
  deriving DecidableEq

/-- The loop. The last two fields only record what happened: the functors in the order in which
they were pushed, and those that have been run. -/
structure LoopThreads (τ F : Type) where
  queue : EventLoop F
  calling : Bool
  quit : Bool
  eventfd : Nat
  pc : LoopPc F
  threads : τ → QueuePc
  pushed : List F
  ran : List F

namespace LoopThreads

variable {τ F : Type}

def new : LoopThreads τ F where
  queue := EventLoop.new
  calling := false
  quit := false
  eventfd := 0
  pc := .outside
  threads := fun _ => .idle
  pushed := []
  ran := []

/-- `wakeup`. The counter has a largest value, at which the write fails. -/
def wakeup (s : LoopThreads τ F) : LoopThreads τ F :=
  if s.eventfd < 2 ^ 64 - 2 then { s with eventfd := s.eventfd + 1 } else s

/-- `handle_read`. -/
def handleRead (s : LoopThreads τ F) : LoopThreads τ F := { s with eventfd := 0 }

/-! ## The steps -/

/-- The actions of a thread `t`, and of the loop. `wake` is the end of `queue_in_loop`, and
`wakeQuit` the end of `quit`. -/
inductive Act (τ F : Type)
  | push (t : τ) (f : F)
  | wake (t : τ)
  | quit (t : τ)
  | wakeQuit (t : τ)
  | enter
  | check
  | poll (ready : List ReadyChannel)
  | handle
  | handlerReturns
  | storeCalling
  | swap
  | next
  | functorReturns
  | clearCalling

variable [DecidableEq τ]

def setThread (s : LoopThreads τ F) (t : τ) (pc : QueuePc) : LoopThreads τ F :=
  { s with threads := Function.update s.threads t pc }

/-- The thread may make a call. The loop thread makes one only where code of the user runs. -/
def mayCall (loopThread : τ) (s : LoopThreads τ F) (t : τ) : Bool :=
  s.threads t = .idle && (t ≠ loopThread || s.pc.userRuns)

/-- The state after an action, when it can be taken. -/
def step (loopThread : τ) (s : LoopThreads τ F) : Act τ F → Option (LoopThreads τ F)
  | .push t f =>
    if s.mayCall loopThread t then
      some { s.setThread t .pushed with
        queue := s.queue.queueInLoop f, pushed := s.pushed ++ [f] }
    else none
  | .wake t =>
    if s.threads t = .pushed then
      -- the loop thread wakes itself only while it runs functors
      let s := s.setThread t .idle
      some (if t ≠ loopThread ∨ s.calling then s.wakeup else s)
    else none
  | .quit t =>
    if s.mayCall loopThread t then some { s.setThread t .quitting with quit := true } else none
  | .wakeQuit t =>
    if s.threads t = .quitting then
      let s := s.setThread t .idle
      some (if t ≠ loopThread then s.wakeup else s)
    else none
  | .enter =>
    match s.pc with
    | .outside =>
      if s.threads loopThread = .idle then some { s with quit := false, pc := .head } else none
    | _ => none
  | .check =>
    match s.pc with
    | .head => some { s with pc := if s.quit then .outside else .polling }
    | _ => none
  | .poll ready =>
    match s.pc with
    | .polling =>
      if .wakeup ∈ ready → 0 < s.eventfd then some { s with pc := .handling ready } else none
    | _ => none
  | .handle =>
    match s.pc with
    | .handling (.wakeup :: ready) => some { s.handleRead with pc := .handling ready }
    | .handling (.user :: ready) => some { s with pc := .inHandler ready }
    | _ => none
  | .handlerReturns =>
    match s.pc with
    | .inHandler ready =>
      if s.threads loopThread = .idle then some { s with pc := .handling ready } else none
    | _ => none
  | .storeCalling =>
    match s.pc with
    | .handling [] => some { s with calling := true, pc := .swapping }
    | _ => none
  | .swap =>
    match s.pc with
    | .swapping => s.queue.swap.map fun l => { s with queue := l, pc := .running }
    | _ => none
  | .next =>
    match s.pc with
    | .running => s.queue.next.map fun p => { s with queue := p.2, pc := .inFunctor p.1 }
    | _ => none
  | .functorReturns =>
    match s.pc with
    | .inFunctor f =>
      if s.threads loopThread = .idle then some { s with pc := .running, ran := s.ran ++ [f] }
      else none
    | _ => none
  | .clearCalling =>
    match s.pc with
    | .running =>
      if s.queue.functors = [] then some { s with calling := false, pc := .head } else none
    | _ => none

def machine (loopThread : τ) : Machine (LoopThreads τ F) (Act τ F) where
  init := new
  step := step loopThread

/-! ## What a step can do -/

/-- The changes of the loop, each with its action and what it found. -/
inductive Move (loopThread : τ) (s : LoopThreads τ F) : Act τ F → LoopThreads τ F → Prop
  | push (t : τ) (f : F) : s.threads t = .idle → (t = loopThread → s.pc.userRuns = true) →
      Move loopThread s (.push t f) { s.setThread t .pushed with
        queue := s.queue.queueInLoop f, pushed := s.pushed ++ [f] }
  | wake (t : τ) : s.threads t = .pushed → (t ≠ loopThread ∨ s.calling = true) →
      Move loopThread s (.wake t) (s.setThread t .idle).wakeup
  | skip (t : τ) : s.threads t = .pushed → t = loopThread → s.calling = false →
      Move loopThread s (.wake t) (s.setThread t .idle)
  | quit (t : τ) : s.threads t = .idle → (t = loopThread → s.pc.userRuns = true) →
      Move loopThread s (.quit t) { s.setThread t .quitting with quit := true }
  | wakeQuit (t : τ) : s.threads t = .quitting →
      Move loopThread s (.wakeQuit t) (s.setThread t .idle).wakeup
  | skipQuit (t : τ) : s.threads t = .quitting →
      Move loopThread s (.wakeQuit t) (s.setThread t .idle)
  | enter : s.pc = .outside → s.threads loopThread = .idle →
      Move loopThread s .enter { s with quit := false, pc := .head }
  | leave : s.pc = .head → s.quit = true → Move loopThread s .check { s with pc := .outside }
  | turn : s.pc = .head → s.quit = false → Move loopThread s .check { s with pc := .polling }
  | poll (ready : List ReadyChannel) : s.pc = .polling →
      Move loopThread s (.poll ready) { s with pc := .handling ready }
  | handleRead (ready : List ReadyChannel) : s.pc = .handling (.wakeup :: ready) →
      Move loopThread s .handle { s.handleRead with pc := .handling ready }
  | handle (ready : List ReadyChannel) : s.pc = .handling (.user :: ready) →
      Move loopThread s .handle { s with pc := .inHandler ready }
  | handlerReturns (ready : List ReadyChannel) : s.pc = .inHandler ready →
      s.threads loopThread = .idle →
      Move loopThread s .handlerReturns { s with pc := .handling ready }
  | storeCalling : s.pc = .handling [] →
      Move loopThread s .storeCalling { s with calling := true, pc := .swapping }
  | swap (l : EventLoop F) : s.pc = .swapping → s.queue.swap = some l →
      Move loopThread s .swap { s with queue := l, pc := .running }
  | next (f : F) (l : EventLoop F) : s.pc = .running → s.queue.next = some (f, l) →
      Move loopThread s .next { s with queue := l, pc := .inFunctor f }
  | functorReturns (f : F) : s.pc = .inFunctor f → s.threads loopThread = .idle →
      Move loopThread s .functorReturns { s with pc := .running, ran := s.ran ++ [f] }
  | clearCalling : s.pc = .running → s.queue.functors = [] →
      Move loopThread s .clearCalling { s with calling := false, pc := .head }

variable {loopThread : τ} {s s' : LoopThreads τ F} {a : Act τ F}

theorem mayCall_iff {t : τ} : s.mayCall loopThread t = true ↔
    s.threads t = .idle ∧ (t = loopThread → s.pc.userRuns = true) := by
  unfold mayCall
  by_cases ht : t = loopThread <;> simp [ht]

theorem move_of_step (h : s.step loopThread a = some s') : Move loopThread s a s' := by
  cases a with
  | push t f =>
    simp only [step] at h
    split at h
    · rename_i hcall
      cases h
      obtain ⟨hidle, huser⟩ := mayCall_iff.mp hcall
      exact .push t f hidle huser
    · cases h
  | quit t =>
    simp only [step] at h
    split at h
    · rename_i hcall
      cases h
      obtain ⟨hidle, huser⟩ := mayCall_iff.mp hcall
      exact .quit t hidle huser
    · cases h
  | wake t =>
    simp only [step] at h
    split at h
    · rename_i ht
      cases h
      split
      · exact .wake t ht ‹_›
      · rename_i hskip
        simp only [not_or, ne_eq, not_not, Bool.not_eq_true] at hskip
        exact .skip t ht hskip.1 hskip.2
    · cases h
  | wakeQuit t =>
    simp only [step] at h
    split at h
    · rename_i ht
      cases h
      split
      · exact .wakeQuit t ht
      · exact .skipQuit t ht
    · cases h
  | enter =>
    simp only [step] at h
    split at h
    · split at h
      · cases h
        exact .enter ‹_› ‹_›
      · cases h
    · cases h
  | check =>
    simp only [step] at h
    split at h
    · cases h
      by_cases hq : s.quit = true
      · rw [if_pos hq]
        exact .leave ‹_› hq
      · rw [if_neg hq]
        exact .turn ‹_› (by simpa using hq)
    · cases h
  | poll ready =>
    simp only [step] at h
    split at h
    · split at h
      · cases h
        exact .poll ready ‹_›
      · cases h
    · cases h
  | handle =>
    simp only [step] at h
    split at h
    · cases h
      exact .handleRead _ ‹_›
    · cases h
      exact .handle _ ‹_›
    · cases h
  | handlerReturns =>
    simp only [step] at h
    split at h
    · split at h
      · cases h
        exact .handlerReturns _ ‹_› ‹_›
      · cases h
    · cases h
  | storeCalling =>
    simp only [step] at h
    split at h
    · cases h
      exact .storeCalling ‹_›
    · cases h
  | swap =>
    simp only [step] at h
    split at h
    · obtain ⟨l, hl, rfl⟩ := Option.map_eq_some_iff.mp h
      exact .swap l ‹_› hl
    · cases h
  | next =>
    simp only [step] at h
    split at h
    · obtain ⟨⟨f, l⟩, hl, rfl⟩ := Option.map_eq_some_iff.mp h
      exact .next f l ‹_› hl
    · cases h
  | functorReturns =>
    simp only [step] at h
    split at h
    · split at h
      · cases h
        exact .functorReturns _ ‹_› ‹_›
      · cases h
    · cases h
  | clearCalling =>
    simp only [step] at h
    split at h
    · split at h
      · cases h
        exact .clearCalling ‹_› ‹_›
      · cases h
    · cases h

/-! ## The order of the functors -/

/-- The functors that were run, the one that runs, the rest of the batch and the queue are the
functors in the order in which they were pushed. -/
def InOrder (s : LoopThreads τ F) : Prop := s.ran ++ s.pc.current ++ s.queue.queued = s.pushed

omit [DecidableEq τ] in
/-- The loop thread moves, and no functor begins or ends. -/
theorem inOrder_pc (h : InOrder s) {pc : LoopPc F} (hpc : pc.current = s.pc.current) :
    s.ran ++ pc.current ++ s.queue.queued = s.pushed := by
  rw [hpc]
  exact h

omit [DecidableEq τ] in
theorem inOrder_wakeup (h : InOrder s) : InOrder s.wakeup := by
  unfold wakeup
  split <;> exact h

theorem inOrder_move (h : InOrder s) (hm : Move loopThread s a s') : InOrder s' := by
  cases hm with
  | push t f _ _ =>
    unfold InOrder at h ⊢
    simp only [setThread, EventLoop.queued_queueInLoop]
    rw [← List.append_assoc, h]
  | wake t _ _ => exact inOrder_wakeup (s := s.setThread t .idle) h
  | skip t _ _ _ => exact h
  | quit t _ _ => exact h
  | wakeQuit t _ => exact inOrder_wakeup (s := s.setThread t .idle) h
  | skipQuit t _ => exact h
  | enter hpc _ => exact inOrder_pc h (by simp [hpc, LoopPc.current])
  | leave hpc _ => exact inOrder_pc h (by simp [hpc, LoopPc.current])
  | turn hpc _ => exact inOrder_pc h (by simp [hpc, LoopPc.current])
  | poll ready hpc => exact inOrder_pc h (by simp [hpc, LoopPc.current])
  | handleRead ready hpc => exact inOrder_pc h (by simp [hpc, LoopPc.current])
  | handle ready hpc => exact inOrder_pc h (by simp [hpc, LoopPc.current])
  | handlerReturns ready hpc _ => exact inOrder_pc h (by simp [hpc, LoopPc.current])
  | storeCalling hpc => exact inOrder_pc h (by simp [hpc, LoopPc.current])
  | clearCalling hpc _ => exact inOrder_pc h (by simp [hpc, LoopPc.current])
  | swap l hpc hl =>
    unfold InOrder at h ⊢
    simp only [EventLoop.queued_swap hl]
    simpa [hpc, LoopPc.current] using h
  | next f l hpc hl =>
    unfold InOrder at h ⊢
    rw [EventLoop.queued_next hl] at h
    simpa [hpc, LoopPc.current] using h
  | functorReturns f hpc _ =>
    unfold InOrder at h ⊢
    simpa [hpc, LoopPc.current] using h

/-- In every state: the functors that were run from the queue, the one that runs, the rest of
the batch that `do_pending_functors` has swapped out, and `pending_functors_`, one after
another, are the functors in the order in which `queue_in_loop` pushed them. -/
theorem functors_run_once_in_order (h : (machine loopThread).Reach s) :
    s.ran ++ s.pc.current ++ s.queue.functors ++ s.queue.pendingFunctors = s.pushed := by
  have hinv : InOrder s := by
    refine h.invariant (I := InOrder) ?_ fun s a s' _ hi hs => inOrder_move hi (move_of_step hs)
    simp [machine, new, InOrder, LoopPc.current]
  unfold InOrder EventLoop.queued at hinv
  rw [← List.append_assoc] at hinv
  exact hinv

/-- Another thread queues a functor, and the functor queues a second one. -/
def selfExtending : List (Act Bool Nat) :=
  [.enter, .push false 1, .check, .poll [], .storeCalling, .swap, .next, .push true 2, .wake false,
    .push false 3]

theorem a_functor_queues_another :
    ∃ s, (machine true : Machine (LoopThreads Bool Nat) (Act Bool Nat)).Reach s ∧
      s.pc.current = [1] ∧ s.queue.pendingFunctors = [2, 3] ∧
      s.ran ++ [1] ++ s.queue.functors ++ [2, 3] = s.pushed := by
  obtain ⟨s, h, hcur, hpend⟩ :
      ∃ s, (machine true : Machine (LoopThreads Bool Nat) (Act Bool Nat)).Reach s ∧
        s.pc.current = [1] ∧ s.queue.pendingFunctors = [2, 3] :=
    Machine.ReachUnder.of_run selfExtending (by decide +kernel)
  have horder := functors_run_once_in_order h
  rw [hcur, hpend] at horder
  exact ⟨s, h, hcur, hpend, horder⟩

end LoopThreads

end rpc.net
