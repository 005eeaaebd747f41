-- The turns of the event loop. In one turn it runs the functors that it has swapped
-- out and no others, however many are queued meanwhile. So it comes back to `poll`,
-- and everything that was queued is run before the loop has polled twice more.
import RpcFramework.LoopWakeup

namespace rpc.net

open runs

/-- Functors of a batch are run. -/
def LoopPc.inBatch {F : Type} : LoopPc F → Bool
  | .running | .inFunctor _ => true
  | _ => false

namespace LoopThreads

variable {τ F : Type}

/-- The functors that were run, the one that runs, and the rest of its batch. -/
def batched (s : LoopThreads τ F) : List F := s.ran ++ s.pc.current ++ s.queue.functors

/-- The action is a call of `poll`. -/
def Act.isPoll : Act τ F → Bool
  | .poll _ => true
  | _ => false

variable [DecidableEq τ] {loopThread : τ} {s s' : LoopThreads τ F} {a : Act τ F}

/-! ## A batch and what comes behind it -/

/-- A batch is left over only while functors are run. -/
def Drained (s : LoopThreads τ F) : Prop := s.pc.inBatch = false → s.queue.functors = []

omit [DecidableEq τ] in
theorem drained_wakeup (h : Drained s) : Drained s.wakeup := by
  unfold wakeup
  split <;> exact h

theorem drained_move (h : Drained s) (hm : Move loopThread s a s') : Drained s' := by
  cases hm with
  | push t f _ _ => exact h
  | wake t _ _ => exact drained_wakeup (s := s.setThread t .idle) h
  | skip t _ _ _ => exact h
  | quit t _ _ => exact h
  | wakeQuit t _ => exact drained_wakeup (s := s.setThread t .idle) h
  | skipQuit t _ => exact h
  | swap l hpc hl => exact fun hpc => by cases hpc
  | next f l hpc hl => exact fun hpc => by cases hpc
  | functorReturns f hpc _ => exact fun hpc => by cases hpc
  | clearCalling hpc hempty => exact fun _ => hempty
  | enter hpc _ => exact fun _ => h (by rw [hpc]; rfl)
  | leave hpc _ => exact fun _ => h (by rw [hpc]; rfl)
  | turn hpc _ => exact fun _ => h (by rw [hpc]; rfl)
  | poll ready hpc => exact fun _ => h (by rw [hpc]; rfl)
  | handleRead ready hpc => exact fun _ => h (by rw [hpc]; rfl)
  | handle ready hpc => exact fun _ => h (by rw [hpc]; rfl)
  | handlerReturns ready hpc _ => exact fun _ => h (by rw [hpc]; rfl)
  | storeCalling hpc => exact fun _ => h (by rw [hpc]; rfl)

omit [DecidableEq τ] in
/-- `wakeup` changes the counter only. -/
theorem wakeup_eq (s : LoopThreads τ F) : s.wakeup = { s with eventfd := s.wakeup.eventfd } := by
  unfold wakeup
  split <;> rfl

theorem pushed_grows (hm : Move loopThread s a s') : s.pushed <+: s'.pushed := by
  cases hm with
  | push t f _ _ => exact List.prefix_append _ _
  | wake t _ _ => rw [wakeup_eq]; exact List.prefix_refl _
  | wakeQuit t _ => rw [wakeup_eq]; exact List.prefix_refl _
  | _ => exact List.prefix_refl _

theorem ran_grows (hm : Move loopThread s a s') : s.ran <+: s'.ran := by
  cases hm with
  | functorReturns f _ _ => exact List.prefix_append _ _
  | wake t _ _ => rw [wakeup_eq]; exact List.prefix_refl _
  | wakeQuit t _ => rw [wakeup_eq]; exact List.prefix_refl _
  | _ => exact List.prefix_refl _

/-- Behind the swap the batch is not added to. -/
theorem batched_move (hm : Move loopThread s a s') (hswap : s.pc.afterSwap = true) :
    s'.batched = s.batched := by
  unfold batched
  cases hm with
  | push t f _ _ => rfl
  | wake t _ _ => rw [wakeup_eq]; rfl
  | skip t _ _ _ => rfl
  | quit t _ _ => rfl
  | wakeQuit t _ => rw [wakeup_eq]; rfl
  | skipQuit t _ => rfl
  | enter hpc _ => rw [hpc]; rfl
  | leave hpc _ => rw [hpc]; rfl
  | turn hpc _ => rw [hpc]; rfl
  | poll ready hpc => rw [hpc]; rfl
  | clearCalling hpc _ => rw [hpc]; rfl
  | next f l hpc hl =>
    simp [hpc, LoopPc.current, EventLoop.functors_next hl]
  | functorReturns f hpc _ => simp [hpc, LoopPc.current]
  | handleRead ready hpc => rw [hpc] at hswap; cases hswap
  | handle ready hpc => rw [hpc] at hswap; cases hswap
  | handlerReturns ready hpc _ => rw [hpc] at hswap; cases hswap
  | storeCalling hpc => rw [hpc] at hswap; cases hswap
  | swap l hpc hl => rw [hpc] at hswap; cases hswap

/-- The loop comes behind the swap with all that was queued. -/
theorem batched_swap (ho : InOrder s) (hm : Move loopThread s a s') (hbefore : s.pc.afterSwap = false)
    (hswap : s'.pc.afterSwap = true) : s'.batched = s'.pushed := by
  have ho' := inOrder_move ho hm
  cases hm with
  | swap l hpc hl =>
    unfold InOrder EventLoop.queued at ho'
    rw [EventLoop.pendingFunctors_swap hl, List.append_nil] at ho'
    exact ho'
  | wake t _ _ => rw [wakeup_eq] at hswap; exact absurd hswap (by rw [Bool.not_eq_true]; exact hbefore)
  | wakeQuit t _ => rw [wakeup_eq] at hswap; exact absurd hswap (by rw [Bool.not_eq_true]; exact hbefore)
  | enter hpc _ => rw [hpc] at hbefore; cases hbefore
  | leave hpc _ => rw [hpc] at hbefore; cases hbefore
  | turn hpc _ => rw [hpc] at hbefore; cases hbefore
  | poll ready hpc => rw [hpc] at hbefore; cases hbefore
  | clearCalling hpc _ => rw [hpc] at hbefore; cases hbefore
  | next f l hpc hl => rw [hpc] at hbefore; cases hbefore
  | functorReturns f hpc _ => rw [hpc] at hbefore; cases hbefore
  | handleRead ready hpc => cases hswap
  | handle ready hpc => cases hswap
  | handlerReturns ready hpc _ => cases hswap
  | storeCalling hpc => cases hswap
  | _ => exact absurd hswap (by rw [Bool.not_eq_true]; exact hbefore)

/-- The loop goes on from behind the swap to the handlers by a call of `poll` only. -/
theorem afterSwap_move (hm : Move loopThread s a s') (ha : a.isPoll = false)
    (hswap : s.pc.afterSwap = true) : s'.pc.afterSwap = true := by
  cases hm with
  | wake t _ _ => rw [wakeup_eq]; exact hswap
  | wakeQuit t _ => rw [wakeup_eq]; exact hswap
  | poll ready hpc => cases ha
  | handleRead ready hpc => rw [hpc] at hswap; cases hswap
  | handle ready hpc => rw [hpc] at hswap; cases hswap
  | handlerReturns ready hpc _ => rw [hpc] at hswap; cases hswap
  | storeCalling hpc => rw [hpc] at hswap; cases hswap
  | enter _ _ => rfl
  | leave _ _ => rfl
  | turn _ _ => rfl
  | swap _ _ _ => rfl
  | next _ _ _ _ => rfl
  | functorReturns _ _ _ => rfl
  | clearCalling _ _ => rfl
  | _ => exact hswap

/-- When the loop polls, its batch has been run. -/
theorem polled_move (hd : Drained s) (hm : Move loopThread s a s') (ha : a.isPoll = true) :
    s.pc.afterSwap = true ∧ s'.pc.afterSwap = false ∧ s.ran = s.batched := by
  cases hm with
  | poll ready hpc =>
    refine ⟨by rw [hpc]; rfl, rfl, ?_⟩
    unfold batched
    rw [hd (by rw [hpc]; rfl), hpc]
    simp [LoopPc.current]
  | _ => cases ha

/-! ## What the turns owe -/

/-- How far the loop has come with the functors `old` since a number of polls: after one poll
they are in the batch when the loop comes behind the swap, and after two they have been run. -/
structure Owed (old : List F) (polls : Nat) (s : LoopThreads τ F) : Prop where
  known : old <+: s.pushed
  batched : 1 ≤ polls → s.pc.afterSwap = true → old.length ≤ s.batched.length
  ran : 2 ≤ polls → old.length ≤ s.ran.length

theorem drained_reach (h : (machine loopThread).Reach s) : Drained s :=
  h.invariant (I := Drained) (fun _ => rfl) fun _ _ _ _ hi hs => drained_move hi (move_of_step hs)

theorem inOrder_reach (h : (machine loopThread).Reach s) : InOrder s :=
  h.invariant (I := InOrder) (by simp [machine, new, InOrder, LoopPc.current])
    fun _ _ _ _ hi hs => inOrder_move hi (move_of_step hs)

theorem owed_move {old : List F} {polls : Nat} (hr : (machine loopThread).Reach s)
    (h : Owed old polls s) (hm : Move loopThread s a s') :
    Owed old (polls + if a.isPoll then 1 else 0) s' := by
  have hran := (ran_grows hm).length_le
  have hknown := h.known.trans (pushed_grows hm)
  by_cases ha : a.isPoll = true
  · obtain ⟨hbehind, hbefore, hall⟩ := polled_move (drained_reach hr) hm ha
    refine ⟨hknown, ?_, ?_⟩
    · intro _ hswap
      rw [hbefore] at hswap
      cases hswap
    · intro hpolls
      rw [if_pos ha] at hpolls
      have hbatched := h.batched (by omega) hbehind
      rw [← hall] at hbatched
      exact Nat.le_trans hbatched hran
  · rw [if_neg ha, Nat.add_zero]
    refine ⟨hknown, ?_, fun hpolls => Nat.le_trans (h.ran hpolls) hran⟩
    intro hpolls hswap
    cases hbehind : s.pc.afterSwap with
    | true =>
      rw [batched_move hm hbehind]
      exact h.batched hpolls hbehind
    | false =>
      rw [batched_swap (inOrder_reach hr) hm hbehind hswap]
      exact hknown.length_le

theorem owed_run {old : List F} {polls : Nat} {as : List (Act τ F)}
    (hr : (machine loopThread).Reach s) (h : Owed old polls s)
    (hrun : (machine loopThread).run (fun _ _ => True) s as = some s') :
    Owed old (polls + as.countP Act.isPoll) s' := by
  induction as generalizing s polls with
  | nil =>
    cases hrun
    exact h
  | cons a as ih =>
    simp only [Machine.run, if_true] at hrun
    obtain ⟨t, ht, hrest⟩ := Option.bind_eq_some_iff.mp hrun
    have howed := ih (hr.step ht) (owed_move hr h (move_of_step ht)) hrest
    rw [List.countP_cons, Nat.add_comm _ (ite _ _ _), ← Nat.add_assoc]
    exact howed

/-- Without a poll the loop stays behind its swap, with the same batch. -/
theorem batched_run {as : List (Act τ F)} (hswap : s.pc.afterSwap = true)
    (hnone : as.countP Act.isPoll = 0)
    (hrun : (machine loopThread).run (fun _ _ => True) s as = some s') :
    s'.batched = s.batched := by
  induction as generalizing s with
  | nil =>
    cases hrun
    rfl
  | cons a as ih =>
    simp only [Machine.run, if_true] at hrun
    obtain ⟨t, ht, hrest⟩ := Option.bind_eq_some_iff.mp hrun
    rw [List.countP_cons] at hnone
    have ha : a.isPoll = false := by
      cases ha : a.isPoll with
      | true =>
        rw [ha] at hnone
        simp at hnone
      | false => rfl
    have hm := move_of_step ht
    rw [ih (afterSwap_move hm ha hswap) (by omega) hrest, batched_move hm hswap]

/-- In every run from any state on, with any threads that queue any number of functors, and with
functors that queue themselves again: all that was queued before has been run when the loop has
polled twice; and behind the swap of a turn the loop runs the rest of its batch and nothing else
before it polls. -/
theorem a_turn_runs_its_batch_only {as : List (Act τ F)} (hr : (machine loopThread).Reach s)
    (hrun : (machine loopThread).run (fun _ _ => True) s as = some s') :
    (2 ≤ as.countP Act.isPoll → s.pushed <+: s'.ran) ∧
      (s.pc.afterSwap = true → as.countP Act.isPoll = 0 →
        s'.ran <+: s.ran ++ s.pc.current ++ s.queue.functors) := by
  constructor
  · intro hpolls
    have hstart : Owed s.pushed 0 s :=
      ⟨List.prefix_refl _, fun h => absurd h (by omega), fun h => absurd h (by omega)⟩
    have howed := owed_run hr hstart hrun
    have hran : s'.ran <+: s'.pushed := by
      have horder := inOrder_reach (hr.later (.of_run hrun))
      rw [← horder, List.append_assoc]
      exact List.prefix_append _ _
    exact List.prefix_of_prefix_length_le howed.known hran (howed.ran (by omega))
  · intro hswap hnone
    have hsame := batched_run hswap hnone hrun
    unfold batched at hsame
    rw [← hsame, List.append_assoc]
    exact List.prefix_append _ _

/-- A functor that queues itself again. The loop polls between its two runs. -/
def requeued : List (Act Bool Nat) :=
  [.check, .poll [], .storeCalling, .swap, .next, .push true 1, .wake true, .functorReturns,
    .clearCalling, .check, .poll [.wakeup], .handle]

theorem a_functor_that_queues_itself_waits_for_the_next_turn :
    ∃ s s', (machine true : Machine (LoopThreads Bool Nat) (Act Bool Nat)).Reach s ∧
      (machine true).run (fun _ _ => True) s requeued = some s' ∧ s'.pushed = [1, 1] ∧
      [1] <+: s'.ran ∧ s'.ran = [1] := by
  obtain ⟨s, h, hpushed, hgo⟩ :
      ∃ s, (machine true : Machine (LoopThreads Bool Nat) (Act Bool Nat)).Reach s ∧
        s.pushed = [1] ∧ ((machine true).run (fun _ _ => True) s requeued).any
          (fun s' => s'.pushed = [1, 1] ∧ s'.ran = [1]) = true :=
    Machine.ReachUnder.of_run [.enter, .push false 1, .wake false] (by decide +kernel)
  obtain ⟨s', hrun, hend⟩ := (Option.any_eq_true _ _).mp hgo
  obtain ⟨htwice, hran⟩ := of_decide_eq_true hend
  have hprefix := (a_turn_runs_its_batch_only h hrun).1 (by decide)
  rw [hpushed] at hprefix
  exact ⟨s, s', h, hrun, htwice, hprefix, hran⟩

end LoopThreads

end rpc.net
