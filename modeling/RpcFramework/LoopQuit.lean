-- A request to quit. `quit` stores true, and `loop` stores false when it is entered,
-- whatever was stored before. So a request stays, and ends the loop after the turn
-- in progress, unless it comes before the loop is entered.
import RpcFramework.LoopThreads

namespace rpc.net.LoopThreads

open runs

variable {τ F : Type} [DecidableEq τ] {loopThread : τ} {s s' : LoopThreads τ F} {a : Act τ F}

/-- The loop is entered while no request to quit stands. -/
def EntersUnasked (s : LoopThreads τ F) : Act τ F → Prop
  | .enter => s.quit = false
  | _ => True

instance (s : LoopThreads τ F) (a : Act τ F) : Decidable (EntersUnasked s a) :=
  match a with
  | .enter => inferInstanceAs (Decidable (_ = _))
  | .push _ _ | .wake _ | .quit _ | .wakeQuit _ | .check | .poll _ | .handle | .handlerReturns
  | .storeCalling | .swap | .next | .functorReturns | .clearCalling => isTrue trivial

omit [DecidableEq τ] in
theorem wakeup_quit (s : LoopThreads τ F) : s.wakeup.quit = s.quit := by
  unfold wakeup
  split <;> rfl

omit [DecidableEq τ] in
theorem wakeup_pc (s : LoopThreads τ F) : s.wakeup.pc = s.pc := by
  unfold wakeup
  split <;> rfl

/-- Only the entry of the loop takes a request back. -/
theorem quit_stays (hm : Move loopThread s a s') (ha : EntersUnasked s a) (hq : s.quit = true) :
    s'.quit = true := by
  cases hm with
  | quit t _ _ => rfl
  | enter _ _ =>
    have hnone : s.quit = false := ha
    rw [hq] at hnone
    cases hnone
  | wake t _ _ => rw [wakeup_quit]; exact hq
  | wakeQuit t _ => rw [wakeup_quit]; exact hq
  | _ => exact hq

/-- A turn of the loop begins only where no request stands. -/
theorem no_new_turn (hm : Move loopThread s a s') (hq : s.quit = true)
    (hpc : s'.pc = .polling) : s.pc = .polling := by
  cases hm with
  | turn _ hnone =>
    rw [hq] at hnone
    cases hnone
  | wake t _ _ => rwa [wakeup_pc] at hpc
  | wakeQuit t _ => rwa [wakeup_pc] at hpc
  | push t f _ _ => exact hpc
  | skip t _ _ _ => exact hpc
  | quit t _ _ => exact hpc
  | skipQuit t _ => exact hpc
  | _ => cases hpc

/-- In a run that enters the loop while no request to quit stands: a request stays for good, and
after it no turn of the loop begins. -/
theorem a_quit_request_is_not_lost (h : (machine loopThread).ReachUnder EntersUnasked s)
    (hq : s.quit = true) (hl : (machine loopThread).LaterUnder EntersUnasked s s') :
    s'.quit = true ∧ ∀ a t, (machine loopThread).step s' a = some t →
      t.pc = .polling → s'.pc = .polling := by
  have hkept : s'.quit = true :=
    hl.keeps (I := fun s => s.quit = true)
      (fun _ _ _ _ hi ha hs => quit_stays (move_of_step hs) ha hi) h hq
  exact ⟨hkept, fun a t hs hpc => no_new_turn (move_of_step hs) hkept hpc⟩

/-- The loop runs a turn when another thread asks it to quit, and leaves at the next check. -/
theorem a_running_loop_quits :
    ∃ s s', (machine true : Machine (LoopThreads Bool Nat) (Act Bool Nat)).ReachUnder
        EntersUnasked s ∧
      (machine true : Machine (LoopThreads Bool Nat) (Act Bool Nat)).LaterUnder EntersUnasked s s' ∧
      s'.pc = .outside ∧ s'.quit = true := by
  obtain ⟨s, s', hs, hl, hq, hpc⟩ :
      ∃ s s', (machine true : Machine (LoopThreads Bool Nat) (Act Bool Nat)).ReachUnder
          EntersUnasked s ∧
        (machine true : Machine (LoopThreads Bool Nat) (Act Bool Nat)).LaterUnder
          EntersUnasked s s' ∧ s.quit = true ∧ s'.pc = .outside :=
    Machine.ReachUnder.of_runs [.enter, .check, .poll [], .quit false]
      [.wakeQuit false, .storeCalling, .swap, .clearCalling, .check] (by decide +kernel)
  exact ⟨s, s', hs, hl, hpc, (a_quit_request_is_not_lost hs hq hl).1⟩

/-- A request that comes before the loop is entered. The loop begins a turn all the same. -/
theorem a_quit_request_before_the_loop_is_lost :
    ∃ s s', (machine true : Machine (LoopThreads Bool Nat) (Act Bool Nat)).Reach s ∧
      (machine true : Machine (LoopThreads Bool Nat) (Act Bool Nat)).LaterUnder
        (fun _ _ => True) s s' ∧ s.quit = true ∧ s'.quit = false ∧ s'.pc = .polling := by
  obtain ⟨s, s', hs, hl, hq, hnone, hpc⟩ :
      ∃ s s', (machine true : Machine (LoopThreads Bool Nat) (Act Bool Nat)).ReachUnder
          (fun _ _ => True) s ∧
        (machine true : Machine (LoopThreads Bool Nat) (Act Bool Nat)).LaterUnder
          (fun _ _ => True) s s' ∧ s.quit = true ∧ s'.quit = false ∧ s'.pc = .polling :=
    Machine.ReachUnder.of_runs [.quit false] [.enter, .wakeQuit false, .check] (by decide +kernel)
  exact ⟨s, s', hs, hl, hq, hnone, hpc⟩

/-- Whenever the loop is entered while a request stands, the request is gone, and the loop goes on
to begin a turn. -/
theorem an_entry_takes_a_request_back (hs : (machine loopThread).step s a = some s')
    (ha : ¬ EntersUnasked s a) :
    s.quit = true ∧ s'.quit = false ∧
      ∃ t, (machine loopThread).step s' .check = some t ∧ t.pc = .polling := by
  cases a with
  | enter =>
    have hq : s.quit = true := by simpa [EntersUnasked] using ha
    have hmove : Move loopThread s .enter s' := move_of_step hs
    cases hmove with
    | enter hpc hidle =>
      refine ⟨hq, rfl, ?_⟩
      exact ⟨{ s with quit := false, pc := .polling }, rfl, rfl⟩
  | _ => exact absurd trivial ha

end rpc.net.LoopThreads
