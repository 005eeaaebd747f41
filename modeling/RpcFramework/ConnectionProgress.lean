-- The end of what a connection was given to send. When no thread calls it any more, and each
-- write of `handle_write` takes some bytes, everything goes out to the socket, and a shutdown
-- that was asked for is done, whatever the order in which the loop does its work.
import Mathlib.Algebra.GroupWithZero.Nat
import RpcFramework.Progress
import RpcFramework.TcpConnection

namespace rpc.net.TcpConnection

open runs

variable {τ : Type} [DecidableEq τ] {loopThread : τ} {hasCallback : Bool} {c c' : TcpConnection τ}

/-! ## The functions of the loop thread -/

/-- What the functions of the loop thread leave as it is. -/
structure Undecided (c c' : TcpConnection τ) : Prop where
  state : c'.state = c.state
  loop : c'.loop = c.loop
  inFlight : c'.inFlight = c.inFlight
  found : c'.found = c.found
  closed : c'.closed = c.closed

/-- What is left to do with the buffer and the callbacks. -/
def bufferLeft (c : TcpConnection τ) : Nat := 2 * c.outputBuf.readable + c.stack.length

omit [DecidableEq τ] in
theorem shutdownInLoop_undecided (c : TcpConnection τ) : Undecided c c.shutdownInLoop ∧
    c.shutdownInLoop.outputBuf = c.outputBuf ∧ c.shutdownInLoop.stack = c.stack := by
  unfold shutdownInLoop
  split
  · exact ⟨⟨rfl, rfl, rfl, rfl, rfl⟩, rfl, rfl⟩
  · exact ⟨⟨rfl, rfl, rfl, rfl, rfl⟩, rfl, rfl⟩

omit [DecidableEq τ] in
theorem afterHandleWrite_undecided (c : TcpConnection τ) : Undecided c c.afterHandleWrite ∧
    c.afterHandleWrite.outputBuf = c.outputBuf ∧ c.afterHandleWrite.stack = c.stack := by
  unfold afterHandleWrite
  split
  · exact shutdownInLoop_undecided c
  · exact ⟨⟨rfl, rfl, rfl, rfl, rfl⟩, rfl, rfl⟩

variable (hasCallback) in
omit [DecidableEq τ] in
theorem writeComplete_undecided (after : AfterCallback) (c : TcpConnection τ) :
    Undecided c (c.writeComplete hasCallback after) ∧
      (c.writeComplete hasCallback after).outputBuf = c.outputBuf ∧
      (c.writeComplete hasCallback after).stack.length ≤ c.stack.length + 1 := by
  unfold writeComplete
  split
  · exact ⟨⟨rfl, rfl, rfl, rfl, rfl⟩, rfl, Nat.le_refl _⟩
  · exact ⟨⟨rfl, rfl, rfl, rfl, rfl⟩, rfl, Nat.le_succ _⟩

omit [DecidableEq τ] in
theorem readable_append (b : Buffer) (data : Bytes) :
    (b.append data).readable = b.readable + data.length := by
  rw [← Buffer.peek_length, Buffer.peek_append, List.length_append, Buffer.peek_length]

variable (hasCallback) in
omit [DecidableEq τ] in
/-- `send_in_loop` without an error buffers at most its payload. -/
theorem sendInLoop_undecided (t : τ) (data : Bytes) {r : WriteResult} (hr : r ≠ .error)
    (c : TcpConnection τ) : Undecided c (c.sendInLoop hasCallback t data r) ∧
      (c.sendInLoop hasCallback t data r).bufferLeft ≤ c.bufferLeft + (2 * data.length + 1) := by
  have hrest : ∀ (d : TcpConnection τ) (n : Nat), Undecided d (d.bufferRest data n) ∧
      (d.bufferRest data n).outputBuf.readable ≤ d.outputBuf.readable + data.length ∧
      (d.bufferRest data n).stack = d.stack := by
    intro d n
    refine ⟨⟨rfl, rfl, rfl, rfl, rfl⟩, ?_, rfl⟩
    simp only [bufferRest, readable_append, List.length_drop]
    omega
  unfold bufferLeft sendInLoop
  split
  · exact ⟨⟨rfl, rfl, rfl, rfl, rfl⟩, by omega⟩
  dsimp only
  split
  · cases r with
    | error => exact absurd rfl hr
    | wouldBlock =>
      obtain ⟨hu, hread, hstack⟩ := hrest { c with executed := c.executed ++ [(t, data)] } 0
      refine ⟨⟨hu.state, hu.loop, hu.inFlight, hu.found, hu.closed⟩, ?_⟩
      rw [hstack]
      dsimp only at hread ⊢
      omega
    | count n =>
      dsimp only
      split
      · obtain ⟨hu, hbuf, hstack⟩ := writeComplete_undecided hasCallback .fromSend { c with
          executed := c.executed ++ [(t, data)]
          accepted := c.accepted ++ data.take n }
        refine ⟨⟨hu.state, hu.loop, hu.inFlight, hu.found, hu.closed⟩, ?_⟩
        rw [hbuf]
        dsimp only at hstack ⊢
        omega
      · obtain ⟨hu, hread, hstack⟩ := hrest { c with
          executed := c.executed ++ [(t, data)]
          accepted := c.accepted ++ data.take n } n
        refine ⟨⟨hu.state, hu.loop, hu.inFlight, hu.found, hu.closed⟩, ?_⟩
        rw [hstack]
        dsimp only at hread ⊢
        omega
  · obtain ⟨hu, hread, hstack⟩ := hrest { c with executed := c.executed ++ [(t, data)] } 0
    refine ⟨⟨hu.state, hu.loop, hu.inFlight, hu.found, hu.closed⟩, ?_⟩
    rw [hstack]
    dsimp only at hread ⊢
    omega

variable (hasCallback) in
omit [DecidableEq τ] in
/-- A write that takes bytes makes the buffer smaller. -/
theorem handleWrite_undecided {n : Nat} (hn : 0 < n) (hfits : n ≤ c.outputBuf.readable)
    (hwriting : c.isWriting = true) :
    Undecided c (c.handleWrite hasCallback (.count n)) ∧
      (c.handleWrite hasCallback (.count n)).bufferLeft < c.bufferLeft := by
  have hshort : (c.outputBuf.retrieve n hfits).readable + n = c.outputBuf.readable := by
    rw [← Buffer.peek_length, Buffer.peek_retrieve, List.length_drop, Buffer.peek_length]
    omega
  unfold bufferLeft handleWrite
  rw [if_neg (by simp [hwriting])]
  dsimp only
  rw [dif_pos ⟨hn, hfits⟩]
  split
  · split
    · refine ⟨⟨rfl, rfl, rfl, rfl, rfl⟩, ?_⟩
      simp only [writeComplete, if_true, List.length_cons]
      omega
    · obtain ⟨hu, hbuf, hstack⟩ := afterHandleWrite_undecided { c with
        accepted := c.accepted ++ c.outputBuf.peek.take n
        outputBuf := c.outputBuf.retrieve n hfits
        isWriting := false }
      refine ⟨⟨hu.state, hu.loop, hu.inFlight, hu.found, hu.closed⟩, ?_⟩
      rw [hbuf, hstack]
      dsimp only
      omega
  · refine ⟨⟨rfl, rfl, rfl, rfl, rfl⟩, ?_⟩
    dsimp only
    omega

/-! ## The work that is left -/

omit [DecidableEq τ] in
/-- The steps that go on with what was asked for before. A write of `send_in_loop` may take
nothing, and one of `handle_write`, which waits for the socket, takes some bytes. -/
def Drains (c : TcpConnection τ) : Act τ → Prop
  | .push _ | .callbackReturns => True
  | .swap => c.loop.pendingFunctors ≠ []
  | .functor r => r ≠ .error
  | .handleWrite (.count n) => c.isWriting = true ∧ 0 < n
  | _ => False

instance (c : TcpConnection τ) (a : Act τ) : Decidable (Drains c a) := by
  unfold Drains
  split <;> infer_instance

/-- The functor is in the loop, or a thread has decided on it. -/
def Awaits (c : TcpConnection τ) (f : ConnFunctor τ) : Prop :=
  f ∈ c.loop.queued ∨ ∃ t, c.inFlight t = some f

omit [DecidableEq τ] in
theorem Undecided.awaits (h : Undecided c c') {f : ConnFunctor τ} : c'.Awaits f ↔ c.Awaits f := by
  unfold Awaits
  rw [h.loop, h.inFlight]

theorem awaits_push {t : τ} {f g : ConnFunctor τ} (hf : c.inFlight t = some f) :
    Awaits { c.setInFlight t none with loop := c.loop.queueInLoop f } g ↔ c.Awaits g := by
  unfold Awaits setInFlight
  dsimp only
  rw [EventLoop.queued_queueInLoop, List.mem_append, List.mem_singleton]
  constructor
  · rintro ((hin | rfl) | ⟨u, hu⟩)
    · exact Or.inl hin
    · exact Or.inr ⟨t, hf⟩
    · by_cases hut : u = t
      · subst hut
        simp at hu
      · exact Or.inr ⟨u, by rwa [Function.update_of_ne hut] at hu⟩
  · rintro (hin | ⟨u, hu⟩)
    · exact Or.inl (Or.inl hin)
    · by_cases hut : u = t
      · subst hut
        rw [hf] at hu
        exact Or.inl (Or.inr (Option.some.inj hu).symm)
      · exact Or.inr ⟨u, by rw [Function.update_of_ne hut]; exact hu⟩

omit [DecidableEq τ] in
theorem awaits_next {f g : ConnFunctor τ} {l : EventLoop (ConnFunctor τ)}
    (hl : c.loop.next = some (f, l)) : c.Awaits g ↔ g = f ∨ Awaits { c with loop := l } g := by
  unfold Awaits
  rw [EventLoop.queued_next hl, List.mem_cons, or_assoc]

/-- How much a functor may leave to do. -/
def ConnFunctor.weight : ConnFunctor τ → Nat
  | .sendInLoop _ data => 2 * data.length + 2
  | .shutdownInLoop | .handleClose => 1

omit [DecidableEq τ] in
theorem sum_weight_succ (fs : List (ConnFunctor τ)) :
    (fs.map fun f => ConnFunctor.weight f + 1).sum =
      (fs.map ConnFunctor.weight).sum + fs.length := by
  induction fs with
  | nil => rfl
  | cons f fs ih =>
    simp only [List.map_cons, List.sum_cons, List.length_cons, ih]
    omega

/-- How many steps are left at most, when the threads in `ts` are in flight. -/
def left (ts : Finset τ) (c : TcpConnection τ) : Nat :=
  ∑ t ∈ ts, ((c.inFlight t).map fun f => ConnFunctor.weight f + 2).getD 0 +
    (c.loop.pendingFunctors.map fun f => ConnFunctor.weight f + 1).sum +
    (c.loop.functors.map ConnFunctor.weight).sum + c.bufferLeft

omit [DecidableEq τ] in
theorem left_undecided (ts : Finset τ) (h : Undecided c c') :
    left ts c' + c.bufferLeft = left ts c + c'.bufferLeft := by
  unfold left
  rw [h.loop, h.inFlight]
  omega

omit [DecidableEq τ] in
theorem left_next (ts : Finset τ) {f : ConnFunctor τ} {l : EventLoop (ConnFunctor τ)}
    (hl : c.loop.next = some (f, l)) :
    left ts { c with loop := l } + ConnFunctor.weight f = left ts c := by
  unfold left bufferLeft
  dsimp only
  rw [EventLoop.functors_next hl, EventLoop.pendingFunctors_next hl, List.map_cons,
    List.sum_cons]
  omega

/-- What every step of the rest keeps: nobody closes, and nobody asks for more. -/
structure Settling (ts : Finset τ) (start c : TcpConnection τ) : Prop where
  opened : c.closed = false
  unforced : ¬ c.Awaits .handleClose
  threads : ∀ t, t ∉ ts → c.inFlight t = none
  state : c.state = start.state
  found : c.found = start.found

omit [DecidableEq τ] in
theorem Settling.undecided {ts : Finset τ} {start : TcpConnection τ} (h : Settling ts start c)
    (hu : Undecided c c') : Settling ts start c' where
  opened := hu.closed.trans h.opened
  unforced := mt hu.awaits.mp h.unforced
  threads := by rw [hu.inFlight]; exact h.threads
  state := hu.state.trans h.state
  found := hu.found.trans h.found

omit [DecidableEq τ] in
theorem Settling.setLoop {ts : Finset τ} {start : TcpConnection τ} {l : EventLoop (ConnFunctor τ)}
    (h : Settling ts start c) (hl : ∀ f ∈ l.queued, f ∈ c.loop.queued) :
    Settling ts start { c with loop := l } where
  opened := h.opened
  unforced := by
    rintro (hin | hin)
    · exact h.unforced (Or.inl (hl _ hin))
    · exact h.unforced (Or.inr hin)
  threads := h.threads
  state := h.state
  found := h.found

theorem settling_push {ts : Finset τ} {start : TcpConnection τ} {t : τ} {f : ConnFunctor τ}
    (h : Settling ts start c) (hf : c.inFlight t = some f) :
    Settling ts start { c.setInFlight t none with loop := c.loop.queueInLoop f } ∧
      left ts { c.setInFlight t none with loop := c.loop.queueInLoop f } < left ts c := by
  have ht : t ∈ ts := by
    by_contra hno
    rw [h.threads t hno] at hf
    cases hf
  constructor
  · refine ⟨h.opened, mt (awaits_push hf).mp h.unforced, ?_, h.state, h.found⟩
    intro u hu
    have hne : u ≠ t := fun heq => hu (heq ▸ ht)
    exact (Function.update_of_ne hne ..).trans (h.threads u hu)
  · have hsum := sum_update
      (fun o : Option (ConnFunctor τ) => (o.map fun f => ConnFunctor.weight f + 2).getD 0)
      c.inFlight ht none
    rw [hf] at hsum
    simp only [Option.map_some, Option.getD_some, Option.map_none, Option.getD_none] at hsum
    unfold left bufferLeft setInFlight EventLoop.queueInLoop
    simp only [List.map_append, List.sum_append, List.map_cons, List.map_nil, List.sum_cons,
      List.sum_nil]
    omega

/-- Each step of the rest makes it smaller. -/
theorem settling_step {ts : Finset τ} {start : TcpConnection τ} {a : Act τ}
    (h : Settling ts start c) (ha : Drains c a) (hs : step loopThread hasCallback c a = some c') :
    Settling ts start c' ∧ left ts c' < left ts c := by
  cases a with
  | push t =>
    obtain ⟨f, hf, rfl⟩ := Option.map_eq_some_iff.mp hs
    exact settling_push h hf
  | swap =>
    simp only [step] at hs
    split at hs
    · obtain ⟨l, hl, rfl⟩ := Option.map_eq_some_iff.mp hs
      refine ⟨h.setLoop (by simp [EventLoop.queued_swap hl]), ?_⟩
      have hfunctors := EventLoop.functors_of_swap hl
      unfold EventLoop.swap at hl
      split at hl
      · cases hl
        have hone : 1 ≤ c.loop.pendingFunctors.length := List.length_pos_iff.mpr ha
        have hbuffer : bufferLeft { c with loop := ⟨[], c.loop.pendingFunctors⟩ } =
            c.bufferLeft := rfl
        unfold left
        simp only [hfunctors, List.map_nil, List.sum_nil, sum_weight_succ, hbuffer]
        omega
      · cases hl
    · cases hs
  | functor r =>
    simp only [step] at hs
    split at hs
    · obtain ⟨⟨f, l⟩, hl, hrun⟩ := Option.bind_eq_some_iff.mp hs
      have hkeep := h.setLoop (l := l) fun g hg => by
        rw [EventLoop.queued_next hl]
        exact List.mem_cons_of_mem _ hg
      have hnext := left_next ts hl
      cases f with
      | sendInLoop t data =>
        simp only [runFunctor] at hrun
        split at hrun
        · cases hrun
          obtain ⟨hu, hle⟩ := sendInLoop_undecided hasCallback t data ha { c with loop := l }
          have heq := left_undecided ts hu
          have hweight : ConnFunctor.weight (.sendInLoop t data) = 2 * data.length + 2 := rfl
          exact ⟨hkeep.undecided hu, by omega⟩
        · cases hrun
      | shutdownInLoop =>
        cases hrun
        obtain ⟨hu, hbuf, hstack⟩ := shutdownInLoop_undecided { c with loop := l }
        have heq := left_undecided ts hu
        have hweight : ConnFunctor.weight (.shutdownInLoop : ConnFunctor τ) = 1 := rfl
        have hsame : (shutdownInLoop { c with loop := l }).bufferLeft =
            bufferLeft { c with loop := l } := by
          unfold bufferLeft
          rw [hbuf, hstack]
        exact ⟨hkeep.undecided hu, by simp only [runFunctor]; omega⟩
      | handleClose =>
        exact absurd ((awaits_next hl).mpr (Or.inl rfl)) h.unforced
    · cases hs
  | handleWrite r =>
    cases r with
    | count n =>
      simp only [step] at hs
      split at hs
      · rename_i hok
        cases hs
        have hfits : n ≤ c.outputBuf.readable := by simpa [WriteResult.fits] using hok.2.2
        obtain ⟨hu, hless⟩ := handleWrite_undecided hasCallback ha.2 hfits ha.1
        have heq := left_undecided ts hu
        exact ⟨h.undecided hu, by omega⟩
      · cases hs
    | wouldBlock => cases ha
    | error => cases ha
  | callbackReturns =>
    simp only [step] at hs
    split at hs
    · cases hs
    · rename_i rest hstack
      cases hs
      have hu : Undecided c { c with stack := rest } := ⟨rfl, rfl, rfl, rfl, rfl⟩
      have heq := left_undecided ts hu
      have hless : bufferLeft { c with stack := rest } < c.bufferLeft := by
        simp [bufferLeft, hstack]
      exact ⟨h.undecided hu, by omega⟩
    · rename_i rest hstack
      cases hs
      obtain ⟨hu, hbuf, hrest⟩ := afterHandleWrite_undecided { c with stack := rest }
      have hu' : Undecided c (afterHandleWrite { c with stack := rest }) :=
        ⟨hu.state, hu.loop, hu.inFlight, hu.found, hu.closed⟩
      have heq := left_undecided ts hu'
      have hless : (afterHandleWrite { c with stack := rest }).bufferLeft < c.bufferLeft := by
        unfold bufferLeft
        rw [hbuf, hrest, hstack]
        simp
      exact ⟨h.undecided hu', by omega⟩
  | established => cases ha
  | send t arg r => cases ha
  | shutdown t => cases ha
  | forceClose t => cases ha
  | handleClose => cases ha

/-! ## The shutdown -/

/-- A shutdown that was asked for is done, or something is left that does it: its functor, a
`handle_close`, bytes in the buffer, or a `handle_write` that has not returned. -/
def ShutsDown (c : TcpConnection τ) : Prop :=
  c.state = .kDisconnecting → c.halfClosed = true ∨ c.Awaits .shutdownInLoop ∨
    c.Awaits .handleClose ∨ c.isWriting = true ∨ .fromHandleWrite ∈ c.stack

omit [DecidableEq τ] in
theorem shutsDown_of_state (h : c.state ≠ .kDisconnecting) : ShutsDown c :=
  fun hst => absurd hst h

omit [DecidableEq τ] in
theorem shutsDown_shutdownInLoop (c : TcpConnection τ) : ShutsDown c.shutdownInLoop := by
  intro _
  unfold shutdownInLoop
  split
  · rename_i hwriting
    exact Or.inr (Or.inr (Or.inr (Or.inl hwriting)))
  · exact Or.inl rfl

omit [DecidableEq τ] in
theorem shutsDown_afterHandleWrite (c : TcpConnection τ) : ShutsDown c.afterHandleWrite := by
  unfold afterHandleWrite
  split
  · exact shutsDown_shutdownInLoop c
  · exact shutsDown_of_state ‹_›

omit [DecidableEq τ] in
theorem ShutsDown.sendInLoop {t : τ} {data : Bytes} {r : WriteResult} (h : ShutsDown c) :
    ShutsDown (c.sendInLoop hasCallback t data r) := by
  unfold TcpConnection.sendInLoop
  split
  · exact h
  dsimp only
  split
  · cases r with
    | error => exact shutsDown_of_state (by simp [TcpConnection.handleClose])
    | wouldBlock => exact fun _ => Or.inr (Or.inr (Or.inr (Or.inl rfl)))
    | count n =>
      dsimp only
      split
      · unfold writeComplete
        split
        · intro hst
          rcases h hst with hdone | hfunctor | hclose | hwriting | hstack
          · exact Or.inl hdone
          · exact Or.inr (Or.inl hfunctor)
          · exact Or.inr (Or.inr (Or.inl hclose))
          · exact Or.inr (Or.inr (Or.inr (Or.inl hwriting)))
          · exact Or.inr (Or.inr (Or.inr (Or.inr (List.mem_cons_of_mem _ hstack))))
        · exact h
      · exact fun _ => Or.inr (Or.inr (Or.inr (Or.inl rfl)))
  · exact fun _ => Or.inr (Or.inr (Or.inr (Or.inl rfl)))

omit [DecidableEq τ] in
theorem ShutsDown.handleWrite {r : WriteResult} (h : ShutsDown c) :
    ShutsDown (c.handleWrite hasCallback r) := by
  unfold TcpConnection.handleWrite
  split
  · exact h
  · rename_i hwriting
    cases r with
    | count n =>
      dsimp only
      split
      · split
        · split
          · exact fun _ => Or.inr (Or.inr (Or.inr (Or.inr (by simp [writeComplete]))))
          · exact shutsDown_afterHandleWrite _
        · exact fun _ => Or.inr (Or.inr (Or.inr (Or.inl (by simpa using hwriting))))
      · exact h
    | wouldBlock => exact h
    | error => exact h

theorem shutsDown_step {a : Act τ} (h : ShutsDown c)
    (hs : step loopThread hasCallback c a = some c') : ShutsDown c' := by
  cases a with
  | established =>
    simp only [step] at hs
    split at hs
    · cases hs
      exact shutsDown_of_state (by simp)
    · cases hs
  | send t arg r =>
    simp only [step] at hs
    split at hs
    · cases hs
    split at hs
    · cases hs
      exact h
    rename_i hst
    have hconnected : c.state = .kConnected := not_not.mp hst
    split at hs
    · split at hs
      · cases hs
        exact ShutsDown.sendInLoop (shutsDown_of_state (by simp [hconnected]))
      · cases hs
    · cases hs
      exact shutsDown_of_state (by simp [setInFlight, hconnected])
  | shutdown t =>
    simp only [step] at hs
    split at hs
    · cases hs
    split at hs
    · cases hs
      exact h
    split at hs
    · cases hs
      exact shutsDown_shutdownInLoop _
    · cases hs
      exact fun _ => Or.inr (Or.inl (Or.inr ⟨t, by simp [setInFlight]⟩))
  | forceClose t =>
    simp only [step] at hs
    split at hs
    · cases hs
    split at hs
    · cases hs
      exact h
    split at hs
    · cases hs
      exact fun _ => Or.inr (Or.inr (Or.inl (Or.inl (by simp))))
    · cases hs
      exact fun _ => Or.inr (Or.inr (Or.inl (Or.inr ⟨t, by simp [setInFlight]⟩)))
  | push t =>
    obtain ⟨f, hf, rfl⟩ := Option.map_eq_some_iff.mp hs
    intro hst
    rcases h hst with hdone | hfunctor | hclose | hrest
    · exact Or.inl hdone
    · exact Or.inr (Or.inl ((awaits_push hf).mpr hfunctor))
    · exact Or.inr (Or.inr (Or.inl ((awaits_push hf).mpr hclose)))
    · exact Or.inr (Or.inr (Or.inr hrest))
  | swap =>
    simp only [step] at hs
    split at hs
    · obtain ⟨l, hl, rfl⟩ := Option.map_eq_some_iff.mp hs
      intro hst
      have hkeep := h hst
      unfold Awaits at hkeep ⊢
      rw [EventLoop.queued_swap hl]
      exact hkeep
    · cases hs
  | functor r =>
    simp only [step] at hs
    split at hs
    · obtain ⟨⟨f, l⟩, hl, hrun⟩ := Option.bind_eq_some_iff.mp hs
      cases f with
      | sendInLoop t data =>
        simp only [runFunctor] at hrun
        split at hrun
        · cases hrun
          apply ShutsDown.sendInLoop
          intro hst
          rcases h hst with hdone | hfunctor | hclose | hrest
          · exact Or.inl hdone
          · exact Or.inr (Or.inl (((awaits_next hl).mp hfunctor).resolve_left (by simp)))
          · exact Or.inr (Or.inr (Or.inl (((awaits_next hl).mp hclose).resolve_left (by simp))))
          · exact Or.inr (Or.inr (Or.inr hrest))
        · cases hrun
      | shutdownInLoop =>
        cases hrun
        exact shutsDown_shutdownInLoop _
      | handleClose =>
        cases hrun
        exact shutsDown_of_state (by simp [runFunctor, TcpConnection.handleClose])
    · cases hs
  | handleWrite r =>
    simp only [step] at hs
    split at hs
    · cases hs
      exact h.handleWrite
    · cases hs
  | callbackReturns =>
    simp only [step] at hs
    split at hs
    · cases hs
    · rename_i rest hstack
      cases hs
      intro hst
      have hkeep := h hst
      rw [hstack] at hkeep
      simpa [Awaits] using hkeep
    · cases hs
      exact shutsDown_afterHandleWrite _
  | handleClose =>
    simp only [step] at hs
    split at hs
    · cases hs
      exact shutsDown_of_state (by simp [TcpConnection.handleClose])
    · cases hs

omit [DecidableEq τ] in
theorem sendInLoop_inFlight (t : τ) (data : Bytes) (r : WriteResult) (c : TcpConnection τ) :
    (c.sendInLoop hasCallback t data r).inFlight = c.inFlight := by
  by_cases hst : c.state = .kDisconnected
  · unfold sendInLoop
    rw [if_pos hst]
  · exact (sendInLoop_order hasCallback t data r hst).2.inFlight

/-- A step changes what one thread has decided on. -/
theorem inFlight_step {a : Act τ} (hs : step loopThread hasCallback c a = some c') :
    ∃ t, ∀ u, u ≠ t → c'.inFlight u = c.inFlight u := by
  cases a with
  | established =>
    simp only [step] at hs
    split at hs
    · cases hs
      exact ⟨loopThread, fun _ _ => rfl⟩
    · cases hs
  | send t arg r =>
    simp only [step] at hs
    split at hs
    · cases hs
    split at hs
    · cases hs
      exact ⟨t, fun _ _ => rfl⟩
    split at hs
    · split at hs
      · cases hs
        exact ⟨t, fun u _ => congrFun (sendInLoop_inFlight ..) u⟩
      · cases hs
    · cases hs
      exact ⟨t, fun u hu => Function.update_of_ne hu ..⟩
  | shutdown t =>
    simp only [step] at hs
    split at hs
    · cases hs
    split at hs
    · cases hs
      exact ⟨t, fun _ _ => rfl⟩
    split at hs
    · cases hs
      exact ⟨t, fun u _ => congrFun (shutdownInLoop_undecided _).1.inFlight u⟩
    · cases hs
      exact ⟨t, fun u hu => Function.update_of_ne hu ..⟩
  | forceClose t =>
    simp only [step] at hs
    split at hs
    · cases hs
    split at hs
    · cases hs
      exact ⟨t, fun _ _ => rfl⟩
    split at hs
    · cases hs
      exact ⟨t, fun _ _ => rfl⟩
    · cases hs
      exact ⟨t, fun u hu => Function.update_of_ne hu ..⟩
  | push t =>
    obtain ⟨f, -, rfl⟩ := Option.map_eq_some_iff.mp hs
    exact ⟨t, fun u hu => Function.update_of_ne hu ..⟩
  | swap =>
    simp only [step] at hs
    split at hs
    · obtain ⟨l, -, rfl⟩ := Option.map_eq_some_iff.mp hs
      exact ⟨loopThread, fun _ _ => rfl⟩
    · cases hs
  | functor r =>
    simp only [step] at hs
    split at hs
    · obtain ⟨⟨f, l⟩, -, hrun⟩ := Option.bind_eq_some_iff.mp hs
      cases f with
      | sendInLoop t data =>
        simp only [runFunctor] at hrun
        split at hrun
        · cases hrun
          exact ⟨t, fun u _ => congrFun (sendInLoop_inFlight ..) u⟩
        · cases hrun
      | shutdownInLoop =>
        cases hrun
        exact ⟨loopThread, fun u _ => congrFun (shutdownInLoop_undecided _).1.inFlight u⟩
      | handleClose =>
        cases hrun
        exact ⟨loopThread, fun _ _ => rfl⟩
    · cases hs
  | handleWrite r =>
    simp only [step] at hs
    split at hs
    · cases hs
      exact ⟨loopThread, fun u _ => congrFun handleWrite_order.2.2.inFlight u⟩
    · cases hs
  | callbackReturns =>
    simp only [step] at hs
    split at hs
    · cases hs
    · cases hs
      exact ⟨loopThread, fun _ _ => rfl⟩
    · cases hs
      exact ⟨loopThread, fun u _ => congrFun (afterHandleWrite_undecided _).1.inFlight u⟩
  | handleClose =>
    simp only [step] at hs
    split at hs
    · cases hs
      exact ⟨loopThread, fun _ _ => rfl⟩
    · cases hs

/-- Only finitely many threads have decided on something. -/
theorem threads_reach (h : (machine loopThread hasCallback).Reach c) :
    ∃ ts : Finset τ, ∀ t, t ∉ ts → c.inFlight t = none := by
  refine h.invariant (I := fun c => ∃ ts : Finset τ, ∀ t, t ∉ ts → c.inFlight t = none) ?_ ?_
  · exact ⟨∅, fun _ _ => rfl⟩
  · rintro c a c' _ ⟨ts, hts⟩ hs
    obtain ⟨t, ht⟩ := inFlight_step hs
    refine ⟨insert t ts, ?_⟩
    intro u hu
    rw [Finset.mem_insert, not_or] at hu
    rw [ht u hu.1]
    exact hts u hu.2

/-! ## The law -/

/-- Nothing of the rest can be done any more: everything is written, and what was asked for is
done. -/
theorem settled_of_rest {ts : Finset τ} {start : TcpConnection τ}
    (h : (machine loopThread hasCallback).Reach c) (hsettling : Settling ts start c)
    (hrest : (machine loopThread hasCallback).AtRest Drains c) :
    c.accepted = c.executed.flatMap Prod.snd ∧
      (∀ t, onThread t c.executed = onThread t start.found) ∧
      (start.state = .kDisconnecting → c.halfClosed = true) := by
  have hopen : Open loopThread c :=
    h.invariant (I := Open loopThread) (fun _ => ⟨whole_new, ordered_new⟩)
      fun _ _ _ _ hi hs => open_step hi hs
  obtain ⟨hwhole, hordered⟩ := hopen hsettling.opened
  have hstack : c.stack = [] := by
    cases hst : c.stack with
    | nil => rfl
    | cons after rest =>
      have hno := hrest .callbackReturns trivial
      cases after <;> simp [machine, step, hst] at hno
  have hfunctors : c.loop.functors = [] := by
    cases hfs : c.loop.functors with
    | nil => rfl
    | cons f fs =>
      have hno := hrest (.functor (.count 0)) (by simp [Drains])
      have hl : c.loop.next = some (f, { c.loop with functors := fs }) := by
        simp [EventLoop.next, hfs]
      cases f <;> simp [machine, step, hstack, hl, WriteResult.fits] at hno
  have hpending : c.loop.pendingFunctors = [] := by
    by_contra hne
    have hno := hrest .swap hne
    simp [machine, step, hstack, EventLoop.swap, hfunctors] at hno
  have hinFlight : ∀ t, c.inFlight t = none := by
    intro t
    have hno := hrest (.push t) trivial
    simpa [machine, step] using hno
  have hidle : c.isWriting = false := by
    by_contra hwriting
    rw [Bool.not_eq_false] at hwriting
    have hno := hrest (.handleWrite (.count 1)) ⟨hwriting, Nat.one_pos⟩
    have hpos := hwhole.coupled.mp hwriting
    simp [machine, step, hstack, hfunctors, WriteResult.fits] at hno
    omega
  have hqueued : c.loop.queued = [] := by simp [EventLoop.queued, hfunctors, hpending]
  refine ⟨?_, ?_, ?_⟩
  · have hempty : c.outputBuf.peek = [] := by
      rw [← List.length_eq_zero_iff, Buffer.peek_length]
      have hzero := mt hwhole.coupled.mpr (by simp [hidle])
      omega
    simpa [hempty] using hwhole.bytes
  · intro t
    rw [← hsettling.found, ← hordered.order t, hqueued, hinFlight t]
    simp [queuedBy]
  · intro hst
    have hdown : ShutsDown c :=
      h.invariant (I := ShutsDown) (shutsDown_of_state (by simp [machine, new]))
        fun _ _ _ _ hi hs => shutsDown_step hi hs
    rcases hdown (hsettling.state.trans hst) with hdone | hfunctor | hclose | hwriting | hin
    · exact hdone
    · simp [Awaits, hqueued, hinFlight] at hfunctor
    · exact absurd hclose hsettling.unforced
    · rw [hidle] at hwriting
      cases hwriting
    · rw [hstack] at hin
      cases hin

end rpc.net.TcpConnection
