-- What a graceful shutdown leaves behind. `SHUT_WR` waits for the output buffer,
-- but not for the functor queue: a send that another thread has already checked
-- may still be on its way to the loop when the loop thread shuts down. If none
-- is, every byte has been accepted, and nothing is written any more.
import Mathlib.Data.List.Count
import RpcFramework.ConnectionThreads

namespace rpc.net

open runs

variable {τ : Type}

/-- The send that the functor makes. -/
def ConnFunctor.sent : ConnFunctor τ → Option (τ × Bytes)
  | .sendInLoop t data => some (t, data)
  | .shutdownInLoop | .handleClose => none

/-- The sends among the functors. -/
def sends (fs : List (ConnFunctor τ)) : List (τ × Bytes) := fs.filterMap ConnFunctor.sent

@[simp]
theorem sends_nil : sends ([] : List (ConnFunctor τ)) = [] := rfl

@[simp]
theorem sends_cons (f : ConnFunctor τ) (fs : List (ConnFunctor τ)) :
    sends (f :: fs) = f.sent.toList ++ sends fs := by
  cases hf : f.sent <;> simp [sends, hf]

@[simp]
theorem sends_append (fs gs : List (ConnFunctor τ)) : sends (fs ++ gs) = sends fs ++ sends gs := by
  simp [sends]

namespace ConnThreads

variable [DecidableEq τ] {loopThread : τ} {s s' : ConnThreads τ} {a : Act τ}

/-! ## Every send is in one place -/

/-- The functor waits: in the queue, in the hands of its thread, or in `hand`. -/
def Outstanding (s : ConnThreads τ) (hand : List (ConnFunctor τ)) (f : ConnFunctor τ) : Prop :=
  f ∈ hand ∨ f ∈ s.conn.loop.queued ∨ ∃ t, s.conn.inFlight t = some f

/-- As long as nothing breaks the connection: the stream is whole, a send that was found was
executed or waits, a functor that waits is a send or the end of `shutdown`, and a thread inside a
test holds none. `hand` is what the loop thread is about to run. -/
structure Steady (s : ConnThreads τ) (hand : List (ConnFunctor τ)) : Prop where
  whole : s.conn.Whole
  opened : s.conn.closed = false
  places : ∀ p, s.conn.executed.count p + (sends hand).count p +
    (sends s.conn.loop.queued).count p + (sends (s.conn.inFlight p.1).toList).count p =
      s.conn.found.count p
  own : ∀ t u data, s.conn.inFlight t = some (.sendInLoop u data) → u = t
  idle : ∀ t, s.pc t ≠ .idle → s.conn.inFlight t = none
  orders : ∀ f, Outstanding s hand f → f ≠ .handleClose ∧
    (f = .shutdownInLoop → s.conn.state = .kDisconnecting)

theorem steady_new : Steady (new : ConnThreads τ) [] where
  whole := TcpConnection.whole_new
  opened := rfl
  places := by simp [new, TcpConnection.new]
  own := by simp [new, TcpConnection.new]
  idle := by simp [new]
  orders := by simp [Outstanding, new, TcpConnection.new]

/-- A functor of thread `t` makes no send of another thread. -/
theorem count_sent_other {f : ConnFunctor τ} {t : τ} {p : τ × Bytes}
    (hown : ∀ u data, f = .sendInLoop u data → u = t) (hp : p.1 ≠ t) :
    f.sent.toList.count p = 0 := by
  cases f with
  | sendInLoop u data =>
    have hne : (u, data) ≠ p := fun he => hp (he ▸ hown u data rfl)
    simp [ConnFunctor.sent, hne]
  | shutdownInLoop => rfl
  | handleClose => rfl

/-- A step that changes nothing but the stream. -/
theorem Steady.same {c : TcpConnection τ} (h : Steady s []) (hw : c.Whole)
    (hclosed : c.closed = s.conn.closed) (hst : c.state = s.conn.state)
    (hex : c.executed = s.conn.executed) (hsame : TcpConnection.SameOrder s.conn c) :
    Steady { s with conn := c } [] := by
  obtain ⟨hloop, hfl, hfound⟩ := hsame
  refine ⟨hw, hclosed.trans h.opened, ?_, ?_, ?_, ?_⟩
  · simpa [hex, hloop, hfl, hfound] using h.places
  · simpa [hfl] using h.own
  · simpa [hfl] using h.idle
  · simpa [Outstanding, hloop, hfl, hst] using h.orders

/-- A thread moves inside a call, and holds nothing. -/
theorem Steady.setPc (h : Steady s []) {t : τ} (hfl : s.conn.inFlight t = none) (pc : ConnPc) :
    Steady (s.setPc t pc) [] := by
  refine ⟨h.whole, h.opened, h.places, h.own, ?_, h.orders⟩
  intro u hu
  by_cases hut : u = t
  · rw [hut]
    exact hfl
  · simp only [ConnThreads.setPc, Function.update_of_ne hut] at hu
    exact h.idle u hu

/-- The functor that a thread holds leaves its hands. -/
theorem Steady.take (h : Steady s []) {t : τ} {f : ConnFunctor τ}
    (hf : s.conn.inFlight t = some f) : Steady (s.setInFlight t none) [f] := by
  refine ⟨⟨h.whole.opened, h.whole.bytes, h.whole.coupled⟩, h.opened, ?_, ?_, ?_, ?_⟩
  · intro p
    have hp := h.places p
    simp only [ConnThreads.setInFlight, TcpConnection.setInFlight]
    by_cases hpt : p.1 = t
    · simp only [hpt, hf, Option.toList_some, sends_cons, sends_nil, List.append_nil,
        Function.update_self, Option.toList_none, List.count_nil] at hp ⊢
      omega
    · have hother := count_sent_other (fun u data he => h.own t u data (he ▸ hf)) hpt
      simp only [sends_cons, sends_nil, List.append_nil, List.count_nil,
        Function.update_of_ne hpt, hother] at hp ⊢
      exact hp
  · intro u v data hv
    simp only [setInFlight_inFlight, Function.update_apply] at hv
    split at hv
    · cases hv
    · exact h.own u v data hv
  · intro u hu
    simp only [setInFlight_inFlight, Function.update_apply]
    split
    · rfl
    · exact h.idle u hu
  · intro g hg
    apply h.orders
    rcases hg with hg | hg | ⟨u, hu⟩
    · exact Or.inr (Or.inr ⟨t, by rw [hf, List.mem_singleton.mp hg]⟩)
    · exact Or.inr (Or.inl hg)
    · simp only [setInFlight_inFlight, Function.update_apply] at hu
      split at hu
      · cases hu
      · exact Or.inr (Or.inr ⟨u, hu⟩)

/-- The functor at the front leaves the queue. -/
theorem Steady.pop (h : Steady s []) {f : ConnFunctor τ} {l : EventLoop (ConnFunctor τ)}
    (hl : s.conn.loop.next = some (f, l)) : Steady (s.setLoop l) [f] := by
  have hq := EventLoop.queued_next hl
  refine ⟨⟨h.whole.opened, h.whole.bytes, h.whole.coupled⟩, h.opened, ?_, h.own, h.idle, ?_⟩
  · intro p
    have hp := h.places p
    rw [hq] at hp
    simp only [sends_cons, sends_nil, List.append_nil, List.count_append, List.count_nil,
      setLoop] at hp ⊢
    omega
  · intro g hg
    apply h.orders
    rcases hg with hg | hg | hg
    · exact Or.inr (Or.inl (by rw [hq, List.mem_singleton.mp hg]; exact List.mem_cons_self))
    · exact Or.inr (Or.inl (by rw [hq]; exact List.mem_cons_of_mem _ hg))
    · exact Or.inr (Or.inr hg)

/-- A thread that is not the loop thread queues its functor. -/
theorem Steady.queue {f : ConnFunctor τ} (h : Steady s [f]) :
    Steady (s.setLoop (s.conn.loop.queueInLoop f)) [] := by
  refine ⟨⟨h.whole.opened, h.whole.bytes, h.whole.coupled⟩, h.opened, ?_, h.own, h.idle, ?_⟩
  · intro p
    have hp := h.places p
    simp only [setLoop, EventLoop.queued_queueInLoop, sends_append, sends_cons, sends_nil,
      List.append_nil, List.count_append, List.count_nil] at hp ⊢
    omega
  · intro g hg
    apply h.orders
    rcases hg with hg | hg | hg
    · cases hg
    · simp only [setLoop, EventLoop.queued_queueInLoop, List.mem_append] at hg
      rcases hg with hg | hg
      · exact Or.inr (Or.inl hg)
      · exact Or.inl hg
    · exact Or.inr (Or.inr hg)

/-- A thread that holds nothing takes a functor: a send that it has just found, or the end of
its `shutdown`. -/
theorem Steady.hold (h : Steady s []) {t : τ} {f : ConnFunctor τ}
    (hnone : s.conn.inFlight t = none) (hf : f ≠ .handleClose)
    (hown : ∀ u data, f = .sendInLoop u data → u = t) (hw : s'.conn.Whole)
    (hclosed : s'.conn.closed = s.conn.closed) (hex : s'.conn.executed = s.conn.executed)
    (hloop : s'.conn.loop = s.conn.loop)
    (hfl : s'.conn.inFlight = Function.update s.conn.inFlight t (some f))
    (hfound : s'.conn.found = s.conn.found ++ f.sent.toList)
    (hpc : ∀ u, s'.pc u ≠ .idle → s.pc u ≠ .idle ∧ u ≠ t)
    (hst : s'.conn.state = .kDisconnecting ∨
      s'.conn.state = s.conn.state ∧ f ≠ .shutdownInLoop) : Steady s' [] := by
  refine ⟨hw, hclosed.trans h.opened, ?_, ?_, ?_, ?_⟩
  · intro p
    have hp := h.places p
    rw [hex, hloop, hfl, hfound, List.count_append]
    by_cases hpt : p.1 = t
    · simp only [hpt, hnone, Option.toList_none, Option.toList_some, sends_nil, List.count_nil,
        Function.update_self, sends_cons, List.append_nil] at hp ⊢
      omega
    · rw [Function.update_of_ne hpt, count_sent_other hown hpt]
      exact hp
  · intro u v data hv
    rw [hfl, Function.update_apply] at hv
    split at hv
    · rename_i hut
      rw [hut]
      exact hown v data (Option.some.inj hv)
    · exact h.own u v data hv
  · intro u hu
    obtain ⟨hbusy, hut⟩ := hpc u hu
    rw [hfl, Function.update_of_ne hut]
    exact h.idle u hbusy
  · intro g hg
    have hold : g = f ∨ Outstanding s [] g := by
      rcases hg with hg | hg | ⟨u, hu⟩
      · cases hg
      · exact Or.inr (Or.inr (Or.inl (hloop ▸ hg)))
      · rw [hfl, Function.update_apply] at hu
        split at hu
        · exact Or.inl (Option.some.inj hu).symm
        · exact Or.inr (Or.inr (Or.inr ⟨u, hu⟩))
    rcases hold with rfl | hold
    · exact ⟨hf, fun hg => hst.elim id fun hother => absurd hg hother.2⟩
    · obtain ⟨hclose, hdisc⟩ := h.orders g hold
      refine ⟨hclose, fun hg => hst.elim id fun hother => ?_⟩
      rw [hother.1]
      exact hdisc hg

/-- The loop thread runs the functor in its hand, and no `::write` fails. -/
theorem Steady.run {f : ConnFunctor τ} {r : WriteResult} (h : Steady s [f]) (hr : r ≠ .error)
    (hfits : f.answered r = true) : Steady (s.runFunctor loopThread r f) [] := by
  have horders : ∀ g, Outstanding s [] g → Outstanding s [f] g := by
    rintro g (hg | hg)
    · cases hg
    · exact Or.inr hg
  cases f with
  | sendInLoop t data =>
    have hfails : s.conn.writeFails r (.sendInLoop t data) = false := by
      simp [TcpConnection.writeFails, hr]
    obtain ⟨hst, -, hclosed⟩ := keeps_sendInLoop hfails
    obtain ⟨hex, hloop, hfl, hfound⟩ :=
      TcpConnection.sendInLoop_order true t data r h.whole.opened
    have hrun : s.runFunctor loopThread r (.sendInLoop t data) =
        { s with conn := s.conn.sendInLoop true t data r } := by
      simp [runFunctor, hfails, TcpConnection.runFunctor]
    rw [hrun]
    refine ⟨TcpConnection.whole_sendInLoop hfits h.whole (hclosed.trans h.opened),
      hclosed.trans h.opened, ?_, ?_, ?_, ?_⟩
    · intro p
      have hp := h.places p
      simp only [hex, hloop, hfl, hfound, List.count_append, sends_cons, ConnFunctor.sent,
        Option.toList_some, sends_nil, List.append_nil, List.count_nil] at hp ⊢
      omega
    · simpa [hfl] using h.own
    · simpa [hfl] using h.idle
    · intro g hg
      have hout : Outstanding s [] g := by simpa [Outstanding, hloop, hfl] using hg
      simpa [hst] using h.orders g (horders g hout)
  | shutdownInLoop =>
    obtain ⟨hex, hclosed, hsame⟩ := TcpConnection.shutdownInLoop_order (c := s.conn)
    have hs : Steady s [] :=
      ⟨h.whole, h.opened, by simpa [ConnFunctor.sent] using h.places, h.own, h.idle,
        fun g hg => h.orders g (horders g hg)⟩
    exact hs.same (TcpConnection.whole_shutdownInLoop h.whole) hclosed
      (state_shutdownInLoop s.conn) hex hsame
  | handleClose => exact absurd rfl (h.orders _ (Or.inl (List.mem_singleton_self _))).1

/-! ## Runs that nothing breaks -/

/-- No `::write` of a send fails, and no action belongs to a close. -/
def Unbroken : Act τ → Prop
  | .runInLoop _ r | .functor r => r ≠ .error
  | .forceClose _ | .forceRetest _ | .forceStore _ | .handleClose | .destroyed
  | .destroyedStore => False
  | .established | .send _ _ | .shutdown _ | .shutdownStore _ | .swap | .handleWrite _
  | .callbackReturns => True

theorem steady_move (h : Steady s []) (ha : Unbroken a) (hm : Move loopThread s a s') :
    Steady s' [] := by
  cases hm with
  | sendRefused t arg _ => exact h
  | shutdownRefused t _ => exact h
  | established hst =>
    refine ⟨⟨by simp [setState], h.whole.bytes, h.whole.coupled⟩, h.opened, h.places, h.own,
      h.idle, ?_⟩
    intro f hf
    obtain ⟨hclose, hdisc⟩ := h.orders f hf
    refine ⟨hclose, fun he => ?_⟩
    rw [hdisc he] at hst
    cases hst
  | pass t arg hfree hst =>
    refine h.hold (inFlight_of_free hfree) (f := .sendInLoop t arg.data) (by simp)
      (fun u data he => by cases he; rfl) ⟨h.whole.opened, h.whole.bytes, h.whole.coupled⟩
      rfl rfl rfl rfl rfl ?_ (Or.inr ⟨rfl, by simp⟩)
    intro u hu
    refine ⟨hu, ?_⟩
    rintro rfl
    exact hu (pc_of_free (s := s) hfree)
  | test t hfree _ => exact h.setPc (inFlight_of_free hfree) _
  | shutdownStore t ht =>
    refine h.hold (h.idle t (by simp [ht])) (f := .shutdownInLoop) (by simp) (by simp)
      ⟨by simp, h.whole.bytes, h.whole.coupled⟩ rfl rfl rfl rfl (by simp [ConnFunctor.sent]) ?_
      (Or.inl rfl)
    intro u hu
    by_cases hut : u = t
    · simp [hut] at hu
    · simp only [store_pc, Function.update_of_ne hut] at hu
      exact ⟨hu, hut⟩
  | queue t r f hf _ => exact (h.take hf).queue
  | inline r f hf _ hfits => exact (h.take hf).run ha hfits
  | swap l hl =>
    have hq := EventLoop.queued_swap hl
    exact ⟨⟨h.whole.opened, h.whole.bytes, h.whole.coupled⟩, h.opened,
      by simpa [setLoop, hq] using h.places, h.own, h.idle,
      by simpa [setLoop, Outstanding, hq] using h.orders⟩
  | functor r f l hl hfits => exact (h.pop hl).run ha hfits
  | handleWrite r _ =>
    obtain ⟨hex, hclosed, hsame⟩ := TcpConnection.handleWrite_order (c := s.conn) (r := r)
    exact h.same (TcpConnection.whole_handleWrite h.whole) hclosed (keeps_handleWrite _ r).1 hex
      hsame
  | afterSend rest _ =>
    exact h.same ⟨h.whole.opened, h.whole.bytes, h.whole.coupled⟩ rfl rfl rfl ⟨rfl, rfl, rfl⟩
  | afterHandleWrite rest _ =>
    have hrest := h.same (c := { s.conn with stack := rest })
      ⟨h.whole.opened, h.whole.bytes, h.whole.coupled⟩ rfl rfl rfl ⟨rfl, rfl, rfl⟩
    obtain ⟨hex, hclosed, hsame⟩ :=
      TcpConnection.afterHandleWrite_order (c := { s.conn with stack := rest })
    exact hrest.same (TcpConnection.whole_afterHandleWrite hrest.whole) hclosed
      (state_afterHandleWrite _) hex hsame
  | _ => exact absurd ha id

theorem steady_reach {ok : ConnThreads τ → Act τ → Prop} (hok : ∀ s a, ok s a → Unbroken a)
    (h : (machine loopThread).ReachUnder ok s) : Steady s [] := by
  refine h.invariant (I := fun s => Steady s []) steady_new ?_
  intro s a s' _ hi ha hs
  exact steady_move hi (hok s a ha) (move_of_step hs)

/-! ## The law -/

/-- The action issues `SHUT_WR`: `shutdown_in_loop` finds the channel not writing, at once on the
loop thread, or from the queue, or at the end of `handle_write`. -/
def issues (loopThread : τ) (s : ConnThreads τ) : Act τ → Bool
  | .runInLoop t _ =>
    t = loopThread && s.conn.inFlight t = some .shutdownInLoop && !s.conn.isWriting
  | .functor _ => s.conn.loop.functors.head? = some .shutdownInLoop && !s.conn.isWriting
  | .callbackReturns => s.conn.stack.head? = some .fromHandleWrite &&
      s.conn.state = .kDisconnecting && !s.conn.isWriting
  | _ => false

/-- No send that has passed its check waits, in the hands of a thread or in the queue. -/
def Drained (s : ConnThreads τ) : Prop :=
  sends s.conn.loop.queued = [] ∧ ∀ t, sends (s.conn.inFlight t).toList = []

/-- Nothing breaks the connection, and no send waits when `SHUT_WR` is issued. -/
def Graceful (loopThread : τ) (s : ConnThreads τ) (a : Act τ) : Prop :=
  Unbroken a ∧ (s.issues loopThread a = true → s.Drained)

/-- The action calls `::write`. -/
def attempts (loopThread : τ) (s : ConnThreads τ) : Act τ → Bool
  | .runInLoop t _ => t = loopThread && (sends (s.conn.inFlight t).toList ≠ []) && s.conn.callsWrite
  | .functor _ => (sends s.conn.loop.functors.head?.toList ≠ []) && s.conn.callsWrite
  | .handleWrite _ => s.conn.isWriting
  | _ => false

/-- After `SHUT_WR` the channel does not write, no send waits, and none passes its check. -/
def Quiet (s : ConnThreads τ) : Prop :=
  s.conn.halfClosed = true →
    s.conn.isWriting = false ∧ s.conn.state = .kDisconnecting ∧ s.Drained

omit [DecidableEq τ] in
/-- `shutdown_in_loop` of a connection that is disconnecting. -/
theorem quiet_shutdownInLoop (hq : Quiet s) (hst : s.conn.state = .kDisconnecting)
    (hdrained : s.conn.isWriting = false → s.Drained) :
    Quiet { s with conn := s.conn.shutdownInLoop } := by
  unfold TcpConnection.shutdownInLoop
  split
  · exact hq
  · rename_i hw
    intro _
    have hidle : s.conn.isWriting = false := by simpa using hw
    exact ⟨hidle, hst, hdrained hidle⟩

omit [DecidableEq τ] in
/-- What is left of a queue without sends has none. -/
theorem Drained.pop (h : s.Drained) {f : ConnFunctor τ} {l : EventLoop (ConnFunctor τ)}
    (hl : s.conn.loop.next = some (f, l)) : f.sent = none ∧ (s.setLoop l).Drained := by
  have hq := EventLoop.queued_next hl
  have hnil := h.1
  rw [hq, sends_cons, List.append_eq_nil_iff] at hnil
  exact ⟨by simpa using hnil.1, hnil.2, h.2⟩

theorem Drained.take (h : s.Drained) {t : τ} {f : ConnFunctor τ}
    (hf : s.conn.inFlight t = some f) : f.sent = none ∧ (s.setInFlight t none).Drained := by
  refine ⟨?_, h.1, ?_⟩
  · have hnil := h.2 t
    rw [hf] at hnil
    simpa using hnil
  · intro u
    simp only [setInFlight_inFlight, Function.update_apply]
    split
    · rfl
    · exact h.2 u

/-- The loop thread runs a functor, out of its hands or out of the queue. -/
theorem quiet_run {f : ConnFunctor τ} {r : WriteResult} (h : Steady s [f]) (hr : r ≠ .error)
    (hq : s.conn.halfClosed = true →
      s.conn.isWriting = false ∧ s.conn.state = .kDisconnecting ∧ f.sent = none ∧ s.Drained)
    (hdrained : f = .shutdownInLoop → s.conn.isWriting = false → s.Drained) :
    Quiet (s.runFunctor loopThread r f) := by
  have hquiet : Quiet s := fun hhalf => ⟨(hq hhalf).1, (hq hhalf).2.1, (hq hhalf).2.2.2⟩
  obtain ⟨hclose, hdisc⟩ := h.orders f (Or.inl (List.mem_singleton_self f))
  cases f with
  | sendInLoop t data =>
    have hfails : s.conn.writeFails r (.sendInLoop t data) = false := by
      simp [TcpConnection.writeFails, hr]
    intro hhalf
    have hbefore : s.conn.halfClosed = true := by
      rw [← (keeps_sendInLoop hfails).2.1]
      simpa [runFunctor, hfails, TcpConnection.runFunctor] using hhalf
    cases (hq hbefore).2.2.1
  | shutdownInLoop => exact quiet_shutdownInLoop hquiet (hdisc rfl) (hdrained rfl)
  | handleClose => exact absurd rfl hclose

theorem quiet_move (h : Steady s []) (hq : Quiet s) (ha : Graceful loopThread s a)
    (hm : Move loopThread s a s') : Quiet s' := by
  obtain ⟨hunbroken, hdrained⟩ := ha
  -- before `SHUT_WR` only a step that issues it matters, and after it no step finds a send
  cases hm with
  | sendRefused t arg _ => exact hq
  | shutdownRefused t _ => exact hq
  | established hst =>
    intro hhalf
    have := (hq hhalf).2.1
    rw [hst] at this
    cases this
  | pass t arg _ hst =>
    intro hhalf
    have := (hq hhalf).2.1
    rw [hst] at this
    cases this
  | test t _ _ => exact hq
  | shutdownStore t ht =>
    intro hhalf
    obtain ⟨hw, -, hd⟩ := hq hhalf
    refine ⟨hw, rfl, hd.1, ?_⟩
    intro u
    simp only [store_inFlight, Function.update_apply]
    split
    · rfl
    · exact hd.2 u
  | queue t r f hf _ =>
    intro hhalf
    obtain ⟨hw, hst, hd⟩ := hq hhalf
    obtain ⟨hsent, hd'⟩ := hd.take hf
    refine ⟨hw, hst, ?_, hd'.2⟩
    simp [setLoop, hd.1, hsent]
  | inline r f hf _ _ =>
    refine quiet_run (h.take hf) hunbroken ?_ ?_
    · intro hhalf
      obtain ⟨hw, hst, hd⟩ := hq hhalf
      exact ⟨hw, hst, hd.take hf⟩
    · rintro rfl hw
      have hidle : s.conn.isWriting = false := hw
      exact ((hdrained (by simp [issues, hf, hidle])).take hf).2
  | swap l hl =>
    intro hhalf
    obtain ⟨hw, hst, hd⟩ := hq hhalf
    exact ⟨hw, hst, by simpa [setLoop, EventLoop.queued_swap hl] using hd.1, hd.2⟩
  | functor r f l hl _ =>
    refine quiet_run (h.pop hl) hunbroken ?_ ?_
    · intro hhalf
      obtain ⟨hw, hst, hd⟩ := hq hhalf
      exact ⟨hw, hst, hd.pop hl⟩
    · rintro rfl hw
      have hidle : s.conn.isWriting = false := hw
      have hissues : s.issues loopThread (.functor r) = true := by
        simp [issues, EventLoop.head?_next hl, hidle]
      exact ((hdrained hissues).pop hl).2
  | handleWrite r _ =>
    intro hhalf
    obtain ⟨hw, hst, hd⟩ := hq ((keeps_handleWrite s.conn r).2.symm.trans hhalf)
    have hsame : s.conn.handleWrite true r = s.conn := by
      unfold TcpConnection.handleWrite
      simp [hw]
    rw [hsame]
    exact ⟨hw, hst, hd⟩
  | afterSend rest _ => exact hq
  | afterHandleWrite rest hstack =>
    unfold TcpConnection.afterHandleWrite
    split
    · rename_i hst
      have hstate : s.conn.state = .kDisconnecting := hst
      have hrest : Quiet { s with conn := { s.conn with stack := rest } } := hq
      refine quiet_shutdownInLoop hrest hst ?_
      intro hw
      have hidle : s.conn.isWriting = false := hw
      exact hdrained (by simp [issues, hstack, hstate, hidle])
    · exact hq
  | _ => exact absurd hunbroken id

theorem quiet_reach (h : (machine loopThread).ReachUnder (Graceful loopThread) s) : Quiet s := by
  refine h.invariant (I := Quiet) ?_ ?_
  · intro hhalf
    cases hhalf
  · intro s a s' hr hi ha hs
    exact quiet_move (steady_reach (fun _ _ hok => hok.1) hr) hi ha (move_of_step hs)

/-- Over every interleaving of sends and of `shutdown` with the loop thread, and with any counts
that `::write` gives: once `SHUT_WR` was issued, the socket has accepted every byte of every send
that passed its check, and no action calls `::write`, when no such send is still on its way to
`send_in_loop` at the moment of `SHUT_WR`. -/
theorem a_graceful_shutdown_flushes_everything
    (h : (machine loopThread).ReachUnder (Graceful loopThread) s)
    (hhalf : s.conn.halfClosed = true) :
    s.conn.accepted = s.conn.executed.flatMap Prod.snd ∧ s.conn.executed.Perm s.conn.found ∧
      ∀ a, s.attempts loopThread a = false := by
  have hsteady := steady_reach (fun _ _ hok => hok.1) h
  obtain ⟨hw, hst, hqueue, hhands⟩ := quiet_reach h hhalf
  refine ⟨?_, ?_, ?_⟩
  · have hempty : s.conn.outputBuf.peek = [] := by
      rw [← List.length_eq_zero_iff, Buffer.peek_length]
      by_contra hne
      rw [hsteady.whole.coupled.mpr (Nat.pos_of_ne_zero hne)] at hw
      cases hw
    rw [← hsteady.whole.bytes, hempty, List.append_nil]
  · rw [List.perm_iff_count]
    intro p
    have hp := hsteady.places p
    rw [hqueue, hhands p.1] at hp
    simpa using hp
  · intro a
    cases a with
    | runInLoop t r => simp [attempts, hhands t]
    | functor r =>
      have hfront : sends s.conn.loop.functors.head?.toList = [] := by
        cases hf : s.conn.loop.functors with
        | nil => rfl
        | cons f fs =>
          simp only [EventLoop.queued, hf, List.cons_append, sends_cons,
            List.append_eq_nil_iff] at hqueue
          simp [hqueue.1]
      simp [attempts, hfront]
    | handleWrite r => exact hw
    | _ => rfl

instance (a : Act τ) : Decidable (Unbroken a) :=
  match a with
  | .runInLoop _ r | .functor r => inferInstanceAs (Decidable (r ≠ .error))
  | .forceClose _ | .forceRetest _ | .forceStore _ | .handleClose | .destroyed
  | .destroyedStore => isFalse id
  | .established | .send _ _ | .shutdown _ | .shutdownStore _ | .swap | .handleWrite _
  | .callbackReturns => isTrue trivial

instance [Fintype τ] (s : ConnThreads τ) : Decidable s.Drained :=
  inferInstanceAs (Decidable (_ ∧ _))

instance [Fintype τ] (loopThread : τ) (s : ConnThreads τ) (a : Act τ) :
    Decidable (Graceful loopThread s a) :=
  inferInstanceAs (Decidable (_ ∧ _))

/-- A thread sends three bytes of which the socket takes two, and shuts the connection down: the
buffer is emptied first. -/
theorem a_send_before_the_shutdown_is_flushed :
    ∃ s, (machine true : Machine (ConnThreads Bool) (Act Bool)).ReachUnder (Graceful true) s ∧
      s.conn.halfClosed = true ∧ s.conn.found = [(false, [1, 2, 3])] ∧
      s.conn.executed.Perm s.conn.found ∧
      s.conn.accepted = s.conn.executed.flatMap Prod.snd := by
  obtain ⟨s, h, hhalf, hfound⟩ :
      ∃ s, (machine true : Machine (ConnThreads Bool) (Act Bool)).ReachUnder (Graceful true) s ∧
        s.conn.halfClosed = true ∧ s.conn.found = [(false, [1, 2, 3])] :=
    Machine.ReachUnder.of_run [.established, .send false (.string [1, 2, 3]),
      .runInLoop false .wouldBlock, .shutdown false, .shutdownStore false,
      .runInLoop false .wouldBlock, .swap, .functor (.count 2), .functor .wouldBlock,
      .handleWrite (.count 1), .callbackReturns] (by decide +kernel)
  obtain ⟨hbytes, hperm, -⟩ := a_graceful_shutdown_flushes_everything h hhalf
  exact ⟨s, h, hhalf, hfound, hperm, hbytes⟩

/-- A send of another thread has passed its check and is in the queue when the loop thread calls
`shutdown`. `SHUT_WR` is issued at once: its byte was not accepted, and `::write` comes after. -/
theorem a_queued_send_is_overtaken_by_the_shutdown :
    ∃ s s', (machine true : Machine (ConnThreads Bool) (Act Bool)).ReachUnder
        (fun _ a => Unbroken a) s ∧
      (machine true).LaterUnder (fun _ a => Unbroken a) s s' ∧
      s.conn.state = .kConnected ∧ s.conn.found = [(false, [1])] ∧
      s'.conn.halfClosed = true ∧ s'.conn.accepted = [] ∧
      ((machine true).step s' (.functor (.count 1))).isSome = true ∧
      s'.attempts true (.functor (.count 1)) = true := by
  obtain ⟨s, s', h, hl, ⟨hst, hfound⟩, hend⟩ :
      ∃ s s', (machine true : Machine (ConnThreads Bool) (Act Bool)).ReachUnder
          (fun _ a => Unbroken a) s ∧
        (machine true).LaterUnder (fun _ a => Unbroken a) s s' ∧
        (s.conn.state = .kConnected ∧ s.conn.found = [(false, [1])]) ∧
        s'.conn.halfClosed = true ∧ s'.conn.accepted = [] ∧
        ((machine true).step s' (.functor (.count 1))).isSome = true ∧
        s'.attempts true (.functor (.count 1)) = true :=
    Machine.ReachUnder.of_runs
      [.established, .send false (.string [1]), .runInLoop false .wouldBlock]
      [.shutdown true, .shutdownStore true, .runInLoop true .wouldBlock, .swap]
      (by decide +kernel)
  exact ⟨s, s', h, hl, hst, hfound, hend⟩

/-! ## The condition is needed -/

omit [DecidableEq τ] in
theorem halfClosed_shutdownInLoop {c : TcpConnection τ} (hw : c.isWriting = false) :
    c.shutdownInLoop.halfClosed = true := by
  unfold TcpConnection.shutdownInLoop
  simp [hw]

/-- An action that issues `SHUT_WR` executes no send and finds none. -/
theorem issues_move (hi : s.issues loopThread a = true) (hm : Move loopThread s a s') :
    s'.conn.halfClosed = true ∧ s'.conn.executed = s.conn.executed ∧
      s'.conn.found = s.conn.found := by
  cases hm with
  | inline r f hf _ _ =>
    simp only [issues, hf, Bool.and_eq_true, decide_eq_true_eq, Option.some.injEq,
      Bool.not_eq_true'] at hi
    obtain ⟨⟨-, rfl⟩, hw⟩ := hi
    obtain ⟨hex, -, hsame⟩ := TcpConnection.shutdownInLoop_order
      (c := s.conn.setInFlight loopThread none)
    exact ⟨halfClosed_shutdownInLoop hw, hex, hsame.found⟩
  | queue t r f hf hout =>
    simp only [issues, hf, Bool.and_eq_true, decide_eq_true_eq, Option.some.injEq] at hi
    obtain ⟨⟨rfl, rfl⟩, -⟩ := hi
    cases hout rfl
  | functor r f l hl _ =>
    simp only [issues, EventLoop.head?_next hl, Bool.and_eq_true, decide_eq_true_eq,
      Option.some.injEq, Bool.not_eq_true'] at hi
    obtain ⟨rfl, hw⟩ := hi
    obtain ⟨hex, -, hsame⟩ := TcpConnection.shutdownInLoop_order (c := (s.setLoop l).conn)
    exact ⟨halfClosed_shutdownInLoop hw, hex, hsame.found⟩
  | afterSend rest hstack => simp [issues, hstack] at hi
  | afterHandleWrite rest hstack =>
    simp only [issues, Bool.and_eq_true, decide_eq_true_eq, Bool.not_eq_true'] at hi
    obtain ⟨⟨-, hst⟩, hw⟩ := hi
    obtain ⟨hex, -, hsame⟩ :=
      TcpConnection.afterHandleWrite_order (c := { s.conn with stack := rest })
    refine ⟨?_, hex, hsame.found⟩
    unfold TcpConnection.afterHandleWrite
    rw [if_pos hst]
    exact halfClosed_shutdownInLoop hw
  | _ => cases hi

/-- When `SHUT_WR` is issued while a send waits, that send has passed its check and was not
executed. -/
theorem a_send_that_waits_is_left_behind
    (h : (machine loopThread).ReachUnder (fun _ a => Unbroken a) s)
    (hs : (machine loopThread).step s a = some s') (hi : s.issues loopThread a = true)
    (hd : ¬ s.Drained) :
    s'.conn.halfClosed = true ∧ ∃ p, s'.conn.executed.count p < s'.conn.found.count p := by
  have hsteady := steady_reach (fun _ _ hok => hok) h
  obtain ⟨hhalf, hex, hfound⟩ := issues_move hi (move_of_step hs)
  refine ⟨hhalf, ?_⟩
  rw [hex, hfound]
  obtain ⟨p, hp⟩ : ∃ p : τ × Bytes, 0 < (sends s.conn.loop.queued).count p +
      (sends (s.conn.inFlight p.1).toList).count p := by
    by_cases hqueue : sends s.conn.loop.queued = []
    · have hhands : ∃ t, sends (s.conn.inFlight t).toList ≠ [] := by
        by_contra hnone
        simp only [not_exists, not_not] at hnone
        exact hd ⟨hqueue, hnone⟩
      obtain ⟨t, ht⟩ := hhands
      cases hf : s.conn.inFlight t with
      | none => simp [hf] at ht
      | some f =>
        cases f with
        | sendInLoop u data =>
          have hu := hsteady.own t u data hf
          subst hu
          refine ⟨(u, data), ?_⟩
          simp [hf, ConnFunctor.sent]
        | shutdownInLoop => simp [hf, ConnFunctor.sent] at ht
        | handleClose => simp [hf, ConnFunctor.sent] at ht
    · obtain ⟨p, hp⟩ := List.exists_mem_of_ne_nil _ hqueue
      have := List.count_pos_iff.mpr hp
      exact ⟨p, by omega⟩
  have := hsteady.places p
  refine ⟨p, ?_⟩
  simp only [sends_nil, List.count_nil] at this
  omega

end ConnThreads

end rpc.net
