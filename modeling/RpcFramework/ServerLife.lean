-- The life of a connection on the loop thread. It is established when it is
-- accepted, and disconnected from the first `handle_close` on. The tasks on
-- the stack belong to living objects, and a close is never run inside another
-- close of the same connection.
import RpcFramework.TcpServer

namespace rpc.net.TcpServer

open runs codec

variable {s s' : TcpServer} {c d : Nat}

/-! ## The parts of a step -/

@[simp]
theorem conns_modify_self (s : TcpServer) (c : Nat) (f : Connection → Connection) :
    (s.modify c f).conns c = f (s.conns c) :=
  Function.update_self ..

theorem conns_modify_ne (s : TcpServer) (f : Connection → Connection) (h : d ≠ c) :
    (s.modify c f).conns d = s.conns d :=
  Function.update_of_ne h ..

/-- What holds of a connection is kept where the change keeps it. -/
theorem modify_keeps {P : Nat → Connection → Prop} {f : Connection → Connection}
    (h : ∀ d, P d (s.conns d)) (hc : P c (f (s.conns c))) (d : Nat) :
    P d ((s.modify c f).conns d) := by
  by_cases hd : d = c
  · rw [hd, conns_modify_self]
    exact hc
  · rw [conns_modify_ne s f hd]
    exact h d

/-- The task `b` may stand below `a`: a branch of `handle_event` has only branches below it,
and the same close does not stand twice. -/
def Below (a b : Task) : Prop :=
  (a.isBranch = true → b.isBranch = true) ∧ ∀ c, a = .closeCb c → b ≠ .closeCb c

/-- A task that may be put on any stack. -/
def Plain (t : Task) : Prop :=
  t.isBranch = false ∧ (∀ c, t ≠ .closeCb c) ∧ ∀ c, t ≠ .removeChannel c

theorem plain_user : Plain .user := ⟨rfl, by simp, by simp⟩

theorem plain_onMessage (c : Nat) : Plain (.onMessage c) := ⟨rfl, by simp, by simp⟩

theorem plain_forceClose (c : Nat) : Plain (.forceClose c) := ⟨rfl, by simp, by simp⟩

theorem plain_afterWrite (c : Nat) : Plain (.afterWrite c) := ⟨rfl, by simp, by simp⟩

/-- The state says whether `handle_close` was run, and the stack and the queue hold living
objects. -/
structure Life (s : TcpServer) : Prop where
  unborn : ∀ c, s.accepts ≤ c → s.conns c = Connection.blank
  disconnected : ∀ c, (s.conns c).state = .kDisconnected ↔ 0 < (s.conns c).closes
  disabled : ∀ c, 0 < (s.conns c).closes → (s.conns c).channel.events = kNoneEvent
  tasks : ∀ t ∈ s.stack, ∀ c ∈ t.conn, (s.conns c).alive = true
  functors : ∀ c ∈ s.loop.queued, (s.conns c).alive = true
  ordered : s.stack.Pairwise Below
  closing : ∀ c, .closeCb c ∈ s.stack → 0 < (s.conns c).closes
  destroyed : ∀ c, .removeChannel c ∉ s.stack

namespace Life

theorem new_life : Life new where
  unborn := fun _ _ => rfl
  disconnected := by simp [new, Connection.blank]
  disabled := by simp [new, Connection.blank]
  tasks := by simp [new]
  functors := by simp [new]
  ordered := List.Pairwise.nil
  closing := by simp [new]
  destroyed := by simp [new]

theorem lt_accepts (h : Life s) (hc : (s.conns c).alive = true) : c < s.accepts := by
  by_contra hge
  rw [h.unborn c (by omega)] at hc
  cases hc

theorem ne_of_unborn (h : Life s) (hc : (s.conns c).alive = true) (hd : s.accepts ≤ d) :
    d ≠ c := by
  have := h.lt_accepts hc
  omega

/-- A change of one living object, with the same record of what happened to it. -/
theorem modify {f : Connection → Connection} (h : Life s) (hc : (s.conns c).alive = true)
    (halive : (f (s.conns c)).alive = true) (hcloses : (f (s.conns c)).closes = (s.conns c).closes)
    (hstate : (f (s.conns c)).state = .kDisconnected ↔ (s.conns c).state = .kDisconnected)
    (hevents : 0 < (s.conns c).closes → (f (s.conns c)).channel.events = kNoneEvent) :
    Life (s.modify c f) := by
  have hlive : ∀ d, (s.conns d).alive = true → ((s.modify c f).conns d).alive = true :=
    modify_keeps (P := fun d k => (s.conns d).alive = true → k.alive = true)
      (fun _ => id) (fun _ => halive)
  have hclosed : ∀ d, 0 < (s.conns d).closes → 0 < ((s.modify c f).conns d).closes :=
    modify_keeps (P := fun d k => 0 < (s.conns d).closes → 0 < k.closes)
      (fun _ => id) (by rw [hcloses]; exact id)
  constructor
  case unborn =>
    intro d hd
    rw [conns_modify_ne s f (h.ne_of_unborn hc hd)]
    exact h.unborn d hd
  case disconnected =>
    apply modify_keeps (P := fun _ k => k.state = .kDisconnected ↔ 0 < k.closes)
    · exact h.disconnected
    · rw [hstate, hcloses]
      exact h.disconnected c
  case disabled =>
    apply modify_keeps (P := fun _ k => 0 < k.closes → k.channel.events = kNoneEvent)
    · exact h.disabled
    · rw [hcloses]
      exact hevents
  case tasks => exact fun t ht d hd => hlive d (h.tasks t ht d hd)
  case functors => exact fun d hd => hlive d (h.functors d hd)
  case ordered => exact h.ordered
  case closing => exact fun d hd => hclosed d (h.closing d hd)
  case destroyed => exact h.destroyed

theorem deliver (h : Life s) (hc : (s.conns c).alive = true) (callback : Callback) :
    Life (s.deliver c callback) :=
  h.modify hc hc rfl Iff.rfl (h.disabled c)

theorem setInput (h : Life s) (hc : (s.conns c).alive = true) (b : Buffer) :
    Life (s.modify c fun k => { k with inputBuf := b }) :=
  h.modify hc hc rfl Iff.rfl (h.disabled c)

/-- The poller and the table of the server are not part of it. -/
theorem setPoller (h : Life s) (p : EpollPoller Nat) : Life { s with poller := p } :=
  ⟨h.unborn, h.disconnected, h.disabled, h.tasks, h.functors, h.ordered, h.closing, h.destroyed⟩

theorem setConnections (h : Life s) (m : UInt64 → Option Nat) : Life { s with connections := m } :=
  ⟨h.unborn, h.disconnected, h.disabled, h.tasks, h.functors, h.ordered, h.closing, h.destroyed⟩

theorem setLoop {l : EventLoop Nat} (h : Life s) (hl : ∀ c ∈ l.queued, (s.conns c).alive = true) :
    Life { s with loop := l } :=
  ⟨h.unborn, h.disconnected, h.disabled, h.tasks, hl, h.ordered, h.closing, h.destroyed⟩

theorem onChannel {op : Channel → EpollPoller Nat → Channel × EpollPoller Nat} (h : Life s)
    (hc : (s.conns c).alive = true)
    (hop : 0 < (s.conns c).closes → (op (s.conns c).channel s.poller).1.events = kNoneEvent) :
    Life (s.onChannel c op) :=
  (h.modify (f := fun k => { k with channel := (op (s.conns c).channel s.poller).1 }) hc hc rfl
    Iff.rfl hop).setPoller _

theorem pop {t : Task} {rest : List Task} (h : Life s) (hs : s.stack = t :: rest) :
    Life { s with stack := rest } := by
  have hsub : ∀ t' ∈ rest, t' ∈ s.stack := by
    intro t' ht'
    rw [hs]
    exact List.mem_cons_of_mem t ht'
  have hord := h.ordered
  rw [hs] at hord
  constructor
  case unborn => exact h.unborn
  case disconnected => exact h.disconnected
  case disabled => exact h.disabled
  case tasks => exact fun t' ht' => h.tasks t' (hsub t' ht')
  case functors => exact h.functors
  case ordered => exact hord.of_cons
  case closing => exact fun d hd => h.closing d (hsub _ hd)
  case destroyed => exact fun d hd => h.destroyed d (hsub _ hd)

theorem push {t : Task} (h : Life s) (ht : Plain t) (hc : ∀ c ∈ t.conn, (s.conns c).alive = true) :
    Life (s.push [t]) := by
  obtain ⟨hbranch, hclose, hremove⟩ := ht
  constructor
  case unborn => exact h.unborn
  case disconnected => exact h.disconnected
  case disabled => exact h.disabled
  case tasks =>
    intro t' ht'
    rcases List.mem_cons.mp ht' with rfl | hin
    · exact hc
    · exact h.tasks t' hin
  case functors => exact h.functors
  case ordered =>
    refine List.Pairwise.cons ?_ h.ordered
    intro b _
    refine ⟨?_, ?_⟩
    · intro hb
      rw [hbranch] at hb
      cases hb
    · exact fun d hd => absurd hd (hclose d)
  case closing =>
    intro d hd
    rcases List.mem_cons.mp hd with heq | hin
    · exact absurd heq.symm (hclose d)
    · exact h.closing d hin
  case destroyed =>
    intro d hd
    rcases List.mem_cons.mp hd with heq | hin
    · exact hremove d heq.symm
    · exact h.destroyed d hin

end Life

/-! ## Calm steps -/

/-- A change of an object that opens and closes nothing, and reads and delivers nothing. -/
structure Steady (k k' : Connection) : Prop where
  connId : k'.connId = k.connId
  disconnected : k'.state = .kDisconnected ↔ k.state = .kDisconnected
  channel : k'.channel = k.channel
  inputBuf : k'.inputBuf = k.inputBuf
  alive : k'.alive = k.alive
  closes : k'.closes = k.closes
  trace : k'.trace = k.trace

theorem steady_outputBuf (k : Connection) (b : Buffer) : Steady k { k with outputBuf := b } := by
  constructor <;> rfl

theorem steady_halfClosed (k : Connection) : Steady k { k with halfClosed := true } := by
  constructor <;> rfl

/-- What `send`, `shutdown` and `handle_write` do as long as they do not close: they change
objects steadily, they switch the interest in writing of connections that are not disconnected,
and they leave tasks. -/
inductive Calm (s : TcpServer) : TcpServer → Prop
  | refl : Calm s s
  | modify {s' : TcpServer} {c : Nat} {f : Connection → Connection} : Calm s s' →
      (s'.conns c).alive = true → Steady (s'.conns c) (f (s'.conns c)) → Calm s (s'.modify c f)
  | interest {s' : TcpServer} {c : Nat}
      {op : Channel → EpollPoller Nat → Channel × EpollPoller Nat} : Calm s s' →
      (s'.conns c).alive = true → (s'.conns c).state ≠ .kDisconnected →
      op = Channel.enableWriting c ∨ op = Channel.disableWriting c → Calm s (s'.onChannel c op)
  | push {s' : TcpServer} {t : Task} : Calm s s' → Plain t → (∀ c, t ≠ .onMessage c) →
      (∀ c ∈ t.conn, (s'.conns c).alive = true) → Calm s (s'.push [t])

theorem Calm.trans {s'' : TcpServer} (h : Calm s s') (h' : Calm s' s'') : Calm s s'' := by
  induction h' with
  | refl => exact h
  | modify _ hc hf ih => exact .modify ih hc hf
  | interest _ hc hst hop ih => exact .interest ih hc hst hop
  | push _ ht hno hc ih => exact .push ih ht hno hc

theorem Life.calm (h : Life s) (hcalm : Calm s s') : Life s' := by
  induction hcalm with
  | refl => exact h
  | modify _ hc hf ih =>
    refine ih.modify hc (hf.alive.trans hc) hf.closes hf.disconnected ?_
    rw [hf.channel]
    exact ih.disabled _
  | interest _ hc hst _ ih =>
    refine ih.onChannel hc ?_
    intro hclosed
    exact absurd ((ih.disconnected _).mpr hclosed) hst
  | push _ ht _ hc ih => exact ih.push ht hc

theorem calm_shutdownInLoop (hc : (s.conns c).alive = true) : Calm s (s.shutdownInLoop c) := by
  unfold shutdownInLoop
  split
  · exact .refl
  · exact .modify .refl hc (steady_halfClosed _)

theorem calm_bufferRest (hc : (s.conns c).alive = true)
    (hst : (s.conns c).state ≠ .kDisconnected) (rest : Bytes) : Calm s (s.bufferRest c rest) := by
  have hbuf : Calm s (s.modify c fun k => { k with outputBuf := k.outputBuf.append rest }) :=
    .modify .refl hc (steady_outputBuf _ _)
  unfold bufferRest
  dsimp only
  split
  · exact hbuf
  · refine .interest hbuf ?_ ?_ (Or.inl rfl)
    · rw [conns_modify_self]
      exact hc
    · rw [conns_modify_self]
      exact hst

/-- `send_in_loop` calls `::write`, and gets an error other than `EWOULDBLOCK`. -/
def Fails (k : Connection) (r : WriteResult) : Prop :=
  k.state ≠ .kDisconnected ∧ writesAtOnce k = true ∧ r = .error

instance (k : Connection) (r : WriteResult) : Decidable (Fails k r) :=
  inferInstanceAs (Decidable (_ ∧ _ ∧ _))

theorem sendInLoop_cases (hc : (s.conns c).alive = true) (data : Bytes) (r : WriteResult) :
    Calm s (s.sendInLoop c data r) ∨
      Fails (s.conns c) r ∧ s.sendInLoop c data r = s.handleClose c := by
  unfold sendInLoop
  split
  · exact Or.inl .refl
  rename_i hst
  split
  · rename_i hwrites
    cases r with
    | error => exact Or.inr ⟨⟨hst, hwrites, rfl⟩, rfl⟩
    | wouldBlock => exact Or.inl (calm_bufferRest hc hst data)
    | count n =>
      left
      dsimp only
      split
      · exact .push .refl plain_user (by simp) (by simp [Task.conn])
      · exact calm_bufferRest hc hst _
  · exact Or.inl (calm_bufferRest hc hst data)

theorem send_cases (hc : (s.conns c).alive = true) (data : Bytes) (r : WriteResult) :
    Calm s (s.send c data r) ∨
      ((s.conns c).state = .kConnected ∧ Fails (s.conns c) r) ∧
        s.send c data r = s.handleClose c := by
  unfold send
  split
  · exact Or.inl .refl
  · rename_i hst
    rcases sendInLoop_cases hc data r with hcalm | ⟨hfails, heq⟩
    · exact Or.inl hcalm
    · exact Or.inr ⟨⟨not_not.mp hst, hfails⟩, heq⟩

theorem calm_shutdown (hc : (s.conns c).alive = true) : Calm s (s.shutdown c) := by
  unfold shutdown
  split
  · rename_i hst
    refine Calm.trans (.modify .refl hc ?_) (calm_shutdownInLoop ?_)
    · exact ⟨rfl, by simp [hst], rfl, rfl, rfl, rfl, rfl⟩
    · rw [conns_modify_self]
      exact hc
  · exact .refl

theorem calm_afterWrite (hc : (s.conns c).alive = true) : Calm s (s.afterWrite c) := by
  unfold afterWrite
  split
  · exact calm_shutdownInLoop hc
  · exact .refl

theorem calm_handleWrite (h : Life s) (hc : (s.conns c).alive = true) (r : WriteResult) :
    Calm s (s.handleWrite c r) := by
  unfold handleWrite
  split
  · rename_i hwriting
    have hst : (s.conns c).state ≠ .kDisconnected := by
      intro hst
      have hevents := h.disabled c ((h.disconnected c).mp hst)
      rw [Channel.isWriting, hevents] at hwriting
      cases hwriting
    cases r with
    | wouldBlock => exact .refl
    | error => exact .refl
    | count n =>
      dsimp only
      split
      · rename_i hn
        have hbuf : Calm s (s.modify c fun k =>
            { k with outputBuf := (s.conns c).outputBuf.retrieve n hn.2 }) :=
          .modify .refl hc (steady_outputBuf _ _)
        split
        · have hoff := Calm.interest (c := c) hbuf (by simpa using hc) (by simpa using hst)
            (Or.inr rfl)
          refine .push (.push hoff (plain_afterWrite c) (by simp) ?_) plain_user (by simp)
            (by simp [Task.conn])
          rintro d ⟨⟩
          simpa [onChannel] using hc
        · exact hbuf
      · exact .refl
  · exact .refl

/-! ## Steps that open, close and remove -/

/-- The object after `handle_close`. -/
theorem handleClose_conns_self (s : TcpServer) (c : Nat) :
    (s.handleClose c).conns c = { s.conns c with
      state := .kDisconnected
      closes := (s.conns c).closes + 1
      channel := ((s.conns c).channel.disableAll c s.poller).1
      trace := (s.conns c).trace ++ [.connection false] } := by
  unfold handleClose push deliver onChannel modify
  simp

theorem handleClose_conns_ne (s : TcpServer) (h : d ≠ c) :
    (s.handleClose c).conns d = s.conns d := by
  unfold handleClose push deliver onChannel modify
  simp [h]

@[simp]
theorem handleClose_stack (s : TcpServer) (c : Nat) :
    (s.handleClose c).stack = .user :: .closeCb c :: s.stack := rfl

theorem handleClose_keeps {P : Nat → Connection → Prop} (h : ∀ d, P d (s.conns d))
    (hc : P c ((s.handleClose c).conns c)) (d : Nat) : P d ((s.handleClose c).conns d) := by
  by_cases hd : d = c
  · rw [hd]
    exact hc
  · rw [handleClose_conns_ne s hd]
    exact h d

theorem Life.handleClose (h : Life s) (hc : (s.conns c).alive = true)
    (hno : .closeCb c ∉ s.stack) : Life (s.handleClose c) := by
  have hself := handleClose_conns_self s c
  have hlive : ∀ d, (s.conns d).alive = true → ((s.handleClose c).conns d).alive = true :=
    handleClose_keeps (P := fun d k => (s.conns d).alive = true → k.alive = true)
      (fun _ => id) (by rw [hself]; exact id)
  constructor
  case unborn =>
    intro d hd
    rw [handleClose_conns_ne s (h.ne_of_unborn hc hd)]
    exact h.unborn d hd
  case disconnected =>
    apply handleClose_keeps (P := fun _ k => k.state = .kDisconnected ↔ 0 < k.closes)
    · exact h.disconnected
    · simp [hself]
  case disabled =>
    apply handleClose_keeps (P := fun _ k => 0 < k.closes → k.channel.events = kNoneEvent)
    · exact h.disabled
    · simp [hself]
  case tasks =>
    intro t ht d hd
    rw [handleClose_stack] at ht
    rcases List.mem_cons.mp ht with rfl | ht
    · cases hd
    rcases List.mem_cons.mp ht with rfl | ht
    · cases hd
      exact hlive c hc
    · exact hlive d (h.tasks t ht d hd)
  case functors => exact fun d hd => hlive d (h.functors d hd)
  case ordered =>
    rw [handleClose_stack]
    refine List.Pairwise.cons ?_ (List.Pairwise.cons ?_ h.ordered)
    · exact fun b _ => ⟨by simp [Task.isBranch], by simp⟩
    · intro b hb
      refine ⟨by simp [Task.isBranch], ?_⟩
      rintro d ⟨⟩ rfl
      exact hno hb
  case closing =>
    intro d hd
    simp only [handleClose_stack, List.mem_cons, reduceCtorEq, false_or] at hd
    by_cases hdc : d = c
    · subst hdc
      simp [hself]
    · rw [handleClose_conns_ne s hdc]
      rcases hd with hd | hd
      · cases hd
        exact absurd rfl hdc
      · exact h.closing d hd
  case destroyed =>
    intro d hd
    simp only [handleClose_stack, List.mem_cons, reduceCtorEq, false_or] at hd
    exact h.destroyed d hd

/-- The end of a close: the object is disconnected, so it is told nothing more. -/
theorem removeConnection_eq (hst : (s.conns c).state = .kDisconnected) :
    (s.deliver c .close).removeConnection c =
      onChannel { s.deliver c .close with
        connections := Function.update s.connections (s.conns c).connId none } c
        (Channel.remove c) := by
  unfold removeConnection connectionDestroyed deliver modify
  simp [hst]

theorem Life.removeConnection (h : Life s) (hc : (s.conns c).alive = true)
    (hst : (s.conns c).state = .kDisconnected) :
    Life ((s.deliver c .close).removeConnection c) := by
  rw [removeConnection_eq hst]
  refine ((h.deliver hc .close).setConnections _).onChannel ?_ ?_
  · simpa [TcpServer.deliver] using hc
  · intro _
    exact Channel.events_remove c _ _

theorem Life.forceClose (h : Life s) (hc : (s.conns c).alive = true) : Life (s.forceClose c) := by
  unfold TcpServer.forceClose
  split
  · rename_i hst
    have hm := h.modify (f := fun k => { k with state := .kDisconnecting }) hc hc rfl
      (by rcases hst with hst | hst <;> simp [hst]) (h.disabled c)
    refine hm.setLoop ?_
    intro d hd
    rw [EventLoop.queued_queueInLoop, List.mem_append, List.mem_singleton] at hd
    rcases hd with hd | rfl
    · exact hm.functors d hd
    · simpa using hc
  · exact h

theorem Life.handleRead (h : Life s) (hc : (s.conns c).alive = true)
    (hno : .closeCb c ∉ s.stack) (r : Option Bytes) : Life (s.handleRead c r) := by
  unfold TcpServer.handleRead
  split
  · exact h.handleClose hc hno
  · exact h.handleClose hc hno
  · refine ((h.setInput hc _).deliver (by simpa using hc) .message).push (plain_onMessage c) ?_
    rintro d ⟨⟩
    simpa [TcpServer.deliver] using hc

theorem Life.onMessage (h : Life s) (hc : (s.conns c).alive = true) : Life (s.onMessage c) := by
  unfold TcpServer.onMessage
  split
  · exact h
  · refine (h.push (plain_forceClose c) ?_).push plain_user (by simp [Task.conn])
    rintro d ⟨⟩
    exact hc
  · refine (((h.setInput hc _).deliver (by simpa using hc) _).push (plain_onMessage c) ?_).push
      plain_user (by simp [Task.conn])
    rintro d ⟨⟩
    simpa [TcpServer.deliver] using hc

/-- The object that a new connection is. -/
theorem newConnection_conns_self (s : TcpServer) (fd : Nat) :
    (s.newConnection fd).conns s.accepts = { Connection.blank with
      connId := s.nextConnId
      state := .kConnected
      channel := ((Channel.new fd).enableReading s.accepts s.poller).1
      alive := true
      trace := [.connection true] } := by
  unfold newConnection connectionEstablished push deliver onChannel modify
  simp [Connection.blank]

theorem newConnection_conns_ne (s : TcpServer) (fd : Nat) (h : d ≠ s.accepts) :
    (s.newConnection fd).conns d = s.conns d := by
  unfold newConnection connectionEstablished push deliver onChannel modify
  simp [h]

@[simp]
theorem newConnection_accepts (s : TcpServer) (fd : Nat) :
    (s.newConnection fd).accepts = s.accepts + 1 := rfl

@[simp]
theorem newConnection_stack (s : TcpServer) (fd : Nat) :
    (s.newConnection fd).stack = .user :: s.stack := rfl

theorem newConnection_keeps {P : Nat → Connection → Prop} {fd : Nat} (h : ∀ d, P d (s.conns d))
    (hc : P s.accepts ((s.newConnection fd).conns s.accepts)) (d : Nat) :
    P d ((s.newConnection fd).conns d) := by
  by_cases hd : d = s.accepts
  · rw [hd]
    exact hc
  · rw [newConnection_conns_ne s fd hd]
    exact h d

theorem Life.newConnection (h : Life s) (fd : Nat) : Life (s.newConnection fd) := by
  have hself := newConnection_conns_self s fd
  have hlive : ∀ d, (s.conns d).alive = true → ((s.newConnection fd).conns d).alive = true :=
    newConnection_keeps (P := fun d k => (s.conns d).alive = true → k.alive = true)
      (fun _ => id) (by rw [hself]; exact fun _ => rfl)
  constructor
  case unborn =>
    intro d hd
    rw [newConnection_accepts] at hd
    rw [newConnection_conns_ne s fd (by omega)]
    exact h.unborn d (by omega)
  case disconnected =>
    apply newConnection_keeps (P := fun _ k => k.state = .kDisconnected ↔ 0 < k.closes)
    · exact h.disconnected
    · simp [hself, Connection.blank]
  case disabled =>
    apply newConnection_keeps (P := fun _ k => 0 < k.closes → k.channel.events = kNoneEvent)
    · exact h.disabled
    · simp [hself, Connection.blank]
  case tasks =>
    intro t ht d hd
    rw [newConnection_stack] at ht
    rcases List.mem_cons.mp ht with rfl | ht
    · cases hd
    · exact hlive d (h.tasks t ht d hd)
  case functors => exact fun d hd => hlive d (h.functors d hd)
  case ordered =>
    exact List.Pairwise.cons (fun b _ => ⟨by simp [Task.isBranch], by simp⟩) h.ordered
  case closing =>
    intro d hd
    simp only [newConnection_stack, List.mem_cons, reduceCtorEq, false_or] at hd
    have hclosed := h.closing d hd
    have hne : d ≠ s.accepts := by
      rintro rfl
      rw [h.unborn s.accepts (Nat.le_refl _)] at hclosed
      cases hclosed
    rw [newConnection_conns_ne s fd hne]
    exact hclosed
  case destroyed =>
    intro d hd
    simp only [newConnection_stack, List.mem_cons, reduceCtorEq, false_or] at hd
    exact h.destroyed d hd

theorem branches_conn {revents : UInt32} {t : Task} (ht : t ∈ branches c revents) :
    t.isBranch = true ∧ t.conn = some c := by
  simp only [branches, List.mem_append, List.mem_ite_nil_right, List.mem_singleton] at ht
  rcases ht with ((⟨-, rfl⟩ | ⟨-, rfl⟩) | ⟨-, rfl⟩) | ⟨-, rfl⟩ <;> exact ⟨rfl, rfl⟩

theorem Life.event (h : Life s) (hc : (s.conns c).alive = true) (hidle : s.stack = [])
    (revents : UInt32) : Life (s.push (branches c revents)) := by
  have hstack : (s.push (branches c revents)).stack = branches c revents := by
    simp [TcpServer.push, hidle]
  constructor
  case unborn => exact h.unborn
  case disconnected => exact h.disconnected
  case disabled => exact h.disabled
  case tasks =>
    intro t ht d hd
    rw [hstack] at ht
    rw [(branches_conn ht).2] at hd
    cases hd
    exact hc
  case functors => exact h.functors
  case ordered =>
    rw [hstack]
    refine List.Pairwise.imp_of_mem ?_ (List.pairwise_of_forall (fun _ _ => trivial))
    intro a b ha hb _
    refine ⟨fun _ => (branches_conn hb).1, ?_⟩
    rintro d rfl
    exact absurd (branches_conn ha).1 (by simp [Task.isBranch])
  case closing =>
    intro d hd
    rw [hstack] at hd
    exact absurd (branches_conn hd).1 (by simp [Task.isBranch])
  case destroyed =>
    intro d hd
    rw [hstack] at hd
    exact absurd (branches_conn hd).1 (by simp [Task.isBranch])

theorem destroy_conns_self (s : TcpServer) (c : Nat) :
    (s.destroy c).conns c = { s.conns c with alive := false } := by
  unfold destroy modify
  simp

theorem destroy_conns_ne (s : TcpServer) (h : d ≠ c) : (s.destroy c).conns d = s.conns d := by
  unfold destroy modify
  simp [h]

theorem released_iff : s.released c = true ↔ s.connections (s.conns c).connId ≠ some c ∧
    c ∉ s.loop.queued ∧ ∀ t ∈ s.stack, t.conn ≠ some c := by
  unfold released
  simp [and_assoc]

theorem Life.destroy (h : Life s) (hc : (s.conns c).alive = true) (hrel : s.released c = true) :
    Life (s.destroy c) := by
  obtain ⟨-, hqueue, hstack⟩ := released_iff.mp hrel
  have hself := destroy_conns_self s c
  constructor
  case unborn =>
    intro d hd
    rw [destroy_conns_ne s (h.ne_of_unborn hc hd)]
    exact h.unborn d hd
  case disconnected =>
    intro d
    by_cases hd : d = c
    · rw [hd, hself]
      exact h.disconnected c
    · rw [destroy_conns_ne s hd]
      exact h.disconnected d
  case disabled =>
    intro d
    by_cases hd : d = c
    · rw [hd, hself]
      exact h.disabled c
    · rw [destroy_conns_ne s hd]
      exact h.disabled d
  case tasks =>
    intro t ht d hd
    have hne : d ≠ c := by
      rintro rfl
      exact hstack t ht hd
    rw [destroy_conns_ne s hne]
    exact h.tasks t ht d hd
  case functors =>
    intro d hd
    have hne : d ≠ c := by
      rintro rfl
      exact hqueue hd
    rw [destroy_conns_ne s hne]
    exact h.functors d hd
  case ordered => exact h.ordered
  case closing =>
    intro d hd
    have hne : d ≠ c := by
      rintro rfl
      exact hstack _ hd rfl
    rw [destroy_conns_ne s hne]
    exact h.closing d hd
  case destroyed => exact h.destroyed

/-! ## What a step can do -/

/-- The steps, with what each of them has checked. -/
inductive Move (s : TcpServer) : Act → TcpServer → Prop
  | calm {a : Act} {s' : TcpServer} : s.userRuns = true → Calm s s' → Move s a s'
  | popped {a : Act} {s' : TcpServer} {t : Task} {rest : List Task} : s.stack = t :: rest →
      (∀ c, t ≠ .closeCb c) → Calm { s with stack := rest } s' → Move s a s'
  | accept {fd : Nat} : s.stack = [] → s.Fresh fd → Move s (.accept (some fd)) (s.newConnection fd)
  | event {c : Nat} {revents : UInt32} : s.stack = [] → (s.conns c).alive = true →
      Move s (.event c revents) (s.push (branches c revents))
  | swap {l : EventLoop Nat} : s.loop.swap = some l → Move s .swap { s with loop := l }
  | functor {c : Nat} {l : EventLoop Nat} : s.stack = [] → s.loop.next = some (c, l) →
      Move s .functor (handleClose { s with loop := l } c)
  | failedQueuedSend {c : Nat} {data : Bytes} {r : WriteResult} : s.userRuns = true →
      (s.conns c).alive = true → Fails (s.conns c) r →
      Move s (.queuedSend c data r) (s.handleClose c)
  | failedSend {c : Nat} {data : Bytes} {r : WriteResult} : s.userRuns = true →
      (s.conns c).alive = true → (s.conns c).state = .kConnected → Fails (s.conns c) r →
      Move s (.send c data r) (s.handleClose c)
  | forceClose {c : Nat} : s.userRuns = true → (s.conns c).alive = true →
      Move s (.forceClose c) (s.forceClose c)
  | read {c : Nat} {r : Option Bytes} {rest : List Task} : s.stack = .handleRead c :: rest →
      Move s (.read r) (handleRead { s with stack := rest } c r)
  | branch {c : Nat} {t : Task} {rest : List Task} : s.stack = t :: rest →
      t = .handleClose c ∨ t = .handleError c →
      Move s .resume (handleClose { s with stack := rest } c)
  | closeCb {c : Nat} {rest : List Task} : s.stack = .closeCb c :: rest →
      Move s .resume ((deliver { s with stack := rest } c .close).removeConnection c)
  | codecError {c : Nat} {rest : List Task} : s.stack = .forceClose c :: rest →
      Move s .resume (TcpServer.forceClose { s with stack := rest } c)
  | onMessage {c : Nat} {rest : List Task} : s.stack = .onMessage c :: rest →
      Move s .resume (TcpServer.onMessage { s with stack := rest } c)
  | destroy {c : Nat} : (s.conns c).alive = true → s.released c = true →
      Move s (.destroy c) (s.destroy c)

theorem Life.alive_head {t : Task} {rest : List Task} (h : Life s) (hs : s.stack = t :: rest)
    (hc : t.conn = some c) : (s.conns c).alive = true := by
  refine h.tasks t ?_ c hc
  rw [hs]
  exact List.mem_cons_self

theorem userRuns_of_idle (h : s.stack = []) : s.userRuns = true := by
  unfold userRuns
  rw [h]
  rfl

theorem move_of_step {a : Act} (h : Life s) (hs : s.step a = some s') : Move s a s' := by
  cases a with
  | accept connFd =>
    dsimp only [step] at hs
    split at hs
    · rename_i hok
      simp only [polls, Bool.and_eq_true, List.isEmpty_iff] at hok
      cases hs
      cases connFd with
      | none => exact .calm (userRuns_of_idle hok.1.1) .refl
      | some fd => exact .accept hok.1.1 (hok.2 fd rfl)
    · cases hs
  | event c revents =>
    dsimp only [step] at hs
    split at hs
    · rename_i hok
      simp only [polls, Bool.and_eq_true, List.isEmpty_iff] at hok
      cases hs
      exact .event hok.1.1 hok.2
    · cases hs
  | swap =>
    dsimp only [step] at hs
    split at hs
    · obtain ⟨l, hl, rfl⟩ := Option.map_eq_some_iff.mp hs
      exact .swap hl
    · cases hs
  | functor =>
    dsimp only [step] at hs
    split at hs
    · rename_i hidle
      obtain ⟨⟨c, l⟩, hl, rfl⟩ := Option.map_eq_some_iff.mp hs
      exact .functor (List.isEmpty_iff.mp hidle) hl
    · cases hs
  | queuedSend c data r =>
    dsimp only [step] at hs
    split at hs
    · rename_i hok
      cases hs
      have hruns := userRuns_of_idle (List.isEmpty_iff.mp hok.1)
      rcases sendInLoop_cases hok.2.1 data r with hcalm | ⟨hfails, heq⟩
      · exact .calm hruns hcalm
      · rw [heq]
        exact .failedQueuedSend hruns hok.2.1 hfails
    · cases hs
  | read r =>
    dsimp only [step] at hs
    split at hs
    · rename_i hstack
      split at hs
      · cases hs
        exact .read hstack
      · cases hs
    · cases hs
  | write r =>
    dsimp only [step] at hs
    split at hs
    · rename_i hstack
      split at hs
      · cases hs
        exact .popped hstack (by simp)
          (calm_handleWrite (h.pop hstack) (h.alive_head hstack rfl) r)
      · cases hs
    · cases hs
  | resume =>
    dsimp only [step] at hs
    split at hs
    · rename_i t rest hstack
      cases t with
      | user => cases hs
      | handleRead c => cases hs
      | handleWrite c => cases hs
      | handleClose c =>
        cases hs
        exact .branch hstack (Or.inl rfl)
      | handleError c =>
        cases hs
        exact .branch hstack (Or.inr rfl)
      | closeCb c =>
        cases hs
        exact .closeCb hstack
      | removeChannel c =>
        -- the close that it would end had disconnected the object before
        refine absurd ?_ (h.destroyed c)
        rw [hstack]
        exact List.mem_cons_self
      | forceClose c =>
        cases hs
        exact .codecError hstack
      | afterWrite c =>
        cases hs
        exact .popped hstack (by simp) (calm_afterWrite (h.alive_head hstack rfl))
      | onMessage c =>
        cases hs
        exact .onMessage hstack
    · cases hs
  | send c data r =>
    dsimp only [step] at hs
    split at hs
    · rename_i hok
      cases hs
      rcases send_cases hok.2.1 data r with hcalm | ⟨⟨hst, hfails⟩, heq⟩
      · exact .calm hok.1 hcalm
      · rw [heq]
        exact .failedSend hok.1 hok.2.1 hst hfails
    · cases hs
  | shutdown c =>
    dsimp only [step] at hs
    split at hs
    · rename_i hok
      cases hs
      exact .calm hok.1 (calm_shutdown hok.2)
    · cases hs
  | forceClose c =>
    dsimp only [step] at hs
    split at hs
    · rename_i hok
      cases hs
      exact .forceClose hok.1 hok.2
    · cases hs
  | returns =>
    dsimp only [step] at hs
    split at hs
    · rename_i hstack
      cases hs
      exact .popped hstack (by simp) .refl
    · cases hs
  | destroy c =>
    dsimp only [step] at hs
    split at hs
    · rename_i hok
      cases hs
      exact .destroy hok.1 hok.2
    · cases hs

/-- Nothing below a branch of `handle_event` is a close. -/
theorem Life.not_closing {t : Task} {rest : List Task} (h : Life s) (hs : s.stack = t :: rest)
    (ht : t.isBranch = true) : .closeCb c ∉ rest := by
  intro hin
  have hord := h.ordered
  rw [hs] at hord
  exact absurd (((List.pairwise_cons.mp hord).1 _ hin).1 ht) (by simp [Task.isBranch])

/-- The same close does not stand on the stack twice. -/
theorem Life.not_closing_again {rest : List Task} (h : Life s) (hs : s.stack = .closeCb c :: rest) :
    .closeCb c ∉ rest := by
  intro hin
  have hord := h.ordered
  rw [hs] at hord
  exact ((List.pairwise_cons.mp hord).1 _ hin).2 c rfl rfl

/-- A connection that is not disconnected is not being closed. -/
theorem Life.not_closing_of_state (h : Life s) (hst : (s.conns c).state ≠ .kDisconnected) :
    .closeCb c ∉ s.stack :=
  fun hin => hst ((h.disconnected c).mpr (h.closing c hin))

theorem life_move {a : Act} (h : Life s) (hm : Move s a s') : Life s' := by
  cases hm with
  | calm _ hcalm => exact h.calm hcalm
  | popped hs _ hcalm => exact (h.pop hs).calm hcalm
  | accept _ _ => exact h.newConnection _
  | event hidle hc => exact h.event hc hidle _
  | swap hl =>
    refine h.setLoop ?_
    rw [EventLoop.queued_swap hl]
    exact h.functors
  | functor hidle hl =>
    have hq := EventLoop.queued_next hl
    have hrest := h.functors
    rw [hq] at hrest
    refine (h.setLoop fun d hd => hrest d (List.mem_cons_of_mem _ hd)).handleClose ?_ ?_
    · exact hrest _ List.mem_cons_self
    · simp [hidle]
  | failedQueuedSend _ hc hfails => exact h.handleClose hc (h.not_closing_of_state hfails.1)
  | failedSend _ hc _ hfails => exact h.handleClose hc (h.not_closing_of_state hfails.1)
  | forceClose _ hc => exact h.forceClose hc
  | read hs => exact (h.pop hs).handleRead (h.alive_head hs rfl) (h.not_closing hs rfl) _
  | branch hs ht =>
    rcases ht with rfl | rfl <;>
      exact (h.pop hs).handleClose (h.alive_head hs rfl) (h.not_closing hs rfl)
  | @closeCb c rest hs =>
    refine (h.pop hs).removeConnection (h.alive_head hs rfl) ?_
    apply (h.disconnected c).mpr
    apply h.closing c
    rw [hs]
    exact List.mem_cons_self
  | codecError hs => exact (h.pop hs).forceClose (h.alive_head hs rfl)
  | onMessage hs => exact (h.pop hs).onMessage (h.alive_head hs rfl)
  | destroy hc hrel => exact h.destroy hc hrel

/-- Every state of every run is so. -/
theorem life_reach (h : machine.Reach s) : Life s := by
  refine Machine.Reach.invariant (I := Life) Life.new_life ?_ h
  intro s a s' _ hlife hs
  exact life_move hlife (move_of_step hlife hs)

/-! ## Phases -/

/-- How far a connection is. A close that was begun goes on until its task is done. -/
def phase (s : TcpServer) (c : Nat) : Phase :=
  if (s.conns c).closes = 0 then .opened
  else if Task.closeCb c ∈ s.stack then .leaving
  else .gone

theorem phase_eq_opened : s.phase c = .opened ↔ (s.conns c).closes = 0 := by
  unfold phase
  split
  · simp [*]
  · split <;> simp [*]

theorem phase_congr (hcloses : (s'.conns c).closes = (s.conns c).closes)
    (hstack : Task.closeCb c ∈ s'.stack ↔ Task.closeCb c ∈ s.stack) : s'.phase c = s.phase c := by
  unfold phase
  rw [hcloses, if_congr hstack rfl rfl]

theorem phase_of_closing (h : Life s) (hc : Task.closeCb c ∈ s.stack) : s.phase c = .leaving := by
  have hclosed := h.closing c hc
  unfold phase
  rw [if_neg (by omega), if_pos hc]

theorem phase_ne_leaving (hc : Task.closeCb c ∉ s.stack) : s.phase c ≠ .leaving := by
  unfold phase
  rw [if_neg hc]
  split <;> simp

/-- The connections that are not disconnected are open. -/
theorem phase_of_state (h : Life s) (hst : (s.conns c).state ≠ .kDisconnected) :
    s.phase c = .opened := by
  have hzero := mt (h.disconnected c).mpr hst
  exact phase_eq_opened.mpr (by omega)

theorem phase_handleClose_self (s : TcpServer) (c : Nat) : (s.handleClose c).phase c = .leaving := by
  unfold phase
  rw [handleClose_conns_self, if_neg (by simp), if_pos (by simp)]

theorem phase_handleClose_ne (s : TcpServer) (h : d ≠ c) : (s.handleClose c).phase d = s.phase d :=
  phase_congr (by rw [handleClose_conns_ne s h]) (by simp [h])

/-- `s'` comes from `s` by the end of the close of a connection, which was the first task. -/
structure Ended (s : TcpServer) (c : Nat) (s' : TcpServer) : Prop where
  accepts : s'.accepts = s.accepts
  nextConnId : s'.nextConnId = s.nextConnId
  loop : s'.loop = s.loop
  connections : s'.connections = Function.update s.connections (s.conns c).connId none
  poller : s'.poller = (Channel.remove c (s.conns c).channel s.poller).2
  self : s'.conns c = { s.conns c with
    channel := (Channel.remove c (s.conns c).channel s.poller).1
    trace := (s.conns c).trace ++ [.close] }
  others : ∀ d, d ≠ c → s'.conns d = s.conns d
  stack : ∀ t ∈ s'.stack, t ∈ s.stack
  leaving : s.phase c = .leaving
  gone : s'.phase c = .gone
  phase : ∀ d, d ≠ c → s'.phase d = s.phase d

theorem ended_of_closeCb {rest : List Task} (h : Life s) (hs : s.stack = .closeCb c :: rest) :
    Ended s c ((deliver { s with stack := rest } c .close).removeConnection c) := by
  have hmem : Task.closeCb c ∈ s.stack := by
    rw [hs]
    exact List.mem_cons_self
  have hclosed := h.closing c hmem
  have hst : (s.conns c).state = .kDisconnected := (h.disconnected c).mpr hclosed
  have heq := removeConnection_eq (s := { s with stack := rest }) (c := c) hst
  generalize (deliver { s with stack := rest } c .close).removeConnection c = s' at heq ⊢
  have hself : s'.conns c = { s.conns c with
      channel := (Channel.remove c (s.conns c).channel s.poller).1
      trace := (s.conns c).trace ++ [.close] } := by
    rw [heq]
    simp [onChannel, deliver, modify]
  have hothers : ∀ d, d ≠ c → s'.conns d = s.conns d := by
    intro d hd
    rw [heq]
    simp [onChannel, deliver, modify, hd]
  have hstack : s'.stack = rest := by
    rw [heq]
    rfl
  constructor
  case accepts => rw [heq]; rfl
  case nextConnId => rw [heq]; rfl
  case loop => rw [heq]; rfl
  case connections => rw [heq]; rfl
  case poller =>
    rw [heq]
    simp [onChannel, deliver, modify]
  case self => exact hself
  case others => exact hothers
  case stack =>
    intro t ht
    rw [hstack] at ht
    rw [hs]
    exact List.mem_cons_of_mem _ ht
  case leaving => exact phase_of_closing h hmem
  case gone =>
    unfold phase
    rw [hself, hstack, if_neg (by simpa using Nat.ne_of_gt hclosed),
      if_neg (h.not_closing_again hs)]
  case phase =>
    intro d hd
    apply phase_congr
    · rw [hothers d hd]
    · rw [hstack, hs, List.mem_cons, or_iff_right]
      rintro ⟨⟩
      exact hd rfl

theorem phase_newConnection_self (s : TcpServer) (fd : Nat) :
    (s.newConnection fd).phase s.accepts = .opened := by
  rw [phase_eq_opened, newConnection_conns_self]
  rfl

theorem phase_newConnection_ne (s : TcpServer) (fd : Nat) (h : d ≠ s.accepts) :
    (s.newConnection fd).phase d = s.phase d := by
  apply phase_congr
  · rw [newConnection_conns_ne s fd h]
  · simp

theorem phase_destroy (s : TcpServer) (c d : Nat) : (s.destroy c).phase d = s.phase d := by
  apply phase_congr
  · by_cases hd : d = c
    · rw [hd, destroy_conns_self]
    · rw [destroy_conns_ne s hd]
  · rfl

end rpc.net.TcpServer
