-- Errors that pass. A system call on a socket may fail because it would block, or
-- because a signal came. Each of the three places that do I/O looks at the error for
-- itself: `handle_write` drops it, `send_in_loop` knows `EWOULDBLOCK` only, and
-- `handle_read` closes the connection whatever the error is.
import RpcFramework.ServerLife

namespace rpc.net

def EINTR : Nat := 4

def EAGAIN : Nat := 11

/-- On Linux the two are one number. -/
def EWOULDBLOCK : Nat := EAGAIN

/-- The error says nothing about the connection. -/
def Transient (errno : Nat) : Prop :=
  errno = EAGAIN ∨ errno = EWOULDBLOCK ∨ errno = EINTR

instance (errno : Nat) : Decidable (Transient errno) :=
  inferInstanceAs (Decidable (_ ∨ _ ∨ _))

/-- A `::write` that gave -1, as `send_in_loop` tells the errors apart. -/
def WriteResult.ofErrno (errno : Nat) : WriteResult :=
  if errno ≠ EWOULDBLOCK then .error else .wouldBlock

/-- Where a connection does I/O: in the two handlers of its channel, and in `send_in_loop`, which
`send` runs at once or which was queued by another thread. -/
inductive IoSite
  | handleRead
  | handleWrite
  | send (data : Bytes)
  | queuedSend (data : Bytes)

namespace IoSite

/-- The bytes that a send was given. -/
def data : IoSite → Bytes
  | .send data | .queuedSend data => data
  | .handleRead | .handleWrite => []

def writes : IoSite → Bool
  | .handleRead => false
  | .handleWrite | .send _ | .queuedSend _ => true

/-- The system call gives -1 with this error. -/
def fails (c errno : Nat) : IoSite → TcpServer.Act
  -- `read_fd` saves the error, and `handle_read` goes by the -1 alone
  | .handleRead => .read none
  | .handleWrite => .write (.ofErrno errno)
  | .send data => .send c data (.ofErrno errno)
  | .queuedSend data => .queuedSend c data (.ofErrno errno)

/-- What stays on the stack once the site has returned. A send is no task of its own. -/
def below (stack : List Task) : IoSite → List Task
  | .handleRead | .handleWrite => stack.tail
  | .send _ | .queuedSend _ => stack

end IoSite

namespace TcpServer

open runs

variable {s s' : TcpServer} {c errno : Nat} {site : IoSite} {data : Bytes}

/-- The connection is about to do the system call of the site. -/
def Attempts (s : TcpServer) (c : Nat) : IoSite → Prop
  | .handleRead => s.stack.head? = some (.handleRead c)
  | .handleWrite => s.stack.head? = some (.handleWrite c) ∧ (s.conns c).channel.isWriting = true
  | .send _ => (s.conns c).state = .kConnected ∧ writesAtOnce (s.conns c) = true
  | .queuedSend _ => (s.conns c).state ≠ .kDisconnected ∧ writesAtOnce (s.conns c) = true

instance (s : TcpServer) (c : Nat) (site : IoSite) : Decidable (Attempts s c site) :=
  match site with
  | .handleRead => inferInstanceAs (Decidable (_ = _))
  | .handleWrite | .send _ | .queuedSend _ => inferInstanceAs (Decidable (_ ∧ _))

/-- The attempt has changed nothing but the output buffer, which holds what the send was given
too. No callback has run, and none is left to run. -/
structure Kept (s s' : TcpServer) (c : Nat) (site : IoSite) : Prop where
  state : (s'.conns c).state = (s.conns c).state
  inputBuf : (s'.conns c).inputBuf = (s.conns c).inputBuf
  outputBuf : (s'.conns c).outputBuf.peek = (s.conns c).outputBuf.peek ++ site.data
  writing : site.writes = true → (s'.conns c).channel.isWriting = true
  trace : (s'.conns c).trace = (s.conns c).trace
  stack : s'.stack = site.below s.stack
  connections : s'.connections = s.connections

/-- The attempt has closed the connection, and its callbacks run. -/
structure Closed (s s' : TcpServer) (c : Nat) : Prop where
  state : (s'.conns c).state = .kDisconnected
  trace : (s'.conns c).trace = (s.conns c).trace ++ [.connection false]
  stack : ∃ rest, s'.stack = .user :: .closeCb c :: rest

/-- The site lets the error pass. -/
def Tolerates (errno : Nat) : IoSite → Prop
  | .handleRead => False
  | .handleWrite => True
  | .send _ | .queuedSend _ => errno ≠ EINTR

theorem Kept.not_closed (h : Kept s s' c site) : ¬ Closed s s' c := by
  intro hclosed
  have htrace := hclosed.trace
  rw [h.trace] at htrace
  simp at htrace

theorem closed_handleClose {s₁ : TcpServer} (hconns : s₁.conns = s.conns) :
    Closed s (s₁.handleClose c) c := by
  constructor
  case state => rw [handleClose_conns_self]
  case trace => rw [handleClose_conns_self, hconns]
  case stack => exact ⟨s₁.stack, handleClose_stack s₁ c⟩

theorem isWriting_enableWriting (ch : Channel) (p : EpollPoller Nat) :
    (Channel.enableWriting c ch p).1.isWriting = true := by
  have hset : (ch.events ||| kWriteEvent) &&& kWriteEvent ≠ 0 := by
    intro hzero
    have hbits := congrArg UInt32.toBitVec hzero
    rw [UInt32.toBitVec_and, UInt32.toBitVec_or, BitVec.and_or_distrib_right, BitVec.and_self]
      at hbits
    exact absurd (BitVec.or_eq_zero_iff.mp hbits).2 (by decide)
  unfold Channel.enableWriting Channel.isWriting
  rw [EpollPoller.events_updateChannel]
  exact decide_eq_true hset

/-- The object after the end of `send_in_loop`, where nothing is waiting to be written. -/
theorem bufferRest_conns_self (hidle : (s.conns c).channel.isWriting = false) (rest : Bytes) :
    (s.bufferRest c rest).conns c = { s.conns c with
      outputBuf := (s.conns c).outputBuf.append rest
      channel := ((s.conns c).channel.enableWriting c s.poller).1 } := by
  unfold bufferRest onChannel modify
  simp [hidle]

theorem bufferRest_same (s : TcpServer) (c : Nat) (rest : Bytes) :
    (s.bufferRest c rest).stack = s.stack ∧ (s.bufferRest c rest).connections = s.connections := by
  unfold bufferRest
  dsimp only
  split <;> exact ⟨rfl, rfl⟩

/-- A send that would block keeps its bytes, and waits for the socket. -/
theorem kept_bufferRest (hidle : (s.conns c).channel.isWriting = false)
    (hdata : site.data = data) (hstack : site.below s.stack = s.stack) :
    Kept s (s.bufferRest c data) c site := by
  have hself := bufferRest_conns_self hidle data
  constructor
  case state => rw [hself]
  case inputBuf => rw [hself]
  case outputBuf => rw [hself, Buffer.peek_append, hdata]
  case writing =>
    rw [hself]
    exact fun _ => isWriting_enableWriting _ _
  case trace => rw [hself]
  case stack =>
    rw [hstack]
    exact (bufferRest_same s c data).1
  case connections => exact (bufferRest_same s c data).2

/-- `send_in_loop` at its `::write`. -/
theorem sendInLoop_error (hst : (s.conns c).state ≠ .kDisconnected)
    (hw : writesAtOnce (s.conns c) = true) (he : Transient errno)
    (hdata : site.data = data) (hstack : site.below s.stack = s.stack) :
    (errno ≠ EINTR → Kept s (s.sendInLoop c data (.ofErrno errno)) c site) ∧
      (errno = EINTR → Closed s (s.sendInLoop c data (.ofErrno errno)) c) := by
  unfold sendInLoop
  rw [if_neg hst, if_pos hw]
  refine ⟨?_, ?_⟩
  · intro hint
    have hblock : errno = EWOULDBLOCK := by
      rcases he with hagain | hblock | hsignal
      · exact hagain
      · exact hblock
      · exact absurd hsignal hint
    have hidle : (s.conns c).channel.isWriting = false := by
      simp only [writesAtOnce, Bool.and_eq_true, Bool.not_eq_true'] at hw
      exact hw.1
    rw [hblock]
    exact kept_bufferRest hidle hdata hstack
  · rintro rfl
    exact closed_handleClose rfl

/-- `handle_write` drops every error. -/
theorem kept_handleWrite {rest : List Task} (hs : s.stack = .handleWrite c :: rest)
    (hw : (s.conns c).channel.isWriting = true) :
    Kept s (handleWrite { s with stack := rest } c (.ofErrno errno)) c .handleWrite := by
  have hdrop : handleWrite { s with stack := rest } c (.ofErrno errno) =
      { s with stack := rest } := by
    unfold WriteResult.ofErrno
    split <;> unfold handleWrite <;> split <;> rfl
  rw [hdrop]
  constructor
  case outputBuf => simp [IoSite.data]
  case writing => exact fun _ => hw
  case stack => simp [IoSite.below, hs]
  all_goals rfl

/-- A transient error at any of the sites, in any state: the connection is kept where the site
tolerates the error, and closed where it does not. -/
theorem transient_error (ha : Attempts s c site) (he : Transient errno)
    (hs : s.step (site.fails c errno) = some s') :
    (Tolerates errno site → Kept s s' c site) ∧ (¬ Tolerates errno site → Closed s s' c) := by
  cases site with
  | handleRead =>
    obtain ⟨rest, hstack⟩ : ∃ rest, s.stack = .handleRead c :: rest :=
      List.head?_eq_some_iff.mp ha
    simp only [IoSite.fails, step, hstack] at hs
    cases hs
    exact ⟨False.elim, fun _ => closed_handleClose rfl⟩
  | handleWrite =>
    obtain ⟨hhead, hw⟩ := ha
    obtain ⟨rest, hstack⟩ : ∃ rest, s.stack = .handleWrite c :: rest :=
      List.head?_eq_some_iff.mp hhead
    simp only [IoSite.fails, step, hstack] at hs
    split at hs
    · cases hs
      exact ⟨fun _ => kept_handleWrite hstack hw, fun hno => absurd trivial hno⟩
    · cases hs
  | send data =>
    obtain ⟨hst, hw⟩ := ha
    simp only [IoSite.fails, step] at hs
    split at hs
    · cases hs
      unfold TcpServer.send
      rw [if_neg (not_not.mpr hst)]
      have hdata : IoSite.data (.send data) = data := rfl
      obtain ⟨hkeep, hclose⟩ := sendInLoop_error (by rw [hst]; decide) hw he hdata rfl
      exact ⟨hkeep, fun hno => hclose (not_not.mp hno)⟩
    · cases hs
  | queuedSend data =>
    obtain ⟨hst, hw⟩ := ha
    simp only [IoSite.fails, step] at hs
    split at hs
    · cases hs
      have hdata : IoSite.data (.queuedSend data) = data := rfl
      obtain ⟨hkeep, hclose⟩ := sendInLoop_error hst hw he hdata rfl
      exact ⟨hkeep, fun hno => hclose (not_not.mp hno)⟩
    · cases hs

/-- A transient error leaves the connection as it is, with the bytes of a send in the output
buffer and the interest in writing on, exactly when it comes in `handle_write`, or in a send that
no signal has interrupted. -/
theorem a_transient_error_keeps_the_connection_iff (ha : Attempts s c site)
    (he : Transient errno) (hs : s.step (site.fails c errno) = some s') :
    Kept s s' c site ↔ Tolerates errno site := by
  obtain ⟨hkeep, hclose⟩ := transient_error ha he hs
  refine ⟨?_, hkeep⟩
  intro hkept
  by_contra hno
  exact hkept.not_closed (hclose hno)

/-- A send would block, and the write that follows it is interrupted by a signal. -/
theorem an_interrupted_write_keeps_the_connection :
    ∃ s s', machine.Reach s ∧ Attempts s 0 .handleWrite ∧
      s.step (IoSite.handleWrite.fails 0 EINTR) = some s' ∧ Kept s s' 0 .handleWrite := by
  have hrun : ∃ s, machine.Reach s ∧ Attempts s 0 .handleWrite ∧
      (s.step (IoSite.handleWrite.fails 0 EINTR)).isSome = true :=
    Machine.ReachUnder.of_run [.accept (some 5), .returns, .send 0 [1, 2] .wouldBlock,
      .event 0 EPOLLOUT] (by decide +kernel)
  obtain ⟨s, h, ha, hsome⟩ := hrun
  obtain ⟨s', hs⟩ := Option.isSome_iff_exists.mp hsome
  exact ⟨s, s', h, ha, hs,
    (a_transient_error_keeps_the_connection_iff ha (by decide) hs).mpr trivial⟩

/-- The kernel reports urgent data, and there is nothing to read. The connection is closed. -/
theorem a_read_that_would_block_closes_the_connection :
    ∃ s s', machine.Reach s ∧ Attempts s 0 .handleRead ∧ Transient EAGAIN ∧
      s.step (IoSite.handleRead.fails 0 EAGAIN) = some s' ∧ (s.conns 0).state = .kConnected ∧
      (s'.conns 0).state = .kDisconnected ∧ ¬ Kept s s' 0 .handleRead := by
  have hrun : ∃ s, machine.Reach s ∧ Attempts s 0 .handleRead ∧ (s.conns 0).state = .kConnected ∧
      (s.step (IoSite.handleRead.fails 0 EAGAIN)).isSome = true :=
    Machine.ReachUnder.of_run [.accept (some 5), .returns, .event 0 EPOLLPRI] (by decide +kernel)
  obtain ⟨s, h, ha, hst, hsome⟩ := hrun
  obtain ⟨s', hs⟩ := Option.isSome_iff_exists.mp hsome
  have hclosed : Closed s s' 0 := (transient_error ha (by decide) hs).2 id
  exact ⟨s, s', h, ha, by decide, hs, hst, hclosed.state, fun hkept => hkept.not_closed hclosed⟩

end TcpServer

end rpc.net
