-- The server on its loop thread. It accepts connections and keeps them in a
-- table; it runs the handlers of their channels, and the functors that were
-- queued. A handler calls user code, and user code calls the connections
-- again, so what a call leaves for later stands on a stack.
import Mathlib.Data.Nat.Basic
import RpcFramework.Codec
import RpcFramework.Poller
import RpcFramework.TcpConnection

namespace rpc.net

open runs codec

/-! ## The state -/

/-- A callback that a connection delivers: `conn_cb_` with what `connected()` says, `msg_cb_`,
a frame that the codec takes out of the buffer, or `close_cb_`. -/
inductive Callback
  | connection (connected : Bool)
  | message
  | frame (body : Bytes)
  | close
  deriving DecidableEq

/-- A connection object. `halfClosed` tells that `SHUT_WR` was done, and `alive` that the
object was made and not yet destroyed. The last two fields only record what happened: how
often `handle_close` was run, and the callbacks in order. -/
structure Connection where
  connId : UInt64
  state : ConnState
  channel : Channel
  inputBuf : Buffer
  outputBuf : Buffer
  halfClosed : Bool
  alive : Bool
  closes : Nat
  trace : List Callback

/-- The object before it is made. -/
def Connection.blank : Connection where
  connId := 0
  state := .kConnecting
  channel := Channel.new 0
  inputBuf := Buffer.new kInitialSize
  outputBuf := Buffer.new kInitialSize
  halfClosed := false
  alive := false
  closes := 0
  trace := []

/-- What the loop thread has to do. `user` is a callback of the user that runs. The next four
are the branches of `handle_event` that are left. Then come the ends of `handle_close`, of
`connection_destroyed`, of the error branch of the codec and of `handle_write`, and the loop of
the codec. -/
inductive Task
  | user
  | handleClose (c : Nat)
  | handleError (c : Nat)
  | handleRead (c : Nat)
  | handleWrite (c : Nat)
  | closeCb (c : Nat)
  | removeChannel (c : Nat)
  | forceClose (c : Nat)
  | afterWrite (c : Nat)
  | onMessage (c : Nat)
  deriving DecidableEq

/-- The connection that a task holds. -/
def Task.conn : Task → Option Nat
  | .user => none
  | .handleClose c | .handleError c | .handleRead c | .handleWrite c | .closeCb c
  | .removeChannel c | .forceClose c | .afterWrite c | .onMessage c => some c

/-- The branches of `handle_event`. -/
def Task.isBranch : Task → Bool
  | .handleClose _ | .handleError _ | .handleRead _ | .handleWrite _ => true
  | _ => false

/-- The server, its loop and the poller. Connections are numbered in the order in which they
were accepted; `accepts` counts them. A functor in the loop is the `handle_close` that
`force_close` queues for a connection. -/
structure TcpServer where
  nextConnId : UInt64
  connections : UInt64 → Option Nat
  poller : EpollPoller Nat
  loop : EventLoop Nat
  accepts : Nat
  conns : Nat → Connection
  stack : List Task

namespace TcpServer

def new : TcpServer where
  nextConnId := 1
  connections := fun _ => none
  poller := EpollPoller.new
  loop := EventLoop.new
  accepts := 0
  conns := fun _ => Connection.blank
  stack := []

def modify (s : TcpServer) (c : Nat) (f : Connection → Connection) : TcpServer :=
  { s with conns := Function.update s.conns c (f (s.conns c)) }

/-- Tasks to do before all others. -/
def push (s : TcpServer) (ts : List Task) : TcpServer := { s with stack := ts ++ s.stack }

/-- A callback of the connection starts. -/
def deliver (s : TcpServer) (c : Nat) (callback : Callback) : TcpServer :=
  s.modify c fun k => { k with trace := k.trace ++ [callback] }

/-- An operation on the channel of a connection. -/
def onChannel (s : TcpServer) (c : Nat)
    (op : Channel → EpollPoller Nat → Channel × EpollPoller Nat) : TcpServer :=
  let r := op (s.conns c).channel s.poller
  { s.modify c fun k => { k with channel := r.1 } with poller := r.2 }

/-! ## The functions of a connection -/

/-- `handle_close`, up to the callback of the user. -/
def handleClose (s : TcpServer) (c : Nat) : TcpServer :=
  let s := s.modify c fun k => { k with state := .kDisconnected, closes := k.closes + 1 }
  let s := s.onChannel c (Channel.disableAll c)
  (s.deliver c (.connection false)).push [.user, .closeCb c]

def handleError (s : TcpServer) (c : Nat) : TcpServer := s.handleClose c

def shutdownInLoop (s : TcpServer) (c : Nat) : TcpServer :=
  if (s.conns c).channel.isWriting then s else s.modify c fun k => { k with halfClosed := true }

/-- The end of `send_in_loop`. -/
def bufferRest (s : TcpServer) (c : Nat) (rest : Bytes) : TcpServer :=
  let s := s.modify c fun k => { k with outputBuf := k.outputBuf.append rest }
  if (s.conns c).channel.isWriting then s else s.onChannel c (Channel.enableWriting c)

/-- `send_in_loop` calls `::write` itself. -/
def writesAtOnce (k : Connection) : Bool := !k.channel.isWriting && k.outputBuf.readable = 0

/-- `send_in_loop`, when `::write`, if it is called, gives `r`. -/
def sendInLoop (s : TcpServer) (c : Nat) (data : Bytes) (r : WriteResult) : TcpServer :=
  if (s.conns c).state = .kDisconnected then s
  else if writesAtOnce (s.conns c) then
    match r with
    | .error => s.handleError c
    | .wouldBlock => s.bufferRest c data
    | .count n => if n = data.length then s.push [.user] else s.bufferRest c (data.drop n)
  else s.bufferRest c data

/-- `send` on the loop thread. -/
def send (s : TcpServer) (c : Nat) (data : Bytes) (r : WriteResult) : TcpServer :=
  if (s.conns c).state ≠ .kConnected then s else s.sendInLoop c data r

def shutdown (s : TcpServer) (c : Nat) : TcpServer :=
  if (s.conns c).state = .kConnected then
    (s.modify c fun k => { k with state := .kDisconnecting }).shutdownInLoop c
  else s

def forceClose (s : TcpServer) (c : Nat) : TcpServer :=
  if (s.conns c).state = .kConnected ∨ (s.conns c).state = .kDisconnecting then
    let s := s.modify c fun k => { k with state := .kDisconnecting }
    { s with loop := s.loop.queueInLoop c }
  else s

/-- `handle_read`, when `readv` gives the bytes `r`, or an error. No bytes are the end of the
stream. -/
def handleRead (s : TcpServer) (c : Nat) (r : Option Bytes) : TcpServer :=
  match r with
  | none => s.handleError c
  | some [] => s.handleClose c
  | some data =>
    let s := s.modify c fun k => { k with inputBuf := k.inputBuf.readFd data }
    (s.deliver c .message).push [.onMessage c]

/-- `handle_write`, up to the callback of the user. -/
def handleWrite (s : TcpServer) (c : Nat) (r : WriteResult) : TcpServer :=
  if (s.conns c).channel.isWriting then
    match r with
    | .count n =>
      if h : 0 < n ∧ n ≤ (s.conns c).outputBuf.readable then
        let rest := (s.conns c).outputBuf.retrieve n h.2
        let s := s.modify c fun k => { k with outputBuf := rest }
        if rest.readable = 0 then
          (s.onChannel c (Channel.disableWriting c)).push [.user, .afterWrite c]
        else s
      else s
    | .wouldBlock | .error => s
  else s

/-- The end of `handle_write`. -/
def afterWrite (s : TcpServer) (c : Nat) : TcpServer :=
  if (s.conns c).state = .kDisconnecting then s.shutdownInLoop c else s

/-- One pass of the loop of `Codec::on_message`, up to the callback of the user. -/
def onMessage (s : TcpServer) (c : Nat) : TcpServer :=
  match pass (s.conns c).inputBuf with
  | .wait => s
  | .error _ => s.push [.user, .forceClose c]
  | .frame body rest =>
    let s := s.modify c fun k => { k with inputBuf := rest }
    (s.deliver c (.frame body)).push [.user, .onMessage c]

def connectionEstablished (s : TcpServer) (c : Nat) : TcpServer :=
  let s := s.modify c fun k => { k with state := .kConnected }
  let s := s.onChannel c (Channel.enableReading c)
  (s.deliver c (.connection true)).push [.user]

/-- `connection_destroyed`. The callback of the user runs before the channel is removed. -/
def connectionDestroyed (s : TcpServer) (c : Nat) : TcpServer :=
  if (s.conns c).state = .kConnected then
    let s := s.modify c fun k => { k with state := .kDisconnected }
    let s := s.onChannel c (Channel.disableAll c)
    (s.deliver c (.connection false)).push [.user, .removeChannel c]
  else s.onChannel c (Channel.remove c)

/-! ## The functions of the server -/

def newConnection (s : TcpServer) (sockfd : Nat) : TcpServer :=
  let id := s.nextConnId
  let c := s.accepts
  let conn := { Connection.blank with connId := id, channel := Channel.new sockfd, alive := true }
  let s := { s with
    nextConnId := id + 1
    accepts := c + 1
    conns := Function.update s.conns c conn
    connections := Function.update s.connections id (some c) }
  s.connectionEstablished c

/-- `handle_accept`, when `accept4` gives `connFd`, or an error. -/
def handleAccept (s : TcpServer) : Option Nat → TcpServer
  | none => s
  | some connFd => s.newConnection connFd

def removeConnection (s : TcpServer) (c : Nat) : TcpServer :=
  let s := { s with connections := Function.update s.connections (s.conns c).connId none }
  s.connectionDestroyed c

/-- The branches that `handle_event_with_guard` takes. -/
def branches (c : Nat) (revents : UInt32) : List Task :=
  -- a hang-up counts only when there is nothing to read
  (if revents &&& EPOLLHUP ≠ 0 ∧ revents &&& EPOLLIN = 0 then [.handleClose c] else []) ++
  (if revents &&& EPOLLERR ≠ 0 then [.handleError c] else []) ++
  (if revents &&& (EPOLLIN ||| EPOLLPRI ||| EPOLLRDHUP) ≠ 0 then [.handleRead c] else []) ++
  (if revents &&& EPOLLOUT ≠ 0 then [.handleWrite c] else [])

/-- The last pointer to the object is dropped: the destructor closes the socket. -/
def destroy (s : TcpServer) (c : Nat) : TcpServer :=
  let s := s.modify c fun k => { k with alive := false }
  { s with poller := s.poller.closeFd (s.conns c).channel.fd }

/-! ## The steps -/

/-- The actions of the loop thread. `accept` and `event` are handlers that the loop calls,
`swap` and `functor` its work on the queue, and `queuedSend` a send that another thread has
queued. `read`, `write` and `resume` go on with the first task. User code, in a callback or on
its own, calls `send`, `shutdown` and `forceClose`, and a callback ends with `returns`. -/
inductive Act
  | accept (connFd : Option Nat)
  | event (c : Nat) (revents : UInt32)
  | swap
  | functor
  | queuedSend (c : Nat) (data : Bytes) (r : WriteResult)
  | read (r : Option Bytes)
  | write (r : WriteResult)
  | resume
  | send (c : Nat) (data : Bytes) (r : WriteResult)
  | shutdown (c : Nat)
  | forceClose (c : Nat)
  | returns
  | destroy (c : Nat)

/-- No living object has the file descriptor. -/
def Fresh (s : TcpServer) (fd : Nat) : Prop :=
  ∀ c < s.accepts, (s.conns c).alive = true → (s.conns c).channel.fd ≠ fd

instance (s : TcpServer) (fd : Nat) : Decidable (s.Fresh fd) :=
  inferInstanceAs (Decidable (∀ c < s.accepts, _))

/-- The loop is about to call the next handler. -/
def polls (s : TcpServer) : Bool := s.stack.isEmpty && s.loop.functors.isEmpty

/-- User code runs. -/
def userRuns (s : TcpServer) : Bool := s.stack.isEmpty || s.stack.head? = some .user

/-- Nothing of the server holds the object any more. -/
def released (s : TcpServer) (c : Nat) : Bool :=
  s.connections (s.conns c).connId ≠ some c && c ∉ s.loop.queued &&
    s.stack.all fun t => t.conn ≠ some c

/-- The first task, when it needs no result of the kernel. -/
def runTask (s : TcpServer) : Task → Option TcpServer
  | .handleClose c => some (s.handleClose c)
  | .handleError c => some (s.handleError c)
  | .closeCb c => some ((s.deliver c .close).removeConnection c)
  | .removeChannel c => some (s.onChannel c (Channel.remove c))
  | .forceClose c => some (s.forceClose c)
  | .afterWrite c => some (s.afterWrite c)
  | .onMessage c => some (s.onMessage c)
  | .user | .handleRead _ | .handleWrite _ => none

/-- The state after an action, when it can be taken. -/
def step (s : TcpServer) : Act → Option TcpServer
  | .accept connFd =>
    if s.polls ∧ ∀ fd ∈ connFd, s.Fresh fd then some (s.handleAccept connFd) else none
  | .event c revents =>
    if s.polls ∧ (s.conns c).alive then some (s.push (branches c revents)) else none
  | .swap => if s.stack.isEmpty then s.loop.swap.map fun l => { s with loop := l } else none
  | .functor =>
    if s.stack.isEmpty then s.loop.next.map fun p => handleClose { s with loop := p.2 } p.1
    else none
  | .queuedSend c data r =>
    if s.stack.isEmpty ∧ (s.conns c).alive ∧ r.fits data.length then some (s.sendInLoop c data r)
    else none
  | .read r =>
    match s.stack with
    | .handleRead c :: rest =>
      if r.all fun data => data.length ≤ (s.conns c).inputBuf.iovTotal then
        some (handleRead { s with stack := rest } c r)
      else none
    | _ => none
  | .write r =>
    match s.stack with
    | .handleWrite c :: rest =>
      if r.fits (s.conns c).outputBuf.readable then
        some (handleWrite { s with stack := rest } c r)
      else none
    | _ => none
  | .resume =>
    match s.stack with
    | t :: rest => runTask { s with stack := rest } t
    | [] => none
  | .send c data r =>
    if s.userRuns ∧ (s.conns c).alive ∧ r.fits data.length then some (s.send c data r) else none
  | .shutdown c => if s.userRuns ∧ (s.conns c).alive then some (s.shutdown c) else none
  | .forceClose c => if s.userRuns ∧ (s.conns c).alive then some (s.forceClose c) else none
  | .returns =>
    match s.stack with
    | .user :: rest => some { s with stack := rest }
    | _ => none
  | .destroy c => if (s.conns c).alive ∧ s.released c then some (s.destroy c) else none

def machine : Machine TcpServer Act where
  init := new
  step := step

end TcpServer

end rpc.net
