-- The client channel: callers that run `CallMethod`, a reader thread for each
-- connection, and the owner that connects and disconnects. An action is one
-- step of one of these threads, up to its next look at shared state; a critical
-- section is one action. So a list of actions is an interleaving of the threads.
import Mathlib.Logic.Function.Basic
import RpcFramework.Framing
import RpcFramework.Runs
import RpcFramework.WireMessages

namespace rpc

open net codec runs

/-! ## The state -/

/-- What a caller passes to `CallMethod`. The closure may be absent. -/
structure CallArgs (Msg : Type) where
  service : String
  method : String
  request : Msg
  response : Msg
  controller : RpcController
  hasDone : Bool

/-- Where a `CallMethod` stands.

`refused` and `failed` are its returns after "not connected" and after "write failed". In
`writeFailed` it holds `conn_mu_` and waits for `mu_`. A call with a closure returns after its
write; a call without one is `written`, takes `mu_`, and is `waiting` in `cv.wait`. -/
inductive CallPc
  | idle | entered | refused | checked | drawn | inserted | writeFailed | failed
  | written | waiting | returned
  deriving DecidableEq

/-- How far `on_message` is with a call: it has taken it out of the table for a response, has
written the outcome, has set `done_flag`, or has finished. -/
inductive Stage
  | untouched
  | taken (resp : RpcResponse)
  | applied (resp : RpcResponse)
  | flagged (resp : RpcResponse)
  | finished (resp : RpcResponse)
  deriving DecidableEq

/-- One call and its `PendingCall`. The fields after `doneFlag` only record what happened: how
often `done` was run, the how-manieth draw of an id its own was, whether the sweep had run
when it was stored, and the stage of `on_message`. -/
structure Call (Msg : Type) where
  pc : CallPc
  requestId : UInt32
  controller : RpcController
  response : Msg
  doneFlag : Bool
  doneRuns : Nat
  ticket : Nat
  late : Bool
  stage : Stage

/-- How a reader thread left its loop. -/
inductive ExitCause
  | endOfFile | readError | badMagic | disconnected
  deriving DecidableEq

/-- Where a reader thread stands. In `closing` it has stored `connected_ = false` and waits for
`mu_` to sweep the table. -/
inductive ReaderPc (ι : Type)
  | absent
  | loop
  | reading
  | closing (cause : ExitCause)
  | parsing
  | message (frame : Bytes)
  | taken (c : ι) (resp : RpcResponse)
  | applied (c : ι) (resp : RpcResponse)
  | flagged (c : ι) (resp : RpcResponse)
  | exited (cause : ExitCause)
  deriving DecidableEq

structure Reader (ι : Type) where
  pc : ReaderPc ι
  buf : Buffer

/-- Where the owner stands: between its calls, inside `connect` with the socket it opened, or
inside `disconnect` after the exchange of `connected_`. -/
inductive OwnerPc
  | idle
  | connecting (fd : Nat)
  | closing
  deriving DecidableEq

/-- One `::write`: its call, its socket, its bytes, and the count it gave, if it did not fail. -/
structure Write (ι : Type) where
  call : ι
  fd : Option Nat
  frame : Bytes
  count : Option Nat

/-- The channel. Sockets are numbered as they are opened; `sockfd = none` is the descriptor -1.
`wire` holds the bytes that each socket has accepted. The last three fields only record what
happened: how many ids were drawn, the writes in the order of `conn_mu_`, and whether a sweep
has run. -/
structure Channel (ι Msg : Type) where
  sockfd : Option Nat
  nextRequestId : UInt32
  pendingCalls : UInt32 → Option ι
  connMu : Option ι
  connected : Bool
  calls : ι → Call Msg
  readers : Nat → Reader ι
  owner : OwnerPc
  sockets : Nat
  wire : Nat → Bytes
  drawn : Nat
  writes : List (Write ι)
  swept : Bool

variable {ι Msg : Type} [DecidableEq ι]

namespace Channel

/-- A new channel, before any of the calls `args` is made. -/
def init (args : ι → CallArgs Msg) : Channel ι Msg where
  sockfd := none
  nextRequestId := 1
  pendingCalls := fun _ => none
  connMu := none
  connected := false
  calls := fun c =>
    { pc := .idle, requestId := 0, controller := (args c).controller,
      response := (args c).response, doneFlag := false, doneRuns := 0, ticket := 0,
      late := false, stage := .untouched }
  readers := fun _ => ⟨.absent, Buffer.new kInitialSize⟩
  owner := .idle
  sockets := 0
  wire := fun _ => []
  drawn := 0
  writes := []
  swept := false

/-- The change of one call. -/
def modify (s : Channel ι Msg) (c : ι) (f : Call Msg → Call Msg) : Channel ι Msg :=
  { s with calls := Function.update s.calls c (f (s.calls c)) }

/-- The change of one reader. -/
def setReader (s : Channel ι Msg) (r : Nat) (pc : ReaderPc ι) : Channel ι Msg :=
  { s with readers := Function.update s.readers r ⟨pc, (s.readers r).buf⟩ }

end Channel

/-- `if (done) done->Run()`. -/
def Call.runDone (a : CallArgs Msg) (k : Call Msg) : Call Msg :=
  { k with doneRuns := k.doneRuns + if a.hasDone then 1 else 0 }

/-- What the sweep does to a pending call. It does not run the closure. -/
def Call.sweep (k : Call Msg) : Call Msg :=
  { k with controller := k.controller.setFailed "connection closed", doneFlag := true }

/-- The outcome that `on_message` writes. The result of `ParseFromString` is not looked at. -/
def Call.apply (pb : Protobuf Msg) (resp : RpcResponse) (k : Call Msg) : Call Msg :=
  if resp.success then { k with response := (pb.parse k.response resp.resultData).1 }
  else { k with controller := k.controller.setFailed resp.errorMsg }

/-! ## What an outcome leaves alone -/

section

variable (pb : Protobuf Msg) (resp : RpcResponse) (k : Call Msg)

@[simp]
theorem Call.apply_pc : (k.apply pb resp).pc = k.pc := by
  unfold Call.apply
  split <;> rfl

@[simp]
theorem Call.apply_requestId : (k.apply pb resp).requestId = k.requestId := by
  unfold Call.apply
  split <;> rfl

@[simp]
theorem Call.apply_doneFlag : (k.apply pb resp).doneFlag = k.doneFlag := by
  unfold Call.apply
  split <;> rfl

@[simp]
theorem Call.apply_doneRuns : (k.apply pb resp).doneRuns = k.doneRuns := by
  unfold Call.apply
  split <;> rfl

@[simp]
theorem Call.apply_ticket : (k.apply pb resp).ticket = k.ticket := by
  unfold Call.apply
  split <;> rfl

@[simp]
theorem Call.apply_late : (k.apply pb resp).late = k.late := by
  unfold Call.apply
  split <;> rfl

end

/-! ## The bytes of a request -/

/-- The `RpcRequest` that `CallMethod` builds. A failed serialisation leaves an empty text. -/
def rpcRequest (pb : Protobuf Msg) (a : CallArgs Msg) (id : UInt32) : RpcRequest where
  serviceName := a.service
  methodName := a.method
  requestId := id
  argsData := (pb.serialize a.request).getD []

def requestBody (pb : Protobuf Msg) (a : CallArgs Msg) (id : UInt32) : Bytes :=
  (pb.serializeRequest (rpcRequest pb a id)).getD []

/-- `wire` in `CallMethod`: magic number, length, body. -/
def wireBytes (body : Bytes) : Bytes :=
  htonl kMagicNumber ++ htonl (UInt32.ofNat body.length) ++ body

/-- The client and the codec frame a body in the same way. -/
theorem wireBytes_eq_sendRaw (body : Bytes) : wireBytes body = sendRaw body :=
  (sendRaw_eq body).symm

def callFrame (pb : Protobuf Msg) (a : CallArgs Msg) (id : UInt32) : Bytes :=
  wireBytes (requestBody pb a id)

/-! ## The steps -/

/-- What one `readv` gave. -/
inductive ReadvResult
  | endOfFile
  | error
  | data (bytes : Bytes)

/-- The actions of the callers, of the readers, and of the owner. A count of `none` is a failed
`::write`. -/
inductive Act (ι : Type)
  | enter (c : ι)
  | check (c : ι)
  | draw (c : ι)
  | insert (c : ι)
  | write (c : ι) (count : Option Nat)
  | failWrite (c : ι)
  | wait (c : ι)
  | wake (c : ι)
  | loopHead (r : Nat)
  | readv (r : Nat) (res : ReadvResult)
  | sweep (r : Nat)
  | parse (r : Nat)
  | take (r : Nat)
  | apply (r : Nat)
  | flag (r : Nat)
  | runDone (r : Nat)
  | socket (ok : Bool)
  | connect (ok : Bool)
  | disconnect
  | close

namespace Channel

/-- The state allows the action: its thread stands there, and the kernel may answer so. -/
def enabled (pb : Protobuf Msg) (args : ι → CallArgs Msg) (s : Channel ι Msg) : Act ι → Bool
  | .enter c => (s.calls c).pc = .idle
  | .check c => (s.calls c).pc = .entered
  | .draw c => (s.calls c).pc = .checked
  | .insert c => (s.calls c).pc = .drawn
  | .write c count => (s.calls c).pc = .inserted && s.connMu.isNone &&
      match count with
      | some n => s.sockfd.isSome && n ≤ (callFrame pb (args c) (s.calls c).requestId).length
      | none => true
  | .failWrite c => (s.calls c).pc = .writeFailed
  | .wait c => (s.calls c).pc = .written
  | .wake c => (s.calls c).pc = .waiting && (s.calls c).doneFlag
  | .loopHead r => (s.readers r).pc = .loop
  | .readv r res => (s.readers r).pc = .reading &&
      match res with
      | .data bytes => s.sockfd.isSome && bytes ≠ [] && bytes.length ≤ (s.readers r).buf.iovTotal
      | .endOfFile => s.sockfd.isSome
      | .error => true
  | .sweep r => match (s.readers r).pc with | .closing _ => true | _ => false
  | .parse r => (s.readers r).pc = .parsing
  | .take r => match (s.readers r).pc with | .message _ => true | _ => false
  | .apply r => match (s.readers r).pc with | .taken _ _ => true | _ => false
  | .flag r => match (s.readers r).pc with | .applied _ _ => true | _ => false
  | .runDone r => match (s.readers r).pc with | .flagged _ _ => true | _ => false
  | .socket _ => s.owner = .idle
  | .connect _ => match s.owner with | .connecting _ => true | _ => false
  | .disconnect => s.owner = .idle
  | .close => s.owner = .closing

/-- The state after an action that `enabled` allows. -/
def effect (pb : Protobuf Msg) (args : ι → CallArgs Msg) (s : Channel ι Msg) :
    Act ι → Channel ι Msg
  | .enter c => s.modify c fun k => { k with pc := .entered }
  | .check c =>
    if s.connected then s.modify c fun k => { k with pc := .checked }
    else s.modify c fun k => Call.runDone (args c)
      { k with pc := .refused, controller := k.controller.setFailed "not connected" }
  | .draw c =>
    { s.modify c fun k =>
        { k with pc := .drawn, requestId := s.nextRequestId, ticket := s.drawn } with
      nextRequestId := s.nextRequestId + 1
      drawn := s.drawn + 1 }
  | .insert c =>
    { s.modify c fun k => { k with pc := .inserted, late := s.swept } with
      pendingCalls := Function.update s.pendingCalls (s.calls c).requestId (some c) }
  | .write c count =>
    let frame := callFrame pb (args c) (s.calls c).requestId
    match s.sockfd, count with
    | some fd, some n =>
      { s.modify c fun k =>
          { k with pc := if (args c).hasDone then .returned else .written } with
        wire := Function.update s.wire fd (s.wire fd ++ frame.take n)
        writes := s.writes ++ [⟨c, some fd, frame, some n⟩] }
    | fd, _ =>
      { s.modify c fun k => { k with pc := .writeFailed } with
        connMu := some c
        writes := s.writes ++ [⟨c, fd, frame, none⟩] }
  | .failWrite c =>
    { s.modify c fun k => Call.runDone (args c)
        { k with pc := .failed, controller := k.controller.setFailed "write failed" } with
      pendingCalls := Function.update s.pendingCalls (s.calls c).requestId none
      connMu := none }
  | .wait c => s.modify c fun k => { k with pc := if k.doneFlag then .returned else .waiting }
  | .wake c => s.modify c fun k => { k with pc := .returned }
  | .loopHead r => s.setReader r (if s.connected then .reading else .exited .disconnected)
  | .readv r res =>
    match res with
    | .data bytes =>
      { s with readers := Function.update s.readers r ⟨.parsing, (s.readers r).buf.readFd bytes⟩ }
    | .endOfFile => { s.setReader r (.closing .endOfFile) with connected := false }
    | .error => { s.setReader r (.closing .readError) with connected := false }
  | .sweep r =>
    match (s.readers r).pc with
    | .closing cause =>
      -- the entries of the table are the calls that stand in it under their own id
      { s.setReader r (.exited cause) with
        calls := fun c =>
          if s.pendingCalls (s.calls c).requestId = some c then (s.calls c).sweep else s.calls c
        swept := true }
    | _ => s
  | .parse r =>
    match RpcChannel.readerPass (s.readers r).buf with
    | .wait => s.setReader r .loop
    | .error _ => { s.setReader r (.exited .badMagic) with connected := false }
    | .frame body rest =>
      { s with readers := Function.update s.readers r ⟨.message body, rest⟩ }
  | .take r =>
    match (s.readers r).pc with
    | .message frame =>
      match pb.parseResponse frame with
      | none => s.setReader r .parsing
      | some resp =>
        match s.pendingCalls resp.requestId with
        | none => s.setReader r .parsing
        | some c =>
          { (s.modify c fun k => { k with stage := .taken resp }).setReader r (.taken c resp) with
            pendingCalls := Function.update s.pendingCalls resp.requestId none }
    | _ => s
  | .apply r =>
    match (s.readers r).pc with
    | .taken c resp =>
      (s.modify c fun k => { k.apply pb resp with stage := .applied resp }).setReader r
        (.applied c resp)
    | _ => s
  | .flag r =>
    match (s.readers r).pc with
    | .applied c resp =>
      (s.modify c fun k => { k with doneFlag := true, stage := .flagged resp }).setReader r
        (.flagged c resp)
    | _ => s
  | .runDone r =>
    match (s.readers r).pc with
    | .flagged c resp =>
      (s.modify c fun k => Call.runDone (args c) { k with stage := .finished resp }).setReader r
        .parsing
    | _ => s
  | .socket ok =>
    if ok then
      { s with sockfd := some s.sockets, sockets := s.sockets + 1, owner := .connecting s.sockets }
    else { s with sockfd := none }
  | .connect ok =>
    match s.owner with
    | .connecting fd =>
      if ok then
        { s with
          connected := true
          readers := Function.update s.readers fd ⟨.loop, Buffer.new kInitialSize⟩
          owner := .idle }
      else { s with sockfd := none, owner := .idle }
    | _ => s
  | .disconnect => if s.connected then { s with connected := false, owner := .closing } else s
  | .close => { s with sockfd := none, owner := .idle }

/-- The channel as a machine. -/
def machine (pb : Protobuf Msg) (args : ι → CallArgs Msg) :
    Machine (Channel ι Msg) (Act ι) where
  init := init args
  step s a := if s.enabled pb args a then some (s.effect pb args a) else none

variable {pb : Protobuf Msg} {args : ι → CallArgs Msg} {s s' : Channel ι Msg} {a : Act ι}

theorem step_iff : (machine pb args).step s a = some s' ↔
    s.enabled pb args a = true ∧ s.effect pb args a = s' := by
  simp [machine]

end Channel

/-- The call that the hello client makes. It passes no closure. -/
def sayHello (hasDone : Bool) : CallArgs Hello where
  service := "example.HelloService"
  method := "SayHello"
  request := .helloRequest "World"
  response := .helloResponse ""
  controller := .new
  hasDone := hasDone

end rpc
