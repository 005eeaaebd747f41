-- The server: frames that come in on any number of connections, the worker
-- pool that calls the handlers, and the loop that sends the responses. A
-- handler may give any outcome, and it runs its closure once.
import Mathlib.Logic.Function.Basic
import RpcFramework.Codec
import RpcFramework.EventLoop
import RpcFramework.TcpConnection
import RpcFramework.WireMessages

namespace rpc

open net codec runs

/-! ## The services -/

/-- What the server asks of a method descriptor: the objects that `New` makes from the
prototypes of its request and of its response. -/
structure Method (Msg : Type) where
  requestPrototype : Msg
  responsePrototype : Msg

structure Service (Msg : Type) where
  findMethodByName : String → Option (Method Msg)

/-- What `on_frame` makes of a request: a response to send at once, or a call for the pool. -/
inductive Decision (Msg : Type)
  | reply (resp : RpcResponse)
  | submit (service : Service Msg) (method : Method Msg) (request : Msg)

variable {κ Msg : Type}

/-- The response of a request that failed. -/
def failure (requestId : UInt32) (errorMsg : String) : RpcResponse where
  requestId := requestId
  success := false
  resultData := []
  errorMsg := errorMsg

/-- `on_frame` after the request was parsed. -/
def onRequest (pb : Protobuf Msg) (services : String → Option (Service Msg)) (req : RpcRequest) :
    Decision Msg :=
  match services req.serviceName with
  | none => .reply (failure req.requestId ("service not found: " ++ req.serviceName))
  | some service =>
    match service.findMethodByName req.methodName with
    | none => .reply (failure req.requestId ("method not found: " ++ req.methodName))
    | some method =>
      let parsed := pb.parse method.requestPrototype req.argsData
      if parsed.2 then .submit service method parsed.1
      else .reply (failure req.requestId "failed to parse request args")

/-- The response that `dispatch_request` builds from what the handler left. A failed
serialisation of the response message leaves an empty text. -/
def dispatchResponse (pb : Protobuf Msg) (requestId : UInt32) (controller : RpcController)
    (response : Msg) : RpcResponse :=
  if controller.failed then failure requestId controller.errText
  else
    { requestId := requestId, success := true, resultData := (pb.serialize response).getD [],
      errorMsg := "" }

/-! ## The state -/

/-- A request that was received: the how-manieth it was, its connection and its id. The number
only tells requests apart. -/
structure Ticket (κ : Type) where
  seq : Nat
  conn : κ
  requestId : UInt32
  deriving DecidableEq

/-- A task of the worker pool. -/
structure Task (κ Msg : Type) where
  ticket : Ticket κ
  service : Service Msg
  method : Method Msg
  request : Msg

/-- How far a worker is with its task: it has taken it, has called the handler, or the handler
has run its closure. -/
inductive Progress (Msg : Type)
  | taken
  | called
  | finished (controller : RpcController) (response : Msg)

/-- The handler has the call. -/
def Progress.isCalled {Msg : Type} : Progress Msg → Bool
  | .called => true
  | .taken | .finished _ _ => false

structure Running (κ Msg : Type) where
  task : Task κ Msg
  progress : Progress Msg

/-- One `Codec::send` that came through: the response, and the state that the connection was
in. -/
structure Answer (κ : Type) where
  ticket : Ticket κ
  response : RpcResponse
  state : ConnState

/-- The server. `running` are the tasks that the workers have in hand, and `handed` the bytes
that were handed to each connection. The fields after it only record what happened: the
requests that were received, the calls of handlers, the outcomes they gave, the responses that
were sent, those that found their connection not connected, and those that could not be
serialised. -/
structure Server (κ Msg : Type) where
  connState : κ → ConnState
  tasks : List (Task κ Msg)
  running : List (Running κ Msg)
  loop : EventLoop (Ticket κ × RpcResponse)
  handed : κ → Bytes
  received : List (Ticket κ × RpcRequest)
  invoked : List (Task κ Msg)
  outcomes : List (Ticket κ × RpcController × Msg)
  answered : List (Answer κ)
  dropped : List (Ticket κ × ConnState)
  refused : List (Ticket κ × RpcResponse)

namespace Server

def new : Server κ Msg where
  connState := fun _ => .kConnecting
  tasks := []
  running := []
  loop := EventLoop.new
  handed := fun _ => []
  received := []
  invoked := []
  outcomes := []
  answered := []
  dropped := []
  refused := []

/-! ## The steps -/

/-- The actions: a frame on a connection, the steps of the workers on the task at a place of
`running`, the rounds of the loop, and the changes of a connection's state by any thread. -/
inductive Act (κ Msg : Type)
  | frame (k : κ) (bytes : Bytes)
  | take
  | call (i : Nat)
  | finish (i : Nat) (controller : RpcController) (response : Msg)
  | respond (i : Nat)
  | swap
  | functor
  | setState (k : κ) (state : ConnState)

variable [DecidableEq κ]

/-- `Codec::send` on the loop thread. `TcpConnection::send` looks at the state first. -/
def send (pb : Protobuf Msg) (s : Server κ Msg) (ticket : Ticket κ) (resp : RpcResponse) :
    Server κ Msg :=
  match pb.serializeResponse resp with
  | none => { s with refused := s.refused ++ [(ticket, resp)] }
  | some body =>
    if s.connState ticket.conn = .kConnected then
      { s with
        handed := Function.update s.handed ticket.conn (s.handed ticket.conn ++ sendRaw body)
        answered := s.answered ++ [⟨ticket, resp, s.connState ticket.conn⟩] }
    else { s with dropped := s.dropped ++ [(ticket, s.connState ticket.conn)] }

/-- `on_frame`. A frame that is not a request is passed over. -/
def onFrame (pb : Protobuf Msg) (services : String → Option (Service Msg)) (s : Server κ Msg)
    (k : κ) (bytes : Bytes) : Server κ Msg :=
  match pb.parseRequest bytes with
  | none => s
  | some req =>
    let ticket : Ticket κ := ⟨s.received.length, k, req.requestId⟩
    let s := { s with received := s.received ++ [(ticket, req)] }
    match onRequest pb services req with
    | .reply resp => s.send pb ticket resp
    | .submit service method request =>
      { s with tasks := s.tasks ++ [⟨ticket, service, method, request⟩] }

omit [DecidableEq κ] in
/-- The worker with the task at place `i` goes on with it. -/
def advance (s : Server κ Msg) (i : Nat) (r : Running κ Msg) : Server κ Msg :=
  { s with running := s.running.eraseIdx i ++ [r] }

/-- The state after an action, when it can be taken. The pool has `threads` workers. -/
def step (pb : Protobuf Msg) (services : String → Option (Service Msg)) (threads : Nat)
    (s : Server κ Msg) : Act κ Msg → Option (Server κ Msg)
  | .frame k bytes =>
    if s.loop.functors = [] ∧ s.connState k ≠ .kConnecting then some (s.onFrame pb services k bytes)
    else none
  | .take =>
    match s.tasks with
    | [] => none
    | task :: rest =>
      if s.running.length < threads then
        some { s with tasks := rest, running := s.running ++ [⟨task, .taken⟩] }
      else none
  | .call i =>
    match s.running[i]? with
    | some ⟨task, .taken⟩ =>
      some { s.advance i ⟨task, .called⟩ with invoked := s.invoked ++ [task] }
    | _ => none
  | .finish i controller response =>
    match s.running[i]? with
    | some ⟨task, .called⟩ =>
      some { s.advance i ⟨task, .finished controller response⟩ with
        outcomes := s.outcomes ++ [(task.ticket, controller, response)] }
    | _ => none
  | .respond i =>
    match s.running[i]? with
    | some ⟨task, .finished controller response⟩ =>
      some { s with
        running := s.running.eraseIdx i
        loop := s.loop.queueInLoop
          (task.ticket, dispatchResponse pb task.ticket.requestId controller response) }
    | _ => none
  | .swap => s.loop.swap.map fun l => { s with loop := l }
  | .functor => s.loop.next.map fun p => { s with loop := p.2 }.send pb p.1.1 p.1.2
  | .setState k state =>
    if state = .kConnecting then none
    else some { s with connState := Function.update s.connState k state }

/-- The server as a machine. -/
def machine (pb : Protobuf Msg) (services : String → Option (Service Msg)) (threads : Nat) :
    Machine (Server κ Msg) (Act κ Msg) where
  init := new
  step := step pb services threads

end Server

/-! ## The hello service -/

/-- Both methods of the hello service take a `HelloRequest` and give a `HelloResponse`. -/
def helloService : Service Hello where
  findMethodByName name :=
    if name = "SayHello" ∨ name = "SayBye" then some ⟨.helloRequest "", .helloResponse ""⟩
    else none

/-- The services of the hello server. -/
def helloServices (name : String) : Option (Service Hello) :=
  if name = "example.HelloService" then some helloService else none

end rpc
