-- The server with the thread pool and the event loop that it really has: the mutex
-- and the condition variable of the pool, the calls of `submit` step by step, the
-- queue and the eventfd of the loop, and every interleaving of the loop thread and
-- the workers. It is shown as the server that has a queue of tasks and a loop.
import Mathlib.Data.Fintype.Card
import RpcFramework.LoopTurns
import RpcFramework.PoolTasks
import RpcFramework.ServerShare

namespace rpc

open net codec runs

/-! ## The state -/

/-- The threads: the loop thread, the workers, and one that may ask the loop to quit. -/
inductive ServerThread (n : Nat)
  | loop
  | worker (w : Fin n)
  | other
  deriving DecidableEq

/-- A functor of the loop: the response that `dispatch_request` sends, or another one. -/
inductive ServerFunctor (κ : Type)
  | send (ticket : Ticket κ) (resp : RpcResponse)
  | other

def ServerFunctor.response {κ : Type} : ServerFunctor κ → Option (Ticket κ × RpcResponse)
  | .send ticket resp => some (ticket, resp)
  | .other => none

/-- A call of `submit` that `on_frame` makes, with what the closure of its task captures. `call`
numbers the calls. -/
structure Submission (κ Msg : Type) where
  call : Nat
  conn : κ
  bytes : Bytes
  req : RpcRequest
  service : Service Msg
  method : Method Msg
  request : Msg

/-- The server. `closures` are the tasks of the calls of `submit` that have pushed, in order, and
`jobs` the tasks that the workers have in hand, in the order in which they went on with them. The
fields `tasks`, `running` and `loop` of `base` are not used. -/
structure ServerThreads (κ Msg : Type) (n : Nat) where
  base : Server κ Msg
  pool : ThreadPool n Nat
  loop : LoopThreads (ServerThread n) (ServerFunctor κ)
  submitting : Option (Submission κ Msg)
  closures : List (Task κ Msg)
  jobs : List (Fin n × Running κ Msg)

namespace ServerThreads

variable {κ Msg : Type} {n : Nat}

def new : ServerThreads κ Msg n where
  base := Server.new
  pool := ThreadPool.new
  loop := LoopThreads.new
  submitting := none
  closures := []
  jobs := []

/-! ## The steps -/

/-- The actions: a frame that the codec hands to `on_frame`, the steps of the pool and of the
loop, those of the workers in `dispatch_request`, on the task at a place of `jobs`, and the changes
of a connection's state. -/
inductive Act (κ Msg : Type) (n : Nat)
  | frame (k : κ) (bytes : Bytes)
  | pool (a : ThreadPool.Act n Nat)
  | loop (a : LoopThreads.Act (ServerThread n) (ServerFunctor κ))
  | call (i : Nat)
  | finish (i : Nat) (controller : RpcController) (response : Msg)
  | respond (i : Nat)
  | setState (k : κ) (state : ConnState)

/-- The call of `submit` that `on_frame` makes for a frame, if it makes one. -/
def submission (pb : Protobuf Msg) (services : String → Option (Service Msg))
    (s : ServerThreads κ Msg n) (k : κ) (bytes : Bytes) : Option (Submission κ Msg) :=
  (pb.parseRequest bytes).bind fun req =>
    match onRequest pb services req with
    | .reply _ => none
    | .submit service method request =>
      some ⟨s.closures.length, k, bytes, req, service, method, request⟩

/-- The loop thread runs the handler of a channel. -/
def handles (s : ServerThreads κ Msg n) : Bool :=
  match s.loop.pc with
  | .inHandler _ => true
  | _ => false

/-- The calls of `submit` are those of `on_frame`, a worker finishes its task when it has queued
the response and has woken the loop, and the pool is not destroyed while the server runs. -/
def poolAllowed (s : ServerThreads κ Msg n) : ThreadPool.Act n Nat → Bool
  | .submitLock c | .submitTest c | .push c | .submitUnlock c | .notifyOne c _ =>
    s.submitting.any fun sub => sub.call = c
  | .finish w => w ∉ s.jobs.map (·.1) && s.loop.threads (.worker w) = .idle
  | .store | .notifyAll | .join => false
  | _ => true

/-- A response is queued by `dispatch_request` only, and the loop thread does nothing else while
it is inside `submit`. -/
def loopAllowed (s : ServerThreads κ Msg n) :
    LoopThreads.Act (ServerThread n) (ServerFunctor κ) → Bool
  | .push t f => f.response.isNone && (t ≠ .loop || s.submitting.isNone)
  | .quit t => t ≠ .loop || s.submitting.isNone
  | .handlerReturns => s.submitting.isNone
  | _ => true

variable [DecidableEq κ]

/-- What a step of the pool does besides: the push appends the closure, a worker that takes a task
has it in hand, and `submit` returns when it has notified. -/
def afterPool (s : ServerThreads κ Msg n) (a : ThreadPool.Act n Nat) (pool : ThreadPool n Nat) :
    ServerThreads κ Msg n :=
  let s' := { s with pool := pool }
  match a with
  | .push _ =>
    match s.submitting with
    | some sub =>
      let ticket : Ticket κ := ⟨s.base.received.length, sub.conn, sub.req.requestId⟩
      { s' with
        base := { s.base with received := s.base.received ++ [(ticket, sub.req)] }
        closures := s.closures ++ [⟨ticket, sub.service, sub.method, sub.request⟩] }
    | none => s'
  | .pick w =>
    match s.pool.tasks.head?.bind fun c => s.closures[c]? with
    | some task => { s' with jobs := s.jobs ++ [(w, ⟨task, .taken⟩)] }
    | none => s'
  | .notifyOne _ _ => { s' with submitting := none }
  | _ => s'

/-- What a step of the loop does besides: a response is sent when its functor runs. -/
def afterLoop (pb : Protobuf Msg) (s : ServerThreads κ Msg n)
    (a : LoopThreads.Act (ServerThread n) (ServerFunctor κ))
    (loop : LoopThreads (ServerThread n) (ServerFunctor κ)) : ServerThreads κ Msg n :=
  match a, s.loop.pc with
  | .functorReturns, .inFunctor (.send ticket resp) =>
    { s with base := s.base.send pb ticket resp, loop := loop }
  | _, _ => { s with loop := loop }

/-- The state after an action, when it can be taken. -/
def step (pb : Protobuf Msg) (services : String → Option (Service Msg))
    (s : ServerThreads κ Msg n) : Act κ Msg n → Option (ServerThreads κ Msg n)
  | .frame k bytes =>
    if s.handles ∧ s.submitting.isNone ∧ s.loop.threads .loop = .idle ∧
        s.base.connState k ≠ .kConnecting then
      match s.submission pb services k bytes with
      | some sub => some { s with submitting := some sub }
      | none => some { s with base := s.base.onFrame pb services k bytes }
    else none
  | .pool a => if s.poolAllowed a then (s.pool.step a).map (s.afterPool a) else none
  | .loop a => if s.loopAllowed a then (s.loop.step .loop a).map (s.afterLoop pb a) else none
  | .call i =>
    match s.jobs[i]? with
    | some (w, ⟨task, .taken⟩) =>
      -- the worker has released the lock
      if (s.pool.workers w).locks then none
      else some { s with
        jobs := s.jobs.eraseIdx i ++ [(w, ⟨task, .called⟩)]
        base := { s.base with invoked := s.base.invoked ++ [task] } }
    | _ => none
  | .finish i controller response =>
    match s.jobs[i]? with
    | some (w, ⟨task, .called⟩) =>
      some { s with
        jobs := s.jobs.eraseIdx i ++ [(w, ⟨task, .finished controller response⟩)]
        base := { s.base with
          outcomes := s.base.outcomes ++ [(task.ticket, controller, response)] } }
    | _ => none
  | .respond i =>
    match s.jobs[i]? with
    | some (w, ⟨task, .finished controller response⟩) =>
      (s.loop.step .loop (.push (.worker w) (.send task.ticket
        (dispatchResponse pb task.ticket.requestId controller response)))).map fun loop =>
          { s with loop := loop, jobs := s.jobs.eraseIdx i }
    | _ => none
  | .setState k state =>
    if state = .kConnecting then none
    else some { s with base := { s.base with connState := Function.update s.base.connState k state } }

/-- The server with its threads as a machine. -/
def machine (pb : Protobuf Msg) (services : String → Option (Service Msg)) :
    Machine (ServerThreads κ Msg n) (Act κ Msg n) where
  init := new
  step := step pb services

/-! ## What is shown of it -/

omit [DecidableEq κ] in
/-- The responses that wait in the loop. The functor that runs counts as one that waits. -/
def responses (l : LoopThreads (ServerThread n) (ServerFunctor κ)) :
    EventLoop (Ticket κ × RpcResponse) where
  pendingFunctors := l.queue.pendingFunctors.filterMap ServerFunctor.response
  functors := (l.pc.current ++ l.queue.functors).filterMap ServerFunctor.response

omit [DecidableEq κ] in
/-- The server as it is without locks: the queue of the pool, the tasks in hand, and the responses
that wait in the loop. -/
def view (s : ServerThreads κ Msg n) : Server κ Msg :=
  { s.base with
    tasks := s.pool.tasks.filterMap fun c => s.closures[c]?
    running := s.jobs.map (·.2)
    loop := responses s.loop }

/-- The action as which an action is shown. A frame is shown when its task is pushed, and a
response is sent when its functor returns. -/
def shown (pb : Protobuf Msg) (services : String → Option (Service Msg))
    (s : ServerThreads κ Msg n) : Act κ Msg n → Option (Server.Act κ Msg)
  | .frame k bytes =>
    if (s.submission pb services k bytes).isSome then none else some (.frame k bytes)
  | .pool (.push _) => s.submitting.map fun sub => .frame sub.conn sub.bytes
  | .pool (.pick _) => (s.pool.tasks.head?.bind fun c => s.closures[c]?).map fun _ => .take
  | .pool _ => none
  | .loop .swap => some .swap
  | .loop .functorReturns => (s.loop.pc.current.filterMap ServerFunctor.response).head?.map
      fun _ => .functor
  | .loop _ => none
  | .call i => some (.call i)
  | .finish i controller response => some (.finish i controller response)
  | .respond i => some (.respond i)
  | .setState k state => some (.setState k state)

/-! ## The loop -/

section Loop

variable {l l' : LoopThreads (ServerThread n) (ServerFunctor κ)}
  {a : LoopThreads.Act (ServerThread n) (ServerFunctor κ)}

open LoopThreads in
omit [DecidableEq κ] in
/-- A step that neither pushes a response, nor swaps, nor ends a functor, changes no responses. -/
theorem responses_same (hm : LoopThreads.Move .loop l a l')
    (hpush : ∀ t f, a = .push t f → f.response = none) (hswap : a ≠ .swap)
    (hreturns : a ≠ .functorReturns) : responses l' = responses l := by
  unfold responses
  cases hm with
  | push t f _ _ => simp [EventLoop.queueInLoop, setThread, hpush t f rfl]
  | wake t _ _ => rw [wakeup_eq]; rfl
  | skip t _ _ _ => rfl
  | quit t _ _ => rfl
  | wakeQuit t _ => rw [wakeup_eq]; rfl
  | skipQuit t _ => rfl
  | swap _ _ _ => exact absurd rfl hswap
  | functorReturns f _ _ => exact absurd rfl hreturns
  | next f q hpc hq =>
    rw [hpc, EventLoop.pendingFunctors_next hq, EventLoop.functors_next hq]
    rfl
  | enter hpc _ => rw [hpc]; rfl
  | leave hpc _ => rw [hpc]; rfl
  | turn hpc _ => rw [hpc]; rfl
  | poll ready hpc => rw [hpc]; rfl
  | handleRead ready hpc => rw [hpc]; rfl
  | handle ready hpc => rw [hpc]; rfl
  | handlerReturns ready hpc _ => rw [hpc]; rfl
  | storeCalling hpc => rw [hpc]; rfl
  | clearCalling hpc _ => rw [hpc]; rfl

open LoopThreads in
omit [DecidableEq κ] in
theorem responses_swap (hm : LoopThreads.Move .loop l .swap l') :
    (responses l).swap = some (responses l') := by
  cases hm with
  | swap q hpc hq =>
    have hempty := EventLoop.functors_of_swap hq
    unfold EventLoop.swap at hq
    split at hq
    · cases hq
      simp [responses, EventLoop.swap, hpc, hempty, LoopPc.current]
    · cases hq

omit [DecidableEq κ] in
/-- The loop thread leaves the handler by the return of the handler only. -/
theorem handler_stays (hm : LoopThreads.Move .loop l a l') (ha : a ≠ .handlerReturns)
    {ready : List ReadyChannel} (hpc : l.pc = .inHandler ready) : l'.pc = .inHandler ready := by
  cases hm with
  | wake t _ _ => rw [LoopThreads.wakeup_eq]; exact hpc
  | wakeQuit t _ => rw [LoopThreads.wakeup_eq]; exact hpc
  | push t f _ _ => exact hpc
  | skip t _ _ _ => exact hpc
  | quit t _ _ => exact hpc
  | skipQuit t _ => exact hpc
  | handlerReturns ready _ _ => exact absurd rfl ha
  | enter h _ => rw [h] at hpc; cases hpc
  | leave h _ => rw [h] at hpc; cases hpc
  | turn h _ => rw [h] at hpc; cases hpc
  | poll ready h => rw [h] at hpc; cases hpc
  | handleRead ready h => rw [h] at hpc; cases hpc
  | handle ready h => rw [h] at hpc; cases hpc
  | storeCalling h => rw [h] at hpc; cases hpc
  | swap q h _ => rw [h] at hpc; cases hpc
  | next f q h _ => rw [h] at hpc; cases hpc
  | functorReturns f h _ => rw [h] at hpc; cases hpc
  | clearCalling h _ => rw [h] at hpc; cases hpc

end Loop

/-! ## What holds in every state -/

variable {pb : Protobuf Msg} {services : String → Option (Service Msg)}
  {s s' : ServerThreads κ Msg n} {a : Act κ Msg n}

/-- What `on_frame` knows of a frame while it is inside `submit`. -/
structure Submitting (pb : Protobuf Msg) (services : String → Option (Service Msg))
    (s : ServerThreads κ Msg n) (sub : Submission κ Msg) : Prop where
  handles : ∃ ready, s.loop.pc = .inHandler ready
  opened : s.base.connState sub.conn ≠ .kConnecting
  parsed : pb.parseRequest sub.bytes = some sub.req
  decided : onRequest pb services sub.req = .submit sub.service sub.method sub.request
  call : (s.pool.submits sub.call).hasPushed = false → sub.call = s.closures.length

/-- Each task of the pool has a closure, and each task in hand has a worker of its own. -/
structure Kept (pb : Protobuf Msg) (services : String → Option (Service Msg))
    (s : ServerThreads κ Msg n) : Prop where
  drained : s.loop.Drained
  known : ∀ c ∈ s.pool.tasks, c < s.closures.length
  hands : ∀ p ∈ s.jobs, (s.pool.workers p.1).hand.isSome = true
  apart : (s.jobs.map (·.1)).Nodup
  submitting : ∀ sub, s.submitting = some sub → Submitting pb services s sub

omit [DecidableEq κ] in
/-- A submission is what `on_frame` finds in the frame. -/
theorem submission_some {k : κ} {bytes : Bytes} {sub : Submission κ Msg}
    (h : s.submission pb services k bytes = some sub) :
    sub.call = s.closures.length ∧ sub.conn = k ∧ sub.bytes = bytes ∧
      pb.parseRequest bytes = some sub.req ∧
      onRequest pb services sub.req = .submit sub.service sub.method sub.request := by
  obtain ⟨req, hparse, hsub⟩ := Option.bind_eq_some_iff.mp h
  split at hsub
  · cases hsub
  · cases hsub
    exact ⟨rfl, rfl, rfl, hparse, ‹_›⟩

/-- What `Codec::send` does is the same whatever the server holds. -/
theorem send_with (b : Server κ Msg) (tasks : List (Task κ Msg)) (running : List (Running κ Msg))
    (loop : EventLoop (Ticket κ × RpcResponse)) (ticket : Ticket κ) (resp : RpcResponse) :
    ({ b with tasks := tasks, running := running, loop := loop } : Server κ Msg).send pb ticket
      resp = { b.send pb ticket resp with tasks := tasks, running := running, loop := loop } := by
  unfold Server.send
  split
  · rfl
  · dsimp only
    split <;> rfl

/-- A frame without a submission leaves the queue of the pool as it is. -/
theorem onFrame_base {k : κ} {bytes : Bytes} (h : s.submission pb services k bytes = none) :
    s.view.onFrame pb services k bytes =
      ({ s with base := s.base.onFrame pb services k bytes } : ServerThreads κ Msg n).view := by
  unfold Server.onFrame
  cases hparse : pb.parseRequest bytes with
  | none => rfl
  | some req =>
    dsimp only
    cases hreq : onRequest pb services req with
    | reply resp =>
      exact send_with { s.base with received := s.base.received ++
        [(⟨s.base.received.length, k, req.requestId⟩, req)] } _ _ _ _ _
    | submit service method request =>
      simp [submission, hparse, hreq] at h

/-! ## The steps, and what is shown of them -/

omit [DecidableEq κ] in
theorem functors_of_handler (h : Kept pb services s) {ready : List ReadyChannel}
    (hpc : s.loop.pc = .inHandler ready) : s.view.loop.functors = [] := by
  have hempty := h.drained (by rw [hpc]; rfl)
  simp [view, responses, hpc, hempty, LoopPc.current]

/-- `on_frame`, up to its call of `submit`. -/
theorem frame_view (h : Kept pb services s) {k : κ} {bytes : Bytes}
    (hs : step pb services s (.frame k bytes) = some s') : Kept pb services s' ∧
      (Server.machine pb services n).stepOrStay s.view (shown pb services s (.frame k bytes)) =
        some s'.view := by
  simp only [step] at hs
  split at hs
  · rename_i hready
    obtain ⟨hhandles, hnone, -, hopen⟩ := hready
    obtain ⟨ready, hpc⟩ : ∃ ready, s.loop.pc = .inHandler ready := by
      unfold handles at hhandles
      split at hhandles
      · exact ⟨_, ‹_›⟩
      · cases hhandles
    split at hs
    · rename_i sub hsub
      cases hs
      obtain ⟨hcall, rfl, rfl, hparse, hreq⟩ := submission_some hsub
      refine ⟨⟨h.drained, h.known, h.hands, h.apart, ?_⟩, ?_⟩
      · intro sub' hsub'
        cases hsub'
        exact ⟨⟨ready, hpc⟩, hopen, hparse, hreq, fun _ => hcall⟩
      · simp only [shown, hsub, Option.isSome_some, if_true, Machine.stepOrStay]
        rfl
    · rename_i hsub
      cases hs
      refine ⟨⟨h.drained, h.known, h.hands, h.apart, ?_⟩, ?_⟩
      · intro sub hsub
        rw [show s.submitting = some sub from hsub] at hnone
        cases hnone
      · have hstate : s.view.connState k ≠ .kConnecting := hopen
        simp only [shown, hsub, Option.isSome_none, Bool.false_eq_true, if_false,
          Machine.stepOrStay, Server.machine, Server.step, functors_of_handler h hpc, hstate,
          ne_eq, not_false_eq_true, and_self, if_true, onFrame_base hsub]
  · cases hs

omit [DecidableEq κ] in
/-- A step of the pool that brings no task and takes none. -/
theorem pool_quiet (h : Kept pb services s) (pool : ThreadPool n Nat)
    (submitting : Option (Submission κ Msg)) (htasks : pool.tasks = s.pool.tasks)
    (hhands : ∀ p ∈ s.jobs, (pool.workers p.1).hand = (s.pool.workers p.1).hand)
    (hpushed : ∀ c, (pool.submits c).hasPushed = (s.pool.submits c).hasPushed)
    (hsub : submitting = s.submitting ∨ submitting = none) :
    Kept pb services { s with pool := pool, submitting := submitting } ∧
      ({ s with pool := pool, submitting := submitting } : ServerThreads κ Msg n).view =
        s.view := by
  refine ⟨⟨h.drained, ?_, ?_, h.apart, ?_⟩, ?_⟩
  · rw [htasks]
    exact h.known
  · intro p hp
    rw [hhands p hp]
    exact h.hands p hp
  · intro sub hsome
    rcases hsub with rfl | rfl
    · obtain ⟨h1, h2, h3, h4, h5⟩ := h.submitting sub hsome
      refine ⟨h1, h2, h3, h4, ?_⟩
      rw [hpushed]
      exact h5
    · cases hsome
  · simp only [view, htasks]

/-- A task that is pushed is a request that is received. -/
theorem push_view (h : Kept pb services s) {sub : Submission κ Msg}
    (hsub : s.submitting = some sub) (hc : s.pool.submits sub.call = .checked)
    {pool : ThreadPool n Nat} (hpool : pool = { s.pool.setSubmit sub.call .pushed with
      tasks := s.pool.tasks ++ [sub.call], submitted := s.pool.submitted ++ [sub.call] }) :
    Kept pb services (s.afterPool (.push sub.call) pool) ∧
      (Server.machine pb services n).step s.view (.frame sub.conn sub.bytes) =
        some (s.afterPool (.push sub.call) pool).view := by
  obtain ⟨⟨ready, hpc⟩, hopen, hparse, hreq, hnumber⟩ := h.submitting sub hsub
  have hcall : sub.call = s.closures.length := hnumber (by rw [hc]; rfl)
  have hfunctors := functors_of_handler h hpc
  subst hpool
  simp only [afterPool, hsub]
  refine ⟨⟨h.drained, ?_, h.hands, h.apart, ?_⟩, ?_⟩
  · intro c hcmem
    rw [List.length_append, List.length_singleton]
    rcases List.mem_append.mp hcmem with hold | hnew
    · exact Nat.lt_succ_of_lt (h.known c hold)
    · rw [List.mem_singleton.mp hnew, hcall]
      exact Nat.lt_succ_self _
  · intro sub' hsub'
    obtain rfl : sub = sub' := Option.some.inj hsub'
    refine ⟨⟨ready, hpc⟩, hopen, hparse, hreq, ?_⟩
    intro hpushed
    simp [ThreadPool.setSubmit, SubmitPc.hasPushed] at hpushed
  · -- the closures of the tasks that wait stay where they are
    have hsame : (s.pool.tasks ++ [sub.call]).filterMap (fun c => (s.closures ++
        [(⟨⟨s.base.received.length, sub.conn, sub.req.requestId⟩, sub.service, sub.method,
          sub.request⟩ : Task κ Msg)])[c]?) = s.view.tasks ++
        [⟨⟨s.base.received.length, sub.conn, sub.req.requestId⟩, sub.service, sub.method,
          sub.request⟩] := by
      rw [List.filterMap_append]
      refine congrArg₂ _ (List.filterMap_congr fun c hcmem => ?_) ?_
      · rw [List.getElem?_append_left (h.known c hcmem)]
      · simp [hcall]
    have hstate : s.view.connState sub.conn ≠ .kConnecting := hopen
    simp only [Server.machine, Server.step, hfunctors, hstate, ne_eq, not_false_eq_true, and_self,
      if_true, Server.onFrame, hparse, hreq, Option.some.injEq]
    simp only [view, hsame]

omit [DecidableEq κ] in
/-- A worker that has no task in hand is not at work. -/
theorem Kept.free (h : Kept pb services s) {w : Fin n} (hw : (s.pool.workers w).hand = none) :
    w ∉ s.jobs.map (·.1) := by
  intro hmem
  obtain ⟨p, hp, rfl⟩ := List.mem_map.mp hmem
  have := h.hands p hp
  rw [hw] at this
  cases this

/-- A worker takes the task at the front of the queue. -/
theorem take_view (h : Kept pb services s) {w : Fin n} (hw : s.pool.workers w = .passed) {c : Nat}
    {rest : List Nat} (htasks : s.pool.tasks = c :: rest) {pool : ThreadPool n Nat}
    (hpool : pool = { s.pool.setWorker w (.holding c) with
      tasks := rest, taken := s.pool.taken ++ [c] }) :
    Kept pb services (s.afterPool (.pick w) pool) ∧
      (Server.machine pb services n).stepOrStay s.view (s.shown pb services (.pool (.pick w))) =
        some (s.afterPool (.pick w) pool).view := by
  have hknown := h.known c (by rw [htasks]; exact List.mem_cons_self)
  have hfree := h.free (w := w) (by rw [hw]; rfl)
  obtain ⟨task, htask⟩ : ∃ task, s.closures[c]? = some task :=
    ⟨_, List.getElem?_eq_getElem hknown⟩
  have hhead : (s.pool.tasks.head?.bind fun c => s.closures[c]?) = some task := by
    rw [htasks]
    exact htask
  subst hpool
  simp only [afterPool, hhead, shown, Option.map_some, Machine.stepOrStay]
  refine ⟨⟨h.drained, ?_, ?_, ?_, ?_⟩, ?_⟩
  · intro c' hc'
    exact h.known c' (by rw [htasks]; exact List.mem_cons_of_mem _ hc')
  · intro p hp
    rcases List.mem_append.mp hp with hold | hnew
    · have hne : p.1 ≠ w := by
        rintro rfl
        exact hfree (List.mem_map.mpr ⟨p, hold, rfl⟩)
      simp only [ThreadPool.setWorker, Function.update_of_ne hne]
      exact h.hands p hold
    · rw [List.mem_singleton.mp hnew]
      simp [ThreadPool.setWorker, WorkerPc.hand]
  · rw [List.map_append]
    exact h.apart.append (List.nodup_singleton _) (by simpa using hfree)
  · intro sub hsub
    obtain ⟨h1, h2, h3, h4, h5⟩ := h.submitting sub hsub
    exact ⟨h1, h2, h3, h4, h5⟩
  · have hlt : s.view.running.length < n := by
      have hnodup : (w :: s.jobs.map (·.1)).Nodup := List.nodup_cons.mpr ⟨hfree, h.apart⟩
      have hle := hnodup.length_le_card
      rw [Fintype.card_fin, List.length_cons, List.length_map] at hle
      rw [view, List.length_map]
      exact hle
    have hview : s.view.tasks = task :: rest.filterMap fun c => s.closures[c]? := by
      simp [view, htasks, htask]
    simp only [Server.machine, Server.step, hview, hlt, if_true, Option.some.injEq]
    simp [view]

/-- A step of the pool that moves no task is not shown. -/
theorem pool_none (h : Kept pb services s) {a : ThreadPool.Act n Nat} {pool : ThreadPool n Nat}
    (hsame : ThreadPool.SameTasks s.pool pool) {submitting : Option (Submission κ Msg)}
    (hsub : submitting = s.submitting ∨ submitting = none)
    (hafter : s.afterPool a pool = { s with pool := pool, submitting := submitting })
    (hshown : s.shown pb services (.pool a) = none) :
    Kept pb services (s.afterPool a pool) ∧
      (Server.machine pb services n).stepOrStay s.view (s.shown pb services (.pool a)) =
        some (s.afterPool a pool).view := by
  obtain ⟨hkept, hview⟩ :=
    pool_quiet h pool submitting hsame.tasks (fun p _ => hsame.hands p.1) hsame.pushed hsub
  rw [hafter, hshown]
  exact ⟨hkept, congrArg some hview.symm⟩

/-- A step of the pool. -/
theorem pool_view (h : Kept pb services s) {a : ThreadPool.Act n Nat}
    (hs : step pb services s (.pool a) = some s') : Kept pb services s' ∧
      (Server.machine pb services n).stepOrStay s.view (s.shown pb services (.pool a)) =
        some s'.view := by
  simp only [step] at hs
  split at hs
  · rename_i hallow
    obtain ⟨pool, hpool, rfl⟩ := Option.map_eq_some_iff.mp hs
    have hm := ThreadPool.move_of_step hpool
    have hm' := hm
    cases hm with
    | push c hc =>
      obtain ⟨sub, hsub, hcall⟩ := (Option.any_eq_true _ _).mp hallow
      obtain rfl := of_decide_eq_true hcall
      have hpush := push_view h hsub hc rfl
      simpa only [shown, hsub, Option.map_some, Machine.stepOrStay] using hpush
    | take w c rest hw htasks => exact take_view h hw htasks rfl
    | finish w c hw =>
      simp only [poolAllowed, Bool.and_eq_true, decide_eq_true_eq] at hallow
      have hquiet := pool_quiet h
        { s.pool.setWorker w .ready with finished := s.pool.finished ++ [c] } s.submitting rfl
        (fun p hp => by
          have hne : p.1 ≠ w := fun he => hallow.1 (List.mem_map.mpr ⟨p, hp, he⟩)
          simp only [ThreadPool.setWorker, Function.update_of_ne hne])
        (fun _ => rfl) (Or.inl rfl)
      exact ⟨hquiet.1, congrArg some hquiet.2.symm⟩
    | store _ => cases hallow
    | notifyAll _ => cases hallow
    | join _ _ => cases hallow
    | notifyOne c w hc hw =>
      exact pool_none h (ThreadPool.sameTasks_of_logs hm' rfl rfl rfl) (Or.inr rfl) rfl rfl
    | notifyNone c hc =>
      exact pool_none h (ThreadPool.sameTasks_of_logs hm' rfl rfl rfl) (Or.inr rfl) rfl rfl
    | leave w hw hstop hempty =>
      have hnone : (s.pool.tasks.head?.bind fun c => s.closures[c]?) = none := by
        rw [hempty]
        rfl
      exact pool_none h (ThreadPool.sameTasks_of_logs hm' rfl rfl rfl) (Or.inl rfl)
        (by simp only [afterPool, hnone]) (by simp only [shown, hnone, Option.map_none])
    | crash w hw hstop hempty =>
      have hnone : (s.pool.tasks.head?.bind fun c => s.closures[c]?) = none := by
        rw [hempty]
        rfl
      exact pool_none h (ThreadPool.sameTasks_of_logs hm' rfl rfl rfl) (Or.inl rfl)
        (by simp only [afterPool, hnone]) (by simp only [shown, hnone, Option.map_none])
    | _ =>
      exact pool_none h (ThreadPool.sameTasks_of_logs hm' rfl rfl rfl) (Or.inl rfl) rfl rfl
  · cases hs

omit [DecidableEq κ] in
/-- A step of the loop keeps what holds, if the loop thread is in its handler while it is inside
`submit`. -/
theorem kept_loop (h : Kept pb services s)
    {a : LoopThreads.Act (ServerThread n) (ServerFunctor κ)}
    {loop : LoopThreads (ServerThread n) (ServerFunctor κ)}
    (hm : LoopThreads.Move .loop s.loop a loop)
    (ha : a = .handlerReturns → s.submitting = none) :
    Kept pb services { s with loop := loop } := by
  refine ⟨LoopThreads.drained_move h.drained hm, h.known, h.hands, h.apart, ?_⟩
  intro sub hsub
  obtain ⟨⟨ready, hpc⟩, h2, h3, h4, h5⟩ := h.submitting sub hsub
  refine ⟨⟨ready, handler_stays hm ?_ hpc⟩, h2, h3, h4, h5⟩
  intro hreturns
  rw [show s.submitting = some sub from hsub] at ha
  cases ha hreturns

/-- A functor ends. When it has sent a response, this is shown. -/
theorem returns_view (h : Kept pb services s) {f : ServerFunctor κ} (hpc : s.loop.pc = .inFunctor f)
    {loop : LoopThreads (ServerThread n) (ServerFunctor κ)}
    (hm : LoopThreads.Move .loop s.loop .functorReturns loop) :
    Kept pb services (s.afterLoop pb .functorReturns loop) ∧
      (Server.machine pb services n).stepOrStay s.view
        (s.shown pb services (.loop .functorReturns)) =
          some (s.afterLoop pb .functorReturns loop).view := by
  have hkept := kept_loop h hm (fun ha => by cases ha)
  have hidle : s.submitting = none := by
    cases hsub : s.submitting with
    | none => rfl
    | some sub =>
      obtain ⟨⟨ready, hhandler⟩, -⟩ := h.submitting sub hsub
      rw [hpc] at hhandler
      cases hhandler
  have hfunctors : s.view.loop.functors =
      f.response.toList ++ s.loop.queue.functors.filterMap ServerFunctor.response := by
    simp only [view, responses, hpc, LoopPc.current, List.filterMap_append]
    cases hf : f.response <;> simp [hf]
  have hloop : responses loop =
      { s.view.loop with functors := s.loop.queue.functors.filterMap ServerFunctor.response } := by
    cases hm with
    | functorReturns g _ _ => rfl
  cases f with
  | other =>
    simp only [afterLoop, shown, hpc, LoopPc.current]
    refine ⟨hkept, congrArg some ?_⟩
    have hsame : s.view.loop = responses loop := by
      rw [hloop, ← List.nil_append (List.filterMap _ _)]
      exact congrArg (fun fs => { s.view.loop with functors := fs }) hfunctors
    simp only [view] at hsame ⊢
    rw [hsame]
  | send ticket resp =>
    have hafter : s.afterLoop pb .functorReturns loop =
        { s with base := s.base.send pb ticket resp, loop := loop } := by
      simp only [afterLoop, hpc]
    rw [hafter]
    refine ⟨⟨hkept.drained, hkept.known, hkept.hands, hkept.apart, ?_⟩, ?_⟩
    · intro sub hsub
      rw [show s.submitting = some sub from hsub] at hidle
      cases hidle
    · have hnext : s.view.loop.next = some ((ticket, resp), responses loop) := by
        rw [EventLoop.next, hfunctors, hloop]
        rfl
      have hshown : s.shown pb services (.loop .functorReturns) = some .functor := by
        simp only [shown, hpc, LoopPc.current]
        rfl
      rw [hshown]
      simp only [Machine.stepOrStay, Server.machine, Server.step, hnext, Option.map_some]
      exact congrArg some (send_with s.base _ _ _ _ _)

/-- A step of the loop that changes no responses is not shown. -/
theorem loop_none (h : Kept pb services s)
    {a : LoopThreads.Act (ServerThread n) (ServerFunctor κ)}
    {loop : LoopThreads (ServerThread n) (ServerFunctor κ)}
    (hm : LoopThreads.Move .loop s.loop a loop) (hallow : s.loopAllowed a = true)
    (hswap : a ≠ .swap) (hreturns : a ≠ .functorReturns) :
    Kept pb services (s.afterLoop pb a loop) ∧
      (Server.machine pb services n).stepOrStay s.view (s.shown pb services (.loop a)) =
        some (s.afterLoop pb a loop).view := by
  have hafter : s.afterLoop pb a loop = { s with loop := loop } := by
    unfold afterLoop
    split
    · exact absurd rfl hreturns
    · rfl
  have hshown : s.shown pb services (.loop a) = none := by
    cases a with
    | swap => exact absurd rfl hswap
    | functorReturns => exact absurd rfl hreturns
    | _ => rfl
  have hsame : responses loop = responses s.loop := by
    refine responses_same hm ?_ hswap hreturns
    rintro t f rfl
    simp only [loopAllowed, Bool.and_eq_true] at hallow
    exact Option.isNone_iff_eq_none.mp hallow.1
  rw [hafter, hshown]
  refine ⟨kept_loop h hm ?_, congrArg some ?_⟩
  · rintro rfl
    exact Option.isNone_iff_eq_none.mp hallow
  · simp only [view, hsame]

/-- A step of the loop. -/
theorem loop_view (h : Kept pb services s)
    {a : LoopThreads.Act (ServerThread n) (ServerFunctor κ)}
    (hs : step pb services s (.loop a) = some s') : Kept pb services s' ∧
      (Server.machine pb services n).stepOrStay s.view (s.shown pb services (.loop a)) =
        some s'.view := by
  simp only [step] at hs
  split at hs
  · rename_i hallow
    obtain ⟨loop, hloop, rfl⟩ := Option.map_eq_some_iff.mp hs
    have hm := LoopThreads.move_of_step hloop
    have hm' := hm
    cases hm with
    | functorReturns f hpc _ => exact returns_view h hpc hm'
    | swap q hpc hq =>
      refine ⟨kept_loop h hm' (fun ha => by cases ha), ?_⟩
      have hswap : s.view.loop.swap = some (responses { s.loop with queue := q, pc := .running }) :=
        responses_swap hm'
      simp only [shown, Machine.stepOrStay, Server.machine, Server.step, hswap, Option.map_some]
      rfl
    | _ => exact loop_none h hm' hallow (by simp) (by simp)
  · cases hs

omit [DecidableEq κ] in
/-- The worker goes on with its task, which then stands at the end of the list. -/
theorem kept_job (h : Kept pb services s) {i : Nat} {w : Fin n} {r : Running κ Msg}
    (hi : s.jobs[i]? = some (w, r)) (r' : Running κ Msg) (base : Server κ Msg)
    (hbase : base.connState = s.base.connState) :
    Kept pb services { s with jobs := s.jobs.eraseIdx i ++ [(w, r')], base := base } := by
  have hperm : (s.jobs.eraseIdx i ++ [(w, r')]).map (·.1) |>.Perm (s.jobs.map (·.1)) := by
    have hp := (Server.eraseIdx_perm hi).map (·.1)
    rw [List.map_append]
    exact (List.perm_append_singleton _ _).trans hp
  refine ⟨h.drained, h.known, ?_, hperm.nodup_iff.mpr h.apart, ?_⟩
  · intro p hp
    obtain ⟨q, hq, heq⟩ := List.mem_map.mp (hperm.subset (List.mem_map.mpr ⟨p, hp, rfl⟩))
    rw [← heq]
    exact h.hands q hq
  · intro sub hsub
    obtain ⟨h1, h2, h3, h4, h5⟩ := h.submitting sub hsub
    refine ⟨h1, ?_, h3, h4, h5⟩
    rw [hbase]
    exact h2

omit [DecidableEq κ] in
theorem view_job {i : Nat} {w : Fin n} {r : Running κ Msg} (hi : s.jobs[i]? = some (w, r)) :
    s.view.running[i]? = some r := by
  simp [view, hi]

/-- A step of a worker in `dispatch_request`. -/
theorem worker_view (h : Kept pb services s) (ha : (∃ i, a = .call i) ∨
      (∃ i controller response, a = .finish i controller response) ∨ ∃ i, a = .respond i)
    (hs : step pb services s a = some s') : Kept pb services s' ∧
      (Server.machine pb services n).stepOrStay s.view (s.shown pb services a) = some s'.view := by
  rcases ha with ⟨i, rfl⟩ | ⟨i, controller, response, rfl⟩ | ⟨i, rfl⟩
  · simp only [step] at hs
    split at hs
    · rename_i w task hi
      split at hs
      · cases hs
      · cases hs
        refine ⟨kept_job h hi _ _ rfl, ?_⟩
        have hview := view_job hi
        simp only [shown, Machine.stepOrStay, Server.machine, Server.step, hview]
        simp [view, Server.advance, List.eraseIdx_map]
    · cases hs
  · simp only [step] at hs
    split at hs
    · rename_i w task hi
      cases hs
      refine ⟨kept_job h hi _ _ rfl, ?_⟩
      have hview := view_job hi
      simp only [shown, Machine.stepOrStay, Server.machine, Server.step, hview]
      simp [view, Server.advance, List.eraseIdx_map]
    · cases hs
  · simp only [step] at hs
    split at hs
    · rename_i w task controller response hi
      obtain ⟨loop, hloop, rfl⟩ := Option.map_eq_some_iff.mp hs
      have hm := LoopThreads.move_of_step hloop
      obtain ⟨hdrained, hknown, hhands, hapart, hsub⟩ := kept_loop h hm (fun ha => by cases ha)
      have hjobs := List.eraseIdx_sublist s.jobs i
      refine ⟨⟨hdrained, hknown, fun p hp => hhands p (hjobs.subset hp),
        hapart.sublist (hjobs.map _), ?_⟩, ?_⟩
      · intro sub hsome
        obtain ⟨h1, h2, h3, h4, h5⟩ := hsub sub hsome
        exact ⟨h1, h2, h3, h4, h5⟩
      · have hview := view_job hi
        simp only [shown, Machine.stepOrStay, Server.machine, Server.step, hview]
        cases hm with
        | push t f _ _ =>
          simp [view, responses, List.eraseIdx_map, EventLoop.queueInLoop, LoopThreads.setThread,
            ServerFunctor.response]
    · cases hs

/-- Each step keeps what holds, and is shown as a step of the server without locks. -/
theorem step_view (h : Kept pb services s) (hs : step pb services s a = some s') :
    Kept pb services s' ∧
      (Server.machine pb services n).stepOrStay s.view (s.shown pb services a) = some s'.view := by
  cases a with
  | frame k bytes => exact frame_view h hs
  | pool a => exact pool_view h hs
  | loop a => exact loop_view h hs
  | call i => exact worker_view h (Or.inl ⟨i, rfl⟩) hs
  | finish i controller response =>
    exact worker_view h (Or.inr (Or.inl ⟨i, controller, response, rfl⟩)) hs
  | respond i => exact worker_view h (Or.inr (Or.inr ⟨i, rfl⟩)) hs
  | setState k state =>
    simp only [step] at hs
    split at hs
    · cases hs
    · rename_i hst
      cases hs
      refine ⟨⟨h.drained, h.known, h.hands, h.apart, ?_⟩, ?_⟩
      · intro sub hsub
        obtain ⟨h1, h2, h3, h4, h5⟩ := h.submitting sub hsub
        refine ⟨h1, ?_, h3, h4, h5⟩
        change Function.update s.base.connState k state sub.conn ≠ .kConnecting
        by_cases hk : sub.conn = k
        · rw [hk, Function.update_self]
          exact hst
        · rw [Function.update_of_ne hk]
          exact h2
      · simp [shown, Machine.stepOrStay, Server.machine, Server.step, hst, view]

omit [DecidableEq κ] in
theorem kept_new : Kept pb services (new : ServerThreads κ Msg n) where
  drained := fun _ => rfl
  known := fun c hc => by cases hc
  hands := fun p hp => by cases hp
  apart := List.nodup_nil
  submitting := fun sub hsub => by cases hsub

theorem kept_reach (h : (machine pb services).Reach s) : Kept pb services s :=
  h.invariant (I := Kept pb services) kept_new fun _ _ _ _ hi hs => (step_view hi hs).1

/-- The server with its threads, shown as the server that has a queue of tasks and a loop. -/
def lockFree (pb : Protobuf Msg) (services : String → Option (Service Msg)) :
    Simulation (machine pb services : Machine (ServerThreads κ Msg n) (Act κ Msg n))
      (Server.machine pb services n : Machine (Server κ Msg) (Server.Act κ Msg)) where
  view := view
  shown := shown pb services
  init := rfl
  step := fun _ _ _ hr hs => (step_view (kept_reach hr) hs).2

/-! ## The law -/

omit [DecidableEq κ] in
/-- The requests in all the places where one can stand: behind the loop, in the queue of the pool,
in the hands of a worker, and in the queue or the batch of the loop. -/
def places (s : ServerThreads κ Msg n) : List (Ticket κ) :=
  s.base.answered.map (·.ticket) ++ s.base.dropped.map (·.1) ++ s.base.refused.map (·.1) ++
    (s.pool.tasks.filterMap fun c => s.closures[c]?).map (·.ticket) ++
    s.jobs.map (·.2.task.ticket) ++
    ((s.loop.pc.current ++ s.loop.queue.functors ++ s.loop.queue.pendingFunctors).filterMap
      ServerFunctor.response).map (·.1)

/-- In every interleaving of the loop thread, the workers and their locks: the server is shown as
one that has no locks, and to each connection as one that has no other connection. So every request
that was received stands in one place, its handler was called at most once, and each response that
was sent was computed for its request. -/
theorem the_threads_lose_no_request (h : (machine pb services).Reach s) :
    (Server.machine pb services n).Reach s.view ∧
      (∀ k, (Server.machine pb services n).Reach (s.view.share k)) ∧
      s.places.Perm (s.base.received.map (·.1)) ∧ s.places.Nodup ∧
      (s.base.invoked.map (·.ticket)).Nodup ∧
      ∀ a ∈ s.base.answered, Server.Computed pb services s.base a.ticket a.response := by
  have hview : (Server.machine pb services n).Reach s.view := (lockFree pb services).reach h
  obtain ⟨hledger, hcontent⟩ := Server.sound_reach hview
  have hplaces : s.places = Server.places s.view := by
    simp only [places, Server.places, view, responses, EventLoop.queued, List.map_map,
      List.filterMap_append, List.append_assoc]
    rfl
  have hperm : s.places.Perm (s.base.received.map (·.1)) := by
    rw [hplaces]
    exact hledger.placed
  have hshare : ∀ k, (Server.machine pb services n).Reach (s.view.share k) := fun k =>
    ((Server.onlyConnection pb services n k).comp (lockFree pb services)).reach h
  refine ⟨hview, hshare, hperm, hperm.nodup_iff.mpr hledger.nodup, hledger.once, ?_⟩
  intro a ha
  obtain ⟨req, hreq, hcomp⟩ := (hcontent.answered a ha).1
  exact ⟨req, hreq, hcomp⟩

/-- One worker blocks before the request comes, and is notified. -/
def oneRequest (w : Fin 1) : List (Act Unit Hello 1) :=
  [.setState () .kConnected, .loop .enter, .pool (.lock w), .pool (.test w), .pool (.block w),
    .loop .check, .loop (.poll [.user]), .loop .handle, .frame () Server.helloFrame,
    .pool (.submitLock 0), .pool (.submitTest 0), .pool (.push 0), .pool (.submitUnlock 0),
    .pool (.notifyOne 0 (some w)), .loop .handlerReturns, .pool (.lock w), .pool (.test w),
    .pool (.pick w), .pool (.unlock w), .call 0, .finish 0 .new (.helloResponse "Hello, World!"),
    .respond 0, .loop (.wake (.worker w)), .pool (.finish w), .loop .storeCalling, .loop .swap,
    .loop .next, .loop .functorReturns]

theorem the_hello_request_comes_through_the_locks :
    ∃ s : ServerThreads Unit Hello 1, (machine helloProto helloServices).Reach s ∧
      s.base.answered.length = 1 ∧ s.loop.eventfd = 1 ∧
      s.places.Perm (s.base.received.map (·.1)) ∧
      ∀ a ∈ s.base.answered, Server.Computed helloProto helloServices s.base a.ticket
        a.response := by
  obtain ⟨s, h, hanswered, hwoken⟩ :
      ∃ s : ServerThreads Unit Hello 1, (machine helloProto helloServices).Reach s ∧
        s.base.answered.length = 1 ∧ s.loop.eventfd = 1 :=
    Machine.ReachUnder.of_run (oneRequest 0) (by decide +kernel)
  obtain ⟨-, -, hperm, -, -, hcomputed⟩ := the_threads_lose_no_request h
  exact ⟨s, h, hanswered, hwoken, hperm, hcomputed⟩

end ServerThreads

end rpc
