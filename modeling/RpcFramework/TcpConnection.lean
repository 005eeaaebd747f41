-- Sending on a connection. `send` may be called on any thread, and on the loop
-- thread from inside the write-complete callback too. The bytes go to the
-- socket at once, or through the output buffer, or through the functor queue
-- first. Whatever way they take, the stream is the payloads one after another.
import Mathlib.Logic.Function.Basic
import RpcFramework.Buffer
import RpcFramework.EventLoop
import RpcFramework.Runs

namespace rpc.net

open runs

/-! ## The state -/

inductive ConnState
  | kConnecting | kConnected | kDisconnecting | kDisconnected
  deriving DecidableEq

/-- What the connection queues in its loop: a send, `shutdown_in_loop`, or `handle_close`. A
send knows the thread that asked for it. -/
inductive ConnFunctor (τ : Type)
  | sendInLoop (t : τ) (data : Bytes)
  | shutdownInLoop
  | handleClose
  deriving DecidableEq

/-- What the loop thread does after the write-complete callback: it returns from
`send_in_loop`, or goes on in `handle_write`. -/
inductive AfterCallback
  | fromSend | fromHandleWrite
  deriving DecidableEq

/-- What `::write` gave. -/
inductive WriteResult
  | count (n : Nat)
  | wouldBlock
  | error
  deriving DecidableEq

/-- The kernel takes no more than it was given, and blocks only when it was given something. -/
def WriteResult.fits (len : Nat) : WriteResult → Bool
  | .count n => n ≤ len
  | .wouldBlock => 0 < len
  | .error => true

/-- The connection, with its functors in the loop. `accepted` holds the bytes that the socket
has taken, `halfClosed` tells that `SHUT_WR` was done, and `inFlight` is what a thread has
decided on and not yet queued. `stack` holds the write-complete callbacks that run. The last
three fields only record what happened: that `handle_close` has run, the sends that found
`kConnected`, and the sends that `send_in_loop` has executed. -/
structure TcpConnection (τ : Type) where
  state : ConnState
  isWriting : Bool
  outputBuf : Buffer
  accepted : Bytes
  halfClosed : Bool
  loop : EventLoop (ConnFunctor τ)
  inFlight : τ → Option (ConnFunctor τ)
  stack : List AfterCallback
  closed : Bool
  found : List (τ × Bytes)
  executed : List (τ × Bytes)

/-- The two overloads of `send`. -/
inductive SendArg
  | string (data : Bytes)
  | buffer (buf : Buffer)

def SendArg.data : SendArg → Bytes
  | .string data => data
  | .buffer buf => buf.retrieveAllAsString.1

namespace TcpConnection

variable {τ : Type}

def new : TcpConnection τ where
  state := .kConnecting
  isWriting := false
  outputBuf := Buffer.new kInitialSize
  accepted := []
  halfClosed := false
  loop := EventLoop.new
  inFlight := fun _ => none
  stack := []
  closed := false
  found := []
  executed := []

/-! ## The functions of the loop thread -/

/-- `handle_close`. The callbacks that it runs find the connection disconnected. -/
def handleClose (c : TcpConnection τ) : TcpConnection τ :=
  { c with state := .kDisconnected, isWriting := false, closed := true }

def shutdownInLoop (c : TcpConnection τ) : TcpConnection τ :=
  if c.isWriting then c else { c with halfClosed := true }

/-- The call of the write-complete callback, when one is set. -/
def writeComplete (hasCallback : Bool) (after : AfterCallback) (c : TcpConnection τ) :
    TcpConnection τ :=
  if hasCallback then { c with stack := after :: c.stack } else c

/-- The end of `handle_write` after the callback. -/
def afterHandleWrite (c : TcpConnection τ) : TcpConnection τ :=
  if c.state = .kDisconnecting then c.shutdownInLoop else c

/-- The end of `send_in_loop`: what the socket did not take is buffered. -/
def bufferRest (data : Bytes) (written : Nat) (c : TcpConnection τ) : TcpConnection τ :=
  { c with outputBuf := c.outputBuf.append (data.drop written), isWriting := true }

/-- `send_in_loop`, when `::write`, if it is called, gives `r`. -/
def sendInLoop (hasCallback : Bool) (t : τ) (data : Bytes) (r : WriteResult)
    (c : TcpConnection τ) : TcpConnection τ :=
  if c.state = .kDisconnected then c
  else
    let c := { c with executed := c.executed ++ [(t, data)] }
    if !c.isWriting && c.outputBuf.readable = 0 then
      match r with
      | .error => c.handleClose
      | .wouldBlock => c.bufferRest data 0
      | .count n =>
        let c := { c with accepted := c.accepted ++ data.take n }
        if n = data.length then c.writeComplete hasCallback .fromSend
        else c.bufferRest data n
    else c.bufferRest data 0

/-- `handle_write`, when `::write`, if it is called, gives `r`. An error is passed over. -/
def handleWrite (hasCallback : Bool) (r : WriteResult) (c : TcpConnection τ) : TcpConnection τ :=
  if !c.isWriting then c
  else
    match r with
    | .count n =>
      if h : 0 < n ∧ n ≤ c.outputBuf.readable then
        let c := { c with
          accepted := c.accepted ++ c.outputBuf.peek.take n
          outputBuf := c.outputBuf.retrieve n h.2 }
        if c.outputBuf.readable = 0 then
          let c := { c with isWriting := false }
          if hasCallback then c.writeComplete true .fromHandleWrite else c.afterHandleWrite
        else c
      else c
    | .wouldBlock | .error => c

/-- One functor of the loop. -/
def runFunctor (hasCallback : Bool) (r : WriteResult) (c : TcpConnection τ) :
    ConnFunctor τ → TcpConnection τ
  | .sendInLoop t data => c.sendInLoop hasCallback t data r
  | .shutdownInLoop => c.shutdownInLoop
  | .handleClose => c.handleClose

/-! ## The steps -/

/-- The actions: the calls of any thread, and the rounds of the loop thread. `push` is the part
of a call on another thread that takes the lock of the queue. A call on the loop thread may
also be made inside a callback. -/
inductive Act (τ : Type)
  | established
  | send (t : τ) (arg : SendArg) (r : WriteResult)
  | shutdown (t : τ)
  | forceClose (t : τ)
  | push (t : τ)
  | swap
  | functor (r : WriteResult)
  | handleWrite (r : WriteResult)
  | callbackReturns
  | handleClose

variable [DecidableEq τ]

def setInFlight (c : TcpConnection τ) (t : τ) (f : Option (ConnFunctor τ)) : TcpConnection τ :=
  { c with inFlight := Function.update c.inFlight t f }

/-- The state after an action, when it can be taken. `loopThread` runs the loop; every other
thread decides and queues in two steps. -/
def step (loopThread : τ) (hasCallback : Bool) (c : TcpConnection τ) :
    Act τ → Option (TcpConnection τ)
  | .established => if c.state = .kConnecting then some { c with state := .kConnected } else none
  | .send t arg r =>
    if c.inFlight t ≠ none then none
    else if c.state ≠ .kConnected then some c
    else
      let c := { c with found := c.found ++ [(t, arg.data)] }
      if t = loopThread then
        if r.fits arg.data.length then some (c.sendInLoop hasCallback t arg.data r) else none
      else some (c.setInFlight t (some (.sendInLoop t arg.data)))
  | .shutdown t =>
    if c.inFlight t ≠ none then none
    else if c.state ≠ .kConnected then some c
    else
      let c := { c with state := .kDisconnecting }
      if t = loopThread then some c.shutdownInLoop
      else some (c.setInFlight t (some .shutdownInLoop))
  | .forceClose t =>
    if c.inFlight t ≠ none then none
    else if c.state ≠ .kConnected ∧ c.state ≠ .kDisconnecting then some c
    else
      let c := { c with state := .kDisconnecting }
      if t = loopThread then some { c with loop := c.loop.queueInLoop .handleClose }
      else some (c.setInFlight t (some .handleClose))
  | .push t =>
    (c.inFlight t).map fun f => { c.setInFlight t none with loop := c.loop.queueInLoop f }
  | .swap => if c.stack = [] then c.loop.swap.map fun l => { c with loop := l } else none
  | .functor r =>
    if c.stack = [] then
      c.loop.next.bind fun p =>
        let c := { c with loop := p.2 }
        match p.1 with
        | .sendInLoop _ data =>
          if r.fits data.length then some (c.runFunctor hasCallback r p.1) else none
        | _ => some (c.runFunctor hasCallback r p.1)
    else none
  | .handleWrite r =>
    if c.stack = [] ∧ c.loop.functors = [] ∧ r.fits c.outputBuf.readable then
      some (c.handleWrite hasCallback r)
    else none
  | .callbackReturns =>
    match c.stack with
    | [] => none
    | .fromSend :: rest => some { c with stack := rest }
    | .fromHandleWrite :: rest => some (afterHandleWrite { c with stack := rest })
  | .handleClose => if c.stack = [] then some c.handleClose else none

/-- The connection as a machine. -/
def machine (loopThread : τ) (hasCallback : Bool) : Machine (TcpConnection τ) (Act τ) where
  init := new
  step := step loopThread hasCallback

/-! ## The stream -/

variable {loopThread : τ} {hasCallback : Bool} {c c' : TcpConnection τ}

/-- The bytes on the socket and in the buffer are the payloads that were executed, and the
interest in writing says whether the buffer holds any. -/
structure Whole (c : TcpConnection τ) : Prop where
  opened : c.state ≠ .kDisconnected
  bytes : c.accepted ++ c.outputBuf.peek = c.executed.flatMap Prod.snd
  coupled : c.isWriting = true ↔ 0 < c.outputBuf.readable

omit [DecidableEq τ] in
theorem whole_bufferRest (data : Bytes) (written : Nat) (hst : c.state ≠ .kDisconnected)
    (hbytes : c.accepted ++ c.outputBuf.peek ++ data.drop written = c.executed.flatMap Prod.snd)
    (hrest : written < data.length ∨ 0 < c.outputBuf.readable) :
    Whole (c.bufferRest data written) := by
  refine ⟨hst, ?_, ?_⟩
  · simpa [bufferRest] using hbytes
  · have hlen : (c.outputBuf.append (data.drop written)).readable =
        c.outputBuf.readable + (data.length - written) := by
      rw [← Buffer.peek_length, Buffer.peek_append, List.length_append, Buffer.peek_length,
        List.length_drop]
    simp only [bufferRest, hlen, true_iff]
    omega

omit [DecidableEq τ] in
theorem whole_writeComplete (after : AfterCallback) (h : Whole c) :
    Whole (c.writeComplete hasCallback after) := by
  unfold writeComplete
  split
  · exact ⟨h.opened, h.bytes, h.coupled⟩
  · exact h

omit [DecidableEq τ] in
theorem whole_shutdownInLoop (h : Whole c) : Whole c.shutdownInLoop := by
  unfold shutdownInLoop
  split
  · exact h
  · exact ⟨h.opened, h.bytes, h.coupled⟩

omit [DecidableEq τ] in
theorem whole_afterHandleWrite (h : Whole c) : Whole c.afterHandleWrite := by
  unfold afterHandleWrite
  split
  · exact whole_shutdownInLoop h
  · exact h

omit [DecidableEq τ] in
/-- `send_in_loop` adds its payload to the stream, whatever `::write` gives, unless it closes
the connection. -/
theorem whole_sendInLoop {t : τ} {data : Bytes} {r : WriteResult} (hr : r.fits data.length = true)
    (h : Whole c) (hopen : (c.sendInLoop hasCallback t data r).closed = false) :
    Whole (c.sendInLoop hasCallback t data r) := by
  obtain ⟨hst, hbytes, hcoup⟩ := h
  unfold sendInLoop at hopen ⊢
  rw [if_neg hst] at hopen ⊢
  dsimp only at hopen ⊢
  split
  · rename_i hidle
    simp only [Bool.and_eq_true, Bool.not_eq_true', decide_eq_true_eq] at hidle
    have hpeek : c.outputBuf.peek = [] := by
      rw [← List.length_eq_zero_iff, Buffer.peek_length]
      exact hidle.2
    rw [hpeek, List.append_nil] at hbytes
    cases r with
    | error => simp [hidle, handleClose] at hopen
    | wouldBlock =>
      apply whole_bufferRest
      · exact hst
      · simp [hpeek, hbytes]
      · exact Or.inl (by simpa [WriteResult.fits] using hr)
    | count n =>
      have hn : n ≤ data.length := by simpa [WriteResult.fits] using hr
      dsimp only
      split
      · rename_i hall
        apply whole_writeComplete
        refine ⟨hst, ?_, hcoup⟩
        simp [hpeek, hbytes, hall]
      · apply whole_bufferRest
        · exact hst
        · simp [hpeek, hbytes]
        · exact Or.inl (by omega)
  · rename_i hbusy
    apply whole_bufferRest
    · exact hst
    · simp [← hbytes]
    · right
      simp only [Bool.and_eq_true, Bool.not_eq_true', decide_eq_true_eq, not_and] at hbusy
      by_contra hzero
      have hidle : c.isWriting = false := by
        rw [← Bool.not_eq_true, hcoup]
        exact hzero
      have := hbusy hidle
      simp only at hzero
      omega

omit [DecidableEq τ] in
/-- `handle_write` moves bytes from the front of the buffer to the socket. -/
theorem whole_handleWrite {r : WriteResult} (h : Whole c) :
    Whole (c.handleWrite hasCallback r) := by
  unfold handleWrite
  split
  · exact h
  · rename_i hw
    obtain ⟨hst, hbytes, hcoup⟩ := h
    cases r with
    | count n =>
      dsimp only
      split
      · rename_i hn
        have hmoved : c.accepted ++ c.outputBuf.peek.take n ++ (c.outputBuf.retrieve n hn.2).peek =
            c.executed.flatMap Prod.snd := by
          rw [Buffer.peek_retrieve, List.append_assoc, List.take_append_drop]
          exact hbytes
        split
        · rename_i hempty
          have hdone : Whole { c with
              accepted := c.accepted ++ c.outputBuf.peek.take n
              outputBuf := c.outputBuf.retrieve n hn.2
              isWriting := false } :=
            ⟨hst, hmoved, by simp [hempty]⟩
          split
          · exact whole_writeComplete _ hdone
          · exact whole_afterHandleWrite hdone
        · rename_i hmore
          refine ⟨hst, hmoved, ?_⟩
          simp only at hmore ⊢
          simp only [Bool.not_eq_true, Bool.not_eq_false'] at hw
          simp only [hw, true_iff]
          omega
      · exact ⟨hst, hbytes, hcoup⟩
    | wouldBlock => exact ⟨hst, hbytes, hcoup⟩
    | error => exact ⟨hst, hbytes, hcoup⟩

/-! ## The order of the sends -/

/-- The payloads of one thread. -/
def onThread (t : τ) (log : List (τ × Bytes)) : List Bytes :=
  (log.filter fun p => p.1 = t).map Prod.snd

@[simp]
theorem onThread_append (t : τ) (l l' : List (τ × Bytes)) :
    onThread t (l ++ l') = onThread t l ++ onThread t l' := by
  simp [onThread]

@[simp]
theorem onThread_own (t : τ) (data : Bytes) : onThread t [(t, data)] = [data] := by
  simp [onThread]

theorem onThread_other {t u : τ} (h : u ≠ t) (data : Bytes) : onThread t [(u, data)] = [] := by
  simp [onThread, h]

/-- The payload of a functor that is a send of thread `t`. -/
def ConnFunctor.payload (t : τ) : ConnFunctor τ → Option Bytes
  | .sendInLoop u data => if u = t then some data else none
  | .shutdownInLoop | .handleClose => none

def queuedBy (t : τ) (fs : List (ConnFunctor τ)) : List Bytes :=
  fs.filterMap (ConnFunctor.payload t)

@[simp]
theorem queuedBy_append (t : τ) (fs fs' : List (ConnFunctor τ)) :
    queuedBy t (fs ++ fs') = queuedBy t fs ++ queuedBy t fs' := by
  simp [queuedBy]

@[simp]
theorem queuedBy_singleton (t : τ) (f : ConnFunctor τ) :
    queuedBy t [f] = (ConnFunctor.payload t f).toList := by
  cases h : ConnFunctor.payload t f <;> simp [queuedBy, h]

/-- A thread's sends are executed in the order in which it made them: what was executed, what
is queued and what is in flight are its sends one after another. The loop thread queues none. -/
structure Ordered (loopThread : τ) (c : TcpConnection τ) : Prop where
  order : ∀ t, onThread t c.executed ++ queuedBy t c.loop.queued ++
    queuedBy t (c.inFlight t).toList = onThread t c.found
  own : ∀ t u data, c.inFlight t = some (.sendInLoop u data) → u = t
  direct : queuedBy loopThread c.loop.queued = [] ∧ c.inFlight loopThread = none

/-- Nothing but the stream has changed. -/
structure SameOrder (c c' : TcpConnection τ) : Prop where
  loop : c'.loop = c.loop
  inFlight : c'.inFlight = c.inFlight
  found : c'.found = c.found

omit [DecidableEq τ] in
theorem sendInLoop_order (hasCallback : Bool) (t : τ) (data : Bytes) (r : WriteResult)
    (hst : c.state ≠ .kDisconnected) :
    (c.sendInLoop hasCallback t data r).executed = c.executed ++ [(t, data)] ∧
      SameOrder c (c.sendInLoop hasCallback t data r) := by
  unfold sendInLoop
  rw [if_neg hst]
  dsimp only
  split
  · cases r with
    | error => exact ⟨rfl, rfl, rfl, rfl⟩
    | wouldBlock => exact ⟨rfl, rfl, rfl, rfl⟩
    | count n =>
      unfold writeComplete
      dsimp only
      split
      · split <;> exact ⟨rfl, rfl, rfl, rfl⟩
      · exact ⟨rfl, rfl, rfl, rfl⟩
  · exact ⟨rfl, rfl, rfl, rfl⟩

omit [DecidableEq τ] in
theorem shutdownInLoop_order : c.shutdownInLoop.executed = c.executed ∧
    c.shutdownInLoop.closed = c.closed ∧ SameOrder c c.shutdownInLoop := by
  unfold shutdownInLoop
  split <;> exact ⟨rfl, rfl, rfl, rfl, rfl⟩

omit [DecidableEq τ] in
theorem afterHandleWrite_order : c.afterHandleWrite.executed = c.executed ∧
    c.afterHandleWrite.closed = c.closed ∧ SameOrder c c.afterHandleWrite := by
  unfold afterHandleWrite
  split
  · exact shutdownInLoop_order
  · exact ⟨rfl, rfl, rfl, rfl, rfl⟩

omit [DecidableEq τ] in
theorem handleWrite_order {r : WriteResult} :
    (c.handleWrite hasCallback r).executed = c.executed ∧
      (c.handleWrite hasCallback r).closed = c.closed ∧
      SameOrder c (c.handleWrite hasCallback r) := by
  unfold handleWrite
  split
  · exact ⟨rfl, rfl, rfl, rfl, rfl⟩
  · cases r with
    | count n =>
      unfold writeComplete afterHandleWrite shutdownInLoop
      dsimp only
      split_ifs <;> exact ⟨rfl, rfl, rfl, rfl, rfl⟩
    | wouldBlock => exact ⟨rfl, rfl, rfl, rfl, rfl⟩
    | error => exact ⟨rfl, rfl, rfl, rfl, rfl⟩

theorem ordered_same (h : Ordered loopThread c) (hex : c'.executed = c.executed)
    (hs : SameOrder c c') : Ordered loopThread c' := by
  obtain ⟨h1, h2, h3⟩ := hs
  exact ⟨by rw [hex, h1, h2, h3]; exact h.order, by rw [h2]; exact h.own,
    by rw [h1, h2]; exact h.direct⟩

/-- A send of the loop thread is found and executed in one step. -/
theorem ordered_direct (h : Ordered loopThread c) {data : Bytes}
    (hex : c'.executed = c.executed ++ [(loopThread, data)]) (hloop : c'.loop = c.loop)
    (hfl : c'.inFlight = c.inFlight) (hfound : c'.found = c.found ++ [(loopThread, data)]) :
    Ordered loopThread c' := by
  refine ⟨?_, by rw [hfl]; exact h.own, by rw [hloop, hfl]; exact h.direct⟩
  intro t
  have ht := h.order t
  rw [hex, hloop, hfl, hfound]
  by_cases htl : t = loopThread
  · subst htl
    rw [h.direct.1, h.direct.2] at ht ⊢
    simpa [queuedBy] using ht
  · have hne : loopThread ≠ t := fun he => htl he.symm
    simpa [onThread_other hne] using ht

/-- A thread that is not the loop thread decides on a functor. -/
theorem ordered_decide (h : Ordered loopThread c) {t : τ} (ht : t ≠ loopThread)
    (hnone : c.inFlight t = none) (f : ConnFunctor τ)
    (hown : ∀ u data, f = .sendInLoop u data → u = t) (hex : c'.executed = c.executed)
    (hloop : c'.loop = c.loop) (hfl : c'.inFlight = Function.update c.inFlight t (some f))
    (hfound : c'.found = c.found ++ (ConnFunctor.payload t f).toList.map fun data => (t, data)) :
    Ordered loopThread c' := by
  refine ⟨?_, ?_, ?_⟩
  · intro u
    have hu := h.order u
    rw [hex, hloop, hfl, hfound]
    by_cases hut : u = t
    · subst hut
      rw [hnone] at hu
      simp only [queuedBy, Option.toList_none, List.filterMap_nil, List.append_nil] at hu
      cases hp : ConnFunctor.payload u f <;> simp [queuedBy, hp, ← hu]
    · have hne : t ≠ u := fun he => hut he.symm
      cases hp : ConnFunctor.payload t f <;> simp [onThread_other hne, hut, ← hu]
  · intro u v data hv
    rw [hfl, Function.update_apply] at hv
    split at hv
    · rename_i hut
      rw [hut]
      exact hown v data (Option.some.inj hv)
    · exact h.own u v data hv
  · rw [hloop, hfl, Function.update_of_ne (fun he => ht he.symm)]
    exact h.direct

/-- A thread queues what it has decided on. -/
theorem ordered_push (h : Ordered loopThread c) {t : τ} {f : ConnFunctor τ}
    (hf : c.inFlight t = some f) :
    Ordered loopThread { c.setInFlight t none with loop := c.loop.queueInLoop f } := by
  have hother : ∀ u, u ≠ t → ConnFunctor.payload u f = none := by
    intro u hut
    cases f with
    | sendInLoop v data =>
      have hv := h.own t v data hf
      have hne : ¬ v = u := fun he => hut (he ▸ hv)
      simp [ConnFunctor.payload, hne]
    | shutdownInLoop => rfl
    | handleClose => rfl
  have hloop : t ≠ loopThread := by
    rintro rfl
    rw [h.direct.2] at hf
    cases hf
  refine ⟨?_, ?_, ?_⟩
  · intro u
    have hu := h.order u
    simp only [setInFlight, EventLoop.queued_queueInLoop]
    by_cases hut : u = t
    · subst hut
      rw [hf] at hu
      simpa [queuedBy] using hu
    · simpa [queuedBy, hut, hother u hut] using hu
  · intro u v data hv
    simp only [setInFlight, Function.update_apply] at hv
    split at hv
    · cases hv
    · exact h.own u v data hv
  · simp only [setInFlight, EventLoop.queued_queueInLoop]
    rw [Function.update_of_ne hloop.symm]
    refine ⟨?_, h.direct.2⟩
    have hd := h.direct.1
    simp only [queuedBy] at hd ⊢
    simp [hother loopThread hloop.symm, hd]

/-- The loop runs the functor at the front of its queue. -/
theorem ordered_functor (h : Ordered loopThread c) {f : ConnFunctor τ}
    {l : EventLoop (ConnFunctor τ)} (hl : c.loop.next = some (f, l)) (hloop : c'.loop = l)
    (hfl : c'.inFlight = c.inFlight) (hfound : c'.found = c.found)
    (hex : ∀ t, onThread t c'.executed =
      onThread t c.executed ++ (ConnFunctor.payload t f).toList) :
    Ordered loopThread c' := by
  have hq := EventLoop.queued_next hl
  have hdirect := h.direct
  rw [hq] at hdirect
  refine ⟨?_, by rw [hfl]; exact h.own, ?_⟩
  · intro t
    have ht := h.order t
    rw [hq] at ht
    rw [hex, hloop, hfl, hfound, ← ht]
    cases hp : ConnFunctor.payload t f <;> simp [queuedBy, hp]
  · rw [hloop, hfl]
    refine ⟨?_, hdirect.2⟩
    have hd := hdirect.1
    simp only [queuedBy] at hd ⊢
    cases hp : ConnFunctor.payload loopThread f <;> simp_all

/-! ## The law -/

omit [DecidableEq τ] in
/-- `send_in_loop` does not open a closed connection. -/
theorem open_before_sendInLoop {t : τ} {data : Bytes} {r : WriteResult}
    (h : (c.sendInLoop hasCallback t data r).closed = false) : c.closed = false := by
  unfold sendInLoop writeComplete at h
  dsimp only at h
  split at h
  · exact h
  · split at h
    · cases r with
      | error => cases h
      | wouldBlock => exact h
      | count n =>
        dsimp only at h
        split at h
        · split at h <;> exact h
        · exact h
    · exact h

/-- As long as `handle_close` has not run, the stream is whole and every thread's sends are in
order. -/
def Open (loopThread : τ) (c : TcpConnection τ) : Prop :=
  c.closed = false → Whole c ∧ Ordered loopThread c

theorem open_send {t : τ} {arg : SendArg} {r : WriteResult} (h : Open loopThread c)
    (hs : step loopThread hasCallback c (.send t arg r) = some c') : Open loopThread c' := by
  intro hopen
  simp only [step] at hs
  split at hs
  · cases hs
  rename_i hfl
  split at hs
  · cases hs
    exact h hopen
  split at hs
  · rename_i htl
    subst htl
    split at hs
    · rename_i hr
      cases hs
      have hopen' := open_before_sendInLoop hopen
      obtain ⟨hw, ho⟩ := h hopen'
      have hw' : Whole { c with found := c.found ++ [(t, arg.data)] } :=
        ⟨hw.opened, hw.bytes, hw.coupled⟩
      obtain ⟨hex, hsame⟩ := sendInLoop_order hasCallback t arg.data r hw'.opened
      exact ⟨whole_sendInLoop hr hw' hopen,
        ordered_direct ho hex hsame.loop hsame.inFlight hsame.found⟩
    · cases hs
  · rename_i htl
    cases hs
    obtain ⟨hw, ho⟩ := h hopen
    refine ⟨⟨hw.opened, hw.bytes, hw.coupled⟩, ?_⟩
    apply ordered_decide ho htl (by simpa using hfl) (.sendInLoop t arg.data)
    · intro u data hu
      cases hu
      rfl
    · rfl
    · rfl
    · rfl
    · simp [setInFlight, ConnFunctor.payload]

theorem open_decide {t : τ} {f : ConnFunctor τ} (h : Open loopThread c) (ht : t ≠ loopThread)
    (hfl : c.inFlight t = none) (hf : ∀ u data, f ≠ .sendInLoop u data) :
    Open loopThread ({ c with state := .kDisconnecting }.setInFlight t (some f)) := by
  intro hopen
  obtain ⟨hw, ho⟩ := h hopen
  refine ⟨⟨by simp [setInFlight], hw.bytes, hw.coupled⟩, ?_⟩
  refine ordered_decide ho ht hfl f (fun u data hu => absurd hu (hf u data)) rfl rfl rfl ?_
  cases f with
  | sendInLoop u data => exact absurd rfl (hf u data)
  | shutdownInLoop => simp [setInFlight, ConnFunctor.payload]
  | handleClose => simp [setInFlight, ConnFunctor.payload]

theorem open_functor {r : WriteResult} (h : Open loopThread c)
    (hs : step loopThread hasCallback c (.functor r) = some c') : Open loopThread c' := by
  intro hopen
  simp only [step] at hs
  split at hs
  · obtain ⟨⟨f, l⟩, hl, hrun⟩ := Option.bind_eq_some_iff.mp hs
    cases f with
    | sendInLoop t data =>
      simp only [runFunctor] at hrun
      split at hrun
      · rename_i hr
        cases hrun
        have hopen' := open_before_sendInLoop hopen
        obtain ⟨hw, ho⟩ := h hopen'
        have hw' : Whole { c with loop := l } := ⟨hw.opened, hw.bytes, hw.coupled⟩
        obtain ⟨hex, hsame⟩ := sendInLoop_order hasCallback t data r hw'.opened
        refine ⟨whole_sendInLoop hr hw' hopen,
          ordered_functor ho hl hsame.loop hsame.inFlight hsame.found ?_⟩
        intro u
        rw [hex, onThread_append]
        by_cases hut : t = u
        · subst hut
          simp [ConnFunctor.payload]
        · simp [ConnFunctor.payload, hut, onThread_other hut]
      · cases hrun
    | shutdownInLoop =>
      simp only [runFunctor, Option.some.injEq] at hrun
      subst hrun
      obtain ⟨hex, hclosed, hsame⟩ := shutdownInLoop_order (c := { c with loop := l })
      rw [hclosed] at hopen
      obtain ⟨hw, ho⟩ := h hopen
      refine ⟨whole_shutdownInLoop ⟨hw.opened, hw.bytes, hw.coupled⟩,
        ordered_functor ho hl hsame.loop hsame.inFlight hsame.found ?_⟩
      intro u
      simp [hex, ConnFunctor.payload]
    | handleClose =>
      simp only [runFunctor, Option.some.injEq] at hrun
      subst hrun
      cases hopen
  · cases hs

theorem open_step {a : Act τ} (h : Open loopThread c)
    (hs : step loopThread hasCallback c a = some c') : Open loopThread c' := by
  cases a with
  | send t arg r => exact open_send h hs
  | functor r => exact open_functor h hs
  | established =>
    simp only [step] at hs
    split at hs
    · cases hs
      intro hopen
      obtain ⟨hw, ho⟩ := h hopen
      exact ⟨⟨by simp, hw.bytes, hw.coupled⟩, ordered_same ho rfl ⟨rfl, rfl, rfl⟩⟩
    · cases hs
  | shutdown t =>
    simp only [step] at hs
    split at hs
    · cases hs
    rename_i hfl
    split at hs
    · cases hs
      exact h
    split at hs
    · cases hs
      intro hopen
      obtain ⟨hex, hclosed, hsame⟩ := shutdownInLoop_order (c := { c with state := .kDisconnecting })
      rw [hclosed] at hopen
      obtain ⟨hw, ho⟩ := h hopen
      exact ⟨whole_shutdownInLoop ⟨by simp, hw.bytes, hw.coupled⟩,
        ordered_same ho hex ⟨hsame.loop, hsame.inFlight, hsame.found⟩⟩
    · cases hs
      exact open_decide h ‹_› (by simpa using hfl) (by simp)
  | forceClose t =>
    simp only [step] at hs
    split at hs
    · cases hs
    rename_i hfl
    split at hs
    · cases hs
      exact h
    split at hs
    · cases hs
      intro hopen
      obtain ⟨hw, ho⟩ := h hopen
      refine ⟨⟨by simp, hw.bytes, hw.coupled⟩, ?_, ho.own, ?_⟩
      · intro u
        simpa [ConnFunctor.payload] using ho.order u
      · simpa [ConnFunctor.payload] using ho.direct
    · cases hs
      exact open_decide h ‹_› (by simpa using hfl) (by simp)
  | push t =>
    obtain ⟨f, hf, rfl⟩ := Option.map_eq_some_iff.mp hs
    intro hopen
    obtain ⟨hw, ho⟩ := h hopen
    exact ⟨⟨hw.opened, hw.bytes, hw.coupled⟩, ordered_push ho hf⟩
  | swap =>
    simp only [step] at hs
    split at hs
    · obtain ⟨l, hl, rfl⟩ := Option.map_eq_some_iff.mp hs
      intro hopen
      obtain ⟨hw, ho⟩ := h hopen
      have hq := EventLoop.queued_swap hl
      exact ⟨⟨hw.opened, hw.bytes, hw.coupled⟩, by simpa [hq] using ho.order, ho.own,
        by simpa [hq] using ho.direct⟩
    · cases hs
  | handleWrite r =>
    simp only [step] at hs
    split at hs
    · cases hs
      intro hopen
      obtain ⟨hex, hclosed, hsame⟩ := handleWrite_order (c := c) (r := r)
      rw [hclosed] at hopen
      obtain ⟨hw, ho⟩ := h hopen
      exact ⟨whole_handleWrite hw, ordered_same ho hex hsame⟩
    · cases hs
  | callbackReturns =>
    simp only [step] at hs
    split at hs
    · cases hs
    · cases hs
      intro hopen
      obtain ⟨hw, ho⟩ := h hopen
      exact ⟨⟨hw.opened, hw.bytes, hw.coupled⟩, ordered_same ho rfl ⟨rfl, rfl, rfl⟩⟩
    · cases hs
      intro hopen
      obtain ⟨hex, hclosed, hsame⟩ := afterHandleWrite_order (c := { c with stack := _ })
      rw [hclosed] at hopen
      obtain ⟨hw, ho⟩ := h hopen
      exact ⟨whole_afterHandleWrite ⟨hw.opened, hw.bytes, hw.coupled⟩,
        ordered_same ho hex ⟨hsame.loop, hsame.inFlight, hsame.found⟩⟩
  | handleClose =>
    simp only [step] at hs
    split at hs
    · cases hs
      intro hopen
      cases hopen
    · cases hs

omit [DecidableEq τ] in
theorem whole_new : Whole (new : TcpConnection τ) := by
  refine ⟨by simp [new], by simp [new], ?_⟩
  simp [new, Buffer.readable, Buffer.new]

theorem ordered_new : Ordered loopThread (new : TcpConnection τ) where
  order := by simp [new, onThread, queuedBy]
  own := by simp [new]
  direct := by simp [new, queuedBy]

/-- As long as `handle_close` has not run: the bytes that the socket has accepted, followed by
the bytes in the output buffer, are the payloads that `send_in_loop` has executed, one after
another; that order keeps the order of each thread's sends that found `kConnected`, of which
only the last may still be queued or in flight; and the channel asks for write events exactly
when the buffer holds bytes. -/
theorem sent_bytes_keep_their_order (h : (machine loopThread hasCallback).Reach c)
    (hopen : c.closed = false) :
    c.accepted ++ c.outputBuf.peek = c.executed.flatMap Prod.snd ∧
      (∀ t, onThread t c.executed ++ queuedBy t c.loop.queued ++
        queuedBy t (c.inFlight t).toList = onThread t c.found) ∧
      (c.isWriting = true ↔ 0 < c.outputBuf.readable) := by
  have hinv : Open loopThread c :=
    h.invariant (I := Open loopThread) (fun _ => ⟨whole_new, ordered_new⟩)
      fun _ _ _ _ hi hs => open_step hi hs
  obtain ⟨hw, ho⟩ := hinv hopen
  exact ⟨hw.bytes, ho.order, hw.coupled⟩

/-- A thread and the loop send, with short counts, a full buffer, and a send from inside the
callback of `handle_write`. -/
def mixedSends : List (Act Bool) :=
  [.established, .send false (.string [1, 2, 3]) (.count 2), .push false, .swap,
    .functor (.count 1), .send true (.string [4, 5]) .wouldBlock, .handleWrite (.count 4),
    .send true (.buffer ((Buffer.new kInitialSize).append [6])) .wouldBlock, .callbackReturns]

theorem mixed_sends_keep_their_order :
    ∃ c, (machine true true : Machine (TcpConnection Bool) (Act Bool)).Reach c ∧
      c.closed = false ∧ c.accepted = [1, 2, 3, 4, 5] ∧ c.outputBuf.peek = [6] ∧
      c.accepted ++ c.outputBuf.peek = c.executed.flatMap Prod.snd ∧ c.isWriting = true := by
  obtain ⟨c, h, hopen, hacc, hbuf⟩ :
      ∃ c, (machine true true : Machine (TcpConnection Bool) (Act Bool)).Reach c ∧
        c.closed = false ∧ c.accepted = [1, 2, 3, 4, 5] ∧ c.outputBuf.peek = [6] :=
    Machine.ReachUnder.of_run mixedSends (by decide +kernel)
  obtain ⟨hbytes, -, hcoup⟩ := sent_bytes_keep_their_order h hopen
  refine ⟨c, h, hopen, hacc, hbuf, hbytes, hcoup.mpr ?_⟩
  rw [← Buffer.peek_length, hbuf]
  decide

end TcpConnection

end rpc.net
