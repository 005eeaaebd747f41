-- The state of a connection under threads. `shutdown` and `force_close` test
-- `state_` and then store it, on any thread; the loop thread stores it when the
-- connection is established, closed and destroyed. Every load and every store
-- is a step of its own, so a list of actions is an interleaving of them all.
import Mathlib.Data.Fintype.Basic
import RpcFramework.TcpConnection

namespace rpc.net

open runs

/-! ## The state -/

/-- Where a thread stands inside one of the calls. `shutdown` has found `kConnected`;
`force_close` did not find it and tests again, or has found what it looks for. On the loop thread
a failed `::write` is about to be answered by `handle_close`, or `connection_destroyed` has found
`kConnected`. -/
inductive ConnPc
  | idle | shutdownTested | forceRetesting | forceTested | closing | destroying
  deriving DecidableEq

/-- The thread is about to store `kDisconnecting`. -/
def ConnPc.tested : ConnPc → Bool
  | .shutdownTested | .forceTested => true
  | _ => false

/-- The order in which a connection goes through its states. -/
def ConnState.rank : ConnState → Nat
  | .kConnecting => 0
  | .kConnected => 1
  | .kDisconnecting => 2
  | .kDisconnected => 3

/-- The connection, and the place of each thread. What a thread hands to the loop next is in
`conn.inFlight`. -/
structure ConnThreads (τ : Type) where
  conn : TcpConnection τ
  pc : τ → ConnPc

namespace TcpConnection

variable {τ : Type}

/-- `send_in_loop` calls `::write`. -/
def callsWrite (c : TcpConnection τ) : Bool :=
  c.state ≠ .kDisconnected && !c.isWriting && c.outputBuf.readable = 0

/-- The functor is a send, and its `::write` fails. -/
def writeFails (c : TcpConnection τ) (r : WriteResult) : ConnFunctor τ → Bool
  | .sendInLoop _ _ => c.callsWrite && r = .error
  | .shutdownInLoop | .handleClose => false

end TcpConnection

/-- The kernel may answer the `::write` of the functor so. -/
def ConnFunctor.answered {τ : Type} (r : WriteResult) : ConnFunctor τ → Bool
  | .sendInLoop _ data => r.fits data.length
  | .shutdownInLoop | .handleClose => true

namespace ConnThreads

variable {τ : Type}

def new : ConnThreads τ := ⟨TcpConnection.new, fun _ => .idle⟩

def setState (s : ConnThreads τ) (st : ConnState) : ConnThreads τ :=
  { s with conn := { s.conn with state := st } }

def setLoop (s : ConnThreads τ) (l : EventLoop (ConnFunctor τ)) : ConnThreads τ :=
  { s with conn := { s.conn with loop := l } }

/-- The thread is in none of the calls. -/
def free (s : ConnThreads τ) (t : τ) : Bool := s.pc t = .idle && s.conn.inFlight t = none

theorem pc_of_free {s : ConnThreads τ} {t : τ} (h : s.free t = true) : s.pc t = .idle := by
  simp only [free, Bool.and_eq_true, decide_eq_true_eq] at h
  exact h.1

theorem inFlight_of_free {s : ConnThreads τ} {t : τ} (h : s.free t = true) : s.conn.inFlight t = none := by
  simp only [free, Bool.and_eq_true, decide_eq_true_eq] at h
  exact h.2

variable [DecidableEq τ]

def setPc (s : ConnThreads τ) (t : τ) (pc : ConnPc) : ConnThreads τ :=
  { s with pc := Function.update s.pc t pc }

def setInFlight (s : ConnThreads τ) (t : τ) (f : Option (ConnFunctor τ)) : ConnThreads τ :=
  { s with conn := s.conn.setInFlight t f }

@[simp]
theorem setInFlight_inFlight (s : ConnThreads τ) (t : τ) (f : Option (ConnFunctor τ)) :
    (s.setInFlight t f).conn.inFlight = Function.update s.conn.inFlight t f := rfl

/-! ## The steps -/

/-- The actions. `send`, `shutdown` and `forceClose` are the first load of the call, and a store
or a second load comes after. `runInLoop` hands the functor over. `handleClose` is the store of
`handle_close`, after an event on the channel or after a failed `::write`. -/
inductive Act (τ : Type)
  | established
  | send (t : τ) (arg : SendArg)
  | shutdown (t : τ)
  | shutdownStore (t : τ)
  | forceClose (t : τ)
  | forceRetest (t : τ)
  | forceStore (t : τ)
  | runInLoop (t : τ) (r : WriteResult)
  | swap
  | functor (r : WriteResult)
  | handleWrite (r : WriteResult)
  | callbackReturns
  | handleClose
  | destroyed
  | destroyedStore

/-- A send has found `kConnected`, and holds its functor. -/
def pass (s : ConnThreads τ) (t : τ) (data : Bytes) : ConnThreads τ :=
  let c := { s.conn with found := s.conn.found ++ [(t, data)] }
  { s with conn := c.setInFlight t (some (.sendInLoop t data)) }

/-- The loop thread runs a functor. A failed `::write` leads to `handle_close`. -/
def runFunctor (loopThread : τ) (s : ConnThreads τ) (r : WriteResult) (f : ConnFunctor τ) :
    ConnThreads τ :=
  if s.conn.writeFails r f then s.setPc loopThread .closing
  else { s with conn := s.conn.runFunctor true r f }

/-- The store of `shutdown` or of `force_close`, after which the thread holds the functor. -/
def store (s : ConnThreads τ) (t : τ) (f : ConnFunctor τ) : ConnThreads τ :=
  ((s.setState .kDisconnecting).setInFlight t (some f)).setPc t .idle

@[simp]
theorem store_state (s : ConnThreads τ) (t : τ) (f : ConnFunctor τ) :
    (s.store t f).conn.state = .kDisconnecting := rfl

@[simp]
theorem store_inFlight (s : ConnThreads τ) (t : τ) (f : ConnFunctor τ) :
    (s.store t f).conn.inFlight = Function.update s.conn.inFlight t (some f) := rfl

@[simp]
theorem store_found (s : ConnThreads τ) (t : τ) (f : ConnFunctor τ) :
    (s.store t f).conn.found = s.conn.found := rfl

@[simp]
theorem store_pc (s : ConnThreads τ) (t : τ) (f : ConnFunctor τ) :
    (s.store t f).pc = Function.update s.pc t .idle := rfl

/-- The state after an action, when it can be taken. The end of `handle_write` loads `state_`
once more, so it is a step of its own, with or without a write-complete callback. -/
def step (loopThread : τ) (s : ConnThreads τ) : Act τ → Option (ConnThreads τ)
  | .established =>
    if s.free loopThread ∧ s.conn.state = .kConnecting then some (s.setState .kConnected) else none
  | .send t arg =>
    if s.free t then
      if s.conn.state = .kConnected then some (s.pass t arg.data) else some s
    else none
  | .shutdown t =>
    if s.free t then
      if s.conn.state = .kConnected then some (s.setPc t .shutdownTested) else some s
    else none
  | .shutdownStore t =>
    if s.pc t = .shutdownTested then some (s.store t .shutdownInLoop) else none
  | .forceClose t =>
    if s.free t then
      some (s.setPc t (if s.conn.state = .kConnected then .forceTested else .forceRetesting))
    else none
  | .forceRetest t =>
    if s.pc t = .forceRetesting then
      some (s.setPc t (if s.conn.state = .kDisconnecting then .forceTested else .idle))
    else none
  | .forceStore t =>
    if s.pc t = .forceTested then some (s.store t .handleClose) else none
  | .runInLoop t r =>
    match s.conn.inFlight t with
    | none => none
    | some f =>
      -- `force_close` queues its functor on the loop thread too
      if t = loopThread ∧ f ≠ .handleClose then
        if f.answered r then some ((s.setInFlight t none).runFunctor loopThread r f) else none
      else some ((s.setInFlight t none).setLoop (s.conn.loop.queueInLoop f))
  | .swap =>
    if s.free loopThread ∧ s.conn.stack = [] then s.conn.loop.swap.map s.setLoop else none
  | .functor r =>
    if s.free loopThread ∧ s.conn.stack = [] then
      match s.conn.loop.next with
      | none => none
      | some (f, l) =>
        if f.answered r then some ((s.setLoop l).runFunctor loopThread r f) else none
    else none
  | .handleWrite r =>
    if s.free loopThread ∧ s.conn.stack = [] ∧ s.conn.loop.functors = [] ∧
        r.fits s.conn.outputBuf.readable then
      some { s with conn := s.conn.handleWrite true r }
    else none
  | .callbackReturns =>
    if s.free loopThread then
      match s.conn.stack with
      | [] => none
      | .fromSend :: rest => some { s with conn := { s.conn with stack := rest } }
      | .fromHandleWrite :: rest =>
        some { s with conn := { s.conn with stack := rest }.afterHandleWrite }
    else none
  | .handleClose =>
    if s.pc loopThread = .closing ∨ (s.free loopThread ∧ s.conn.stack = [] ∧
        s.conn.loop.functors = [] ∧ s.conn.state ≠ .kConnecting) then
      some { s.setPc loopThread .idle with conn := s.conn.handleClose }
    else none
  | .destroyed =>
    if s.free loopThread ∧ s.conn.stack = [] then
      if s.conn.state = .kConnected then some (s.setPc loopThread .destroying) else some s
    else none
  | .destroyedStore =>
    if s.pc loopThread = .destroying then
      some { s.setPc loopThread .idle with
        conn := { s.conn with state := .kDisconnected, isWriting := false } }
    else none

def machine (loopThread : τ) : Machine (ConnThreads τ) (Act τ) where
  init := new
  step := step loopThread

/-! ## What a step can do -/

/-- The changes of the connection and of the threads, each with its action and what it found. -/
inductive Move (loopThread : τ) (s : ConnThreads τ) : Act τ → ConnThreads τ → Prop
  | sendRefused (t : τ) (arg : SendArg) : s.conn.state ≠ .kConnected →
      Move loopThread s (.send t arg) s
  | shutdownRefused (t : τ) : s.conn.state ≠ .kConnected → Move loopThread s (.shutdown t) s
  | destroyedBefore : s.conn.state ≠ .kConnected → Move loopThread s .destroyed s
  | established : s.conn.state = .kConnecting →
      Move loopThread s .established (s.setState .kConnected)
  | pass (t : τ) (arg : SendArg) : s.free t = true → s.conn.state = .kConnected →
      Move loopThread s (.send t arg) (s.pass t arg.data)
  | test (t : τ) : s.free t = true → s.conn.state = .kConnected →
      Move loopThread s (.shutdown t) (s.setPc t .shutdownTested)
  | shutdownStore (t : τ) : s.pc t = .shutdownTested →
      Move loopThread s (.shutdownStore t) (s.store t .shutdownInLoop)
  | forceTest (t : τ) : s.free t = true → s.conn.state = .kConnected →
      Move loopThread s (.forceClose t) (s.setPc t .forceTested)
  | forceDefer (t : τ) : s.free t = true → s.conn.state ≠ .kConnected →
      Move loopThread s (.forceClose t) (s.setPc t .forceRetesting)
  | forceRetest (t : τ) : s.pc t = .forceRetesting → s.conn.state = .kDisconnecting →
      Move loopThread s (.forceRetest t) (s.setPc t .forceTested)
  | forceLeave (t : τ) : s.pc t = .forceRetesting → s.conn.state ≠ .kDisconnecting →
      Move loopThread s (.forceRetest t) (s.setPc t .idle)
  | forceStore (t : τ) : s.pc t = .forceTested →
      Move loopThread s (.forceStore t) (s.store t .handleClose)
  | queue (t : τ) (r : WriteResult) (f : ConnFunctor τ) : s.conn.inFlight t = some f →
      (t = loopThread → f = .handleClose) → Move loopThread s (.runInLoop t r)
        ((s.setInFlight t none).setLoop (s.conn.loop.queueInLoop f))
  | inline (r : WriteResult) (f : ConnFunctor τ) : s.conn.inFlight loopThread = some f →
      f ≠ .handleClose → f.answered r = true → Move loopThread s (.runInLoop loopThread r)
        ((s.setInFlight loopThread none).runFunctor loopThread r f)
  | swap (l : EventLoop (ConnFunctor τ)) : s.conn.loop.swap = some l →
      Move loopThread s .swap (s.setLoop l)
  | functor (r : WriteResult) (f : ConnFunctor τ) (l : EventLoop (ConnFunctor τ)) :
      s.conn.loop.next = some (f, l) → f.answered r = true →
      Move loopThread s (.functor r) ((s.setLoop l).runFunctor loopThread r f)
  | handleWrite (r : WriteResult) : r.fits s.conn.outputBuf.readable = true →
      Move loopThread s (.handleWrite r) { s with conn := s.conn.handleWrite true r }
  | afterSend (rest : List AfterCallback) : s.conn.stack = .fromSend :: rest →
      Move loopThread s .callbackReturns { s with conn := { s.conn with stack := rest } }
  | afterHandleWrite (rest : List AfterCallback) : s.conn.stack = .fromHandleWrite :: rest →
      Move loopThread s .callbackReturns
        { s with conn := { s.conn with stack := rest }.afterHandleWrite }
  | handleClose : (s.pc loopThread).tested = false → Move loopThread s .handleClose
      { s.setPc loopThread .idle with conn := s.conn.handleClose }
  | destroyTest : s.conn.state = .kConnected →
      Move loopThread s .destroyed (s.setPc loopThread .destroying)
  | destroyedStore : s.pc loopThread = .destroying → Move loopThread s .destroyedStore
      { s.setPc loopThread .idle with
        conn := { s.conn with state := .kDisconnected, isWriting := false } }

variable {loopThread : τ} {s s' : ConnThreads τ} {a : Act τ}

theorem move_of_step (h : step loopThread s a = some s') : Move loopThread s a s' := by
  unfold step at h
  cases a with
  | established =>
    dsimp only at h
    split at h
    · rename_i hg
      cases h
      exact .established hg.2
    · cases h
  | send t arg =>
    dsimp only at h
    split at h
    · split at h
      · cases h
        exact .pass t arg ‹_› ‹_›
      · cases h
        exact .sendRefused t arg ‹_›
    · cases h
  | shutdown t =>
    dsimp only at h
    split at h
    · split at h
      · cases h
        exact .test t ‹_› ‹_›
      · cases h
        exact .shutdownRefused t ‹_›
    · cases h
  | shutdownStore t =>
    dsimp only at h
    split at h
    · cases h
      exact .shutdownStore t ‹_›
    · cases h
  | forceClose t =>
    dsimp only at h
    split at h
    · split at h
      · cases h
        exact .forceTest t ‹_› ‹_›
      · cases h
        exact .forceDefer t ‹_› ‹_›
    · cases h
  | forceRetest t =>
    dsimp only at h
    split at h
    · split at h
      · cases h
        exact .forceRetest t ‹_› ‹_›
      · cases h
        exact .forceLeave t ‹_› ‹_›
    · cases h
  | forceStore t =>
    dsimp only at h
    split at h
    · cases h
      exact .forceStore t ‹_›
    · cases h
  | runInLoop t r =>
    dsimp only at h
    split at h
    · cases h
    · rename_i f hf
      split at h
      · rename_i hloop
        obtain ⟨rfl, hne⟩ := hloop
        split at h
        · cases h
          exact .inline r f hf hne ‹_›
        · cases h
      · rename_i hother
        cases h
        exact .queue t r f hf (by simpa using hother)
  | swap =>
    dsimp only at h
    split at h
    · obtain ⟨l, hl, rfl⟩ := Option.map_eq_some_iff.mp h
      exact .swap l hl
    · cases h
  | functor r =>
    dsimp only at h
    split at h
    · split at h
      · cases h
      · rename_i f l hl
        split at h
        · cases h
          exact .functor r f l hl ‹_›
        · cases h
    · cases h
  | handleWrite r =>
    dsimp only at h
    split at h
    · rename_i hg
      cases h
      exact .handleWrite r hg.2.2.2
    · cases h
  | callbackReturns =>
    dsimp only at h
    split at h
    · split at h
      · cases h
      · cases h
        exact .afterSend _ ‹_›
      · cases h
        exact .afterHandleWrite _ ‹_›
    · cases h
  | handleClose =>
    dsimp only at h
    split at h
    · rename_i hg
      cases h
      refine .handleClose ?_
      rcases hg with hpc | ⟨hfree, -⟩
      · simp [hpc, ConnPc.tested]
      · simp [pc_of_free hfree, ConnPc.tested]
    · cases h
  | destroyed =>
    dsimp only at h
    split at h
    · split at h
      · cases h
        exact .destroyTest ‹_›
      · cases h
        exact .destroyedBefore ‹_›
    · cases h
  | destroyedStore =>
    dsimp only at h
    split at h
    · cases h
      exact .destroyedStore ‹_›
    · cases h

/-! ## The order of the states -/

omit [DecidableEq τ] in
/-- A send whose `::write` does not fail leaves the state of the connection alone. -/
theorem keeps_sendInLoop {c : TcpConnection τ} {t : τ} {data : Bytes} {r : WriteResult}
    (h : c.writeFails r (.sendInLoop t data) = false) :
    (c.sendInLoop true t data r).state = c.state ∧
      (c.sendInLoop true t data r).halfClosed = c.halfClosed ∧
      (c.sendInLoop true t data r).closed = c.closed := by
  unfold TcpConnection.sendInLoop
  split
  · exact ⟨rfl, rfl, rfl⟩
  · rename_i hst
    dsimp only
    split
    · rename_i hidle
      cases r with
      | error =>
        simp only [Bool.and_eq_true, Bool.not_eq_true', decide_eq_true_eq] at hidle
        simp [TcpConnection.writeFails, TcpConnection.callsWrite, hst, hidle] at h
      | wouldBlock => exact ⟨rfl, rfl, rfl⟩
      | count n =>
        dsimp only
        split <;> exact ⟨rfl, rfl, rfl⟩
    · exact ⟨rfl, rfl, rfl⟩

omit [DecidableEq τ] in
theorem state_shutdownInLoop (c : TcpConnection τ) : c.shutdownInLoop.state = c.state := by
  unfold TcpConnection.shutdownInLoop
  split <;> rfl

omit [DecidableEq τ] in
theorem state_afterHandleWrite (c : TcpConnection τ) : c.afterHandleWrite.state = c.state := by
  unfold TcpConnection.afterHandleWrite
  split
  · exact state_shutdownInLoop c
  · rfl

omit [DecidableEq τ] in
theorem keeps_handleWrite (c : TcpConnection τ) (r : WriteResult) :
    (c.handleWrite true r).state = c.state ∧
      (c.handleWrite true r).halfClosed = c.halfClosed := by
  unfold TcpConnection.handleWrite
  split
  · exact ⟨rfl, rfl⟩
  · cases r with
    | count n =>
      dsimp only
      split
      · split <;> exact ⟨rfl, rfl⟩
      · exact ⟨rfl, rfl⟩
    | wouldBlock => exact ⟨rfl, rfl⟩
    | error => exact ⟨rfl, rfl⟩

/-- Only the functor of `force_close` stores the state. -/
theorem state_runFunctor {r : WriteResult} {f : ConnFunctor τ} (hf : f ≠ .handleClose) :
    (s.runFunctor loopThread r f).conn.state = s.conn.state := by
  unfold runFunctor
  split
  · rfl
  · rename_i hok
    cases f with
    | sendInLoop t data => exact (keeps_sendInLoop (by simpa using hok)).1
    | shutdownInLoop => exact state_shutdownInLoop s.conn
    | handleClose => exact absurd rfl hf

/-- A functor leaves every other thread where it stands. -/
theorem tested_runFunctor {r : WriteResult} {f : ConnFunctor τ} {t : τ}
    (h : (s.pc t).tested = false) : ((s.runFunctor loopThread r f).pc t).tested = false := by
  unfold runFunctor
  split
  · by_cases ht : t = loopThread
    · simp [setPc, ht, ConnPc.tested]
    · simpa [setPc, ht] using h
  · exact h

/-! ## The law -/

/-- The action stores `kDisconnected`. -/
def closes (s : ConnThreads τ) : Act τ → Bool
  | .handleClose | .destroyedStore => true
  | .functor _ =>
    match s.conn.loop.next with
    | some (.handleClose, _) => true
    | _ => false
  | _ => false

/-- When the loop thread stores `kDisconnected`, no thread is between its test of the state and
its store. -/
def Apart (s : ConnThreads τ) (a : Act τ) : Prop :=
  s.closes a = true → ∀ t, (s.pc t).tested = false

instance [Fintype τ] (s : ConnThreads τ) (a : Act τ) : Decidable (Apart s a) :=
  inferInstanceAs (Decidable (_ → _))

/-- Nobody is about to store `kDisconnecting` over `kDisconnected`. -/
def Sealed (s : ConnThreads τ) : Prop :=
  s.conn.state = .kDisconnected → ∀ t, (s.pc t).tested = false

/-- What a step has to keep: the seal, and the order of the states. -/
def Forward (s s' : ConnThreads τ) : Prop :=
  Sealed s' ∧ s.conn.state.rank ≤ s'.conn.state.rank

omit [DecidableEq τ] in
theorem forward_same (h : Sealed s) (hst : s'.conn.state = s.conn.state)
    (hpc : ∀ t, (s.pc t).tested = false → (s'.pc t).tested = false) : Forward s s' := by
  refine ⟨?_, by rw [hst]⟩
  intro hclosed t
  rw [hst] at hclosed
  exact hpc t (h hclosed t)

theorem forward_setPc (h : Sealed s) (t : τ) (pc : ConnPc)
    (hpc : pc.tested = true → s.conn.state ≠ .kDisconnected) : Forward s (s.setPc t pc) := by
  refine ⟨?_, le_rfl⟩
  intro hclosed u
  by_cases hu : u = t
  · subst hu
    simp only [setPc, Function.update_self]
    by_contra htested
    exact hpc (by simpa using htested) hclosed
  · simpa [setPc, hu] using h hclosed u

/-- A thread that has tested the state stores `kDisconnecting` over an earlier one. -/
theorem forward_store (h : Sealed s) {t : τ} (ht : (s.pc t).tested = true) (f : ConnFunctor τ) :
    Forward s (s.store t f) := by
  refine ⟨fun hclosed => (by cases hclosed), ?_⟩
  cases hst : s.conn.state with
  | kDisconnected =>
    rw [h hst t] at ht
    cases ht
  | _ => simp [ConnState.rank]

omit [DecidableEq τ] in
/-- `kDisconnected` is stored while no thread has tested the state. -/
theorem forward_close (hpc : ∀ t, (s.pc t).tested = false)
    (hst : s'.conn.state = .kDisconnected)
    (hkeep : ∀ t, (s.pc t).tested = false → (s'.pc t).tested = false) : Forward s s' := by
  refine ⟨fun _ t => hkeep t (hpc t), ?_⟩
  rw [hst]
  cases s.conn.state <;> simp [ConnState.rank]

theorem tested_setPc_idle (t u : τ) (h : (s.pc u).tested = false) :
    ((s.setPc t .idle).pc u).tested = false := by
  by_cases hu : u = t
  · simp [setPc, hu, ConnPc.tested]
  · simpa [setPc, hu] using h

theorem forward_functor {r : WriteResult} {f : ConnFunctor τ} {l : EventLoop (ConnFunctor τ)}
    (h : Sealed s) (ha : Apart s (.functor r)) (hl : s.conn.loop.next = some (f, l)) :
    Forward s ((s.setLoop l).runFunctor loopThread r f) := by
  by_cases hf : f = .handleClose
  · subst hf
    have hpc : ∀ t, (s.pc t).tested = false := ha (by simp [closes, hl])
    exact forward_close hpc rfl fun t ht => ht
  · exact forward_same h (state_runFunctor hf) fun t ht => tested_runFunctor ht

/-- Each step keeps the seal, and does not go back. -/
theorem forward_move (h : Sealed s) (ha : Apart s a) (hm : Move loopThread s a s') :
    Forward s s' := by
  cases hm with
  | sendRefused t arg _ => exact ⟨h, le_rfl⟩
  | shutdownRefused t _ => exact ⟨h, le_rfl⟩
  | destroyedBefore _ => exact ⟨h, le_rfl⟩
  | established hst =>
    refine ⟨fun hclosed => (by cases hclosed), ?_⟩
    simp [setState, hst, ConnState.rank]
  | pass t arg _ _ => exact ⟨h, le_rfl⟩
  | test t _ hst => exact forward_setPc h t _ (by simp [hst])
  | shutdownStore t ht => exact forward_store h (by simp [ht, ConnPc.tested]) _
  | forceTest t _ hst => exact forward_setPc h t _ (by simp [hst])
  | forceDefer t _ _ => exact forward_setPc h t _ (by simp [ConnPc.tested])
  | forceRetest t _ hst => exact forward_setPc h t _ (by simp [hst])
  | forceLeave t _ _ => exact forward_setPc h t _ (by simp [ConnPc.tested])
  | forceStore t ht => exact forward_store h (by simp [ht, ConnPc.tested]) _
  | queue t r f _ _ => exact ⟨h, le_rfl⟩
  | inline r f _ hf _ => exact forward_same h (state_runFunctor hf) fun t ht => tested_runFunctor ht
  | swap l _ => exact ⟨h, le_rfl⟩
  | functor r f l hl _ => exact forward_functor h ha hl
  | handleWrite r _ => exact forward_same h (keeps_handleWrite s.conn r).1 fun t ht => ht
  | afterSend rest _ => exact ⟨h, le_rfl⟩
  | afterHandleWrite rest _ => exact forward_same h (state_afterHandleWrite _) fun t ht => ht
  | handleClose _ => exact forward_close (ha rfl) rfl fun t ht => tested_setPc_idle loopThread t ht
  | destroyTest hst => exact forward_setPc h _ _ (by simp [ConnPc.tested])
  | destroyedStore _ =>
    exact forward_close (ha rfl) rfl fun t ht => tested_setPc_idle loopThread t ht

theorem sealed_reach (h : (machine loopThread).ReachUnder Apart s) : Sealed s := by
  refine h.invariant (I := Sealed) ?_ ?_
  · intro _ t
    simp [machine, new, ConnPc.tested]
  · intro s a s' _ hi ha hs
    exact (forward_move hi ha (move_of_step hs)).1

/-- Over every interleaving of sends, `shutdown`, `force_close` and the loop thread: a state at
or after another one in the run does not come before it in the order of the states, and
`kDisconnected` is never left, when `kDisconnected` is never stored between a thread's test of
the state and its store. -/
theorem the_state_only_moves_forward (h : (machine loopThread).ReachUnder Apart s)
    (hl : (machine loopThread).LaterUnder Apart s s') :
    s.conn.state.rank ≤ s'.conn.state.rank ∧
      (s.conn.state = .kDisconnected → s'.conn.state = .kDisconnected) := by
  have hrank : s.conn.state.rank ≤ s'.conn.state.rank := by
    refine hl.keeps (I := fun u => s.conn.state.rank ≤ u.conn.state.rank) ?_ h le_rfl
    intro u a v hu hle ha hs
    exact hle.trans (forward_move (sealed_reach hu) ha (move_of_step hs)).2
  refine ⟨hrank, ?_⟩
  intro hclosed
  rw [hclosed] at hrank
  cases hst : s'.conn.state with
  | kDisconnected => rfl
  | _ => simp [hst, ConnState.rank] at hrank

/-- A thread shuts the connection down, and the peer closes it after that. -/
theorem a_connection_that_is_shut_down_and_closed :
    ∃ s s', (machine true : Machine (ConnThreads Bool) (Act Bool)).ReachUnder Apart s ∧
      (machine true : Machine (ConnThreads Bool) (Act Bool)).LaterUnder Apart s s' ∧
      s.conn.state = .kConnected ∧ s'.conn.state = .kDisconnected ∧
      s.conn.state.rank ≤ s'.conn.state.rank := by
  obtain ⟨s, s', h, hl, hst, hclosed⟩ :
      ∃ s s', (machine true : Machine (ConnThreads Bool) (Act Bool)).ReachUnder Apart s ∧
        (machine true : Machine (ConnThreads Bool) (Act Bool)).LaterUnder Apart s s' ∧
        s.conn.state = .kConnected ∧ s'.conn.state = .kDisconnected :=
    Machine.ReachUnder.of_runs [.established] [.shutdown false, .shutdownStore false,
      .runInLoop false .wouldBlock, .handleClose] (by decide +kernel)
  exact ⟨s, s', h, hl, hst, hclosed, (the_state_only_moves_forward h hl).1⟩

/-- `shutdown` finds `kConnected` on one thread, the loop thread closes the connection, and then
`shutdown` stores its own state over `kDisconnected`. -/
theorem a_closed_connection_is_disconnecting_again :
    ∃ s s', (machine true : Machine (ConnThreads Bool) (Act Bool)).Reach s ∧
      s.conn.state = .kDisconnected ∧
      (machine true).step s (.shutdownStore false) = some s' ∧
      s'.conn.state = .kDisconnecting := by
  obtain ⟨s, h, hst, hpc⟩ :
      ∃ s, (machine true : Machine (ConnThreads Bool) (Act Bool)).Reach s ∧
        s.conn.state = .kDisconnected ∧ s.pc false = .shutdownTested :=
    Machine.ReachUnder.of_run [.established, .shutdown false, .handleClose] (by decide +kernel)
  refine ⟨s, s.store false .shutdownInLoop, h, hst, ?_, rfl⟩
  simp [machine, step, hpc]

/-- When `kDisconnected` is stored while a thread is between its test and its store, that store
goes back. -/
theorem a_store_after_the_close_goes_back (hs : (machine loopThread).step s a = some s')
    (ha : ¬ Apart s a) : s'.conn.state = .kDisconnected ∧ ∃ b t, (machine loopThread).step s' b =
      some t ∧ t.conn.state = .kDisconnecting := by
  unfold Apart at ha
  simp only [not_forall, Bool.not_eq_false] at ha
  obtain ⟨hcloses, t, ht⟩ := ha
  have hkept : s'.conn.state = .kDisconnected ∧ s'.pc t = s.pc t := by
    cases move_of_step hs with
    | functor r f l hl _ =>
      simp only [closes, hl] at hcloses
      split at hcloses
      · rename_i heq
        cases heq
        exact ⟨rfl, rfl⟩
      · cases hcloses
    | handleClose hloop =>
      have htl : t ≠ loopThread := by
        rintro rfl
        rw [hloop] at ht
        cases ht
      exact ⟨rfl, by simp [setPc, htl]⟩
    | destroyedStore hloop =>
      have htl : t ≠ loopThread := by
        rintro rfl
        simp [hloop, ConnPc.tested] at ht
      exact ⟨rfl, by simp [setPc, htl]⟩
    | _ => cases hcloses
  refine ⟨hkept.1, ?_⟩
  cases hpc : s.pc t with
  | shutdownTested =>
    refine ⟨.shutdownStore t, s'.store t .shutdownInLoop, ?_, rfl⟩
    simp [machine, step, hkept.2, hpc]
  | forceTested =>
    refine ⟨.forceStore t, s'.store t .handleClose, ?_, rfl⟩
    simp [machine, step, hkept.2, hpc]
  | _ => simp [hpc, ConnPc.tested] at ht

end ConnThreads

end rpc.net
