-- How much memory the peers can make the server take for their input. The codec leaves less than
-- one frame in a buffer, or gives the connection up; and a connection that is given up is closed
-- before the loop polls again.
import RpcFramework.BufferSize
import RpcFramework.LoopPointers

namespace rpc.net

open runs codec

/-! ## What happens to the input of one connection -/

namespace TcpServer

variable {s s' : TcpServer} {a : Act} {c d : Nat}

/-- The tasks that read the input of a connection, take frames out of it, or give it up. -/
def feeds (c : Nat) (t : Task) : Bool :=
  t = .handleRead c || t = .onMessage c || t = .forceClose c

/-- A step leaves the input of a connection, and the tasks for it. -/
structure Still (c : Nat) (s s' : TcpServer) : Prop where
  input : (s'.conns c).inputBuf = (s.conns c).inputBuf
  closes : (s.conns c).closes ≤ (s'.conns c).closes
  state : (s'.conns c).state = .kConnecting → (s.conns c).state = .kConnecting
  alive : (s'.conns c).alive = true → (s.conns c).alive = true
  tasks : s'.stack.filter (feeds c) = s.stack.filter (feeds c)
  functors : c ∈ s.loop.functors → c ∈ s'.loop.functors
  pending : c ∈ s.loop.pendingFunctors → c ∈ s'.loop.pendingFunctors

namespace Still

theorem refl (c : Nat) (s : TcpServer) : Still c s s :=
  ⟨rfl, Nat.le_refl _, id, id, rfl, id, id⟩

theorem trans {s'' : TcpServer} (h : Still c s s') (h' : Still c s' s'') : Still c s s'' where
  input := h'.input.trans h.input
  closes := Nat.le_trans h.closes h'.closes
  state hst := h.state (h'.state hst)
  alive hc := h.alive (h'.alive hc)
  tasks := h'.tasks.trans h.tasks
  functors hc := h'.functors (h.functors hc)
  pending hc := h'.pending (h.pending hc)

theorem modify {f : Connection → Connection}
    (hinput : c = d → (f (s.conns c)).inputBuf = (s.conns c).inputBuf)
    (hcloses : (s.conns d).closes ≤ (f (s.conns d)).closes)
    (hstate : (f (s.conns d)).state = .kConnecting → (s.conns d).state = .kConnecting)
    (halive : (f (s.conns d)).alive = true → (s.conns d).alive = true) :
    Still c s (s.modify d f) := by
  by_cases hcd : c = d
  · subst hcd
    have hself := conns_modify_self s c f
    refine ⟨?_, ?_, ?_, ?_, rfl, id, id⟩ <;> rw [hself]
    · exact hinput rfl
    · exact hcloses
    · exact hstate
    · exact halive
  · have hne := conns_modify_ne s f hcd
    exact ⟨by rw [hne], by rw [hne], by rw [hne]; exact id, by rw [hne]; exact id, rfl, id, id⟩

theorem setPoller (h : Still c s s') (p : EpollPoller Nat) : Still c s { s' with poller := p } :=
  ⟨h.input, h.closes, h.state, h.alive, h.tasks, h.functors, h.pending⟩

theorem setConnections (h : Still c s s') (m : UInt64 → Option Nat) :
    Still c s { s' with connections := m } :=
  ⟨h.input, h.closes, h.state, h.alive, h.tasks, h.functors, h.pending⟩

theorem onChannel (s : TcpServer) (c d : Nat)
    (op : Channel → EpollPoller Nat → Channel × EpollPoller Nat) :
    Still c s (s.onChannel d op) :=
  (modify (f := fun k => { k with channel := (op (s.conns d).channel s.poller).1 })
    (fun _ => rfl) (Nat.le_refl _) id id).setPoller _

theorem deliver (s : TcpServer) (c d : Nat) (callback : Callback) :
    Still c s (s.deliver d callback) :=
  modify (fun _ => rfl) (Nat.le_refl _) id id

theorem push {ts : List Task} (h : ∀ t ∈ ts, feeds c t = false) : Still c s (s.push ts) := by
  refine ⟨rfl, Nat.le_refl _, id, id, ?_, id, id⟩
  unfold TcpServer.push
  have hnone : ts.filter (feeds c) = [] := by
    rw [List.filter_eq_nil_iff]
    intro t ht
    rw [h t ht]
    exact Bool.false_ne_true
  rw [List.filter_append, hnone, List.nil_append]

theorem pop {t : Task} {rest : List Task} (hs : s.stack = t :: rest) (ht : feeds c t = false) :
    Still c s { s with stack := rest } := by
  refine ⟨rfl, Nat.le_refl _, id, id, ?_, id, id⟩
  rw [hs, List.filter_cons_of_neg (by simp [ht])]

theorem handleClose (s : TcpServer) (c d : Nat) : Still c s (s.handleClose d) := by
  have hm : Still c s (s.modify d fun k =>
      { k with state := .kDisconnected, closes := k.closes + 1 }) :=
    modify (fun _ => rfl) (Nat.le_succ _) (by simp) id
  refine ((hm.trans (onChannel _ c d _)).trans (deliver _ c d _)).trans (push ?_)
  simp [feeds]

theorem shutdownInLoop (s : TcpServer) (c d : Nat) : Still c s (s.shutdownInLoop d) := by
  unfold TcpServer.shutdownInLoop
  split
  · exact refl c s
  · exact modify (fun _ => rfl) (Nat.le_refl _) id id

theorem bufferRest (s : TcpServer) (c d : Nat) (rest : Bytes) : Still c s (s.bufferRest d rest) := by
  have hm : Still c s (s.modify d fun k => { k with outputBuf := k.outputBuf.append rest }) :=
    modify (fun _ => rfl) (Nat.le_refl _) id id
  unfold TcpServer.bufferRest
  dsimp only
  split
  · exact hm
  · exact hm.trans (onChannel _ c d _)

theorem sendInLoop (s : TcpServer) (c d : Nat) (data : Bytes) (r : WriteResult) :
    Still c s (s.sendInLoop d data r) := by
  unfold TcpServer.sendInLoop
  split
  · exact refl c s
  split
  · cases r with
    | error => exact handleClose s c d
    | wouldBlock => exact bufferRest s c d data
    | count n =>
      dsimp only
      split
      · exact push (by simp [feeds])
      · exact bufferRest s c d _
  · exact bufferRest s c d data

theorem send (s : TcpServer) (c d : Nat) (data : Bytes) (r : WriteResult) :
    Still c s (s.send d data r) := by
  unfold TcpServer.send
  split
  · exact refl c s
  · exact sendInLoop s c d data r

theorem shutdown (s : TcpServer) (c d : Nat) : Still c s (s.shutdown d) := by
  unfold TcpServer.shutdown
  split
  · exact trans (modify (fun _ => rfl) (Nat.le_refl _) (by simp) id) (shutdownInLoop _ c d)
  · exact refl c s

theorem forceClose (s : TcpServer) (c d : Nat) : Still c s (s.forceClose d) := by
  unfold TcpServer.forceClose
  split
  · have hm : Still c s (s.modify d fun k => { k with state := .kDisconnecting }) :=
      modify (fun _ => rfl) (Nat.le_refl _) (by simp) id
    exact ⟨hm.input, hm.closes, hm.state, hm.alive, hm.tasks, hm.functors,
      List.mem_append_left _⟩
  · exact refl c s

theorem afterWrite (s : TcpServer) (c d : Nat) : Still c s (s.afterWrite d) := by
  unfold TcpServer.afterWrite
  split
  · exact shutdownInLoop s c d
  · exact refl c s

theorem handleWrite (s : TcpServer) (c d : Nat) (r : WriteResult) :
    Still c s (s.handleWrite d r) := by
  unfold TcpServer.handleWrite
  split
  · cases r with
    | wouldBlock => exact refl c s
    | error => exact refl c s
    | count n =>
      dsimp only
      split
      · rename_i hn
        have hm : Still c s (s.modify d fun k =>
            { k with outputBuf := (s.conns d).outputBuf.retrieve n hn.2 }) :=
          modify (fun _ => rfl) (Nat.le_refl _) id id
        split
        · exact (hm.trans (onChannel _ c d _)).trans (push (by simp [feeds]))
        · exact hm
      · exact refl c s
  · exact refl c s

theorem closeCb (s : TcpServer) (c d : Nat) (hst : (s.conns d).state = .kDisconnected) :
    Still c s ((s.deliver d .close).removeConnection d) := by
  rw [removeConnection_eq hst]
  exact ((deliver s c d .close).setConnections _).trans (onChannel _ c d _)

theorem destroy (s : TcpServer) (c d : Nat) : Still c s (s.destroy d) :=
  (modify (f := fun k => { k with alive := false }) (fun _ => rfl) (Nat.le_refl _) id
    (by simp)).setPoller _

theorem handleRead (hcd : c ≠ d) (r : Option Bytes) : Still c s (s.handleRead d r) := by
  unfold TcpServer.handleRead
  split
  · exact handleClose s c d
  · exact handleClose s c d
  · refine (trans (modify (fun heq => absurd heq hcd) (Nat.le_refl _) id id)
      (deliver _ c d _)).trans (push ?_)
    simp [feeds, hcd.symm]

theorem onMessage (hcd : c ≠ d) : Still c s (s.onMessage d) := by
  unfold TcpServer.onMessage
  split
  · exact refl c s
  · exact push (by simp [feeds, hcd.symm])
  · refine (trans (modify (fun heq => absurd heq hcd) (Nat.le_refl _) id id)
      (deliver _ c d _)).trans (push ?_)
    simp [feeds, hcd.symm]

theorem newConnection (hc : c ≠ s.accepts) (fd : Nat) : Still c s (s.newConnection fd) := by
  have hne := newConnection_conns_ne s fd hc
  refine ⟨by rw [hne], by rw [hne], by rw [hne]; exact id, by rw [hne]; exact id, ?_, id, id⟩
  rw [newConnection_stack]
  rfl

theorem event (hcd : c ≠ d) (revents : UInt32) : Still c s (s.push (branches d revents)) := by
  apply push
  intro t ht
  obtain ⟨hbranch, hconn⟩ := branches_conn ht
  unfold feeds
  cases t <;> simp_all [Task.isBranch, Task.conn]
  exact fun heq => hcd heq.symm

end Still

/-- What a step does to the input of one connection, if it swaps no queues. -/
inductive InputMove (c : Nat) (s : TcpServer) : Act → TcpServer → Prop
  | still {a : Act} {s' : TcpServer} : Still c s s' → InputMove c s a s'
  | accept {fd : Nat} : c = s.accepts → InputMove c s (.accept (some fd)) (s.newConnection fd)
  | event {revents : UInt32} : s.stack = [] →
      InputMove c s (.event c revents) (s.push (branches c revents))
  | functor {d : Nat} {l : EventLoop Nat} : s.loop.next = some (d, l) →
      InputMove c s .functor (TcpServer.handleClose { s with loop := l } d)
  | read {r : Option Bytes} {rest : List Task} : s.stack = .handleRead c :: rest →
      (∀ data ∈ r, data.length ≤ (s.conns c).inputBuf.iovTotal) →
      InputMove c s (.read r) (TcpServer.handleRead { s with stack := rest } c r)
  | onMessage {rest : List Task} : s.stack = .onMessage c :: rest →
      InputMove c s .resume (TcpServer.onMessage { s with stack := rest } c)
  | forceClose {rest : List Task} : s.stack = .forceClose c :: rest →
      InputMove c s .resume (TcpServer.forceClose { s with stack := rest } c)

theorem inputMove_of_step (h : Life s) (ha : a ≠ .swap) (hs : s.step a = some s') (c : Nat) :
    InputMove c s a s' := by
  cases a with
  | accept connFd =>
    dsimp only [step] at hs
    split at hs
    · cases hs
      cases connFd with
      | none => exact .still (.refl c s)
      | some fd =>
        by_cases hc : c = s.accepts
        · exact .accept hc
        · exact .still (.newConnection hc fd)
    · cases hs
  | event d revents =>
    dsimp only [step] at hs
    split at hs
    · rename_i hok
      simp only [polls, Bool.and_eq_true, List.isEmpty_iff] at hok
      cases hs
      by_cases hcd : c = d
      · subst hcd
        exact .event hok.1.1
      · exact .still (.event hcd revents)
    · cases hs
  | swap => exact absurd rfl ha
  | functor =>
    dsimp only [step] at hs
    split at hs
    · obtain ⟨⟨d, l⟩, hl, rfl⟩ := Option.map_eq_some_iff.mp hs
      exact .functor hl
    · cases hs
  | queuedSend d data r =>
    dsimp only [step] at hs
    split at hs
    · cases hs
      exact .still (.sendInLoop s c d data r)
    · cases hs
  | read r =>
    dsimp only [step] at hs
    split at hs
    · rename_i d rest hstack
      split at hs
      · rename_i hfits
        cases hs
        by_cases hcd : c = d
        · subst hcd
          refine .read hstack ?_
          rintro data ⟨⟩
          simpa using hfits
        · exact .still ((Still.pop hstack (by simp [feeds, Ne.symm hcd])).trans
            (.handleRead hcd r))
      · cases hs
    · cases hs
  | write r =>
    dsimp only [step] at hs
    split at hs
    · rename_i d rest hstack
      split at hs
      · cases hs
        exact .still ((Still.pop hstack rfl).trans (.handleWrite _ c d r))
      · cases hs
    · cases hs
  | resume =>
    dsimp only [step] at hs
    split at hs
    · rename_i t rest hstack
      cases t with
      | user => cases hs
      | handleRead d => cases hs
      | handleWrite d => cases hs
      | handleClose d =>
        cases hs
        exact .still ((Still.pop hstack rfl).trans (.handleClose _ c d))
      | handleError d =>
        cases hs
        exact .still ((Still.pop hstack rfl).trans (.handleClose _ c d))
      | closeCb d =>
        cases hs
        have hmem : Task.closeCb d ∈ s.stack := hstack ▸ List.mem_cons_self
        have hst := (h.disconnected d).mpr (h.closing d hmem)
        exact .still ((Still.pop hstack rfl).trans (.closeCb _ c d hst))
      | removeChannel d =>
        cases hs
        exact .still ((Still.pop hstack rfl).trans (.onChannel _ c d _))
      | forceClose d =>
        cases hs
        by_cases hcd : c = d
        · subst hcd
          exact .forceClose hstack
        · exact .still ((Still.pop hstack (by simp [feeds, Ne.symm hcd])).trans
            (.forceClose _ c d))
      | afterWrite d =>
        cases hs
        exact .still ((Still.pop hstack rfl).trans (.afterWrite _ c d))
      | onMessage d =>
        cases hs
        by_cases hcd : c = d
        · subst hcd
          exact .onMessage hstack
        · exact .still ((Still.pop hstack (by simp [feeds, Ne.symm hcd])).trans (.onMessage hcd))
    · cases hs
  | send d data r =>
    dsimp only [step] at hs
    split at hs
    · cases hs
      exact .still (.send s c d data r)
    · cases hs
  | shutdown d =>
    dsimp only [step] at hs
    split at hs
    · cases hs
      exact .still (.shutdown s c d)
    · cases hs
  | forceClose d =>
    dsimp only [step] at hs
    split at hs
    · cases hs
      exact .still (.forceClose s c d)
    · cases hs
  | returns =>
    dsimp only [step] at hs
    split at hs
    · cases hs
      exact .still (.pop ‹_› rfl)
    · cases hs
  | destroy d =>
    dsimp only [step] at hs
    split at hs
    · cases hs
      exact .still (.destroy s c d)
    · cases hs

end TcpServer

/-! ## The input in the loop -/

namespace PolledServer

variable {s s' : PolledServer} {a : Act} {c : Nat}

/-- The size below which every input buffer stays: a frame of the largest body, what one `readv`
may put behind it, and the area in front. -/
def inputLimit : Nat := kHeaderSize + kMaxBodySize + 3 * Buffer.kExtraSize + kPrependSize

/-- The codec has taken all frames out of the input of a connection, and found nothing bad. -/
def Waits (c : Nat) (s : PolledServer) : Prop :=
  look (some kMaxBodySize) (s.server.conns c).inputBuf.peek = .wait

/-- The tasks on the stack for the input of a connection. -/
def inputTasks (c : Nat) (s : PolledServer) : List Task :=
  s.server.stack.filter (TcpServer.feeds c)

/-- How far the loop is with the input of a connection: nothing is left to do for it, and then the
codec waits for more or the connection is closed before the next poll; or it is read, decoded, or
given up. -/
inductive Stage (c : Nat) (s : PolledServer) : Prop
  | idle : s.inputTasks c = [] → (s.awaits c → Waits c s) →
      (Waits c s ∨ s.handling = true ∧ c ∈ s.server.loop.pendingFunctors ∨
        c ∈ s.server.loop.functors ∨ 0 < (s.server.conns c).closes) → Stage c s
  | reads : s.inputTasks c = [.handleRead c] → s.handling = true → ¬ s.awaits c → Waits c s →
      Stage c s
  | decodes : s.inputTasks c = [.onMessage c] → s.handling = true → ¬ s.awaits c → Stage c s
  | givesUp : s.inputTasks c = [.forceClose c] → s.handling = true → ¬ s.awaits c → Stage c s

structure Fed (c : Nat) (s : PolledServer) : Prop where
  size : (s.server.conns c).inputBuf.buf.length < inputLimit
  born : (s.server.conns c).alive = true → (s.server.conns c).state ≠ .kConnecting
  active : s.activeChannels ≠ [] → s.handling = true
  distinct : (s.activeChannels.map Prod.fst).Nodup
  stage : Stage c s

theorem waits_of_new (hnew : (s.server.conns c).inputBuf = Buffer.new kInitialSize) :
    Waits c s := by
  unfold Waits
  rw [hnew, Buffer.peek_new]
  rfl

theorem Waits.readable (h : Waits c s) :
    (s.server.conns c).inputBuf.readable < kHeaderSize + kMaxBodySize := by
  have hlen := (s.server.conns c).inputBuf.peek_length
  rcases look_wait h with hshort | ⟨-, hcap, hshort⟩
  · omega
  · have hle := hcap kMaxBodySize rfl
    omega

theorem Waits.of_input (h : Waits c s)
    (hinput : (s'.server.conns c).inputBuf = (s.server.conns c).inputBuf) : Waits c s' := by
  unfold Waits
  rw [hinput]
  exact h

/-- Nothing happens to the input of the connection. -/
theorem Stage.still (h : Stage c s) (hstill : TcpServer.Still c s.server s'.server)
    (hawaits : s'.awaits c → s.awaits c) (hhandling : s'.handling = s.handling) : Stage c s' := by
  have htasks : s'.inputTasks c = s.inputTasks c := hstill.tasks
  have hwaits : Waits c s → Waits c s' := fun hw => hw.of_input hstill.input
  cases h with
  | idle hnone hwait hdecided =>
    refine .idle (htasks.trans hnone) (fun hc => hwaits (hwait (hawaits hc))) ?_
    rcases hdecided with hw | ⟨hh, hp⟩ | hf | hclosed
    · exact Or.inl (hwaits hw)
    · exact Or.inr (Or.inl ⟨hhandling.trans hh, hstill.pending hp⟩)
    · exact Or.inr (Or.inr (Or.inl (hstill.functors hf)))
    · exact Or.inr (Or.inr (Or.inr (Nat.lt_of_lt_of_le hclosed hstill.closes)))
  | reads hone hh hno hw =>
    exact .reads (htasks.trans hone) (hhandling.trans hh) (mt hawaits hno) (hwaits hw)
  | decodes hone hh hno =>
    exact .decodes (htasks.trans hone) (hhandling.trans hh) (mt hawaits hno)
  | givesUp hone hh hno =>
    exact .givesUp (htasks.trans hone) (hhandling.trans hh) (mt hawaits hno)

/-- Nothing is left to do for the input when the stack is empty. -/
theorem Stage.of_idle (h : Stage c s) (hidle : s.server.stack = []) :
    (s.awaits c → Waits c s) ∧ (Waits c s ∨ s.handling = true ∧
      c ∈ s.server.loop.pendingFunctors ∨ c ∈ s.server.loop.functors ∨
        0 < (s.server.conns c).closes) := by
  have hnone : s.inputTasks c = [] := by
    unfold inputTasks
    rw [hidle]
    rfl
  cases h with
  | idle _ hwait hdecided => exact ⟨hwait, hdecided⟩
  | reads hone _ _ _ => simp [hnone] at hone
  | decodes hone _ _ => simp [hnone] at hone
  | givesUp hone _ _ => simp [hnone] at hone

/-- Nothing is left to do for the input when the loop runs functors. -/
theorem Stage.of_functors (h : Stage c s) (hh : s.handling = false) :
    s.inputTasks c = [] ∧ (s.awaits c → Waits c s) ∧ (Waits c s ∨
      c ∈ s.server.loop.functors ∨ 0 < (s.server.conns c).closes) := by
  cases h with
  | idle hnone hwait hdecided => exact ⟨hnone, hwait, by simpa [hh] using hdecided⟩
  | reads _ hh' _ _ => simp [hh] at hh'
  | decodes _ hh' _ => simp [hh] at hh'
  | givesUp _ hh' _ => simp [hh] at hh'

theorem Fed.still (h : Fed c s) (hstill : TcpServer.Still c s.server s'.server)
    (hawaits : s'.awaits c → s.awaits c) (hhandling : s'.handling = s.handling)
    (hactive : s'.activeChannels ≠ [] → s.handling = true)
    (hdistinct : (s'.activeChannels.map Prod.fst).Nodup) : Fed c s' where
  size := by
    rw [hstill.input]
    exact h.size
  born hc hst := h.born (hstill.alive hc) (hstill.state hst)
  active hne := hhandling.trans (hactive hne)
  distinct := hdistinct
  stage := h.stage.still hstill hawaits hhandling

/-- The loop goes on to the next pointer. -/
theorem Fed.tail {p : ChannelPtr × UInt32} {rest : List (ChannelPtr × UInt32)} (h : Fed c s)
    (hactive : s.activeChannels = p :: rest) :
    s.handling = true ∧ (rest.map Prod.fst).Nodup ∧ p.1 ∉ rest.map Prod.fst := by
  have hdistinct := h.distinct
  rw [hactive, List.map_cons, List.nodup_cons] at hdistinct
  exact ⟨h.active (by simp [hactive]), hdistinct.2, hdistinct.1⟩

/-! ## The steps -/

theorem Fed.poll {ready : List (WatchedFd × UInt32)} (h : Fed c s)
    (hlife : TcpServer.Life s.server) (htab : TcpServer.Tables s.server)
    (hhandling : s.handling = false) (hpolls : s.server.polls = true)
    (hnodup : (ready.map Prod.fst).Nodup) (n : Nat) :
    Fed c { s with
      activeChannels := ready.filterMap s.reported
      handling := true
      current := none
      events := n } := by
  simp only [TcpServer.polls, Bool.and_eq_true, List.isEmpty_iff] at hpolls
  obtain ⟨hidle, hfunctors⟩ := hpolls
  refine ⟨h.size, h.born, fun _ => rfl, distinct_reported hlife htab hidle hnodup, ?_⟩
  obtain ⟨hnone, -, hdecided⟩ := h.stage.of_functors hhandling
  -- the functors have run, so the connection waits or is closed
  have hfinal : Waits c s ∨ 0 < (s.server.conns c).closes := by
    rcases hdecided with hw | hf | hclosed
    · exact Or.inl hw
    · rw [hfunctors] at hf
      cases hf
    · exact Or.inr hclosed
  refine .idle hnone ?_ ?_
  · intro hawaits
    have hopen := (opened_of_reported hlife htab hidle hawaits).2
    exact hfinal.resolve_right (by omega)
  · rcases hfinal with hw | hclosed
    · exact Or.inl hw
    · exact Or.inr (Or.inr (Or.inr hclosed))

/-- A new connection has read nothing. -/
theorem Fed.accept {fd : Nat} {revents : UInt32} {rest : List (ChannelPtr × UInt32)}
    {current : Option Nat} (h : Fed s.server.accepts s)
    (hactive : s.activeChannels = (.listener, revents) :: rest) (hidle : s.server.stack = []) :
    Fed s.server.accepts { s with
      server := s.server.newConnection fd
      activeChannels := rest
      current := current } := by
  obtain ⟨hhandling, hdistinct, -⟩ := h.tail hactive
  have hself := TcpServer.newConnection_conns_self s.server fd
  have hinput : ((s.server.newConnection fd).conns s.server.accepts).inputBuf =
      Buffer.new kInitialSize := by rw [hself]; rfl
  refine ⟨?_, ?_, fun _ => hhandling, hdistinct, ?_⟩
  · dsimp only
    rw [hinput]
    have hsize : (Buffer.new kInitialSize).buf.length = kPrependSize + kInitialSize := by
      simp [Buffer.new]
    rw [hsize]
    decide
  · intro _
    dsimp only
    rw [hself]
    simp
  · refine .idle ?_ (fun _ => waits_of_new hinput) (Or.inl (waits_of_new hinput))
    unfold inputTasks
    dsimp only
    rw [TcpServer.newConnection_stack, hidle]
    rfl

/-- The loop calls the handler of the connection, which reads at most once. -/
theorem Fed.event {revents : UInt32} {rest : List (ChannelPtr × UInt32)} {current : Option Nat}
    (h : Fed c s) (hactive : s.activeChannels = (.conn c, revents) :: rest)
    (hidle : s.server.stack = []) :
    Fed c { s with
      server := s.server.push (TcpServer.branches c revents)
      activeChannels := rest
      current := current } := by
  obtain ⟨hhandling, hdistinct, hno⟩ := h.tail hactive
  refine ⟨h.size, h.born, fun _ => hhandling, hdistinct, ?_⟩
  have hawaits : s.awaits c := by
    unfold awaits
    rw [hactive]
    exact List.mem_cons_self
  have hw := (h.stage.of_idle hidle).1 hawaits
  have htasks : ((s.server.push (TcpServer.branches c revents)).stack).filter
      (TcpServer.feeds c) = [.handleRead c] ∨
      ((s.server.push (TcpServer.branches c revents)).stack).filter (TcpServer.feeds c) = [] := by
    unfold TcpServer.push TcpServer.branches
    rw [hidle, List.append_nil]
    split <;> split <;> split <;> split <;> simp [TcpServer.feeds]
  rcases htasks with hone | hnone
  · exact .reads hone hhandling hno hw
  · exact .idle hnone (fun hin => absurd hin hno) (Or.inl hw)

theorem Fed.swap {l : EventLoop Nat} {current : Option Nat} (h : Fed c s)
    (hactive : s.activeChannels = []) (hidle : s.server.stack = [])
    (hl : s.server.loop.swap = some l) :
    Fed c { s with server := { s.server with loop := l }, handling := false, current := current } := by
  refine ⟨h.size, h.born, fun hne => absurd hactive hne, h.distinct, ?_⟩
  have hqueued := EventLoop.queued_swap hl
  have hpending : l.pendingFunctors = [] := by
    unfold EventLoop.swap at hl
    split at hl
    · cases hl
      rfl
    · cases hl
  have hall : ∀ d, d ∈ s.server.loop.queued → d ∈ l.functors := by
    intro d hd
    rw [← hqueued, EventLoop.queued, hpending, List.append_nil] at hd
    exact hd
  refine .idle ?_ ?_ ?_
  · unfold inputTasks
    dsimp only
    rw [hidle]
    rfl
  · intro hin
    simp [awaits, hactive] at hin
  · rcases (h.stage.of_idle hidle).2 with hw | ⟨-, hp⟩ | hf | hclosed
    · exact Or.inl hw
    · exact Or.inr (Or.inr (Or.inl (hall c (List.mem_append_right _ hp))))
    · exact Or.inr (Or.inr (Or.inl (hall c (List.mem_append_left _ hf))))
    · exact Or.inr (Or.inr (Or.inr hclosed))

/-- A functor closes its connection. -/
theorem Fed.functor {d : Nat} {l : EventLoop Nat} (h : Fed c s) (hhandling : s.handling = false)
    (hl : s.server.loop.next = some (d, l)) :
    Fed c { s with server := TcpServer.handleClose { s.server with loop := l } d } := by
  obtain ⟨hnone, hwait, hdecided⟩ := h.stage.of_functors hhandling
  have hstill := TcpServer.Still.handleClose { s.server with loop := l } c d
  have hw : Waits c s → Waits c { s with
      server := TcpServer.handleClose { s.server with loop := l } d } :=
    fun hw => hw.of_input hstill.input
  refine ⟨?_, ?_, h.active, h.distinct, ?_⟩
  · rw [hstill.input]
    exact h.size
  · exact fun hc hst => h.born (hstill.alive hc) (hstill.state hst)
  · refine .idle (hstill.tasks.trans hnone) (fun hc => hw (hwait hc)) ?_
    rcases hdecided with hwaits | hf | hclosed
    · exact Or.inl (hw hwaits)
    · by_cases hcd : c = d
      · subst hcd
        refine Or.inr (Or.inr (Or.inr ?_))
        rw [TcpServer.handleClose_conns_self]
        exact Nat.succ_pos _
      · rw [EventLoop.functors_next hl] at hf
        exact Or.inr (Or.inr (Or.inl ((List.mem_cons.mp hf).resolve_left hcd)))
    · exact Or.inr (Or.inr (Or.inr (Nat.lt_of_lt_of_le hclosed hstill.closes)))

/-- A task for the input is the only one. -/
theorem Stage.head {t : Task} {rest : List Task} (h : Stage c s) (hs : s.server.stack = t :: rest)
    (ht : TcpServer.feeds c t = true) :
    rest.filter (TcpServer.feeds c) = [] ∧ s.handling = true ∧ ¬ s.awaits c ∧
      (t = .handleRead c → Waits c s) := by
  have htasks : s.inputTasks c = t :: rest.filter (TcpServer.feeds c) := by
    unfold inputTasks
    rw [hs, List.filter_cons_of_pos ht]
  cases h with
  | idle hnone _ _ => simp [htasks] at hnone
  | reads hone hh hno hw =>
    rw [htasks, List.cons.injEq] at hone
    exact ⟨hone.2, hh, hno, fun _ => hw⟩
  | decodes hone hh hno =>
    rw [htasks, List.cons.injEq] at hone
    exact ⟨hone.2, hh, hno, by simp [hone.1]⟩
  | givesUp hone hh hno =>
    rw [htasks, List.cons.injEq] at hone
    exact ⟨hone.2, hh, hno, by simp [hone.1]⟩

/-- What is read goes behind less than one frame. -/
theorem Fed.read {r : Option Bytes} {rest : List Task} (h : Fed c s)
    (hs : s.server.stack = .handleRead c :: rest)
    (hfits : ∀ data ∈ r, data.length ≤ (s.server.conns c).inputBuf.iovTotal) :
    Fed c { s with server := TcpServer.handleRead { s.server with stack := rest } c r } := by
  obtain ⟨hnone, hh, hno, hw⟩ := h.stage.head hs (by simp [TcpServer.feeds])
  have hw := hw rfl
  -- an error and the end of the stream close the connection
  have hclose : Fed c { s with
      server := TcpServer.handleClose { s.server with stack := rest } c } := by
    have hstill := TcpServer.Still.handleClose { s.server with stack := rest } c c
    refine ⟨?_, ?_, h.active, h.distinct, ?_⟩
    · rw [hstill.input]
      exact h.size
    · exact fun hc hst => h.born (hstill.alive hc) (hstill.state hst)
    · exact .idle (hstill.tasks.trans hnone) (fun hc => absurd hc hno)
        (Or.inl (hw.of_input hstill.input))
  unfold TcpServer.handleRead
  split
  · exact hclose
  · exact hclose
  · rename_i data hdata
    have hsize := Buffer.size_readFd_of_iovTotal (hfits data rfl)
    have hshort := hw.readable
    have hlow := h.size
    refine ⟨?_, ?_, h.active, h.distinct, .decodes ?_ hh hno⟩
    · unfold inputLimit at hlow ⊢
      simp only [TcpServer.push, TcpServer.deliver, TcpServer.conns_modify_self]
      omega
    · simp only [TcpServer.push, TcpServer.deliver, TcpServer.conns_modify_self]
      exact h.born
    · change ([Task.onMessage c] ++ rest).filter (TcpServer.feeds c) = _
      rw [List.filter_append, hnone]
      simp [TcpServer.feeds]

theorem size_takeFrame (b : Buffer) (bodyLen : Nat) (h : kHeaderSize + bodyLen ≤ b.readable) :
    (takeFrame b bodyLen h).2.buf.length = b.buf.length := by
  unfold takeFrame Buffer.retrieveAsString
  dsimp only
  rw [Buffer.size_retrieve, Buffer.size_retrieve]

/-- The codec takes frames out of the buffer where it stands. -/
theorem size_pass {b rest : Buffer} {body : Bytes} (h : codec.pass b = .frame body rest) :
    rest.buf.length = b.buf.length := by
  unfold codec.pass at h
  split at h
  · cases h
  split at h
  · cases h
  dsimp only at h
  split at h
  · cases h
  split at h
  · cases h
  · cases h
    exact size_takeFrame _ _ _

/-- The codec goes on, waits, or gives the connection up. -/
theorem Fed.onMessage {rest : List Task} (h : Fed c s)
    (hs : s.server.stack = .onMessage c :: rest) :
    Fed c { s with server := TcpServer.onMessage { s.server with stack := rest } c } := by
  obtain ⟨hnone, hh, hno, -⟩ := h.stage.head hs (by simp [TcpServer.feeds])
  have hspec := pass_spec (s.server.conns c).inputBuf
  unfold TcpServer.onMessage
  dsimp only
  split
  · rename_i hwait
    rw [hwait] at hspec
    exact ⟨h.size, h.born, h.active, h.distinct,
      .idle hnone (fun hc => absurd hc hno) (Or.inl hspec)⟩
  · refine ⟨h.size, h.born, h.active, h.distinct, .givesUp ?_ hh hno⟩
    change ([Task.user, .forceClose c] ++ rest).filter (TcpServer.feeds c) = _
    rw [List.filter_append, hnone]
    simp [TcpServer.feeds]
  · rename_i body b hframe
    refine ⟨?_, ?_, h.active, h.distinct, .decodes ?_ hh hno⟩
    · simp only [TcpServer.push, TcpServer.deliver, TcpServer.conns_modify_self]
      rw [size_pass hframe]
      exact h.size
    · simp only [TcpServer.push, TcpServer.deliver, TcpServer.conns_modify_self]
      exact h.born
    · change ([Task.user, .onMessage c] ++ rest).filter (TcpServer.feeds c) = _
      rw [List.filter_append, hnone]
      simp [TcpServer.feeds]

/-- A connection that is given up is closed by a functor of this turn. -/
theorem Fed.forceClose {rest : List Task} (h : Fed c s) (hlife : TcpServer.Life s.server)
    (hs : s.server.stack = .forceClose c :: rest) :
    Fed c { s with server := TcpServer.forceClose { s.server with stack := rest } c } := by
  obtain ⟨hnone, hh, hno, -⟩ := h.stage.head hs (by simp [TcpServer.feeds])
  have hlive := hlife.alive_head hs rfl
  have hstill := TcpServer.Still.forceClose { s.server with stack := rest } c c
  refine ⟨?_, ?_, h.active, h.distinct, ?_⟩
  · rw [hstill.input]
    exact h.size
  · exact fun hc hst => h.born (hstill.alive hc) (hstill.state hst)
  · refine .idle (hstill.tasks.trans hnone) (fun hc => absurd hc hno) ?_
    cases hst : (s.server.conns c).state with
    | kConnecting => exact absurd hst (h.born hlive)
    | kDisconnected =>
      have hpos := (hlife.disconnected c).mp hst
      exact Or.inr (Or.inr (Or.inr (Nat.lt_of_lt_of_le hpos hstill.closes)))
    | kConnected =>
      refine Or.inr (Or.inl ⟨hh, ?_⟩)
      simp [TcpServer.forceClose, hst, EventLoop.queueInLoop]
    | kDisconnecting =>
      refine Or.inr (Or.inl ⟨hh, ?_⟩)
      simp [TcpServer.forceClose, hst, EventLoop.queueInLoop]

theorem fed_move (h : Fed c s) (hlife : TcpServer.Life s.server)
    (htab : TcpServer.Tables s.server) (hm : Move s a s') : Fed c s' := by
  cases hm with
  | poll hhandling hpolls _ hnodup _ => exact h.poll hlife htab hhandling hpolls hnodup _
  | @accept connFd revents rest t hactive ht =>
    obtain ⟨hhandling, hdistinct, -⟩ := h.tail hactive
    cases TcpServer.inputMove_of_step hlife (by simp) ht c with
    | still hstill =>
      exact h.still hstill (awaits_cons hactive) rfl (fun _ => hhandling) hdistinct
    | accept hc =>
      subst hc
      exact h.accept hactive (TcpServer.idle_of_step ht (Or.inr (Or.inl ⟨_, rfl⟩)))
  | @wake revents rest hactive _ =>
    obtain ⟨hhandling, hdistinct, -⟩ := h.tail hactive
    exact h.still (.refl c s.server) (awaits_cons hactive) rfl (fun _ => hhandling) hdistinct
  | @event d revents rest t hactive ht =>
    obtain ⟨hhandling, hdistinct, -⟩ := h.tail hactive
    cases TcpServer.inputMove_of_step hlife (by simp) ht c with
    | still hstill =>
      exact h.still hstill (awaits_cons hactive) rfl (fun _ => hhandling) hdistinct
    | event hidle => exact h.event hactive hidle
  | @swap t hactive ht =>
    simp only [TcpServer.step] at ht
    split at ht
    · rename_i hidle
      obtain ⟨l, hl, rfl⟩ := Option.map_eq_some_iff.mp ht
      exact h.swap hactive (List.isEmpty_iff.mp hidle) hl
    · cases ht
  | @server b t hallowed ht =>
    have hb : b ≠ .swap := by
      rintro rfl
      cases hallowed
    cases TcpServer.inputMove_of_step hlife hb ht c with
    | still hstill => exact h.still hstill id rfl h.active h.distinct
    | accept _ => cases hallowed
    | event _ => cases hallowed
    | functor hl =>
      have hhandling : s.handling = false := by simpa [allowed] using hallowed
      exact h.functor hhandling hl
    | read hs hfits => exact h.read hs hfits
    | onMessage hs => exact h.onMessage hs
    | forceClose hs => exact h.forceClose hlife hs

theorem new_fed (c : Nat) : Fed c new := by
  have hinput : (new.server.conns c).inputBuf = Buffer.new kInitialSize := rfl
  refine ⟨?_, by simp [new, TcpServer.new, Connection.blank], by simp [new], by simp [new], ?_⟩
  · have hsize : (Buffer.new kInitialSize).buf.length = kPrependSize + kInitialSize := by
      simp [Buffer.new]
    rw [hinput, hsize]
    decide
  · exact .idle rfl (fun _ => waits_of_new hinput) (Or.inl (waits_of_new hinput))

/-! ## The law -/

theorem fed_reach (h : machine.Reach s) (hids : s.server.accepts < 2 ^ 64) (c : Nat) :
    Fed c s := by
  refine h.invariant (I := fun s => s.server.accepts < 2 ^ 64 → Fed c s) (fun _ => new_fed c)
    ?_ hids
  intro s a s' hr ih hs hids
  have hids' := Nat.lt_of_le_of_lt (accepts_step hr hs) hids
  have hserver := bareServer.reach hr
  exact fed_move (ih hids') (TcpServer.life_reach hserver) (TcpServer.tables_reach hserver hids')
    (move_of_step hs)

end PolledServer

end rpc.net
