-- The destructor of the server. It goes through the table and destroys each connection there, and
-- the callbacks that this delivers may close others. The poller and the kernel cannot tell it from
-- hang-ups of all the clients, so the laws of those hold here too.
import RpcFramework.ServerTables

namespace rpc.net

open runs

/-! ## The model -/

/-- `~TcpServer`, behind the closing of its listening socket: `visited` are the connections that
the loop over `connections_` came to, the last one first. -/
structure Teardown where
  server : TcpServer
  visited : List Nat

namespace Teardown

/-- The loop comes to the entry of a connection, or what it has begun goes on. The table has no
order of its own. -/
inductive Act
  | next (c : Nat)
  | server (a : TcpServer.Act)

/-- What runs inside the destructor: callbacks of the user, the functions that they call, and the
destructors of connections that were closed. The event loop does not run. -/
def allowed (s : Teardown) : TcpServer.Act → Bool
  | .send _ _ _ | .shutdown _ | .forceClose _ => !s.server.stack.isEmpty
  | .returns | .resume | .destroy _ => true
  | .accept _ | .event _ _ | .swap | .functor | .queuedSend _ _ _ | .read _ | .write _ => false

def step (s : Teardown) : Act → Option Teardown
  | .next c =>
    if s.server.stack.isEmpty ∧ s.server.connections (s.server.conns c).connId = some c ∧
        c ∉ s.visited then
      some { server := s.server.connectionDestroyed c, visited := c :: s.visited }
    else none
  | .server a => if s.allowed a then (s.server.step a).map fun t => { s with server := t } else none

/-- The destructor runs between two turns of the loop. -/
def machine (start : TcpServer) : Machine Teardown Act where
  init := ⟨start, []⟩
  step := step

/-- The loop over the table is over. -/
def Done (s : Teardown) : Prop :=
  s.server.stack = [] ∧ ∀ c < s.server.accepts,
    s.server.connections (s.server.conns c).connId = some c → c ∈ s.visited

instance (s : Teardown) : Decidable s.Done := inferInstanceAs (Decidable (_ ∧ _))

/-! ## A server whose clients hang up -/

/-- A connection that the destructor came to, and the same one closed by a hang-up. -/
structure Retired (k k' : Connection) : Prop where
  connId : k'.connId = k.connId
  channel : k'.channel = k.channel
  alive : k'.alive = k.alive
  state : k.state ≠ .kConnected
  closed : k'.state = .kDisconnected

/-- What a hang-up leaves for later, where the destructor leaves the removal of the channel. -/
def closing : Task → Task
  | .removeChannel c => .closeCb c
  | t => t

/-- The tasks that a destructor leaves for later. -/
def Left (visited : List Nat) (t : Task) : Prop :=
  t = .user ∨ (∃ c, c ∉ visited ∧ t = .closeCb c) ∨ ∃ c ∈ visited, t = .removeChannel c

/-- The server `t` is as the one in the destructor, but the clients of the connections that the
destructor came to have hung up. -/
structure Shadow (visited : List Nat) (s t : TcpServer) : Prop where
  accepts : t.accepts = s.accepts
  poller : t.poller = s.poller
  others : ∀ c, c ∉ visited → t.conns c = s.conns c
  retired : ∀ c ∈ visited, Retired (s.conns c) (t.conns c)
  entries : ∀ id c, t.connections id = some c → s.connections id = some c
  kept : ∀ id c, c ∉ visited → s.connections id = some c → t.connections id = some c
  held : ∀ c ∈ visited, c < s.accepts ∧ s.connections (s.conns c).connId = some c
  stack : t.stack = s.stack.map closing
  tasks : ∀ task ∈ s.stack, Left visited task
  functors : t.loop.functors = []
  queued : ∀ c ∈ t.loop.queued, c ∈ s.loop.queued

namespace Shadow

variable {visited : List Nat} {s t : TcpServer} {c : Nat}

theorem same_fields (h : Shadow visited s t) (c : Nat) : (t.conns c).connId = (s.conns c).connId ∧
    (t.conns c).channel = (s.conns c).channel ∧ (t.conns c).alive = (s.conns c).alive := by
  by_cases hc : c ∈ visited
  · exact ⟨(h.retired c hc).connId, (h.retired c hc).channel, (h.retired c hc).alive⟩
  · rw [h.others c hc]
    exact ⟨rfl, rfl, rfl⟩

/-- A change of a connection that the destructor has not come to. -/
theorem modify (h : Shadow visited s t) (hc : c ∉ visited) (f : Connection → Connection) :
    Shadow visited (s.modify c f) (t.modify c f) := by
  have hne : ∀ d ∈ visited, d ≠ c := fun d hd heq => hc (heq ▸ hd)
  constructor
  case accepts => exact h.accepts
  case poller => exact h.poller
  case others =>
    intro d hd
    by_cases hdc : d = c
    · rw [hdc, TcpServer.conns_modify_self, TcpServer.conns_modify_self, h.others c hc]
    · rw [TcpServer.conns_modify_ne s f hdc, TcpServer.conns_modify_ne t f hdc, h.others d hd]
  case retired =>
    intro d hd
    rw [TcpServer.conns_modify_ne s f (hne d hd), TcpServer.conns_modify_ne t f (hne d hd)]
    exact h.retired d hd
  case entries => exact h.entries
  case kept => exact h.kept
  case held =>
    intro d hd
    rw [TcpServer.conns_modify_ne s f (hne d hd)]
    exact h.held d hd
  case stack => exact h.stack
  case tasks => exact h.tasks
  case functors => exact h.functors
  case queued => exact h.queued

theorem setPoller (h : Shadow visited s t) (p : EpollPoller Nat) :
    Shadow visited { s with poller := p } { t with poller := p } :=
  ⟨h.accepts, rfl, h.others, h.retired, h.entries, h.kept, h.held, h.stack, h.tasks, h.functors,
    h.queued⟩

theorem onChannel (h : Shadow visited s t) (hc : c ∉ visited)
    (op : Channel → EpollPoller Nat → Channel × EpollPoller Nat) :
    Shadow visited (s.onChannel c op) (t.onChannel c op) := by
  unfold TcpServer.onChannel
  rw [h.others c hc, h.poller]
  exact (h.modify hc _).setPoller _

theorem deliver (h : Shadow visited s t) (hc : c ∉ visited) (callback : Callback) :
    Shadow visited (s.deliver c callback) (t.deliver c callback) :=
  h.modify hc _

theorem push {ts : List Task} (h : Shadow visited s t)
    (hts : ∀ task ∈ ts, task = .user ∨ ∃ c, c ∉ visited ∧ task = .closeCb c) :
    Shadow visited (s.push ts) (t.push ts) := by
  have hsame : ts.map closing = ts := by
    refine (List.map_congr_left ?_).trans (List.map_id ts)
    intro task htask
    rcases hts task htask with rfl | ⟨d, -, rfl⟩ <;> rfl
  refine ⟨h.accepts, h.poller, h.others, h.retired, h.entries, h.kept, h.held, ?_, ?_, h.functors,
    h.queued⟩
  · unfold TcpServer.push
    rw [List.map_append, hsame, h.stack]
  · intro task htask
    rcases List.mem_append.mp htask with hin | hin
    · rcases hts task hin with huser | hclose
      · exact Or.inl huser
      · exact Or.inr (Or.inl hclose)
    · exact h.tasks task hin

theorem handleClose (h : Shadow visited s t) (hc : c ∉ visited) :
    Shadow visited (s.handleClose c) (t.handleClose c) := by
  refine (((h.modify hc _).onChannel hc _).deliver hc _).push ?_
  intro task htask
  rcases List.mem_cons.mp htask with rfl | hin
  · exact Or.inl rfl
  · exact Or.inr ⟨c, hc, List.mem_singleton.mp hin⟩

theorem shutdownInLoop (h : Shadow visited s t) (hc : c ∉ visited) :
    Shadow visited (s.shutdownInLoop c) (t.shutdownInLoop c) := by
  unfold TcpServer.shutdownInLoop
  rw [h.others c hc]
  split
  · exact h
  · exact h.modify hc _

theorem bufferRest (h : Shadow visited s t) (hc : c ∉ visited) (rest : Bytes) :
    Shadow visited (s.bufferRest c rest) (t.bufferRest c rest) := by
  have hbuf := h.modify hc fun k => { k with outputBuf := k.outputBuf.append rest }
  unfold TcpServer.bufferRest
  dsimp only
  rw [hbuf.others c hc]
  split
  · exact hbuf
  · exact hbuf.onChannel hc _

theorem sendInLoop (h : Shadow visited s t) (hc : c ∉ visited) (data : Bytes) (r : WriteResult) :
    Shadow visited (s.sendInLoop c data r) (t.sendInLoop c data r) := by
  unfold TcpServer.sendInLoop
  rw [h.others c hc]
  split
  · exact h
  split
  · cases r with
    | error => exact h.handleClose hc
    | wouldBlock => exact h.bufferRest hc data
    | count n =>
      dsimp only
      split
      · exact h.push fun task htask => Or.inl (List.mem_singleton.mp htask)
      · exact h.bufferRest hc _
  · exact h.bufferRest hc data

theorem send (h : Shadow visited s t) (c : Nat) (data : Bytes) (r : WriteResult) :
    Shadow visited (s.send c data r) (t.send c data r) := by
  unfold TcpServer.send
  by_cases hc : c ∈ visited
  · have hretired := h.retired c hc
    rw [if_pos hretired.state, if_pos (by simp [hretired.closed])]
    exact h
  · rw [h.others c hc]
    split
    · exact h
    · exact h.sendInLoop hc data r

theorem shutdown (h : Shadow visited s t) (c : Nat) :
    Shadow visited (s.shutdown c) (t.shutdown c) := by
  unfold TcpServer.shutdown
  by_cases hc : c ∈ visited
  · have hretired := h.retired c hc
    rw [if_neg hretired.state, if_neg (by simp [hretired.closed])]
    exact h
  · rw [h.others c hc]
    split
    · exact (h.modify hc _).shutdownInLoop hc
    · exact h

/-- A functor of a connection that the destructor came to is queued, and never run. -/
theorem queue (h : Shadow visited s t) (c : Nat) :
    Shadow visited { s with loop := s.loop.queueInLoop c } t := by
  refine ⟨h.accepts, h.poller, h.others, h.retired, h.entries, h.kept, h.held, h.stack, h.tasks,
    h.functors, ?_⟩
  intro d hd
  rw [EventLoop.queued_queueInLoop]
  exact List.mem_append_left _ (h.queued d hd)

theorem queueBoth (h : Shadow visited s t) (c : Nat) :
    Shadow visited { s with loop := s.loop.queueInLoop c }
      { t with loop := t.loop.queueInLoop c } := by
  refine ⟨h.accepts, h.poller, h.others, h.retired, h.entries, h.kept, h.held, h.stack, h.tasks,
    h.functors, ?_⟩
  intro d hd
  rw [EventLoop.queued_queueInLoop, List.mem_append] at hd ⊢
  exact hd.imp_left (h.queued d)

theorem forceClose (h : Shadow visited s t) (c : Nat) :
    Shadow visited (s.forceClose c) (t.forceClose c) := by
  unfold TcpServer.forceClose
  by_cases hc : c ∈ visited
  · have hretired := h.retired c hc
    rw [if_neg (by simp [hretired.closed] : ¬ ((t.conns c).state = .kConnected ∨ _))]
    split
    · rename_i hst
      -- the state is `kDisconnecting` already
      have hsame : s.modify c (fun k => { k with state := .kDisconnecting }) = s := by
        unfold TcpServer.modify
        rw [← hst.resolve_left hretired.state, Function.update_eq_self]
      dsimp only
      rw [hsame]
      exact h.queue c
    · exact h
  · rw [h.others c hc]
    split
    · exact (h.modify hc _).queueBoth c
    · exact h

theorem pop {task : Task} {rest : List Task} (h : Shadow visited s t) (hs : s.stack = task :: rest) :
    Shadow visited { s with stack := rest } { t with stack := rest.map closing } := by
  refine ⟨h.accepts, h.poller, h.others, h.retired, h.entries, h.kept, h.held, rfl, ?_,
    h.functors, h.queued⟩
  intro task' hin
  exact h.tasks task' (hs ▸ List.mem_cons_of_mem _ hin)

theorem destroy (h : Shadow visited s t) (hc : c ∉ visited) :
    Shadow visited (s.destroy c) (t.destroy c) := by
  have hm := h.modify hc fun k => { k with alive := false }
  unfold TcpServer.destroy
  dsimp only
  rw [hm.others c hc, hm.poller]
  exact hm.setPoller _

/-- The end of a close, after which the server has the connection no more. -/
structure Removed (s : TcpServer) (c : Nat) (s' : TcpServer) : Prop where
  accepts : s'.accepts = s.accepts
  loop : s'.loop = s.loop
  stack : s'.stack = s.stack
  connections : s'.connections = Function.update s.connections (s.conns c).connId none
  poller : s'.poller = (Channel.remove c (s.conns c).channel s.poller).2
  self : s'.conns c = { s.conns c with
    channel := (Channel.remove c (s.conns c).channel s.poller).1
    trace := (s.conns c).trace ++ [.close] }
  others : ∀ d, d ≠ c → s'.conns d = s.conns d

theorem removed (hst : (s.conns c).state = .kDisconnected) :
    Removed s c ((s.deliver c .close).removeConnection c) := by
  rw [TcpServer.removeConnection_eq hst]
  unfold TcpServer.onChannel TcpServer.deliver TcpServer.modify
  constructor
  case self => simp
  case others =>
    intro d hd
    simp [hd]
  case poller => simp
  all_goals rfl

theorem Removed.entries {s' : TcpServer} (h : Removed s c s') {id : UInt64} {d : Nat} :
    s'.connections id = some d ↔ id ≠ (s.conns c).connId ∧ s.connections id = some d := by
  rw [h.connections]
  by_cases hid : id = (s.conns c).connId
  · rw [hid, Function.update_self]
    simp
  · rw [Function.update_of_ne hid]
    simp [hid]

/-- The end of a close that a callback has begun. -/
theorem removeConnection (h : Shadow visited s t) (hc : c ∉ visited)
    (hst : (s.conns c).state = .kDisconnected)
    (hids : ∀ d ∈ visited, (s.conns d).connId ≠ (s.conns c).connId) :
    Shadow visited ((s.deliver c .close).removeConnection c)
      ((t.deliver c .close).removeConnection c) := by
  have hsame := h.others c hc
  have hs := removed hst
  have ht := removed (s := t) (c := c) (by rw [hsame]; exact hst)
  have hne : ∀ d ∈ visited, d ≠ c := fun d hd heq => hc (heq ▸ hd)
  constructor
  case accepts => rw [hs.accepts, ht.accepts, h.accepts]
  case poller => rw [hs.poller, ht.poller, hsame, h.poller]
  case others =>
    intro d hd
    by_cases hdc : d = c
    · rw [hdc, hs.self, ht.self, hsame, h.poller]
    · rw [hs.others d hdc, ht.others d hdc, h.others d hd]
  case retired =>
    intro d hd
    rw [hs.others d (hne d hd), ht.others d (hne d hd)]
    exact h.retired d hd
  case entries =>
    intro id d hin
    rw [ht.entries, hsame] at hin
    exact hs.entries.mpr (hin.imp_right (h.entries id d))
  case kept =>
    intro id d hd hin
    rw [ht.entries, hsame]
    exact (hs.entries.mp hin).imp_right (h.kept id d hd)
  case held =>
    intro d hd
    rw [hs.others d (hne d hd), hs.accepts, hs.entries]
    exact ⟨(h.held d hd).1, hids d hd, (h.held d hd).2⟩
  case stack => rw [hs.stack, ht.stack, h.stack]
  case tasks =>
    rw [hs.stack]
    exact h.tasks
  case functors =>
    rw [ht.loop]
    exact h.functors
  case queued =>
    rw [hs.loop, ht.loop]
    exact h.queued

/-- The end of `connection_destroyed`, which is the end of a close for the clients. -/
theorem removeChannel (h : Shadow visited s t) (hc : c ∈ visited) :
    Shadow visited (s.onChannel c (Channel.remove c)) ((t.deliver c .close).removeConnection c) := by
  have hretired := h.retired c hc
  have ht := removed hretired.closed
  have hne : ∀ d, d ∉ visited → d ≠ c := fun d hd heq => hd (heq ▸ hc)
  constructor
  case accepts => exact ht.accepts.trans h.accepts
  case poller =>
    rw [ht.poller, hretired.channel, h.poller]
    rfl
  case others =>
    intro d hd
    rw [TcpServer.onChannel_conns_ne s _ (hne d hd), ht.others d (hne d hd), h.others d hd]
  case retired =>
    intro d hd
    by_cases hdc : d = c
    · rw [hdc, TcpServer.onChannel_conns_self, ht.self, hretired.channel, h.poller]
      exact ⟨hretired.connId, rfl, hretired.alive, hretired.state, hretired.closed⟩
    · rw [TcpServer.onChannel_conns_ne s _ hdc, ht.others d hdc]
      exact h.retired d hd
  case entries => exact fun id d hin => h.entries id d (ht.entries.mp hin).2
  case kept =>
    intro id d hd hin
    refine ht.entries.mpr ⟨?_, h.kept id d hd hin⟩
    rintro rfl
    rw [hretired.connId] at hin
    exact hne d hd (Option.some.inj (hin.symm.trans (h.held c hc).2))
  case held =>
    intro d hd
    rw [(TcpServer.sameList_onChannel s c _).connId d]
    exact h.held d hd
  case stack => exact ht.stack.trans h.stack
  case tasks => exact h.tasks
  case functors =>
    rw [ht.loop]
    exact h.functors
  case queued =>
    rw [ht.loop]
    exact h.queued

/-! ## The destructor comes to an entry -/

theorem destroyed_connected (hst : (s.conns c).state = .kConnected) :
    (s.connectionDestroyed c).conns c = { s.conns c with
      state := .kDisconnected
      channel := ((s.conns c).channel.disableAll c s.poller).1
      trace := (s.conns c).trace ++ [.connection false] } ∧
    (∀ d, d ≠ c → (s.connectionDestroyed c).conns d = s.conns d) ∧
    (s.connectionDestroyed c).poller = ((s.conns c).channel.disableAll c s.poller).2 ∧
    (s.connectionDestroyed c).stack = .user :: .removeChannel c :: s.stack ∧
    (s.connectionDestroyed c).connections = s.connections ∧
    (s.connectionDestroyed c).accepts = s.accepts ∧ (s.connectionDestroyed c).loop = s.loop := by
  unfold TcpServer.connectionDestroyed
  rw [if_pos hst]
  unfold TcpServer.push TcpServer.deliver TcpServer.onChannel TcpServer.modify
  refine ⟨by simp, ?_, by simp, rfl, rfl, rfl, rfl⟩
  intro d hd
  simp [hd]

/-- A connected one is told that it is closed, as after a hang-up. -/
theorem visitConnected (h : Shadow visited s t) (hc : c ∉ visited) (hborn : c < s.accepts)
    (hidle : s.stack = []) (hin : s.connections (s.conns c).connId = some c)
    (hst : (s.conns c).state = .kConnected) :
    Shadow (c :: visited) (s.connectionDestroyed c) (t.handleClose c) := by
  obtain ⟨hself, hothers, hpoller, hstack, htable, haccepts, hloop⟩ := destroyed_connected hst
  have hsame := h.others c hc
  have htself := TcpServer.handleClose_conns_self t c
  have hne : ∀ d ∈ visited, d ≠ c := fun d hd heq => hc (heq ▸ hd)
  constructor
  case accepts => exact h.accepts.trans haccepts.symm
  case poller => rw [TcpServer.handleClose_poller, hpoller, hsame, h.poller]
  case others =>
    intro d hd
    obtain ⟨hdc, hd⟩ := not_or.mp (mt List.mem_cons.mpr hd)
    rw [TcpServer.handleClose_conns_ne t hdc, hothers d hdc, h.others d hd]
  case retired =>
    intro d hd
    rcases List.mem_cons.mp hd with rfl | hd
    · rw [htself, hself, hsame, h.poller]
      exact ⟨rfl, rfl, rfl, by simp, rfl⟩
    · rw [TcpServer.handleClose_conns_ne t (hne d hd), hothers d (hne d hd)]
      exact h.retired d hd
  case entries =>
    rw [htable]
    exact h.entries
  case kept =>
    intro id d hd
    rw [htable]
    exact h.kept id d fun hin => hd (List.mem_cons_of_mem _ hin)
  case held =>
    intro d hd
    rw [htable, haccepts]
    rcases List.mem_cons.mp hd with rfl | hd
    · rw [hself]
      exact ⟨hborn, hin⟩
    · rw [hothers d (hne d hd)]
      exact h.held d hd
  case stack =>
    rw [hstack, TcpServer.handleClose_stack, h.stack]
    rfl
  case tasks =>
    rw [hstack, hidle]
    intro task htask
    rcases List.mem_cons.mp htask with rfl | htask
    · exact Or.inl rfl
    · exact Or.inr (Or.inr ⟨c, List.mem_cons_self, List.mem_singleton.mp htask⟩)
  case functors => exact h.functors
  case queued =>
    rw [hloop]
    exact h.queued

/-- A channel that is disabled before is removed in the same way. -/
theorem remove_disableAll {ch : Channel} {p : EpollPoller Nat} (h : Registered p c ch .opened) :
    Channel.remove c (ch.disableAll c p).1 (ch.disableAll c p).2 = Channel.remove c ch p := by
  unfold Channel.remove Channel.disableAll EpollPoller.removeChannel EpollPoller.updateChannel
    EpollPoller.epollCtl EpollPoller.legal Channel.isNoneEvent
  cases h with
  | opened hi _ h1 h2 => simp [hi, h2]

/-- Another one is told nothing. Its channel is removed at once, which comes to the same as the
whole close of a connection whose client has hung up. -/
theorem visitOther (h : Shadow visited s t) (hc : c ∉ visited) (hborn : c < s.accepts)
    (hidle : s.stack = []) (hin : s.connections (s.conns c).connId = some c)
    (hst : (s.conns c).state ≠ .kConnected)
    (hreg : Registered t.poller c (t.conns c).channel .opened) :
    Shadow (c :: visited) (s.connectionDestroyed c)
      ((TcpServer.deliver { t.handleClose c with stack := [] } c .close).removeConnection c) := by
  have hsame := h.others c hc
  have htself := TcpServer.handleClose_conns_self t c
  have hdestroyed : s.connectionDestroyed c = s.onChannel c (Channel.remove c) := by
    unfold TcpServer.connectionDestroyed
    rw [if_neg hst]
  have ht := removed (s := { t.handleClose c with stack := [] }) (c := c) (by simp [htself])
  dsimp only at ht
  have hne : ∀ d ∈ visited, d ≠ c := fun d hd heq => hc (heq ▸ hd)
  have hothers : ∀ d, d ≠ c → ((TcpServer.deliver { t.handleClose c with stack := [] } c
      .close).removeConnection c).conns d = t.conns d :=
    fun d hd => (ht.others d hd).trans (TcpServer.handleClose_conns_ne t hd)
  have hid : ((t.handleClose c).conns c).connId = (s.conns c).connId := by rw [htself, hsame]
  have hremove : Channel.remove c ((t.handleClose c).conns c).channel (t.handleClose c).poller =
      Channel.remove c (s.conns c).channel s.poller := by
    rw [htself, TcpServer.handleClose_poller, remove_disableAll hreg, hsame, h.poller]
  rw [hdestroyed]
  constructor
  case accepts => exact ht.accepts.trans h.accepts
  case poller =>
    rw [ht.poller, hremove]
    rfl
  case others =>
    intro d hd
    obtain ⟨hdc, hd⟩ := not_or.mp (mt List.mem_cons.mpr hd)
    rw [hothers d hdc, TcpServer.onChannel_conns_ne s _ hdc, h.others d hd]
  case retired =>
    intro d hd
    rcases List.mem_cons.mp hd with rfl | hd
    · rw [ht.self, TcpServer.onChannel_conns_self, hremove, htself, hsame]
      exact ⟨rfl, rfl, rfl, hst, rfl⟩
    · rw [hothers d (hne d hd), TcpServer.onChannel_conns_ne s _ (hne d hd)]
      exact h.retired d hd
  case entries => exact fun id d hd => h.entries id d (ht.entries.mp hd).2
  case kept =>
    intro id d hd hat
    obtain ⟨hdc, hd⟩ := not_or.mp (mt List.mem_cons.mpr hd)
    refine ht.entries.mpr ⟨?_, h.kept id d hd hat⟩
    rintro rfl
    rw [hid] at hat
    exact hdc (Option.some.inj (hat.symm.trans hin))
  case held =>
    intro d hd
    rw [(TcpServer.sameList_onChannel s c _).connId d]
    rcases List.mem_cons.mp hd with rfl | hd
    · exact ⟨hborn, hin⟩
    · exact h.held d hd
  case stack =>
    rw [ht.stack]
    exact (congrArg (List.map closing) hidle).symm
  case tasks =>
    intro task htask
    rw [show (s.onChannel c (Channel.remove c)).stack = [] from hidle] at htask
    cases htask
  case functors =>
    rw [ht.loop]
    exact h.functors
  case queued =>
    rw [ht.loop]
    exact h.queued

end Shadow

/-! ## The run of the clients that hang up -/

variable {start : TcpServer} {s s' : Teardown} {t : TcpServer} {c : Nat}

theorem closing_conn (task : Task) : (closing task).conn = task.conn := by
  cases task <;> rfl

/-- A client hangs up, and the loop calls `handle_close`. -/
theorem hangUp_reach (h : TcpServer.machine.Reach t) (hidle : t.stack = [])
    (hfunctors : t.loop.functors = []) (hc : (t.conns c).alive = true) :
    TcpServer.machine.Reach (t.handleClose c) := by
  have hpolls : t.polls = true := by simp [TcpServer.polls, hidle, hfunctors]
  have hevent : TcpServer.machine.step t (.event c EPOLLHUP) =
      some { t with stack := [.handleClose c] } := by
    have hbranches : TcpServer.branches c EPOLLHUP = [.handleClose c] := rfl
    simp [TcpServer.machine, TcpServer.step, hpolls, hc, TcpServer.push, hbranches, hidle]
  refine (h.step hevent).step (a := .resume) ?_
  have hback : { t with stack := [] } = t := by
    rw [← hidle]
  simp [TcpServer.machine, TcpServer.step, TcpServer.runTask, hback]

/-- The whole close of a connection whose client has hung up. -/
theorem closed_reach (h : TcpServer.machine.Reach t) (hidle : t.stack = [])
    (hfunctors : t.loop.functors = []) (hc : (t.conns c).alive = true) :
    TcpServer.machine.Reach
      ((TcpServer.deliver { t.handleClose c with stack := [] } c .close).removeConnection c) := by
  have hreturns : TcpServer.machine.step (t.handleClose c) .returns =
      some { t.handleClose c with stack := [.closeCb c] } := by
    simp [TcpServer.machine, TcpServer.step, hidle]
  exact ((hangUp_reach h hidle hfunctors hc).step hreturns).step (a := .resume) rfl

/-- What each step of the destructor has checked. -/
inductive Move (s : Teardown) : Act → Teardown → Prop
  | next {c : Nat} : s.server.stack = [] →
      s.server.connections (s.server.conns c).connId = some c → c ∉ s.visited →
      Move s (.next c) ⟨s.server.connectionDestroyed c, c :: s.visited⟩
  | send {c : Nat} {data : Bytes} {r : WriteResult} : s.server.stack.head? = some .user →
      (s.server.conns c).alive = true → r.fits data.length = true →
      Move s (.server (.send c data r)) { s with server := s.server.send c data r }
  | shutdown {c : Nat} : s.server.stack.head? = some .user → (s.server.conns c).alive = true →
      Move s (.server (.shutdown c)) { s with server := s.server.shutdown c }
  | forceClose {c : Nat} : s.server.stack.head? = some .user → (s.server.conns c).alive = true →
      Move s (.server (.forceClose c)) { s with server := s.server.forceClose c }
  | returns {rest : List Task} : s.server.stack = .user :: rest →
      Move s (.server .returns) { s with server := { s.server with stack := rest } }
  | closeCb {c : Nat} {rest : List Task} : s.server.stack = .closeCb c :: rest → c ∉ s.visited →
      Move s (.server .resume) { s with
        server := (TcpServer.deliver { s.server with stack := rest } c .close).removeConnection c }
  | removeChannel {c : Nat} {rest : List Task} : s.server.stack = .removeChannel c :: rest →
      c ∈ s.visited → Move s (.server .resume) { s with
        server := TcpServer.onChannel { s.server with stack := rest } c (Channel.remove c) }
  | destroy {c : Nat} : (s.server.conns c).alive = true → s.server.released c = true →
      Move s (.server (.destroy c)) { s with server := s.server.destroy c }

theorem move_of_step {a : Act} (htasks : ∀ task ∈ s.server.stack, Left s.visited task)
    (hs : s.step a = some s') : Move s a s' := by
  cases a with
  | next c =>
    dsimp only [step] at hs
    split at hs
    · rename_i hok
      cases hs
      exact .next (List.isEmpty_iff.mp hok.1) hok.2.1 hok.2.2
    · cases hs
  | server a =>
    dsimp only [step] at hs
    split at hs
    · rename_i hallowed
      obtain ⟨u, hu, rfl⟩ := Option.map_eq_some_iff.mp hs
      -- user code runs in a callback
      have hruns : s.server.stack.isEmpty = false → s.server.userRuns = true →
          s.server.stack.head? = some .user := by
        intro hne hruns
        simpa [TcpServer.userRuns, hne] using hruns
      cases a with
      | send c data r =>
        simp only [TcpServer.step] at hu
        split at hu
        · rename_i hok
          cases hu
          exact .send (hruns (by simpa [allowed] using hallowed) hok.1) hok.2.1 hok.2.2
        · cases hu
      | shutdown c =>
        simp only [TcpServer.step] at hu
        split at hu
        · rename_i hok
          cases hu
          exact .shutdown (hruns (by simpa [allowed] using hallowed) hok.1) hok.2
        · cases hu
      | forceClose c =>
        simp only [TcpServer.step] at hu
        split at hu
        · rename_i hok
          cases hu
          exact .forceClose (hruns (by simpa [allowed] using hallowed) hok.1) hok.2
        · cases hu
      | returns =>
        simp only [TcpServer.step] at hu
        split at hu
        · rename_i rest hst
          cases hu
          exact .returns hst
        · cases hu
      | resume =>
        simp only [TcpServer.step] at hu
        split at hu
        · rename_i task rest hst
          rcases htasks task (hst ▸ List.mem_cons_self) with rfl | ⟨c, hc, rfl⟩ | ⟨c, hc, rfl⟩
          · cases hu
          · cases hu
            exact .closeCb hst hc
          · cases hu
            exact .removeChannel hst hc
        · cases hu
      | destroy c =>
        simp only [TcpServer.step] at hu
        split at hu
        · rename_i hok
          cases hu
          exact .destroy hok.1 hok.2
        · cases hu
      | accept connFd => cases hallowed
      | event c revents => cases hallowed
      | swap => cases hallowed
      | functor => cases hallowed
      | queuedSend c data r => cases hallowed
      | read r => cases hallowed
      | write r => cases hallowed
    · cases hs

/-- A callback of the destructor is one of the clients' too. -/
theorem Shadow.userRuns {visited : List Nat} {u t : TcpServer} (h : Shadow visited u t)
    (huser : u.stack.head? = some .user) : t.userRuns = true := by
  have htuser : t.stack.head? = some .user := by
    rw [h.stack, List.head?_map, huser]
    rfl
  simp [TcpServer.userRuns, htuser]

/-- The head of the stack is the end of a close. -/
theorem Shadow.closeCb {visited : List Nat} {u t : TcpServer} {task : Task} {rest : List Task}
    (h : Shadow visited u t) (hst : u.stack = task :: rest) (htask : closing task = .closeCb c) :
    TcpServer.machine.step t .resume = some ((TcpServer.deliver
      { t with stack := rest.map closing } c .close).removeConnection c) := by
  have htst : t.stack = .closeCb c :: rest.map closing := by
    rw [h.stack, hst, List.map_cons, htask]
  simp [TcpServer.machine, TcpServer.step, htst, TcpServer.runTask]

/-- What a step of the destructor does, some steps do of the server whose clients hang up. -/
theorem shadow_step {a : Act} (h : Shadow s.visited s.server t) (hr : TcpServer.machine.Reach t)
    (hids : t.accepts < 2 ^ 64) (hs : s.step a = some s') :
    ∃ t', TcpServer.machine.Reach t' ∧ Shadow s'.visited s'.server t' := by
  have hlife := TcpServer.life_reach hr
  have htab := TcpServer.tables_reach hr hids
  have halive : ∀ c, (s.server.conns c).alive = true → (t.conns c).alive = true :=
    fun c hc => (h.same_fields c).2.2.trans hc
  cases move_of_step h.tasks hs with
  | @next c hidle hin hc =>
    have htidle : t.stack = [] := by
      rw [h.stack, hidle]
      rfl
    obtain ⟨hlive, -, hphase⟩ := htab.listed.entries _ c (h.kept _ c hc hin)
    have hborn : c < s.server.accepts := h.accepts ▸ hlife.lt_accepts hlive
    by_cases hst : (s.server.conns c).state = .kConnected
    · exact ⟨_, hangUp_reach hr htidle h.functors hlive, h.visitConnected hc hborn hidle hin hst⟩
    · have hopen : t.phase c = .opened := by
        by_contra hne
        refine hphase (TcpServer.Between.phase ?_ ?_)
        · simp [TcpServer.Between, htidle]
        · rw [TcpServer.phase_eq_opened] at hne
          omega
      have hreg := htab.watched.status c hlive
      rw [hopen] at hreg
      exact ⟨_, closed_reach hr htidle h.functors hlive, h.visitOther hc hborn hidle hin hst hreg⟩
  | @send c data r huser hc hfits =>
    exact ⟨_, hr.step (a := .send c data r) (if_pos ⟨h.userRuns huser, halive c hc, hfits⟩),
      h.send c data r⟩
  | @shutdown c huser hc =>
    exact ⟨_, hr.step (a := .shutdown c) (if_pos ⟨h.userRuns huser, halive c hc⟩), h.shutdown c⟩
  | @forceClose c huser hc =>
    exact ⟨_, hr.step (a := .forceClose c) (if_pos ⟨h.userRuns huser, halive c hc⟩),
      h.forceClose c⟩
  | returns hst =>
    refine ⟨_, hr.step (a := .returns) ?_, h.pop hst⟩
    simp [TcpServer.machine, TcpServer.step, h.stack, hst, closing]
  | @closeCb c rest hst hc =>
    have hmem : Task.closeCb c ∈ t.stack := by
      rw [h.stack, hst]
      exact List.mem_cons_self
    have hclosed := (hlife.disconnected c).mpr (hlife.closing c hmem)
    rw [h.others c hc] at hclosed
    refine ⟨_, hr.step (h.closeCb hst rfl), (h.pop hst).removeConnection hc hclosed ?_⟩
    intro d hd heq
    have hborn : d < t.accepts := h.accepts ▸ (h.held d hd).1
    have hlive := hlife.lt_accepts (hlife.tasks _ hmem c rfl)
    refine hc (htab.listed.id_inj hids hborn hlive ?_ ▸ hd)
    rw [(h.same_fields d).1, (h.same_fields c).1]
    exact heq
  | removeChannel hst hc =>
    exact ⟨_, hr.step (h.closeCb hst rfl), (h.pop hst).removeChannel hc⟩
  | @destroy c hc hreleased =>
    obtain ⟨hnot, hqueue, hstack⟩ := TcpServer.released_iff.mp hreleased
    refine ⟨_, hr.step (a := .destroy c) (if_pos ⟨halive c hc, ?_⟩),
      h.destroy fun hin => hnot (h.held c hin).2⟩
    refine TcpServer.released_iff.mpr ⟨?_, fun hin => hqueue (h.queued c hin), ?_⟩
    · rw [(h.same_fields c).1]
      exact fun hin => hnot (h.entries _ c hin)
    · rw [h.stack]
      intro task htask
      obtain ⟨task', htask', rfl⟩ := List.mem_map.mp htask
      rw [closing_conn]
      exact hstack task' htask'

theorem sendInLoop_accepts (u : TcpServer) (c : Nat) (data : Bytes) (r : WriteResult) :
    (u.sendInLoop c data r).accepts = u.accepts := by
  have hrest : ∀ rest, (u.bufferRest c rest).accepts = u.accepts := by
    intro rest
    unfold TcpServer.bufferRest
    dsimp only
    split <;> rfl
  unfold TcpServer.sendInLoop
  split
  · rfl
  split
  · cases r with
    | error => rfl
    | wouldBlock => exact hrest data
    | count n =>
      dsimp only
      split
      · rfl
      · exact hrest _
  · exact hrest data

theorem connectionDestroyed_accepts (u : TcpServer) (c : Nat) :
    (u.connectionDestroyed c).accepts = u.accepts := by
  unfold TcpServer.connectionDestroyed
  split <;> rfl

/-- The destructor accepts nobody. -/
theorem accepts_move {a : Act} (hm : Move s a s') : s'.server.accepts = s.server.accepts := by
  cases hm with
  | next _ _ _ => exact connectionDestroyed_accepts _ _
  | send _ _ _ =>
    dsimp only
    unfold TcpServer.send
    split
    · rfl
    · exact sendInLoop_accepts _ _ _ _
  | shutdown _ _ =>
    dsimp only
    unfold TcpServer.shutdown TcpServer.shutdownInLoop
    split
    · split <;> rfl
    · rfl
  | forceClose _ _ =>
    dsimp only
    unfold TcpServer.forceClose
    split <;> rfl
  | returns _ => rfl
  | closeCb _ _ => exact connectionDestroyed_accepts _ _
  | removeChannel _ _ => rfl
  | destroy _ _ => rfl

/-- In every state the destructor has done what hang-ups of the clients would have done. -/
theorem shadow_reach (hstart : TcpServer.machine.Reach start) (hpolls : start.polls = true)
    (hids : start.accepts < 2 ^ 64) (h : (machine start).Reach s) :
    ∃ t, TcpServer.machine.Reach t ∧ t.accepts < 2 ^ 64 ∧ Shadow s.visited s.server t := by
  refine h.invariant (I := fun s => ∃ t, TcpServer.machine.Reach t ∧ t.accepts < 2 ^ 64 ∧
    Shadow s.visited s.server t) ?_ ?_
  · simp only [TcpServer.polls, Bool.and_eq_true, List.isEmpty_iff] at hpolls
    obtain ⟨hidle, hfunctors⟩ := hpolls
    refine ⟨start, hstart, hids, rfl, rfl, fun _ _ => rfl, by simp [machine], fun _ _ => id,
      fun _ _ _ => id, by simp [machine], ?_, ?_, hfunctors, fun _ => id⟩
    · simp [machine, hidle]
    · simp [machine, hidle]
  · rintro s a s' - ⟨t, hr, ht, hshadow⟩ hs
    obtain ⟨t', hr', hshadow'⟩ := shadow_step hshadow hr ht hs
    refine ⟨t', hr', ?_, hshadow'⟩
    rw [hshadow'.accepts, accepts_move (move_of_step hshadow.tasks hs), ← hshadow.accepts]
    exact ht

end Teardown

end rpc.net
