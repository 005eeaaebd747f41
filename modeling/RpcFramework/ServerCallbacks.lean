-- The callbacks of a connection. It is told once that it is open, then it
-- delivers messages and frames, then it is told once that it is closed. The
-- close is reached by several ways, and none of them asks whether another was
-- taken before; so the order holds in the runs that take only one of them.
import Mathlib.Data.List.Count
import RpcFramework.ServerLife

namespace rpc.net

open runs codec

/-! ## The order -/

def Callback.isDelivery : Callback → Bool
  | .message | .frame _ => true
  | .connection _ | .close => false

/-- What a connection was told of its close. -/
def told : Phase → List Callback
  | .opened => []
  | .leaving => [.connection false]
  | .gone => [.connection false, .close]

/-- One notification that the connection is open, the deliveries, and at the end at most one
notification that it is closed and one `close_cb_`. -/
def Proper (trace : List Callback) : Prop :=
  trace = [] ∨ ∃ deliveries phase, (∀ x ∈ deliveries, Callback.isDelivery x = true) ∧
    trace = .connection true :: deliveries ++ told phase

/-- No trace in order has two notifications of a close. -/
theorem Proper.count_le {trace : List Callback} (h : Proper trace) :
    trace.count (.connection false) ≤ 1 := by
  rcases h with rfl | ⟨deliveries, phase, hds, rfl⟩
  · simp
  · have hnone : deliveries.count (.connection false) = 0 := by
      rw [List.count_eq_zero]
      intro hin
      exact absurd (hds _ hin) (by simp [Callback.isDelivery])
    rw [List.cons_append, List.count_cons_of_ne (by simp), List.count_append, hnone]
    cases phase <;> decide

namespace TcpServer

variable {s s' : TcpServer} {c d : Nat}

/-! ## Orderly runs -/

/-- The branches of `handle_event` that may close the connection, or deliver something. -/
def disturbs (c : Nat) (t : Task) : Bool :=
  t = .handleClose c || t = .handleError c || t = .handleRead c

theorem disturbs_branch {t : Task} (h : disturbs c t = true) :
    t.isBranch = true ∧ t.conn = some c := by
  unfold disturbs at h
  simp only [Bool.or_eq_true, decide_eq_true_eq] at h
  rcases h with (rfl | rfl) | rfl <;> exact ⟨rfl, rfl⟩

theorem disturbs_of_not_branch {t : Task} (h : t.isBranch = false) : disturbs c t = false := by
  by_contra hd
  rw [(disturbs_branch (by simpa using hd)).1] at h
  cases h

/-- The step runs `handle_close` on the connection, and not from the queue. -/
def closesNow (c : Nat) (s : TcpServer) : Act → Bool
  | .resume => s.stack.head? = some (.handleClose c) || s.stack.head? = some (.handleError c)
  | .read r => s.stack.head? = some (.handleRead c) && (r = none || r = some [])
  | .queuedSend d _ r => d = c && decide (Fails (s.conns c) r)
  | .send d _ r => d = c && (s.conns c).state = .kConnected && decide (Fails (s.conns c) r)
  | _ => false

/-- The step calls `force_close`, from user code or from the codec. -/
def forcesNow (c : Nat) (s : TcpServer) : Act → Bool
  | .forceClose d => d = c
  | .resume => s.stack.head? = some (.forceClose c)
  | _ => false

/-- An event of the connection takes at most one of the branches that close or read, and none
when the connection is disconnected. -/
def single (c : Nat) (s : TcpServer) : Act → Bool
  | .event d revents =>
    d ≠ c || match (branches c revents).filter (disturbs c) with
      | [] => true
      | [_] => (s.conns c).state ≠ .kDisconnected
      | _ => false
  | _ => true

/-- The buffer holds a complete frame. -/
def framed (b : Buffer) : Bool :=
  match pass b with
  | .frame _ _ => true
  | .wait | .error _ => false

/-- Only one way to the close is taken: one branch of an event, no other close and no other
`force_close` while one waits in the queue, and no failing write in the callback for a frame
while the buffer holds the next one. -/
structure Orderly (c : Nat) (s : TcpServer) (a : Act) : Prop where
  event : single c s a = true
  queue : closesNow c s a = true ∨ forcesNow c s a = true → c ∉ s.loop.queued
  codec : closesNow c s a = true → .onMessage c ∈ s.stack → framed (s.conns c).inputBuf = false

instance (c : Nat) (s : TcpServer) (a : Act) : Decidable (Orderly c s a) :=
  decidable_of_iff (single c s a = true ∧
    (closesNow c s a = true ∨ forcesNow c s a = true → c ∉ s.loop.queued) ∧
    (closesNow c s a = true → .onMessage c ∈ s.stack → framed (s.conns c).inputBuf = false))
    ⟨fun h => ⟨h.1, h.2.1, h.2.2⟩, fun h => ⟨h.event, h.queue, h.codec⟩⟩

/-- An orderly step that closes the connection finds nothing else that would. -/
theorem Orderly.first {a : Act} (h : Orderly c s a) (hnow : closesNow c s a = true)
    (hzero : (s.conns c).closes = 0) : (s.conns c).closes = 0 ∧ c ∉ s.loop.queued ∧
      (.onMessage c ∈ s.stack → framed (s.conns c).inputBuf = false) :=
  ⟨hzero, h.queue (Or.inl hnow), h.codec hnow⟩

theorem Orderly.first_below {a : Act} {t : Task} {rest : List Task} (h : Orderly c s a)
    (hs : s.stack = t :: rest) (hnow : closesNow c s a = true) (hzero : (s.conns c).closes = 0) :
    (s.conns c).closes = 0 ∧ c ∉ s.loop.queued ∧
      (.onMessage c ∈ rest → framed (s.conns c).inputBuf = false) := by
  refine ⟨hzero, h.queue (Or.inl hnow), ?_⟩
  intro hin
  apply h.codec hnow
  rw [hs]
  exact List.mem_cons_of_mem t hin

/-! ## The invariant -/

/-- The trace is in order and says what the phase is, and nothing that is left to do would
close the connection a second time, or deliver something after its close. -/
structure Settled (c : Nat) (s : TcpServer) : Prop where
  once : (s.conns c).closes ≤ 1
  trace : c < s.accepts → ∃ deliveries, (∀ x ∈ deliveries, Callback.isDelivery x = true) ∧
    (s.conns c).trace = .connection true :: deliveries ++ told (s.phase c)
  quiet : ∀ t ∈ s.stack, disturbs c t = false
  queue : s.loop.queued.count c ≤ 1
  waiting : c ∈ s.loop.queued → (s.conns c).closes = 0
  codec : .onMessage c ∈ s.stack → 0 < (s.conns c).closes →
    framed (s.conns c).inputBuf = false

/-- Either all is settled, or one branch of an event comes next, and the connection is open. -/
def InOrder (c : Nat) (s : TcpServer) : Prop :=
  Settled c s ∨ ∃ t rest, s.stack = t :: rest ∧ disturbs c t = true ∧ (s.conns c).closes = 0 ∧
    Settled c { s with stack := rest }

namespace Settled

theorem new_settled (c : Nat) : Settled c new where
  once := by simp [new, Connection.blank]
  trace := by simp [new]
  quiet := by simp [new]
  queue := by simp [new]
  waiting := by simp [new]
  codec := by simp [new]

/-- A step that neither closes the connection nor tells it anything. It reads and leaves work
for the codec only while the connection is open. -/
theorem congr (h : Settled c s) (hborn : c < s'.accepts → c < s.accepts)
    (hcloses : (s'.conns c).closes = (s.conns c).closes)
    (htrace : (s'.conns c).trace = (s.conns c).trace)
    (hinput : 0 < (s.conns c).closes → (s'.conns c).inputBuf = (s.conns c).inputBuf)
    (hqueued : s'.loop.queued = s.loop.queued)
    (hstack : ∀ t ∈ s'.stack, t ∈ s.stack ∨
      disturbs c t = false ∧ (t = .onMessage c → (s.conns c).closes = 0))
    (hphase : s'.phase c = s.phase c) : Settled c s' := by
  constructor
  case once =>
    rw [hcloses]
    exact h.once
  case trace =>
    intro hc
    rw [htrace, hphase]
    exact h.trace (hborn hc)
  case quiet =>
    intro t ht
    rcases hstack t ht with hin | ⟨hquiet, -⟩
    · exact h.quiet t hin
    · exact hquiet
  case queue =>
    rw [hqueued]
    exact h.queue
  case waiting =>
    rw [hqueued, hcloses]
    exact h.waiting
  case codec =>
    intro hin hclosed
    rw [hcloses] at hclosed
    rw [hinput hclosed]
    rcases hstack _ hin with hin | ⟨-, hopen⟩
    · exact h.codec hin hclosed
    · have := hopen rfl
      omega

theorem push {t : Task} (h : Settled c s) (hquiet : disturbs c t = false)
    (hopen : t = .onMessage c → (s.conns c).closes = 0) (hclose : t ≠ .closeCb c) :
    Settled c (s.push [t]) := by
  refine h.congr id rfl rfl (fun _ => rfl) rfl ?_ ?_
  · intro t' ht'
    rcases List.mem_cons.mp ht' with rfl | hin
    · exact Or.inr ⟨hquiet, hopen⟩
    · exact Or.inl hin
  · refine phase_congr rfl ?_
    change Task.closeCb c ∈ t :: s.stack ↔ _
    rw [List.mem_cons, or_iff_right (Ne.symm hclose)]

theorem pop {t : Task} {rest : List Task} (h : Settled c s) (hs : s.stack = t :: rest)
    (hclose : t ≠ .closeCb c) : Settled c { s with stack := rest } := by
  refine h.congr id rfl rfl (fun _ => rfl) rfl ?_ ?_
  · intro t' ht'
    left
    rw [hs]
    exact List.mem_cons_of_mem t ht'
  · refine phase_congr rfl ?_
    rw [hs, List.mem_cons, or_iff_right (Ne.symm hclose)]

theorem modify {f : Connection → Connection} (h : Settled c s)
    (hf : d = c → (f (s.conns c)).closes = (s.conns c).closes ∧
      (f (s.conns c)).trace = (s.conns c).trace ∧
      (0 < (s.conns c).closes → (f (s.conns c)).inputBuf = (s.conns c).inputBuf)) :
    Settled c (s.modify d f) := by
  have hsame : ((s.modify d f).conns c).closes = (s.conns c).closes ∧
      ((s.modify d f).conns c).trace = (s.conns c).trace ∧
      (0 < (s.conns c).closes → ((s.modify d f).conns c).inputBuf = (s.conns c).inputBuf) := by
    by_cases hd : d = c
    · subst hd
      rw [conns_modify_self]
      exact hf rfl
    · rw [conns_modify_ne s f (Ne.symm hd)]
      exact ⟨rfl, rfl, fun _ => rfl⟩
  obtain ⟨hcloses, htrace, hinput⟩ := hsame
  exact h.congr id hcloses htrace hinput rfl (fun t ht => Or.inl ht) (phase_congr hcloses Iff.rfl)

theorem setPoller (h : Settled c s) (p : EpollPoller Nat) : Settled c { s with poller := p } :=
  ⟨h.once, h.trace, h.quiet, h.queue, h.waiting, h.codec⟩

theorem onChannel (h : Settled c s) (d : Nat)
    (op : Channel → EpollPoller Nat → Channel × EpollPoller Nat) : Settled c (s.onChannel d op) :=
  (h.modify (f := fun k => { k with channel := (op (s.conns d).channel s.poller).1 })
    (fun _ => ⟨rfl, rfl, fun _ => rfl⟩)).setPoller _

theorem calm (h : Settled c s) (hcalm : Calm s s') : Settled c s' := by
  induction hcalm with
  | refl => exact h
  | modify _ _ hf ih =>
    apply ih.modify
    rintro rfl
    exact ⟨hf.closes, hf.trace, fun _ => hf.inputBuf⟩
  | interest _ _ _ _ ih => exact ih.onChannel _ _
  | push _ ht hno _ ih =>
    exact ih.push (disturbs_of_not_branch ht.1) (fun heq => absurd heq (hno c)) (ht.2.1 c)

/-- A close of another connection. -/
theorem handleClose_ne (h : Settled c s) (hne : d ≠ c) : Settled c (s.handleClose d) := by
  have hconn := handleClose_conns_ne (d := c) s (Ne.symm hne)
  refine h.congr id ?_ ?_ ?_ rfl ?_ (phase_handleClose_ne s (Ne.symm hne))
  · rw [hconn]
  · rw [hconn]
  · intro _
    rw [hconn]
  · intro t ht
    rw [handleClose_stack] at ht
    rcases List.mem_cons.mp ht with rfl | ht
    · exact Or.inr ⟨rfl, by simp⟩
    rcases List.mem_cons.mp ht with rfl | ht
    · exact Or.inr ⟨rfl, by simp⟩
    · exact Or.inl ht

/-- The first close, when no other waits and the codec has nothing more to deliver. -/
theorem handleClose_self (h : Settled c s) (hzero : (s.conns c).closes = 0)
    (hqueue : c ∉ s.loop.queued)
    (hcodec : .onMessage c ∈ s.stack → framed (s.conns c).inputBuf = false) :
    Settled c (s.handleClose c) := by
  have hself := handleClose_conns_self s c
  constructor
  case once =>
    rw [hself]
    exact Nat.le_of_eq (by rw [hzero])
  case trace =>
    intro hc
    obtain ⟨deliveries, hds, htrace⟩ := h.trace hc
    refine ⟨deliveries, hds, ?_⟩
    rw [phase_handleClose_self, hself, htrace, phase_eq_opened.mpr hzero]
    simp [told]
  case quiet =>
    intro t ht
    rw [handleClose_stack] at ht
    rcases List.mem_cons.mp ht with rfl | ht
    · rfl
    rcases List.mem_cons.mp ht with rfl | ht
    · rfl
    · exact h.quiet t ht
  case queue => exact h.queue
  case waiting => exact fun hin => absurd hin hqueue
  case codec =>
    intro hin _
    rw [hself]
    apply hcodec
    simpa using hin

theorem handleClose (h : Settled c s) (hfirst : d = c → (s.conns c).closes = 0 ∧
      c ∉ s.loop.queued ∧ (.onMessage c ∈ s.stack → framed (s.conns c).inputBuf = false)) :
    Settled c (s.handleClose d) := by
  by_cases hd : d = c
  · subst hd
    obtain ⟨hzero, hqueue, hcodec⟩ := hfirst rfl
    exact h.handleClose_self hzero hqueue hcodec
  · exact h.handleClose_ne hd

theorem setLoop {l : EventLoop Nat} (h : Settled c s) (hcount : l.queued.count c ≤ 1)
    (hwait : c ∈ l.queued → (s.conns c).closes = 0) : Settled c { s with loop := l } :=
  ⟨h.once, h.trace, h.quiet, hcount, hwait, h.codec⟩

theorem forceClose (h : Settled c s) (hlife : Life s) (hqueue : d = c → c ∉ s.loop.queued) :
    Settled c (s.forceClose d) := by
  unfold TcpServer.forceClose
  split
  · rename_i hst
    have hm := h.modify (d := d) (f := fun k => { k with state := .kDisconnecting })
      (fun _ => ⟨rfl, rfl, fun _ => rfl⟩)
    by_cases hd : d = c
    · subst hd
      have hcount := List.count_eq_zero.mpr (hqueue rfl)
      refine hm.setLoop ?_ ?_
      · rw [EventLoop.queued_queueInLoop, List.count_append]
        change s.loop.queued.count d + _ ≤ 1
        rw [hcount]
        simp
      · intro _
        rw [conns_modify_self]
        have hopen : (s.conns d).state ≠ .kDisconnected := by
          rcases hst with hst | hst <;> simp [hst]
        exact phase_eq_opened.mp (phase_of_state hlife hopen)
    · refine hm.setLoop ?_ ?_
      · rw [EventLoop.queued_queueInLoop, List.count_append, List.count_singleton]
        simpa [hd] using hm.queue
      · intro hin
        rw [EventLoop.queued_queueInLoop, List.mem_append, List.mem_singleton] at hin
        rcases hin with hin | rfl
        · exact hm.waiting hin
        · exact absurd rfl hd
  · exact h

/-- A delivery of the open connection. -/
theorem deliver_self {callback : Callback} (h : Settled c s) (hzero : (s.conns c).closes = 0)
    (hcb : callback.isDelivery = true) : Settled c (s.deliver c callback) := by
  have hself := conns_modify_self s c fun k => { k with trace := k.trace ++ [callback] }
  have hphase : (s.deliver c callback).phase c = s.phase c :=
    phase_congr (by unfold TcpServer.deliver; rw [hself]) Iff.rfl
  constructor
  case once =>
    unfold TcpServer.deliver
    rw [hself]
    exact h.once
  case trace =>
    intro hc
    obtain ⟨deliveries, hds, htrace⟩ := h.trace hc
    rw [hphase, phase_eq_opened.mpr hzero]
    rw [phase_eq_opened.mpr hzero] at htrace
    refine ⟨deliveries ++ [callback], ?_, ?_⟩
    · intro x hx
      rcases List.mem_append.mp hx with hx | hx
      · exact hds x hx
      · rw [List.mem_singleton.mp hx]
        exact hcb
    · unfold TcpServer.deliver
      rw [hself, htrace]
      simp [told]
  case quiet => exact h.quiet
  case queue => exact h.queue
  case waiting =>
    intro hin
    unfold TcpServer.deliver
    rw [hself]
    exact h.waiting hin
  case codec =>
    unfold TcpServer.deliver
    rw [hself]
    exact h.codec

/-- The open connection takes or gives bytes of its input buffer, and delivers. -/
theorem deliver_input {f : Connection → Connection} {callback : Callback} (h : Settled c s)
    (hzero : (s.conns c).closes = 0) (hcloses : (f (s.conns c)).closes = (s.conns c).closes)
    (htrace : (f (s.conns c)).trace = (s.conns c).trace) (hcb : callback.isDelivery = true) :
    Settled c ((s.modify c f).deliver c callback) ∧
      (((s.modify c f).deliver c callback).conns c).closes = 0 := by
  have hopen : ((s.modify c f).conns c).closes = 0 := by
    rw [conns_modify_self, hcloses, hzero]
  have hinput := h.modify (d := c) (f := f)
    (fun _ => ⟨hcloses, htrace, fun hclosed => by omega⟩)
  refine ⟨hinput.deliver_self hopen hcb, ?_⟩
  unfold TcpServer.deliver
  rw [conns_modify_self]
  exact hopen

theorem deliver_ne (h : Settled c s) (hne : d ≠ c) (callback : Callback) :
    Settled c (s.deliver d callback) :=
  h.modify fun heq => absurd heq hne

theorem handleRead_ne (h : Settled c s) (hne : d ≠ c) (r : Option Bytes) :
    Settled c (s.handleRead d r) := by
  unfold TcpServer.handleRead
  split
  · exact h.handleClose_ne hne
  · exact h.handleClose_ne hne
  · refine ((h.modify fun heq => absurd heq hne).deliver_ne hne _).push rfl ?_ (by simp)
    rintro ⟨⟩
    exact absurd rfl hne

/-- A pass of the codec. It delivers nothing when the connection is closed. -/
theorem onMessage (h : Settled c s)
    (hcodec : d = c → 0 < (s.conns c).closes → framed (s.conns c).inputBuf = false) :
    Settled c (s.onMessage d) := by
  unfold TcpServer.onMessage
  split
  · exact h
  · exact (h.push rfl (by simp) (by simp)).push rfl (by simp) (by simp)
  · rename_i body rest hpass
    by_cases hd : d = c
    · subst hd
      have hzero : (s.conns d).closes = 0 := by
        by_contra hclosed
        have hframe := hcodec rfl (by omega)
        rw [framed, hpass] at hframe
        cases hframe
      obtain ⟨htaken, hopen⟩ := h.deliver_input (f := fun k => { k with inputBuf := rest })
        hzero rfl rfl (show (Callback.frame body).isDelivery = true from rfl)
      exact (htaken.push rfl (fun _ => hopen) (by simp)).push rfl (by simp) (by simp)
    · refine (((h.modify fun heq => absurd heq hd).deliver_ne hd _).push rfl ?_ (by simp)).push
        rfl (by simp) (by simp)
      rintro ⟨⟩
      exact absurd rfl hd

end Settled

namespace InOrder

/-- The invariant for the stack below its first task. -/
theorem popped {t : Task} {rest : List Task} (h : InOrder c s) (hs : s.stack = t :: rest)
    (hclose : t ≠ .closeCb c) :
    Settled c { s with stack := rest } ∧ (disturbs c t = true → (s.conns c).closes = 0) := by
  rcases h with h | ⟨t', rest', hs', -, hzero, h⟩
  · refine ⟨h.pop hs hclose, ?_⟩
    intro hd
    have hquiet := h.quiet t (by simp [hs])
    rw [hd] at hquiet
    cases hquiet
  · rw [hs] at hs'
    cases hs'
    exact ⟨h, fun _ => hzero⟩

/-- When no branch is first, all is settled. -/
theorem settled (h : InOrder c s) (hhead : ∀ t ∈ s.stack.head?, t.isBranch = false) :
    Settled c s := by
  rcases h with h | ⟨t, rest, hs, hd, -⟩
  · exact h
  · have hbranch := hhead t (by simp [hs])
    rw [(disturbs_branch hd).1] at hbranch
    cases hbranch

theorem settled_of_userRuns (h : InOrder c s) (hruns : s.userRuns = true) : Settled c s := by
  apply h.settled
  intro t ht
  unfold userRuns at hruns
  simp only [Bool.or_eq_true, List.isEmpty_iff, decide_eq_true_eq] at hruns
  rcases hruns with hidle | huser
  · rw [hidle] at ht
    cases ht
  · rw [huser] at ht
    cases ht
    rfl

end InOrder

/-! ## The steps -/

theorem Settled.ended (h : Settled c s) (he : Ended s d s') : Settled c s' := by
  by_cases hd : c = d
  · subst hd
    constructor
    case once =>
      rw [he.self]
      exact h.once
    case trace =>
      intro hc
      rw [he.accepts] at hc
      obtain ⟨deliveries, hds, htrace⟩ := h.trace hc
      refine ⟨deliveries, hds, ?_⟩
      rw [he.gone, he.self]
      dsimp only
      rw [htrace, he.leaving]
      simp [told]
    case quiet => exact fun t ht => h.quiet t (he.stack t ht)
    case queue =>
      rw [he.loop]
      exact h.queue
    case waiting =>
      rw [he.loop, he.self]
      exact h.waiting
    case codec =>
      intro hin
      rw [he.self]
      exact h.codec (he.stack _ hin)
  · have hconn := he.others c hd
    refine h.congr ?_ ?_ ?_ ?_ ?_ (fun t ht => Or.inl (he.stack t ht)) (he.phase c hd)
    · rw [he.accepts]
      exact id
    · rw [hconn]
    · rw [hconn]
    · intro _
      rw [hconn]
    · rw [he.loop]

theorem Settled.newConnection (h : Settled c s) (fd : Nat) :
    Settled c (s.newConnection fd) := by
  have hstack : ∀ t ∈ (s.newConnection fd).stack, t = .user ∨ t ∈ s.stack := by
    intro t ht
    rw [newConnection_stack] at ht
    exact List.mem_cons.mp ht
  by_cases hc : c = s.accepts
  · subst hc
    have hzero := phase_eq_opened.mp (phase_newConnection_self s fd)
    constructor
    case once => rw [hzero]; exact Nat.zero_le 1
    case trace =>
      intro _
      refine ⟨[], by simp, ?_⟩
      rw [phase_newConnection_self, newConnection_conns_self]
      rfl
    case quiet =>
      intro t ht
      rcases hstack t ht with rfl | hin
      · rfl
      · exact h.quiet t hin
    case queue => exact h.queue
    case waiting => exact fun _ => hzero
    case codec =>
      intro _ hclosed
      omega
  · have hconn := newConnection_conns_ne s fd hc
    refine h.congr ?_ ?_ ?_ ?_ rfl ?_ (phase_newConnection_ne s fd hc)
    · intro hlt
      rw [newConnection_accepts] at hlt
      omega
    · rw [hconn]
    · rw [hconn]
    · intro _
      rw [hconn]
    · intro t ht
      rcases hstack t ht with rfl | hin
      · exact Or.inr ⟨rfl, by simp⟩
      · exact Or.inl hin

theorem destroy_same (s : TcpServer) (c d : Nat) :
    ((s.destroy d).conns c).closes = (s.conns c).closes ∧
      ((s.destroy d).conns c).trace = (s.conns c).trace ∧
      ((s.destroy d).conns c).inputBuf = (s.conns c).inputBuf := by
  by_cases hd : c = d
  · subst hd
    rw [destroy_conns_self]
    exact ⟨rfl, rfl, rfl⟩
  · rw [destroy_conns_ne s hd]
    exact ⟨rfl, rfl, rfl⟩

theorem Settled.destroy (h : Settled c s) (d : Nat) : Settled c (s.destroy d) := by
  obtain ⟨hcloses, htrace, hinput⟩ := destroy_same s c d
  exact h.congr id hcloses htrace (fun _ => hinput) rfl (fun t ht => Or.inl ht)
    (phase_congr hcloses Iff.rfl)

/-- The branch that disturbs, if there is only one, comes first. -/
theorem branches_single {revents : UInt32} {t : Task}
    (h : (branches c revents).filter (disturbs c) = [t]) :
    ∃ rest, branches c revents = t :: rest ∧ ∀ t' ∈ rest, disturbs c t' = false := by
  unfold branches at h ⊢
  split_ifs at h ⊢ <;> simp [disturbs] at h ⊢ <;> simp [h]

theorem inOrder_event {revents : UInt32} (h : InOrder c s) (hlife : Life s) (hidle : s.stack = [])
    (hok : single c s (.event d revents) = true) : InOrder c (s.push (branches d revents)) := by
  have hset := h.settled_of_userRuns (userRuns_of_idle hidle)
  have hpush : s.push (branches d revents) = { s with stack := branches d revents } := by
    simp [push, hidle]
  have hplain : ∀ ts : List Task, (∀ t ∈ ts, t.isBranch = true ∧ disturbs c t = false) →
      Settled c { s with stack := ts } := by
    intro ts hts
    refine hset.congr id rfl rfl (fun _ => rfl) rfl ?_ ?_
    · intro t ht
      refine Or.inr ⟨(hts t ht).2, ?_⟩
      rintro rfl
      exact absurd (hts _ ht).1 (by simp [Task.isBranch])
    · refine phase_congr rfl ?_
      rw [hidle]
      refine iff_of_false ?_ (by simp)
      intro hin
      exact absurd (hts _ hin).1 (by simp [Task.isBranch])
  rw [hpush]
  by_cases hd : d = c
  · subst hd
    unfold single at hok
    simp only [ne_eq, not_true_eq_false, decide_false, Bool.false_or] at hok
    split at hok
    · rename_i hnone
      refine Or.inl (hplain _ fun t ht => ⟨(branches_conn ht).1, ?_⟩)
      simpa using List.filter_eq_nil_iff.mp hnone t ht
    · -- the one branch that disturbs is the next task
      rename_i t hone
      obtain ⟨rest, hbranches, hrest⟩ := branches_single hone
      have hdist : disturbs d t = true := by
        have hin : t ∈ (branches d revents).filter (disturbs d) := by simp [hone]
        exact (List.mem_filter.mp hin).2
      have hzero := phase_eq_opened.mp (phase_of_state (c := d) hlife (by simpa using hok))
      refine Or.inr ⟨t, rest, hbranches, hdist, hzero, hplain rest ?_⟩
      intro t' ht'
      have hin : t' ∈ branches d revents := by
        rw [hbranches]
        exact List.mem_cons_of_mem t ht'
      exact ⟨(branches_conn hin).1, hrest t' ht'⟩
    · cases hok
  · refine Or.inl (hplain _ fun t ht => ⟨(branches_conn ht).1, ?_⟩)
    by_contra hdist
    have hconn := (disturbs_branch (by simpa using hdist)).2
    rw [(branches_conn ht).2] at hconn
    cases hconn
    exact hd rfl

theorem inOrder_move {a : Act} (h : InOrder c s) (hlife : Life s) (hok : Orderly c s a)
    (hm : Move s a s') : InOrder c s' := by
  cases hm with
  | calm hruns hcalm => exact Or.inl ((h.settled_of_userRuns hruns).calm hcalm)
  | popped hs hno hcalm => exact Or.inl ((h.popped hs (hno c)).1.calm hcalm)
  | accept hidle _ =>
    exact Or.inl ((h.settled_of_userRuns (userRuns_of_idle hidle)).newConnection _)
  | event hidle _ => exact inOrder_event h hlife hidle hok.event
  | swap hl =>
    have hqueued := EventLoop.queued_swap hl
    rcases h with h | ⟨t, rest, hs, hd, hzero, h⟩
    · exact Or.inl (h.setLoop (by rw [hqueued]; exact h.queue) (by rw [hqueued]; exact h.waiting))
    · exact Or.inr ⟨t, rest, hs, hd, hzero,
        h.setLoop (by rw [hqueued]; exact h.queue) (by rw [hqueued]; exact h.waiting)⟩
  | @functor d l hidle hl =>
    have hset := h.settled_of_userRuns (userRuns_of_idle hidle)
    have hqueued := EventLoop.queued_next hl
    have hcount := hset.queue
    rw [hqueued, List.count_cons] at hcount
    refine Or.inl ((hset.setLoop (l := l) (by omega) ?_).handleClose ?_)
    · intro hin
      apply hset.waiting
      rw [hqueued]
      exact List.mem_cons_of_mem d hin
    · rintro rfl
      refine ⟨hset.waiting (by simp [hqueued]), ?_, by simp [hidle]⟩
      change d ∉ l.queued
      rw [← List.count_eq_zero]
      simpa using hcount
  | @failedQueuedSend d data r hruns _ hfails =>
    refine Or.inl ((h.settled_of_userRuns hruns).handleClose ?_)
    rintro rfl
    have hnow : closesNow d s (.queuedSend d data r) = true := by simp [closesNow, hfails]
    exact hok.first hnow (phase_eq_opened.mp (phase_of_state hlife hfails.1))
  | @failedSend d data r hruns _ hst hfails =>
    refine Or.inl ((h.settled_of_userRuns hruns).handleClose ?_)
    rintro rfl
    have hnow : closesNow d s (.send d data r) = true := by simp [closesNow, hst, hfails]
    exact hok.first hnow (phase_eq_opened.mp (phase_of_state hlife hfails.1))
  | forceClose hruns _ =>
    refine Or.inl ((h.settled_of_userRuns hruns).forceClose hlife ?_)
    rintro rfl
    exact hok.queue (Or.inr (by simp [forcesNow]))
  | @read d r rest hs =>
    obtain ⟨hset, hopen⟩ := h.popped hs (by simp)
    left
    by_cases hd : d = c
    · subst hd
      have hzero := hopen (by simp [disturbs])
      unfold handleRead
      split
      · exact hset.handleClose fun _ => hok.first_below hs (by simp [closesNow, hs]) hzero
      · exact hset.handleClose fun _ => hok.first_below hs (by simp [closesNow, hs]) hzero
      · obtain ⟨hread, hstill⟩ := hset.deliver_input
          (f := fun k => { k with inputBuf := k.inputBuf.readFd ‹_› }) hzero rfl rfl
          (show Callback.message.isDelivery = true from rfl)
        exact hread.push rfl (fun _ => hstill) (by simp)
    · exact hset.handleRead_ne hd r
  | @branch d t rest hs ht =>
    obtain ⟨hset, hopen⟩ := h.popped hs (by rcases ht with rfl | rfl <;> simp)
    refine Or.inl (hset.handleClose ?_)
    rintro rfl
    refine hok.first_below hs ?_ (hopen ?_)
    · rcases ht with rfl | rfl <;> simp [closesNow, hs]
    · rcases ht with rfl | rfl <;> simp [disturbs]
  | closeCb hs =>
    refine Or.inl ((h.settled ?_).ended (ended_of_closeCb hlife hs))
    rw [hs]
    rintro t ⟨⟩
    rfl
  | @codecError d rest hs =>
    refine Or.inl ((h.popped hs (by simp)).1.forceClose (hlife.pop hs) ?_)
    rintro rfl
    exact hok.queue (Or.inr (by simp [forcesNow, hs]))
  | @onMessage d rest hs =>
    have hset := h.settled (by rw [hs]; rintro t ⟨⟩; rfl)
    refine Or.inl ((hset.pop hs (by simp)).onMessage ?_)
    rintro rfl
    exact hset.codec (by simp [hs])
  | destroy _ _ =>
    rcases h with h | ⟨t, rest, hs, hd, hzero, h⟩
    · exact Or.inl (h.destroy _)
    · exact Or.inr ⟨t, rest, hs, hd, (destroy_same s c _).1.trans hzero, h.destroy _⟩


/-- In a run that is orderly for a connection, it hears of its opening first, then its messages
and frames, then of its close, once each. -/
theorem the_callbacks_come_in_order (h : machine.ReachUnder (Orderly c) s) :
    Proper (s.conns c).trace := by
  have horder : InOrder c s := by
    refine Machine.ReachUnder.invariant (I := InOrder c) (Or.inl (Settled.new_settled c)) ?_ h
    intro s a s' hr ih hok hs
    have hlife := life_reach hr.reach
    exact inOrder_move ih hlife hok (move_of_step hlife hs)
  have hlife := life_reach h.reach
  have htrace : c < s.accepts → ∃ deliveries, (∀ x ∈ deliveries, Callback.isDelivery x = true) ∧
      (s.conns c).trace = .connection true :: deliveries ++ told (s.phase c) := by
    rcases horder with hset | ⟨t, rest, hs, hd, hzero, hset⟩
    · exact hset.trace
    · -- the branch that comes next has told nothing yet
      intro hc
      obtain ⟨deliveries, hds, htrace⟩ := hset.trace hc
      have hopen := phase_eq_opened.mpr hzero
      refine ⟨deliveries, hds, htrace.trans ?_⟩
      rw [hopen, phase_eq_opened.mpr (show (({ s with stack := rest } : TcpServer).conns
        c).closes = 0 from hzero)]
  by_cases hc : c < s.accepts
  · obtain ⟨deliveries, hds, heq⟩ := htrace hc
    exact Or.inr ⟨deliveries, s.phase c, hds, heq⟩
  · left
    rw [hlife.unborn c (by omega)]
    rfl

/-- A client sends one frame, gets an answer from inside the callback, and hangs up. -/
theorem a_client_that_hangs_up_is_told_once :
    ∃ s, machine.ReachUnder (Orderly 0) s ∧ Proper (s.conns 0).trace ∧
      (s.conns 0).trace = [.connection true, .message, .frame [7], .connection false, .close] := by
  have hrun : ∃ s, machine.ReachUnder (Orderly 0) s ∧
      (s.conns 0).trace = [.connection true, .message, .frame [7], .connection false, .close] :=
    Machine.ReachUnder.of_run [.accept (some 5), .returns, .event 0 EPOLLIN,
      .read (some [0xCA, 0xFE, 0xBA, 0xBE, 0, 0, 0, 1, 7]), .resume, .send 0 [1, 2] (.count 1),
      .returns, .resume, .event 0 EPOLLHUP, .resume, .returns, .resume] (by decide +kernel)
  obtain ⟨s, hs, htrace⟩ := hrun
  exact ⟨s, hs, the_callbacks_come_in_order hs, htrace⟩

/-- A client is accepted, and the kernel reports a hang-up and an error in one event. Both
branches close, so the connection is told of its close twice. -/
theorem a_hang_up_with_an_error_is_told_twice :
    ∃ s, machine.Reach s ∧ ¬ Proper (s.conns 0).trace := by
  have hrun : ∃ s, machine.Reach s ∧ (s.conns 0).trace.count (.connection false) = 2 :=
    Machine.ReachUnder.of_run [.accept (some 5), .returns, .event 0 (EPOLLHUP ||| EPOLLERR),
      .resume, .returns, .resume, .resume] (by decide +kernel)
  obtain ⟨s, hs, hcount⟩ := hrun
  refine ⟨s, hs, ?_⟩
  intro hproper
  have := hproper.count_le
  omega

end TcpServer

end rpc.net
