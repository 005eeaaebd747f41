-- The raw pointers of the loop. Each of them is to the channel of an open connection when the
-- loop comes to it, as long as no handler sends to a connection that is still to come and fails
-- there; and the list of events that the poll fills follows the number of open connections.
import Mathlib.Data.List.Perm.Subperm
import RpcFramework.PolledServer

namespace rpc.net

open runs

/-! ## What closes a connection -/

namespace TcpServer

variable {s s' : TcpServer} {a : Act} {c : Nat} {t : Task}

theorem phase_calm (hcalm : Calm s s') (c : Nat) : s'.phase c = s.phase c := by
  induction hcalm with
  | refl => rfl
  | modify _ _ hf ih =>
    exact ((sameTables_modify hf.alive hf.connId hf.channel hf.closes).phase c).trans ih
  | interest _ _ _ _ ih => exact ((sameList_onChannel _ _ _).phase c).trans ih
  | push _ ht _ _ ih =>
    exact ((sameTables_push (by simpa using fun d => (ht.2.1 d).symm)).phase c).trans ih

/-- A connection that was accepted stays open, but for a `handle_close` on it. -/
theorem opened_of_move (h : Life s) (hm : Move s a s') (hc : c < s.accepts)
    (hopen : s.phase c = .opened) :
    s'.phase c = .opened ∨ closesNow c s a = true ∨ a = .functor := by
  cases hm with
  | calm _ hcalm =>
    left
    rw [phase_calm hcalm]
    exact hopen
  | popped hs hno hcalm =>
    left
    rw [phase_calm hcalm, (sameTables_pop hs hno).phase]
    exact hopen
  | accept _ _ =>
    left
    rw [phase_newConnection_ne s _ (by omega)]
    exact hopen
  | event _ _ =>
    left
    rw [(sameTables_push fun d hin => ?_).phase]
    · exact hopen
    · exact absurd (branches_conn hin).1 (by simp [Task.isBranch])
  | swap _ =>
    left
    rw [(sameTables_setLoop s _).phase]
    exact hopen
  | functor _ _ => exact Or.inr (Or.inr rfl)
  | @failedQueuedSend d data r _ _ hfails =>
    by_cases hd : c = d
    · subst hd
      exact Or.inr (Or.inl (by simp [closesNow, hfails]))
    · left
      rw [phase_handleClose_ne s hd]
      exact hopen
  | @failedSend d data r _ _ hst hfails =>
    by_cases hd : c = d
    · subst hd
      exact Or.inr (Or.inl (by simp [closesNow, hst, hfails]))
    · left
      rw [phase_handleClose_ne s hd]
      exact hopen
  | forceClose _ _ =>
    left
    rw [(sameTables_forceClose s _).phase]
    exact hopen
  | @read d r rest hs =>
    have hpop := (sameTables_pop hs (by simp)).phase
    by_cases hd : c = d ∧ (r = none ∨ r = some [])
    · obtain ⟨rfl, hr⟩ := hd
      exact Or.inr (Or.inl (by simpa [closesNow, hs] using hr))
    · left
      unfold handleRead
      split
      · rw [handleError, phase_handleClose_ne _ (by rintro rfl; exact hd ⟨rfl, Or.inl rfl⟩), hpop]
        exact hopen
      · rw [phase_handleClose_ne _ (by rintro rfl; exact hd ⟨rfl, Or.inr rfl⟩), hpop]
        exact hopen
      · refine Eq.trans (SameList.phase (SameTables.toSameList ?_) c) ((hpop c).trans hopen)
        exact (sameTables_input _ d _ _).trans (sameTables_push (by simp))
  | @branch d t rest hs ht =>
    by_cases hd : c = d
    · subst hd
      exact Or.inr (Or.inl (by simpa [closesNow, hs] using ht))
    · left
      rw [phase_handleClose_ne _ hd,
        (sameTables_pop hs (by rcases ht with rfl | rfl <;> simp)).phase]
      exact hopen
  | @closeCb d rest hs =>
    left
    have hended := ended_of_closeCb h hs
    by_cases hd : c = d
    · rw [hd, hended.leaving] at hopen
      cases hopen
    · rw [hended.phase c hd]
      exact hopen
  | codecError hs =>
    left
    rw [(sameTables_forceClose _ _).phase, (sameTables_pop hs (by simp)).phase]
    exact hopen
  | onMessage hs =>
    left
    rw [(sameTables_onMessage _ _).phase, (sameTables_pop hs (by simp)).phase]
    exact hopen
  | destroy _ _ =>
    left
    rw [phase_destroy]
    exact hopen

theorem branch_calm (hcalm : Calm s s') (ht : t ∈ s'.stack) (hb : t.isBranch = true) :
    t ∈ s.stack := by
  induction hcalm with
  | refl => exact ht
  | modify _ _ _ ih => exact ih ht
  | interest _ _ _ _ ih => exact ih ht
  | push _ hplain _ _ ih =>
    rcases List.mem_cons.mp ht with rfl | hin
    · rw [hplain.1] at hb
      cases hb
    · exact ih hin

/-- Only an event puts branches of `handle_event` on the stack. -/
theorem branch_of_move (h : Life s) (hm : Move s a s') (ht : t ∈ s'.stack)
    (hb : t.isBranch = true) :
    t ∈ s.stack ∨ ∃ c revents, a = .event c revents ∧ t ∈ branches c revents := by
  have hclose : ∀ {u : TcpServer} {d : Nat}, t ∈ (u.handleClose d).stack → t ∈ u.stack := by
    intro u d hin
    rw [handleClose_stack, List.mem_cons, List.mem_cons] at hin
    rcases hin with rfl | rfl | hin
    · cases hb
    · cases hb
    · exact hin
  have hpop : ∀ {d : Task} {rest : List Task}, s.stack = d :: rest → t ∈ rest → t ∈ s.stack := by
    intro d rest hs hin
    rw [hs]
    exact List.mem_cons_of_mem _ hin
  cases hm with
  | calm _ hcalm => exact Or.inl (branch_calm hcalm ht hb)
  | popped hs _ hcalm => exact Or.inl (hpop hs (branch_calm hcalm ht hb))
  | accept _ _ =>
    rw [newConnection_stack, List.mem_cons] at ht
    rcases ht with rfl | hin
    · cases hb
    · exact Or.inl hin
  | @event d revents _ _ =>
    rcases List.mem_append.mp ht with hin | hin
    · exact Or.inr ⟨d, revents, rfl, hin⟩
    · exact Or.inl hin
  | swap _ => exact Or.inl ht
  | functor _ _ => exact Or.inl (hclose ht)
  | failedQueuedSend _ _ _ => exact Or.inl (hclose ht)
  | failedSend _ _ _ _ => exact Or.inl (hclose ht)
  | forceClose _ _ =>
    left
    unfold forceClose at ht
    split at ht <;> exact ht
  | read hs =>
    left
    apply hpop hs
    unfold handleRead at ht
    split at ht
    · exact hclose ht
    · exact hclose ht
    · rcases List.mem_cons.mp ht with rfl | hin
      · cases hb
      · exact hin
  | branch hs _ => exact Or.inl (hpop hs (hclose ht))
  | closeCb hs => exact Or.inl ((ended_of_closeCb h hs).stack t ht)
  | codecError hs =>
    left
    apply hpop hs
    unfold forceClose at ht
    split at ht <;> exact ht
  | onMessage hs =>
    left
    apply hpop hs
    unfold onMessage at ht
    split at ht
    · exact ht
    · rcases List.mem_cons.mp ht with rfl | ht
      · cases hb
      rcases List.mem_cons.mp ht with rfl | ht
      · cases hb
      exact ht
    · rcases List.mem_cons.mp ht with rfl | ht
      · cases hb
      rcases List.mem_cons.mp ht with rfl | ht
      · cases hb
      exact ht
  | destroy _ _ => exact Or.inl ht

/-- The loop calls the next handler, or swaps the queue, when nothing is left to do before. -/
theorem idle_of_step (hs : s.step a = some s')
    (ha : a = .swap ∨ (∃ connFd, a = .accept connFd) ∨ ∃ c revents, a = .event c revents) :
    s.stack = [] := by
  rcases ha with rfl | ⟨connFd, rfl⟩ | ⟨c, revents, rfl⟩
  · simp only [step, Option.ite_none_right_eq_some, List.isEmpty_iff] at hs
    exact hs.1
  · simp only [step, polls, Option.ite_none_right_eq_some, Bool.and_eq_true,
      List.isEmpty_iff] at hs
    exact hs.1.1.1
  · simp only [step, polls, Option.ite_none_right_eq_some, Bool.and_eq_true,
      List.isEmpty_iff] at hs
    exact hs.1.1.1

/-- The branches after such a step are those of its event. -/
theorem branch_of_idle (h : Life s) (hs : s.step a = some s')
    (ha : a = .swap ∨ (∃ connFd, a = .accept connFd) ∨ ∃ c revents, a = .event c revents)
    (ht : t ∈ s'.stack) (hb : t.isBranch = true) :
    ∃ c revents, a = .event c revents ∧ t.conn = some c := by
  have hidle := idle_of_step hs ha
  rcases branch_of_move h (move_of_step h hs) ht hb with hin | ⟨c, revents, rfl, hin⟩
  · rw [hidle] at hin
    cases hin
  · exact ⟨c, revents, rfl, (branches_conn hin).2⟩

end TcpServer

/-! ## The pointers of the loop -/

namespace PolledServer

variable {s s' : PolledServer} {a : Act} {c : Nat}

/-- User code in a handler sends to the connection that the handler belongs to, as `on_frame`
does, or to one that is not still to come, or the send does not fail. -/
def Harmless (s : PolledServer) : Act → Prop
  | .server (.send c _ r) => s.handling = true → s.current = some c ∨ ¬ s.awaits c ∨
      ¬ ((s.server.conns c).state = .kConnected ∧ TcpServer.Fails (s.server.conns c) r)
  | _ => True

instance (s : PolledServer) (a : Act) : Decidable (Harmless s a) := by
  unfold Harmless
  split <;> infer_instance

/-- The handlers that run are those of one connection, and the pointers that are left are to
other connections, which are open. -/
structure Pointed (s : PolledServer) : Prop where
  handling : s.activeChannels ≠ [] → s.handling = true
  branches : ∀ t ∈ s.server.stack, t.isBranch = true → t.conn = s.current
  opened : ∀ c, s.awaits c → c < s.server.accepts ∧ s.server.phase c = .opened
  distinct : (s.activeChannels.map Prod.fst).Nodup
  apart : ∀ c, s.current = some c → ¬ s.awaits c

theorem new_pointed : Pointed new where
  handling := by simp [new]
  branches := by simp [new, TcpServer.new]
  opened := by simp [awaits, new]
  distinct := by simp [new]
  apart := by simp [new]

/-- A socket is reported with the channel of an open connection. -/
theorem reported_socket {fd : Nat} {revents : UInt32} {q : ChannelPtr × UInt32}
    (h : s.reported (.socket fd, revents) = some q) :
    ∃ c events, q = (.conn c, revents) ∧ s.server.poller.interest fd = some (events, c) := by
  simp only [reported, Option.bind_eq_some_iff] at h
  obtain ⟨⟨events, c⟩, hint, hq⟩ := h
  split at hq
  · cases hq
    exact ⟨c, events, rfl, hint⟩
  · cases hq

/-- Between two handlers the kernel watches open connections only. -/
theorem opened_of_interest {t : TcpServer} (hlife : TcpServer.Life t) (htab : TcpServer.Tables t)
    (hidle : t.stack = []) {fd : Nat} {events : UInt32}
    (hint : t.poller.interest fd = some (events, c)) :
    c < t.accepts ∧ (t.conns c).closes = 0 ∧ (t.conns c).channel.fd = fd := by
  obtain ⟨hlive, hfd⟩ := htab.watched.owned fd c (Or.inr ⟨events, hint⟩)
  refine ⟨hlife.lt_accepts hlive, ?_, hfd⟩
  by_contra hclosed
  have hb : t.Between := by simp [TcpServer.Between, hidle]
  have hname := (htab.watched.status c hlive).names
    (show t.poller.Names (t.conns c).channel.fd c by rw [hfd]; exact Or.inr ⟨events, hint⟩)
  exact hname.2 (hb.phase (by omega))

/-- One file descriptor gives one pointer. -/
theorem reported_inj (hlife : TcpServer.Life s.server) (htab : TcpServer.Tables s.server)
    (hidle : s.server.stack = []) {w w' : WatchedFd × UInt32} {q q' : ChannelPtr × UInt32}
    (hq : s.reported w = some q) (hq' : s.reported w' = some q') (heq : q.1 = q'.1) :
    w.1 = w'.1 := by
  obtain ⟨fd, revents⟩ := w
  obtain ⟨fd', revents'⟩ := w'
  cases fd with
  | listener =>
    cases hq
    cases fd' with
    | listener => rfl
    | wakeup =>
      cases hq'
      cases heq
    | socket fd' =>
      obtain ⟨c, events, rfl, -⟩ := reported_socket hq'
      cases heq
  | wakeup =>
    cases hq
    cases fd' with
    | listener =>
      cases hq'
      cases heq
    | wakeup => rfl
    | socket fd' =>
      obtain ⟨c, events, rfl, -⟩ := reported_socket hq'
      cases heq
  | socket fd =>
    obtain ⟨c, events, rfl, hint⟩ := reported_socket hq
    cases fd' with
    | listener =>
      cases hq'
      cases heq
    | wakeup =>
      cases hq'
      cases heq
    | socket fd' =>
      obtain ⟨c', events', rfl, hint'⟩ := reported_socket hq'
      cases heq
      have hfd := (opened_of_interest hlife htab hidle hint).2.2
      have hfd' := (opened_of_interest hlife htab hidle hint').2.2
      rw [← hfd, ← hfd']

/-- A poll gives no pointer twice. -/
theorem distinct_reported {ready : List (WatchedFd × UInt32)} (hlife : TcpServer.Life s.server)
    (htab : TcpServer.Tables s.server) (hidle : s.server.stack = [])
    (hnodup : (ready.map Prod.fst).Nodup) :
    ((ready.filterMap s.reported).map Prod.fst).Nodup := by
  rw [List.nodup_iff_pairwise_ne, List.pairwise_map, List.pairwise_filterMap]
  rw [List.nodup_iff_pairwise_ne, List.pairwise_map] at hnodup
  refine hnodup.imp ?_
  intro w w' hne q hq q' hq' heq
  exact hne (reported_inj hlife htab hidle hq hq' heq)

/-- A poll gives pointers to open connections only. -/
theorem opened_of_reported {ready : List (WatchedFd × UInt32)} (hlife : TcpServer.Life s.server)
    (htab : TcpServer.Tables s.server) (hidle : s.server.stack = [])
    (hc : .conn c ∈ (ready.filterMap s.reported).map Prod.fst) :
    c < s.server.accepts ∧ (s.server.conns c).closes = 0 := by
  obtain ⟨q, hq, hcq⟩ := List.mem_map.mp hc
  obtain ⟨w, -, hw⟩ := List.mem_filterMap.mp hq
  obtain ⟨fd, revents⟩ := w
  cases fd with
  | listener =>
    cases hw
    cases hcq
  | wakeup =>
    cases hw
    cases hcq
  | socket fd =>
    obtain ⟨d, events, rfl, hint⟩ := reported_socket hw
    cases hcq
    obtain ⟨hborn, hzero, -⟩ := opened_of_interest hlife htab hidle hint
    exact ⟨hborn, hzero⟩

theorem awaits_cons {p : ChannelPtr × UInt32} {rest : List (ChannelPtr × UInt32)}
    (hactive : s.activeChannels = p :: rest) (hc : .conn c ∈ rest.map Prod.fst) : s.awaits c := by
  unfold awaits
  rw [hactive]
  exact List.mem_cons_of_mem _ hc

/-- The loop goes on to the next pointer. -/
theorem Pointed.tail {p : ChannelPtr × UInt32} {rest : List (ChannelPtr × UInt32)}
    (h : Pointed s) (hactive : s.activeChannels = p :: rest) :
    s.handling = true ∧ (rest.map Prod.fst).Nodup ∧ p.1 ∉ rest.map Prod.fst := by
  have hdistinct := h.distinct
  rw [hactive, List.map_cons, List.nodup_cons] at hdistinct
  exact ⟨h.handling (by simp [hactive]), hdistinct.2, hdistinct.1⟩

theorem Pointed.poll {ready : List (WatchedFd × UInt32)} (hlife : TcpServer.Life s.server)
    (htab : TcpServer.Tables s.server) (hidle : s.server.stack = [])
    (hnodup : (ready.map Prod.fst).Nodup) (n : Nat) :
    Pointed { s with
      activeChannels := ready.filterMap s.reported
      handling := true
      current := none
      events := n } where
  handling := fun _ => rfl
  branches := by simp [hidle]
  opened := by
    intro c hc
    obtain ⟨hborn, hzero⟩ := opened_of_reported hlife htab hidle hc
    exact ⟨hborn, TcpServer.phase_eq_opened.mpr hzero⟩
  distinct := distinct_reported hlife htab hidle hnodup
  apart := by simp

/-- What runs no `handle_close` on a connection keeps it open. -/
theorem Pointed.kept {b : TcpServer.Act} {t : TcpServer} (h : Pointed s)
    (hlife : TcpServer.Life s.server) (hm : TcpServer.Move s.server b t)
    (hno : TcpServer.closesNow c s.server b = false) (hb : b ≠ .functor) (hc : s.awaits c) :
    c < t.accepts ∧ t.phase c = .opened := by
  obtain ⟨hborn, hopen⟩ := h.opened c hc
  refine ⟨Nat.lt_of_lt_of_le hborn (TcpServer.accepts_move hlife hm), ?_⟩
  rcases TcpServer.opened_of_move hlife hm hborn hopen with hstays | hcloses | hfunctor
  · exact hstays
  · rw [hno] at hcloses
    cases hcloses
  · exact absurd hfunctor hb

/-- The handler that runs belongs to another connection than those that are still to come, and
its sends do not fail on these. -/
theorem Pointed.spared {b : TcpServer.Act} (h : Pointed s) (hok : Harmless s (.server b))
    (hallowed : s.allowed b = true) (hc : s.awaits c) :
    TcpServer.closesNow c s.server b = false ∧ b ≠ .functor := by
  have hhandling : s.handling = true := by
    apply h.handling
    rintro hnil
    simp [awaits, hnil] at hc
  refine ⟨?_, by rintro rfl; simp [allowed, hhandling] at hallowed⟩
  have hother : ∀ u : Task, s.server.stack.head? = some u → u.isBranch = true →
      u.conn ≠ some c := by
    intro u hu hb hconn
    have hcurrent := h.branches u (List.mem_of_head? hu) hb
    rw [hconn] at hcurrent
    exact h.apart c hcurrent.symm hc
  by_contra hcloses
  rw [Bool.not_eq_false] at hcloses
  cases b with
  | resume =>
    simp only [TcpServer.closesNow, Bool.or_eq_true, decide_eq_true_eq] at hcloses
    rcases hcloses with hhead | hhead
    · exact hother _ hhead rfl rfl
    · exact hother _ hhead rfl rfl
  | read r =>
    simp only [TcpServer.closesNow, Bool.and_eq_true, decide_eq_true_eq] at hcloses
    exact hother _ hcloses.1 rfl rfl
  | queuedSend d data r => simp [allowed, hhandling] at hallowed
  | send d data r =>
    simp only [TcpServer.closesNow, Bool.and_eq_true, decide_eq_true_eq] at hcloses
    obtain ⟨⟨rfl, hst⟩, hfails⟩ := hcloses
    rcases hok hhandling with hown | hno | hno
    · exact h.apart d hown hc
    · exact hno hc
    · exact hno ⟨hst, hfails⟩
  | _ => cases hcloses

theorem pointed_move (h : Pointed s) (hlife : TcpServer.Life s.server)
    (htab : TcpServer.Tables s.server) (hok : Harmless s a) (hm : Move s a s') : Pointed s' := by
  cases hm with
  | poll _ hpolls _ hnodup _ =>
    simp only [TcpServer.polls, Bool.and_eq_true, List.isEmpty_iff] at hpolls
    exact Pointed.poll hlife htab hpolls.1 hnodup _
  | @accept connFd revents rest t hactive ht =>
    obtain ⟨hhandling, hdistinct, -⟩ := h.tail hactive
    have hmove := TcpServer.move_of_step hlife ht
    constructor
    case handling => exact fun _ => hhandling
    case branches =>
      intro u hu hb
      obtain ⟨_, _, hno, -⟩ := TcpServer.branch_of_idle hlife ht (Or.inr (Or.inl ⟨_, rfl⟩)) hu hb
      cases hno
    case opened => exact fun c hc => h.kept hlife hmove rfl (by simp) (awaits_cons hactive hc)
    case distinct => exact hdistinct
    case apart =>
      intro c hcurrent hc
      obtain ⟨_, -, rfl⟩ := Option.map_eq_some_iff.mp hcurrent
      exact absurd (h.opened _ (awaits_cons hactive hc)).1 (Nat.lt_irrefl _)
  | @wake revents rest hactive hidle =>
    obtain ⟨hhandling, hdistinct, -⟩ := h.tail hactive
    exact ⟨fun _ => hhandling, by simp [hidle], fun c hc => h.opened c (awaits_cons hactive hc),
      hdistinct, by simp⟩
  | @event d revents rest t hactive ht =>
    obtain ⟨hhandling, hdistinct, hhead⟩ := h.tail hactive
    have hmove := TcpServer.move_of_step hlife ht
    constructor
    case handling => exact fun _ => hhandling
    case branches =>
      intro u hu hb
      obtain ⟨c, _, heq, hconn⟩ :=
        TcpServer.branch_of_idle hlife ht (Or.inr (Or.inr ⟨_, _, rfl⟩)) hu hb
      cases heq
      exact hconn
    case opened => exact fun c hc => h.kept hlife hmove rfl (by simp) (awaits_cons hactive hc)
    case distinct => exact hdistinct
    case apart =>
      rintro c ⟨⟩
      exact hhead
  | @swap t hactive ht =>
    constructor
    case handling => exact fun hne => absurd hactive hne
    case branches =>
      intro u hu hb
      obtain ⟨_, _, hno, -⟩ := TcpServer.branch_of_idle hlife ht (Or.inl rfl) hu hb
      cases hno
    case opened => simp [awaits, hactive]
    case distinct => exact h.distinct
    case apart => simp
  | @server b t hallowed ht =>
    have hmove := TcpServer.move_of_step hlife ht
    constructor
    case handling => exact h.handling
    case branches =>
      intro u hu hb
      rcases TcpServer.branch_of_move hlife hmove hu hb with hin | ⟨c, revents, rfl, -⟩
      · exact h.branches u hin hb
      · cases hallowed
    case opened =>
      intro c hc
      obtain ⟨hno, hb⟩ := h.spared hok hallowed hc
      exact h.kept hlife hmove hno hb hc
    case distinct => exact h.distinct
    case apart => exact h.apart

theorem accepts_step (hr : machine.Reach s) (hs : s.step a = some s') :
    s.server.accepts ≤ s'.server.accepts := by
  have hlife := TcpServer.life_reach (bareServer.reach hr)
  have hle : ∀ {b : TcpServer.Act} {t : TcpServer}, s.server.step b = some t →
      s.server.accepts ≤ t.accepts :=
    fun ht => TcpServer.accepts_move hlife (TcpServer.move_of_step hlife ht)
  cases move_of_step hs with
  | poll _ _ _ _ _ => exact Nat.le_refl _
  | wake _ _ => exact Nat.le_refl _
  | accept _ ht => exact hle ht
  | event _ ht => exact hle ht
  | swap _ ht => exact hle ht
  | server _ ht => exact hle ht

theorem pointed_reach (h : machine.ReachUnder Harmless s) (hids : s.server.accepts < 2 ^ 64) :
    Pointed s := by
  refine Machine.ReachUnder.invariant (I := fun s => s.server.accepts < 2 ^ 64 → Pointed s)
    (fun _ => new_pointed) ?_ h hids
  intro s a s' hr ih hok hs hids
  have hids' := Nat.lt_of_le_of_lt (accepts_step hr.reach hs) hids
  have hserver := bareServer.reach hr.reach
  exact pointed_move (ih hids') (TcpServer.life_reach hserver) (TcpServer.tables_reach hserver hids')
    hok (move_of_step hs)

/-- The loop never comes to a channel that is gone. As long as no send of a handler fails on a
connection that is still to come, each pointer that is left is to the channel of a living
connection in the table of the server, which the kernel watches and `handle_close` was not run
on. The connection whose handler runs is not among them. So the handlers of the RPC server, which
send to their own connection, may fail at will. -/
theorem no_pointer_of_the_loop_dangles (h : machine.ReachUnder Harmless s)
    (hids : s.server.accepts < 2 ^ 64) (hc : s.awaits c) :
    (s.server.conns c).alive = true ∧ (s.server.conns c).closes = 0 ∧
      s.server.connections (s.server.conns c).connId = some c ∧
      (∃ events, s.server.poller.interest (s.server.conns c).channel.fd = some (events, c)) ∧
      s.current ≠ some c := by
  have hp := pointed_reach h hids
  have htab : TcpServer.Tables s.server := TcpServer.tables_reach (bareServer.reach h.reach) hids
  obtain ⟨hborn, hopen⟩ := hp.opened c hc
  obtain ⟨hlive, hlisted⟩ := htab.listed.opened c hborn hopen
  have hstatus := htab.watched.status c hlive
  rw [hopen] at hstatus
  refine ⟨hlive, TcpServer.phase_eq_opened.mp hopen, hlisted, ?_, fun heq => hp.apart c heq hc⟩
  cases hstatus with
  | opened _ _ _ hint => exact ⟨_, hint⟩

/-- Two clients connect. -/
def twoClients : List Act :=
  [.poll [(.listener, EPOLLIN)], .accept (some 5), .server .returns, .swap,
    .poll [(.listener, EPOLLIN)], .accept (some 6), .server .returns, .swap]

/-- One client hangs up while the other writes. Its connection is closed and destroyed before the
loop comes to the other one. -/
theorem the_next_pointer_outlives_a_hang_up :
    ∃ s, machine.ReachUnder Harmless s ∧ (s.server.conns 0).alive = false ∧ s.awaits 1 ∧
      (s.server.conns 1).alive = true := by
  have hrun : ∃ s, machine.ReachUnder Harmless s ∧
      ((s.server.conns 0).alive = false ∧ s.awaits 1 ∧ s.server.accepts = 2) :=
    Machine.ReachUnder.of_run (twoClients ++
      [.poll [(.socket 5, EPOLLHUP), (.socket 6, EPOLLIN)], .event, .server .resume,
        .server (.send 0 [7] .error), .server .returns, .server .resume, .server (.destroy 0)])
      (by decide +kernel)
  obtain ⟨s, hs, hdead, hawaits, haccepts⟩ := hrun
  exact ⟨s, hs, hdead, hawaits,
    (no_pointer_of_the_loop_dangles hs (by rw [haccepts]; decide) hawaits).1⟩

/-- A server that tells the other client of a hang-up may leave a dangling pointer: the send
fails, and the connection is closed and destroyed while its channel is still to come. -/
theorem a_failed_send_leaves_a_dangling_pointer :
    ∃ s, machine.Reach s ∧ s.awaits 1 ∧ (s.server.conns 1).alive = false :=
  Machine.ReachUnder.of_run (twoClients ++
    [.poll [(.socket 5, EPOLLHUP), (.socket 6, EPOLLIN)], .event, .server .resume,
      .server (.send 1 [7] .error), .server .returns, .server .resume, .server .returns,
      .server .resume, .server (.destroy 1)])
    (by decide +kernel)

/-! ## The list of events -/

/-- The connections that `handle_close` was not run on. -/
def openConns (s : PolledServer) : List Nat :=
  (List.range s.server.accepts).filter fun c => (s.server.conns c).closes = 0

/-- At most `n` connections are open when the loop polls. -/
def AtMost (n : Nat) (s : PolledServer) : Act → Prop
  | .poll _ => s.openConns.length ≤ n
  | _ => True

instance (n : Nat) (s : PolledServer) (a : Act) : Decidable (AtMost n s a) := by
  unfold AtMost
  split <;> infer_instance

/-- The kernel reports each open connection at most once, and two channels more. -/
theorem length_ready_le {ready : List (WatchedFd × UInt32)} (hlife : TcpServer.Life s.server)
    (htab : TcpServer.Tables s.server) (hidle : s.server.stack = [])
    (hnodup : (ready.map Prod.fst).Nodup) (hall : ∀ w ∈ ready, (s.reported w).isSome = true) :
    ready.length ≤ s.openConns.length + 2 := by
  let watched := WatchedFd.listener :: .wakeup ::
    s.openConns.map fun c => .socket (s.server.conns c).channel.fd
  have hsub : ready.map Prod.fst ⊆ watched := by
    intro fd hfd
    obtain ⟨⟨fd, revents⟩, hw, rfl⟩ := List.mem_map.mp hfd
    cases fd with
    | listener => exact List.mem_cons_self
    | wakeup => exact List.mem_cons_of_mem _ List.mem_cons_self
    | socket fd =>
      obtain ⟨q, hq⟩ := Option.isSome_iff_exists.mp (hall _ hw)
      obtain ⟨c, events, -, hint⟩ := reported_socket hq
      obtain ⟨hborn, hzero, rfl⟩ := opened_of_interest hlife htab hidle hint
      refine List.mem_cons_of_mem _ (List.mem_cons_of_mem _ (List.mem_map.mpr ⟨c, ?_, rfl⟩))
      simp [openConns, hborn, hzero]
  have hle := (hnodup.subperm hsub).length_le
  simpa [watched] using hle

/-- The list of events is doubled only when a poll fills it. So it stays below twice the number
of connections that are open at once, and never shrinks. -/
theorem the_event_list_follows_the_open_connections {n : Nat}
    (h : machine.ReachUnder (AtMost n) s) (hids : s.server.accepts < 2 ^ 64) :
    (∃ k, s.events = kInitEventListSize * 2 ^ k) ∧
      s.events ≤ max kInitEventListSize (2 * (n + 2)) := by
  refine Machine.ReachUnder.invariant (I := fun s => s.server.accepts < 2 ^ 64 →
    (∃ k, s.events = kInitEventListSize * 2 ^ k) ∧
      s.events ≤ max kInitEventListSize (2 * (n + 2))) ?_ ?_ h hids
  · intro _
    exact ⟨⟨0, rfl⟩, Nat.le_max_left _ _⟩
  · intro s a s' hr ih hok hs hids
    have hids' := Nat.lt_of_le_of_lt (accepts_step hr.reach hs) hids
    have hserver := bareServer.reach hr.reach
    have hsame := ih hids'
    cases move_of_step hs with
    | @poll ready _ hpolls hlen hnodup hall =>
      simp only [TcpServer.polls, Bool.and_eq_true, List.isEmpty_iff] at hpolls
      have hready := length_ready_le (TcpServer.life_reach hserver)
        (TcpServer.tables_reach hserver hids') hpolls.1 hnodup hall
      have hopen : s.openConns.length ≤ n := hok
      obtain ⟨⟨k, hk⟩, hle⟩ := hsame
      dsimp only
      split
      · refine ⟨⟨k + 1, by rw [hk, Nat.pow_succ, Nat.mul_assoc]⟩, ?_⟩
        exact Nat.le_trans (by omega) (Nat.le_max_right _ _)
      · exact ⟨⟨k, hk⟩, hle⟩
    | accept _ _ => exact hsame
    | wake _ _ => exact hsame
    | event _ _ => exact hsame
    | swap _ _ => exact hsame
    | server _ _ => exact hsame

/-- Sixteen clients that write at once fill the list. -/
theorem sixteen_clients_double_the_event_list :
    ∃ s, machine.ReachUnder (AtMost 16) s ∧ s.events = 32 ∧ s.events ≤ 36 := by
  have hrun : ∃ s, machine.ReachUnder (AtMost 16) s ∧ (s.events = 32 ∧ s.server.accepts = 16) :=
    Machine.ReachUnder.of_run (((List.range 16).flatMap fun fd =>
      [.poll [(.listener, EPOLLIN)], .accept (some fd), .server .returns, .swap]) ++
      [.poll ((List.range 16).map fun fd => (.socket fd, EPOLLIN))]) (by decide +kernel)
  obtain ⟨s, hs, hevents, haccepts⟩ := hrun
  exact ⟨s, hs, hevents,
    (the_event_list_follows_the_open_connections hs (by rw [haccepts]; decide)).2⟩

end PolledServer

end rpc.net
