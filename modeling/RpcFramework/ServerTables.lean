-- The three tables. The server keeps the connections that it has not closed,
-- the poller maps file descriptors to channels, and the kernel has an interest
-- list. A close that is run again adds the channel to the last two once more,
-- and takes it out before the loop goes on.
import RpcFramework.ServerLife

namespace rpc.net.TcpServer

open runs codec

variable {s s' : TcpServer} {c d : Nat}

/-! ## The invariants -/

/-- The poller and the kernel have the living objects as their phases say, each under its own
file descriptor, and nothing else. -/
structure Watched (s : TcpServer) : Prop where
  fds : ∀ c d, (s.conns c).alive = true → (s.conns d).alive = true →
    (s.conns c).channel.fd = (s.conns d).channel.fd → c = d
  status : ∀ c, (s.conns c).alive = true →
    Registered s.poller c (s.conns c).channel (s.phase c)
  owned : ∀ fd c, s.poller.Names fd c → (s.conns c).alive = true ∧ (s.conns c).channel.fd = fd

/-- The server has the connections that are not closed, each under its own id. -/
structure Listed (s : TcpServer) : Prop where
  entries : ∀ id c, s.connections id = some c →
    (s.conns c).alive = true ∧ (s.conns c).connId = id ∧ s.phase c ≠ .gone
  opened : ∀ c, c < s.accepts → s.phase c = .opened →
    (s.conns c).alive = true ∧ s.connections (s.conns c).connId = some c
  ids : ∀ c, c < s.accepts → (s.conns c).connId = UInt64.ofNat (c + 1)
  nextId : s.nextConnId = UInt64.ofNat (s.accepts + 1)

structure Tables (s : TcpServer) : Prop where
  watched : Watched s
  listed : Listed s

/-- The table of the server is as before, and so are the phases. -/
structure SameList (s s' : TcpServer) : Prop where
  accepts : s'.accepts = s.accepts
  nextConnId : s'.nextConnId = s.nextConnId
  connections : s'.connections = s.connections
  alive : ∀ c, (s'.conns c).alive = (s.conns c).alive
  connId : ∀ c, (s'.conns c).connId = (s.conns c).connId
  phase : ∀ c, s'.phase c = s.phase c

/-- The poller and the channels are as before too. -/
structure SameTables (s s' : TcpServer) : Prop extends SameList s s' where
  poller : s'.poller = s.poller
  channel : ∀ c, (s'.conns c).channel = (s.conns c).channel

theorem Watched.same (h : Watched s) (hs : SameTables s s') : Watched s' := by
  constructor
  case fds =>
    intro c d
    rw [hs.alive, hs.alive, hs.channel, hs.channel]
    exact h.fds c d
  case status =>
    intro c
    rw [hs.alive, hs.poller, hs.channel, hs.phase]
    exact h.status c
  case owned =>
    intro fd c
    rw [hs.poller, hs.alive, hs.channel]
    exact h.owned fd c

theorem Listed.same (h : Listed s) (hs : SameList s s') : Listed s' := by
  constructor
  case entries =>
    intro id c
    rw [hs.connections, hs.alive, hs.connId, hs.phase]
    exact h.entries id c
  case opened =>
    intro c
    rw [hs.accepts, hs.connections, hs.alive, hs.connId, hs.phase]
    exact h.opened c
  case ids =>
    intro c
    rw [hs.accepts, hs.connId]
    exact h.ids c
  case nextId =>
    rw [hs.nextConnId, hs.accepts]
    exact h.nextId

theorem SameTables.trans {s'' : TcpServer} (h : SameTables s s') (h' : SameTables s' s'') :
    SameTables s s'' where
  accepts := h'.accepts.trans h.accepts
  nextConnId := h'.nextConnId.trans h.nextConnId
  connections := h'.connections.trans h.connections
  poller := h'.poller.trans h.poller
  alive := fun c => (h'.alive c).trans (h.alive c)
  connId := fun c => (h'.connId c).trans (h.connId c)
  channel := fun c => (h'.channel c).trans (h.channel c)
  phase := fun c => (h'.phase c).trans (h.phase c)

theorem sameTables_modify {f : Connection → Connection}
    (halive : (f (s.conns c)).alive = (s.conns c).alive)
    (hid : (f (s.conns c)).connId = (s.conns c).connId)
    (hchannel : (f (s.conns c)).channel = (s.conns c).channel)
    (hcloses : (f (s.conns c)).closes = (s.conns c).closes) : SameTables s (s.modify c f) where
  accepts := rfl
  nextConnId := rfl
  connections := rfl
  poller := rfl
  alive := modify_keeps (P := fun d k => k.alive = (s.conns d).alive) (fun _ => rfl) halive
  connId := modify_keeps (P := fun d k => k.connId = (s.conns d).connId) (fun _ => rfl) hid
  channel := modify_keeps (P := fun d k => k.channel = (s.conns d).channel) (fun _ => rfl) hchannel
  phase := fun d => phase_congr
    (modify_keeps (P := fun d k => k.closes = (s.conns d).closes) (fun _ => rfl) hcloses d) Iff.rfl

theorem sameTables_deliver (s : TcpServer) (c : Nat) (callback : Callback) :
    SameTables s (s.deliver c callback) :=
  sameTables_modify rfl rfl rfl rfl

/-- The input buffer changes, and something is delivered. -/
theorem sameTables_input (s : TcpServer) (c : Nat) (b : Buffer) (callback : Callback) :
    SameTables s ((s.modify c fun k => { k with inputBuf := b }).deliver c callback) :=
  (sameTables_modify rfl rfl rfl rfl).trans (sameTables_deliver _ _ _)

theorem sameTables_setLoop (s : TcpServer) (l : EventLoop Nat) :
    SameTables s { s with loop := l } :=
  ⟨⟨rfl, rfl, rfl, fun _ => rfl, fun _ => rfl, fun _ => rfl⟩, rfl, fun _ => rfl⟩

/-- A change of the stack that begins and ends no close. -/
theorem sameTables_setStack {ts : List Task}
    (h : ∀ c, Task.closeCb c ∈ ts ↔ Task.closeCb c ∈ s.stack) :
    SameTables s { s with stack := ts } :=
  ⟨⟨rfl, rfl, rfl, fun _ => rfl, fun _ => rfl, fun c => phase_congr rfl (h c)⟩, rfl, fun _ => rfl⟩

theorem sameTables_push {ts : List Task} (h : ∀ c, Task.closeCb c ∉ ts) :
    SameTables s (s.push ts) :=
  sameTables_setStack (by simp [h])

theorem sameTables_pop {t : Task} {rest : List Task} (hs : s.stack = t :: rest)
    (ht : ∀ c, t ≠ .closeCb c) : SameTables s { s with stack := rest } := by
  refine sameTables_setStack ?_
  intro c
  rw [hs, List.mem_cons, or_iff_right (Ne.symm (ht c))]

/-! ## Operations on a channel -/

/-- One channel gets new entries, and a new phase. -/
theorem Watched.update {op : Channel → EpollPoller Nat → Channel × EpollPoller Nat} {ch : Channel}
    (h : Watched s) (hop : Local op) (hpoller : s'.poller = (op ch s.poller).2)
    (hchannel : (s'.conns c).channel = (op ch s.poller).1)
    (hothers : ∀ d, d ≠ c → (s'.conns d).alive = (s.conns d).alive ∧
      (s'.conns d).channel = (s.conns d).channel ∧ s'.phase d = s.phase d)
    (hfd : ∀ d, d ≠ c → (s.conns d).alive = true → (s.conns d).channel.fd ≠ ch.fd)
    (hown : (s.conns c).alive = true → (s.conns c).channel.fd = ch.fd)
    (halive : (s'.conns c).alive = true)
    (hreg : Registered (op ch s.poller).2 c (op ch s.poller).1 (s'.phase c)) : Watched s' := by
  obtain ⟨hkeep, hframe⟩ := hop ch s.poller
  have hself : (s'.conns c).channel.fd = ch.fd := by
    rw [hchannel, hkeep]
  have hne : ∀ d, d ≠ c → (s'.conns d).alive = true → (s'.conns d).channel.fd ≠ ch.fd := by
    intro d hd
    rw [(hothers d hd).1, (hothers d hd).2.1]
    exact hfd d hd
  constructor
  case fds =>
    intro d e hd he heq
    by_cases hdc : d = c
    · by_cases hec : e = c
      · rw [hdc, hec]
      · rw [hdc, hself] at heq
        exact absurd heq.symm (hne e hec he)
    · by_cases hec : e = c
      · rw [hec, hself] at heq
        exact absurd heq (hne d hdc hd)
      · obtain ⟨hd1, hd2, -⟩ := hothers d hdc
        obtain ⟨he1, he2, -⟩ := hothers e hec
        rw [hd1] at hd
        rw [he1] at he
        rw [hd2, he2] at heq
        exact h.fds d e hd he heq
  case status =>
    intro d hd
    by_cases hdc : d = c
    · rw [hdc, hpoller, hchannel]
      exact hreg
    · have hdfd := hne d hdc hd
      obtain ⟨hd1, hd2, hd3⟩ := hothers d hdc
      rw [hd1] at hd
      rw [hd2] at hdfd ⊢
      rw [hpoller, hd3]
      exact (h.status d hd).of_eq (hframe _ hdfd).1 (hframe _ hdfd).2
  case owned =>
    intro fd d hd
    rw [hpoller] at hd
    by_cases hfdc : fd = ch.fd
    · subst hfdc
      rw [← hkeep] at hd
      obtain ⟨rfl, -⟩ := hreg.names hd
      exact ⟨halive, hself⟩
    · -- an entry at another descriptor is not the channel's own
      unfold EpollPoller.Names at hd
      rw [(hframe fd hfdc).1, (hframe fd hfdc).2] at hd
      obtain ⟨hlive, hat⟩ := h.owned fd d hd
      have hdc : d ≠ c := by
        rintro rfl
        exact hfdc (hat.symm.trans (hown hlive))
      obtain ⟨hd1, hd2, -⟩ := hothers d hdc
      rw [hd1, hd2]
      exact ⟨hlive, hat⟩

/-- An operation on the channel of a living object. -/
theorem Watched.update_living {op : Channel → EpollPoller Nat → Channel × EpollPoller Nat}
    (h : Watched s) (hc : (s.conns c).alive = true) (hop : Local op)
    (hpoller : s'.poller = (op (s.conns c).channel s.poller).2)
    (hchannel : (s'.conns c).channel = (op (s.conns c).channel s.poller).1)
    (hothers : ∀ d, d ≠ c → (s'.conns d).alive = (s.conns d).alive ∧
      (s'.conns d).channel = (s.conns d).channel ∧ s'.phase d = s.phase d)
    (halive : (s'.conns c).alive = true)
    (hreg : Registered (op (s.conns c).channel s.poller).2 c (op (s.conns c).channel s.poller).1
      (s'.phase c)) : Watched s' := by
  refine h.update hop hpoller hchannel hothers ?_ (fun _ => rfl) halive hreg
  intro d hd hlive heq
  exact hd (h.fds d c hlive hc heq)

theorem onChannel_conns_ne (s : TcpServer)
    (op : Channel → EpollPoller Nat → Channel × EpollPoller Nat) (h : d ≠ c) :
    (s.onChannel c op).conns d = s.conns d :=
  Function.update_of_ne h ..

theorem onChannel_conns_self (s : TcpServer) (c : Nat)
    (op : Channel → EpollPoller Nat → Channel × EpollPoller Nat) :
    (s.onChannel c op).conns c =
      { s.conns c with channel := (op (s.conns c).channel s.poller).1 } :=
  Function.update_self ..

theorem sameList_onChannel (s : TcpServer) (c : Nat)
    (op : Channel → EpollPoller Nat → Channel × EpollPoller Nat) :
    SameList s (s.onChannel c op) := by
  have hkeep : ∀ d, ((s.onChannel c op).conns d).alive = (s.conns d).alive ∧
      ((s.onChannel c op).conns d).connId = (s.conns d).connId ∧
      ((s.onChannel c op).conns d).closes = (s.conns d).closes := by
    intro d
    by_cases hd : d = c
    · rw [hd, onChannel_conns_self]
      exact ⟨rfl, rfl, rfl⟩
    · rw [onChannel_conns_ne s op hd]
      exact ⟨rfl, rfl, rfl⟩
  exact ⟨rfl, rfl, rfl, fun d => (hkeep d).1, fun d => (hkeep d).2.1,
    fun d => phase_congr (hkeep d).2.2 Iff.rfl⟩

theorem Watched.interest {op : Channel → EpollPoller Nat → Channel × EpollPoller Nat}
    (h : Watched s) (hlife : Life s) (hc : (s.conns c).alive = true)
    (hst : (s.conns c).state ≠ .kDisconnected)
    (hop : op = Channel.enableWriting c ∨ op = Channel.disableWriting c) :
    Watched (s.onChannel c op) := by
  have hphase := (sameList_onChannel s c op).phase
  have hopen := h.status c hc
  rw [phase_of_state hlife hst] at hopen
  refine h.update_living hc ?_ rfl ?_ ?_ ?_ ?_
  · rcases hop with rfl | rfl
    · exact Channel.local_enableWriting c
    · exact Channel.local_disableWriting c
  · rw [onChannel_conns_self]
  · intro d hd
    rw [onChannel_conns_ne s op hd]
    exact ⟨rfl, rfl, hphase d⟩
  · rw [onChannel_conns_self]
    exact hc
  · rw [hphase c, phase_of_state hlife hst]
    rcases hop with rfl | rfl
    · exact hopen.enableWriting
    · exact hopen.disableWriting

theorem handleClose_poller (s : TcpServer) (c : Nat) :
    (s.handleClose c).poller = (Channel.disableAll c (s.conns c).channel s.poller).2 := by
  unfold handleClose push deliver onChannel modify
  simp

theorem Watched.handleClose (h : Watched s) (hc : (s.conns c).alive = true)
    (hno : Task.closeCb c ∉ s.stack) : Watched (s.handleClose c) := by
  refine h.update_living hc (Channel.local_disableAll c) (handleClose_poller s c) ?_ ?_ ?_ ?_
  · rw [handleClose_conns_self]
  · intro d hd
    rw [handleClose_conns_ne s hd]
    exact ⟨rfl, rfl, phase_handleClose_ne s hd⟩
  · rw [handleClose_conns_self]
    exact hc
  · rw [phase_handleClose_self]
    exact (h.status c hc).disableAll (phase_ne_leaving hno)

theorem Listed.handleClose (h : Listed s) : Listed (s.handleClose c) := by
  have hid : ∀ d, ((s.handleClose c).conns d).connId = (s.conns d).connId :=
    handleClose_keeps (P := fun d k => k.connId = (s.conns d).connId) (fun _ => rfl)
      (by rw [handleClose_conns_self])
  have hlive : ∀ d, ((s.handleClose c).conns d).alive = (s.conns d).alive :=
    handleClose_keeps (P := fun d k => k.alive = (s.conns d).alive) (fun _ => rfl)
      (by rw [handleClose_conns_self])
  constructor
  case entries =>
    intro id d hd
    rw [hid, hlive]
    obtain ⟨h1, h2, h3⟩ := h.entries id d hd
    refine ⟨h1, h2, ?_⟩
    by_cases hdc : d = c
    · rw [hdc, phase_handleClose_self]
      simp
    · rw [phase_handleClose_ne s hdc]
      exact h3
  case opened =>
    intro d hd hopen
    have hdc : d ≠ c := by
      rintro rfl
      rw [phase_handleClose_self] at hopen
      cases hopen
    rw [phase_handleClose_ne s hdc] at hopen
    rw [hid, hlive]
    exact h.opened d hd hopen
  case ids =>
    intro d hd
    rw [hid]
    exact h.ids d hd
  case nextId => exact h.nextId

/-- Fewer than `2 ^ 64` connections have distinct ids. -/
theorem Listed.id_inj (h : Listed s) (hids : s.accepts < 2 ^ 64) (hc : c < s.accepts)
    (hd : d < s.accepts) (heq : (s.conns c).connId = (s.conns d).connId) : c = d := by
  rw [h.ids c hc, h.ids d hd] at heq
  have hnat := congrArg UInt64.toNat heq
  rw [UInt64.toNat_ofNat', UInt64.toNat_ofNat', Nat.mod_eq_of_lt (by omega),
    Nat.mod_eq_of_lt (by omega)] at hnat
  omega

theorem Watched.ended (h : Watched s) (hc : (s.conns c).alive = true) (he : Ended s c s') :
    Watched s' := by
  refine h.update_living hc (Channel.local_remove c) he.poller ?_ ?_ ?_ ?_
  · rw [he.self]
  · intro d hd
    rw [he.others d hd]
    exact ⟨rfl, rfl, he.phase d hd⟩
  · rw [he.self]
    exact hc
  · have hleaving := h.status c hc
    rw [he.leaving] at hleaving
    rw [he.gone]
    exact hleaving.remove

theorem Listed.ended (h : Listed s) (hids : s.accepts < 2 ^ 64) (hc : c < s.accepts)
    (he : Ended s c s') : Listed s' := by
  have hid : ∀ d, (s'.conns d).connId = (s.conns d).connId := by
    intro d
    by_cases hd : d = c
    · rw [hd, he.self]
    · rw [he.others d hd]
  constructor
  case entries =>
    intro id d hd
    rw [he.connections, Function.update_apply] at hd
    split at hd
    · cases hd
    · rename_i hne
      obtain ⟨h1, h2, h3⟩ := h.entries id d hd
      have hdc : d ≠ c := by
        rintro rfl
        exact hne h2.symm
      rw [hid, he.phase d hdc, he.others d hdc]
      exact ⟨h1, h2, h3⟩
  case opened =>
    intro d hd hopen
    have hdc : d ≠ c := by
      rintro rfl
      rw [he.gone] at hopen
      cases hopen
    rw [he.phase d hdc] at hopen
    rw [he.accepts] at hd
    obtain ⟨h1, h2⟩ := h.opened d hd hopen
    have hne : (s.conns d).connId ≠ (s.conns c).connId :=
      fun heq => hdc (h.id_inj hids hd hc heq)
    rw [hid, he.others d hdc, he.connections, Function.update_of_ne hne]
    exact ⟨h1, h2⟩
  case ids =>
    intro d hd
    rw [hid]
    exact h.ids d (he.accepts ▸ hd)
  case nextId =>
    rw [he.nextConnId, he.accepts]
    exact h.nextId

/-! ## Accepting and destroying -/

theorem newConnection_poller (s : TcpServer) (fd : Nat) : (s.newConnection fd).poller =
    (Channel.enableReading s.accepts (Channel.new fd) s.poller).2 := by
  unfold newConnection connectionEstablished push deliver onChannel modify
  simp

/-- No table has a file descriptor that the kernel may return. -/
theorem Watched.fresh (hw : Watched s) (h : Life s) {fd : Nat} (hfresh : s.Fresh fd) :
    s.poller.channels fd = none ∧ s.poller.interest fd = none := by
  have hno : ∀ d, ¬ s.poller.Names fd d := by
    intro d hd
    obtain ⟨hlive, hat⟩ := hw.owned fd d hd
    exact hfresh d (h.lt_accepts hlive) hlive hat
  constructor
  · cases hch : s.poller.channels fd with
    | none => rfl
    | some d => exact absurd (Or.inl hch) (hno d)
  · cases hint : s.poller.interest fd with
    | none => rfl
    | some e => exact absurd (Or.inr ⟨e.1, hint⟩) (hno e.2)

theorem Watched.newConnection {fd : Nat} (hw : Watched s) (h : Life s) (hfresh : s.Fresh fd) :
    Watched (s.newConnection fd) := by
  have hself := newConnection_conns_self s fd
  obtain ⟨hch, hint⟩ := hw.fresh h hfresh
  refine hw.update (c := s.accepts) (Channel.local_enableReading s.accepts)
    (newConnection_poller s fd) ?_ ?_ ?_ ?_ ?_ ?_
  · rw [hself]
  · intro d hd
    rw [newConnection_conns_ne s fd hd]
    exact ⟨rfl, rfl, phase_newConnection_ne s fd hd⟩
  · intro d _ hlive
    exact hfresh d (h.lt_accepts hlive) hlive
  · intro hlive
    exact absurd (h.lt_accepts hlive) (Nat.lt_irrefl _)
  · rw [hself]
  · rw [phase_newConnection_self]
    exact (Registered.new_channel fd hch hint).enableReading

/-- The next id is not in use yet. -/
theorem Listed.id_ne_next (h : Listed s) (hids : s.accepts + 1 < 2 ^ 64) (hd : d < s.accepts) :
    (s.conns d).connId ≠ s.nextConnId := by
  rw [h.ids d hd, h.nextId]
  intro heq
  have hnat := congrArg UInt64.toNat heq
  rw [UInt64.toNat_ofNat', UInt64.toNat_ofNat', Nat.mod_eq_of_lt (by omega),
    Nat.mod_eq_of_lt (by omega)] at hnat
  omega

theorem Listed.newConnection {fd : Nat} (hl : Listed s) (h : Life s)
    (hids : s.accepts + 1 < 2 ^ 64) : Listed (s.newConnection fd) := by
  have hself := newConnection_conns_self s fd
  have hlist : (s.newConnection fd).connections =
      Function.update s.connections s.nextConnId (some s.accepts) := rfl
  constructor
  case entries =>
    intro id d hd
    rw [hlist, Function.update_apply] at hd
    split at hd
    · rename_i heq
      cases hd
      rw [phase_newConnection_self, hself, heq]
      exact ⟨rfl, rfl, by simp⟩
    · obtain ⟨h1, h2, h3⟩ := hl.entries id d hd
      have hne : d ≠ s.accepts := Nat.ne_of_lt (h.lt_accepts h1)
      rw [newConnection_conns_ne s fd hne, phase_newConnection_ne s fd hne]
      exact ⟨h1, h2, h3⟩
  case opened =>
    intro d hd hopen
    rw [newConnection_accepts] at hd
    rw [hlist]
    by_cases hda : d = s.accepts
    · rw [hda, hself]
      exact ⟨rfl, Function.update_self ..⟩
    · rw [phase_newConnection_ne s fd hda] at hopen
      have hlt : d < s.accepts := by omega
      obtain ⟨h1, h2⟩ := hl.opened d hlt hopen
      rw [newConnection_conns_ne s fd hda, Function.update_of_ne (hl.id_ne_next hids hlt)]
      exact ⟨h1, h2⟩
  case ids =>
    intro d hd
    rw [newConnection_accepts] at hd
    by_cases hda : d = s.accepts
    · rw [hda, hself]
      exact hl.nextId
    · rw [newConnection_conns_ne s fd hda]
      exact hl.ids d (by omega)
  case nextId =>
    change s.nextConnId + 1 = UInt64.ofNat (s.accepts + 1 + 1)
    rw [hl.nextId, UInt64.ofNat_add (s.accepts + 1) 1]
    rfl

theorem destroy_poller (s : TcpServer) (c : Nat) :
    (s.destroy c).poller = s.poller.closeFd (s.conns c).channel.fd := by
  unfold destroy modify
  simp

/-- The last pointer to an object goes only after its close. -/
theorem Listed.gone_of_released (hl : Listed s) (h : Life s) (hc : (s.conns c).alive = true)
    (hrel : s.released c = true) : s.phase c = .gone := by
  obtain ⟨hconn, -, hstack⟩ := released_iff.mp hrel
  have hne : s.phase c ≠ .leaving := phase_ne_leaving fun hin => hstack _ hin rfl
  cases hphase : s.phase c with
  | opened => exact absurd (hl.opened c (h.lt_accepts hc) hphase).2 hconn
  | leaving => exact absurd hphase hne
  | gone => rfl

theorem Watched.destroy (h : Watched s) (hc : (s.conns c).alive = true)
    (hgone : s.phase c = .gone) : Watched (s.destroy c) := by
  have hstatus := h.status c hc
  rw [hgone] at hstatus
  have hpoller : (s.destroy c).poller = s.poller := by
    have hnone : s.poller.interest (s.conns c).channel.fd = none := by
      cases hstatus with
      | gone _ _ _ hint => exact hint
    rw [destroy_poller, EpollPoller.closeFd_of_none hnone]
  have hlive : ∀ d, ((s.destroy c).conns d).alive = true → d ≠ c ∧ (s.conns d).alive = true := by
    intro d hd
    have hne : d ≠ c := by
      rintro rfl
      rw [destroy_conns_self] at hd
      cases hd
    rw [destroy_conns_ne s hne] at hd
    exact ⟨hne, hd⟩
  constructor
  case fds =>
    intro d e hd he
    obtain ⟨hdc, hd⟩ := hlive d hd
    obtain ⟨hec, he⟩ := hlive e he
    rw [destroy_conns_ne s hdc, destroy_conns_ne s hec]
    exact h.fds d e hd he
  case status =>
    intro d hd
    obtain ⟨hdc, hd⟩ := hlive d hd
    rw [hpoller, phase_destroy, destroy_conns_ne s hdc]
    exact h.status d hd
  case owned =>
    intro fd d hd
    rw [hpoller] at hd
    obtain ⟨h1, h2⟩ := h.owned fd d hd
    have hdc : d ≠ c := by
      rintro rfl
      rw [← h2] at hd
      exact (hstatus.names hd).2 rfl
    rw [destroy_conns_ne s hdc]
    exact ⟨h1, h2⟩

theorem Listed.destroy (h : Listed s) (hgone : s.phase c = .gone) : Listed (s.destroy c) := by
  have hid : ∀ d, ((s.destroy c).conns d).connId = (s.conns d).connId := by
    intro d
    by_cases hd : d = c
    · rw [hd, destroy_conns_self]
    · rw [destroy_conns_ne s hd]
  constructor
  case entries =>
    intro id d hd
    obtain ⟨h1, h2, h3⟩ := h.entries id d hd
    have hdc : d ≠ c := by
      rintro rfl
      exact h3 hgone
    rw [phase_destroy, destroy_conns_ne s hdc]
    exact ⟨h1, h2, h3⟩
  case opened =>
    intro d hd hopen
    rw [phase_destroy] at hopen
    have hdc : d ≠ c := by
      rintro rfl
      rw [hgone] at hopen
      cases hopen
    rw [destroy_conns_ne s hdc]
    exact h.opened d hd hopen
  case ids =>
    intro d hd
    rw [hid]
    exact h.ids d hd
  case nextId => exact h.nextId

/-! ## Runs -/

theorem Watched.calm (hw : Watched s) (h : Life s) (hcalm : Calm s s') : Watched s' := by
  induction hcalm with
  | refl => exact hw
  | modify _ _ hf ih => exact ih.same (sameTables_modify hf.alive hf.connId hf.channel hf.closes)
  | interest hcalm hc hst hop ih => exact ih.interest (h.calm hcalm) hc hst hop
  | push _ ht _ _ ih => exact ih.same (sameTables_push (by simpa using fun c => (ht.2.1 c).symm))

theorem Listed.calm (hl : Listed s) (hcalm : Calm s s') : Listed s' := by
  induction hcalm with
  | refl => exact hl
  | modify _ _ hf ih =>
    exact ih.same (sameTables_modify hf.alive hf.connId hf.channel hf.closes).toSameList
  | interest _ _ _ _ ih => exact ih.same (sameList_onChannel _ _ _)
  | push _ ht _ _ ih =>
    exact ih.same (sameTables_push (by simpa using fun c => (ht.2.1 c).symm)).toSameList

theorem sameTables_forceClose (s : TcpServer) (c : Nat) : SameTables s (s.forceClose c) := by
  unfold TcpServer.forceClose
  split
  · exact (sameTables_modify rfl rfl rfl rfl).trans (sameTables_setLoop _ _)
  · exact sameTables_setLoop s s.loop

theorem sameTables_onMessage (s : TcpServer) (c : Nat) : SameTables s (s.onMessage c) := by
  unfold TcpServer.onMessage
  split
  · exact sameTables_setLoop s s.loop
  · exact sameTables_push (by simp)
  · exact (sameTables_input s c _ _).trans (sameTables_push (by simp))

theorem Tables.same (h : Tables s) (hs : SameTables s s') : Tables s' :=
  ⟨h.watched.same hs, h.listed.same hs.toSameList⟩

theorem Tables.calm (h : Tables s) (hlife : Life s) (hcalm : Calm s s') : Tables s' :=
  ⟨h.watched.calm hlife hcalm, h.listed.calm hcalm⟩

theorem Tables.handleClose (h : Tables s) (hc : (s.conns c).alive = true)
    (hno : Task.closeCb c ∉ s.stack) : Tables (s.handleClose c) :=
  ⟨h.watched.handleClose hc hno, h.listed.handleClose⟩

theorem Tables.handleRead (h : Tables s) (hc : (s.conns c).alive = true)
    (hno : Task.closeCb c ∉ s.stack) (r : Option Bytes) : Tables (s.handleRead c r) := by
  unfold TcpServer.handleRead
  split
  · exact h.handleClose hc hno
  · exact h.handleClose hc hno
  · exact h.same ((sameTables_input s c _ _).trans (sameTables_push (by simp)))

theorem tables_move {a : Act} (h : Life s) (ht : Tables s) (hids : s'.accepts < 2 ^ 64)
    (hm : Move s a s') : Tables s' := by
  cases hm with
  | calm _ hcalm => exact ht.calm h hcalm
  | popped hs hno hcalm => exact (ht.same (sameTables_pop hs hno)).calm (h.pop hs) hcalm
  | accept _ hfresh =>
    exact ⟨ht.watched.newConnection h hfresh, ht.listed.newConnection h hids⟩
  | event _ _ =>
    refine ht.same (sameTables_push ?_)
    intro d hd
    exact absurd (branches_conn hd).1 (by simp [Task.isBranch])
  | swap _ => exact ht.same (sameTables_setLoop s _)
  | functor hidle hl =>
    refine (ht.same (sameTables_setLoop s _)).handleClose ?_ ?_
    · apply h.functors
      rw [EventLoop.queued_next hl]
      exact List.mem_cons_self
    · simp [hidle]
  | failedQueuedSend _ hc hfails => exact ht.handleClose hc (h.not_closing_of_state hfails.1)
  | failedSend _ hc _ hfails => exact ht.handleClose hc (h.not_closing_of_state hfails.1)
  | forceClose _ _ => exact ht.same (sameTables_forceClose s _)
  | read hs =>
    exact (ht.same (sameTables_pop hs (by simp))).handleRead (h.alive_head hs rfl)
      (h.not_closing hs rfl) _
  | branch hs hb =>
    rcases hb with rfl | rfl <;>
      exact (ht.same (sameTables_pop hs (by simp))).handleClose (h.alive_head hs rfl)
        (h.not_closing hs rfl)
  | closeCb hs =>
    have hended := ended_of_closeCb h hs
    have hc := h.alive_head hs rfl
    rw [hended.accepts] at hids
    exact ⟨ht.watched.ended hc hended, ht.listed.ended hids (h.lt_accepts hc) hended⟩
  | codecError hs =>
    exact (ht.same (sameTables_pop hs (by simp))).same (sameTables_forceClose _ _)
  | onMessage hs =>
    exact (ht.same (sameTables_pop hs (by simp))).same (sameTables_onMessage _ _)
  | destroy hc hrel =>
    have hgone := ht.listed.gone_of_released h hc hrel
    exact ⟨ht.watched.destroy hc hgone, ht.listed.destroy hgone⟩

theorem Calm.accepts (hcalm : Calm s s') : s'.accepts = s.accepts := by
  induction hcalm with
  | refl => rfl
  | modify _ _ _ ih => exact ih
  | interest _ _ _ _ ih => exact ih
  | push _ _ _ _ ih => exact ih

theorem accepts_move {a : Act} (h : Life s) (hm : Move s a s') : s.accepts ≤ s'.accepts := by
  cases hm with
  | calm _ hcalm => exact Nat.le_of_eq hcalm.accepts.symm
  | popped _ _ hcalm => exact Nat.le_of_eq hcalm.accepts.symm
  | accept _ _ => exact Nat.le_succ _
  | forceClose _ _ => exact Nat.le_of_eq (sameTables_forceClose s _).accepts.symm
  | @codecError c rest _ =>
    exact Nat.le_of_eq (sameTables_forceClose { s with stack := rest } c).accepts.symm
  | @onMessage c rest _ =>
    exact Nat.le_of_eq (sameTables_onMessage { s with stack := rest } c).accepts.symm
  | closeCb hs => exact Nat.le_of_eq (ended_of_closeCb h hs).accepts.symm
  | read hs =>
    unfold TcpServer.handleRead
    split <;> exact Nat.le_refl _
  | event _ _ => exact Nat.le_refl _
  | swap _ => exact Nat.le_refl _
  | functor _ _ => exact Nat.le_refl _
  | failedQueuedSend _ _ _ => exact Nat.le_refl _
  | failedSend _ _ _ _ => exact Nat.le_refl _
  | branch _ _ => exact Nat.le_refl _
  | destroy _ _ => exact Nat.le_refl _

theorem Tables.new_tables : Tables new where
  watched :=
    { fds := by simp [new, Connection.blank]
      status := by simp [new, Connection.blank]
      owned := by simp [new, EpollPoller.new, EpollPoller.Names] }
  listed :=
    { entries := by simp [new]
      opened := by simp [new]
      ids := by simp [new]
      nextId := rfl }

theorem tables_reach (h : machine.Reach s) (hids : s.accepts < 2 ^ 64) : Tables s := by
  refine Machine.Reach.invariant (I := fun s => s.accepts < 2 ^ 64 → Tables s)
    (fun _ => Tables.new_tables) ?_ h hids
  intro s a s' hr ih hs hids
  have hlife := life_reach hr
  have hmove := move_of_step hlife hs
  exact tables_move hlife (ih (Nat.lt_of_le_of_lt (accepts_move hlife hmove) hids)) hids hmove

/-- The loop is between two callbacks of its channels: no handler has begun and not ended. -/
def Between (s : TcpServer) : Prop := ∀ t ∈ s.stack, t.isBranch = true

instance (s : TcpServer) : Decidable s.Between := inferInstanceAs (Decidable (∀ t ∈ s.stack, _))

theorem Between.phase (hb : s.Between) (hc : 0 < (s.conns c).closes) : s.phase c = .gone := by
  unfold TcpServer.phase
  rw [if_neg (by omega), if_neg]
  intro hin
  exact absurd (hb _ hin) (by simp [Task.isBranch])

/-- Between two callbacks the table of the server, the poller and the kernel agree: they have
the connections that `handle_close` was not run on, and none of the others. Ids never
repeat. -/
theorem the_three_tables_agree (h : machine.Reach s) (hids : s.accepts < 2 ^ 64) :
    (∀ c d, c < s.accepts → d < s.accepts → (s.conns c).connId = (s.conns d).connId → c = d) ∧
    (s.Between →
      (∀ id c, s.connections id = some c ↔
        c < s.accepts ∧ (s.conns c).connId = id ∧ (s.conns c).closes = 0) ∧
      (∀ c, c < s.accepts → (s.conns c).closes = 0 →
        s.poller.channels (s.conns c).channel.fd = some c ∧
        ∃ events, s.poller.interest (s.conns c).channel.fd = some (events, c) ∧
          events &&& kReadEvent = kReadEvent) ∧
      ∀ c, 0 < (s.conns c).closes →
        (∀ fd, s.poller.channels fd ≠ some c) ∧
        (∀ fd events, s.poller.interest fd ≠ some (events, c)) ∧
        ((s.conns c).alive = true → s.poller.channels (s.conns c).channel.fd = none ∧
          s.poller.interest (s.conns c).channel.fd = none)) := by
  have hlife := life_reach h
  obtain ⟨hw, hl⟩ := tables_reach h hids
  refine ⟨fun c d hc hd heq => hl.id_inj hids hc hd heq, ?_⟩
  intro hb
  refine ⟨?_, ?_, ?_⟩
  · intro id c
    constructor
    · intro hin
      obtain ⟨hlive, hid, hphase⟩ := hl.entries id c hin
      refine ⟨hlife.lt_accepts hlive, hid, ?_⟩
      by_contra hclosed
      exact hphase (hb.phase (by omega))
    · rintro ⟨hc, rfl, hzero⟩
      exact (hl.opened c hc (phase_eq_opened.mpr hzero)).2
  · intro c hc hzero
    have hopen := phase_eq_opened.mpr hzero
    have hstatus := hw.status c (hl.opened c hc hopen).1
    rw [hopen] at hstatus
    cases hstatus with
    | opened _ hread hch hint => exact ⟨hch, _, hint, hread⟩
  · intro c hclosed
    have hno : ∀ fd, ¬ s.poller.Names fd c := by
      intro fd hname
      obtain ⟨hlive, rfl⟩ := hw.owned fd c hname
      exact ((hw.status c hlive).names hname).2 (hb.phase hclosed)
    refine ⟨fun fd hch => hno fd (Or.inl hch), fun fd e hint => hno fd (Or.inr ⟨e, hint⟩), ?_⟩
    intro hlive
    have hstatus := hw.status c hlive
    rw [hb.phase hclosed] at hstatus
    cases hstatus with
    | gone _ _ hch hint => exact ⟨hch, hint⟩

/-- Two clients connect. The first connection hangs up with an error, so it is closed twice in
one event; the second is still in every table. -/
theorem the_tables_agree_after_a_double_close :
    ∃ s, machine.Reach s ∧ (s.conns 0).closes = 2 ∧ (∀ fd, s.poller.channels fd ≠ some 0) ∧
      s.connections 2 = some 1 ∧ s.poller.channels (s.conns 1).channel.fd = some 1 := by
  have hrun : ∃ s, machine.Reach s ∧ (s.accepts = 2 ∧ s.Between ∧ (s.conns 0).closes = 2 ∧
      (s.conns 1).closes = 0 ∧ (s.conns 1).connId = 2) :=
    Machine.ReachUnder.of_run [.accept (some 5), .returns, .accept (some 6), .returns,
      .event 0 (EPOLLHUP ||| EPOLLERR), .resume, .returns, .resume, .resume, .returns, .resume]
      (by decide +kernel)
  obtain ⟨s, hs, haccepts, hb, hclosed, hzero, hid⟩ := hrun
  obtain ⟨-, hagree⟩ := the_three_tables_agree hs (by rw [haccepts]; decide)
  obtain ⟨hlist, hopen, hgone⟩ := hagree hb
  refine ⟨s, hs, hclosed, (hgone 0 (by omega)).1, ?_, ?_⟩
  · exact (hlist 2 1).mpr ⟨by omega, hid, hzero⟩
  · exact (hopen 1 (by omega) hzero).1

end rpc.net.TcpServer
