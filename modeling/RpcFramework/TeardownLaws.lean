-- What the destructor of the server leaves behind, and whom it tells. A connection that is open is
-- told that it is closed, unless somebody has asked for its shutdown before.
import RpcFramework.ServerTeardown

namespace rpc.net.Teardown

open runs

variable {start u u' : TcpServer} {s s' : Teardown} {c d : Nat}

/-! ## Whom the destructor tells -/

/-- What a connection was told since the destructor has begun: nothing, that it is closed, or also
that `close_cb_` was called. -/
inductive Told (start u : TcpServer) (c : Nat) : Prop
  | nothing : (u.conns c).trace = (start.conns c).trace →
      ((u.conns c).state = (start.conns c).state ∨
        (start.conns c).state = .kConnected ∧ (u.conns c).state = .kDisconnecting) →
      Task.closeCb c ∉ u.stack → Told start u c
  | disconnected : (start.conns c).state = .kConnected → (u.conns c).state = .kDisconnected →
      (u.conns c).trace = (start.conns c).trace ++ [.connection false] → Told start u c
  | closed : (start.conns c).state = .kConnected → (u.conns c).state = .kDisconnected →
      (u.conns c).trace = (start.conns c).trace ++ [.connection false, .close] →
      Task.closeCb c ∉ u.stack → Told start u c

/-- Nobody is told anything, no state changes and no close begins. -/
structure Quiet (u u' : TcpServer) : Prop where
  state : ∀ c, (u'.conns c).state = (u.conns c).state
  trace : ∀ c, (u'.conns c).trace = (u.conns c).trace
  stack : ∀ c, Task.closeCb c ∈ u'.stack → Task.closeCb c ∈ u.stack

theorem Quiet.refl (u : TcpServer) : Quiet u u := ⟨fun _ => rfl, fun _ => rfl, fun _ => id⟩

theorem Quiet.trans {u'' : TcpServer} (h : Quiet u u') (h' : Quiet u' u'') : Quiet u u'' where
  state c := (h'.state c).trans (h.state c)
  trace c := (h'.trace c).trans (h.trace c)
  stack c hc := h.stack c (h'.stack c hc)

theorem quiet_modify {f : Connection → Connection} (hstate : (f (u.conns c)).state = (u.conns c).state)
    (htrace : (f (u.conns c)).trace = (u.conns c).trace) : Quiet u (u.modify c f) where
  state := TcpServer.modify_keeps (P := fun d k => k.state = (u.conns d).state) (fun _ => rfl) hstate
  trace := TcpServer.modify_keeps (P := fun d k => k.trace = (u.conns d).trace) (fun _ => rfl) htrace
  stack _ := id

theorem quiet_onChannel (u : TcpServer) (c : Nat)
    (op : Channel → EpollPoller Nat → Channel × EpollPoller Nat) : Quiet u (u.onChannel c op) := by
  have hm := quiet_modify (u := u) (c := c)
    (f := fun k => { k with channel := (op (u.conns c).channel u.poller).1 }) rfl rfl
  exact ⟨hm.state, hm.trace, hm.stack⟩

theorem quiet_pop {task : Task} {rest : List Task} (hst : u.stack = task :: rest) :
    Quiet u { u with stack := rest } := by
  refine ⟨fun _ => rfl, fun _ => rfl, ?_⟩
  intro c hc
  rw [hst]
  exact List.mem_cons_of_mem _ hc

theorem quiet_shutdownInLoop (u : TcpServer) (c : Nat) : Quiet u (u.shutdownInLoop c) := by
  unfold TcpServer.shutdownInLoop
  split
  · exact .refl u
  · exact quiet_modify rfl rfl

theorem quiet_bufferRest (u : TcpServer) (c : Nat) (rest : Bytes) :
    Quiet u (u.bufferRest c rest) := by
  unfold TcpServer.bufferRest
  dsimp only
  split
  · exact quiet_modify rfl rfl
  · exact (quiet_modify rfl rfl).trans (quiet_onChannel _ _ _)

/-- A send is quiet, or it fails and closes. -/
theorem quiet_send (u : TcpServer) (c : Nat) (data : Bytes) (r : WriteResult) :
    Quiet u (u.send c data r) ∨
      (u.conns c).state = .kConnected ∧ u.send c data r = u.handleClose c := by
  unfold TcpServer.send
  split
  · exact Or.inl (.refl u)
  rename_i hst
  unfold TcpServer.sendInLoop
  split
  · exact Or.inl (.refl u)
  split
  · cases r with
    | error => exact Or.inr ⟨not_not.mp hst, rfl⟩
    | wouldBlock => exact Or.inl (quiet_bufferRest u c data)
    | count n =>
      left
      dsimp only
      split
      · exact ⟨fun _ => rfl, fun _ => rfl, by simp [TcpServer.push]⟩
      · exact quiet_bufferRest u c _
  · exact Or.inl (quiet_bufferRest u c data)

namespace Told

theorem keep (h : Told start u c) (hstate : (u'.conns c).state = (u.conns c).state)
    (htrace : (u'.conns c).trace = (u.conns c).trace)
    (hstack : Task.closeCb c ∈ u'.stack → Task.closeCb c ∈ u.stack) : Told start u' c := by
  cases h with
  | nothing ht hs hno => exact .nothing (htrace.trans ht) (by rw [hstate]; exact hs) (mt hstack hno)
  | disconnected hwas hs ht => exact .disconnected hwas (hstate.trans hs) (htrace.trans ht)
  | closed hwas hs ht hno =>
    exact .closed hwas (hstate.trans hs) (htrace.trans ht) (mt hstack hno)

theorem quiet (h : Told start u c) (hq : Quiet u u') : Told start u' c :=
  h.keep (hq.state c) (hq.trace c) (hq.stack c)

/-- A connection that is connected was told nothing, and was connected at the start. -/
theorem of_connected (h : Told start u c) (hst : (u.conns c).state = .kConnected) :
    (start.conns c).state = .kConnected ∧ (u.conns c).trace = (start.conns c).trace ∧
      Task.closeCb c ∉ u.stack := by
  cases h with
  | nothing htrace hstate hno =>
    rcases hstate with hsame | ⟨hwas, -⟩
    · exact ⟨hsame.symm.trans hst, htrace, hno⟩
    · exact ⟨hwas, htrace, hno⟩
  | disconnected _ hstate _ => simp [hstate] at hst
  | closed _ hstate _ _ => simp [hstate] at hst

/-- The connection itself is told that it is closed. -/
theorem disconnect (h : Told start u c) (hst : (u.conns c).state = .kConnected)
    (hstate : (u'.conns c).state = .kDisconnected)
    (htrace : (u'.conns c).trace = (u.conns c).trace ++ [.connection false]) :
    Told start u' c := by
  obtain ⟨hwas, hsame, -⟩ := h.of_connected hst
  exact .disconnected hwas hstate (by rw [htrace, hsame])

theorem handleClose (h : Told start u c) (hst : (u.conns d).state = .kConnected) :
    Told start (u.handleClose d) c := by
  by_cases hcd : c = d
  · subst hcd
    apply h.disconnect hst <;> rw [TcpServer.handleClose_conns_self]
  · have hne := TcpServer.handleClose_conns_ne u hcd
    exact h.keep (by rw [hne]) (by rw [hne]) (by simp [hcd])

/-- A connection is asked to shut down, or to close. -/
theorem ask (h : Told start u c)
    (hst : (u.conns d).state = .kConnected ∨ (u.conns d).state = .kDisconnecting) :
    Told start (u.modify d fun k => { k with state := .kDisconnecting }) c := by
  by_cases hcd : c = d
  · subst hcd
    have hself := TcpServer.conns_modify_self u c fun k => { k with state := .kDisconnecting }
    cases h with
    | nothing htrace hstate hno =>
      refine .nothing (by rw [hself]; exact htrace) ?_ hno
      rw [hself]
      rcases hstate with hsame | ⟨hwas, -⟩
      · rcases hst with hst | hst
        · exact Or.inr ⟨hsame.symm.trans hst, rfl⟩
        · exact Or.inl (hst.symm.trans hsame)
      · exact Or.inr ⟨hwas, rfl⟩
    | disconnected _ hstate _ => simp [hstate] at hst
    | closed _ hstate _ _ => simp [hstate] at hst
  · have hne := TcpServer.conns_modify_ne u (fun k => { k with state := .kDisconnecting }) hcd
    exact h.keep (by rw [hne]) (by rw [hne]) id

/-- The end of a close. -/
theorem closeCb {rest : List Task} (h : Told start u c) (hst : u.stack = .closeCb d :: rest)
    (honce : Task.closeCb d ∉ rest) (hclosed : (u.conns d).state = .kDisconnected) :
    Told start ((TcpServer.deliver { u with stack := rest } d .close).removeConnection d) c := by
  have hr := Shadow.removed (s := { u with stack := rest }) (c := d) hclosed
  have hmem : Task.closeCb d ∈ u.stack := hst ▸ List.mem_cons_self
  by_cases hcd : c = d
  · subst hcd
    cases h with
    | nothing _ _ hno => exact absurd hmem hno
    | closed _ _ _ hno => exact absurd hmem hno
    | disconnected hwas hstate htrace =>
      refine .closed hwas (by rw [hr.self]; exact hstate) ?_ (by rw [hr.stack]; exact honce)
      rw [hr.self]
      dsimp only
      rw [htrace, List.append_assoc]
      rfl
  · have hne := hr.others c hcd
    refine h.keep (by rw [hne]) (by rw [hne]) ?_
    rw [hr.stack, hst]
    exact List.mem_cons_of_mem _

end Told

theorem told_move {t : TcpServer} {a : Act} (h : Told start s.server c) (hm : Move s a s')
    (hshadow : Shadow s.visited s.server t) (hlife : TcpServer.Life t) :
    Told start s'.server c := by
  cases hm with
  | @next d hidle _ _ =>
    by_cases hst : (s.server.conns d).state = .kConnected
    · obtain ⟨hself, hothers, -, hstack, -⟩ := Shadow.destroyed_connected hst
      by_cases hcd : c = d
      · subst hcd
        apply h.disconnect hst <;> rw [hself]
      · exact h.keep (by rw [hothers c hcd]) (by rw [hothers c hcd]) (by simp [hstack])
    · dsimp only
      unfold TcpServer.connectionDestroyed
      rw [if_neg hst]
      exact h.quiet (quiet_onChannel _ _ _)
  | @send d data r _ _ _ =>
    dsimp only
    rcases quiet_send s.server d data r with hquiet | ⟨hst, heq⟩
    · exact h.quiet hquiet
    · rw [heq]
      exact h.handleClose hst
  | @shutdown d _ _ =>
    dsimp only
    unfold TcpServer.shutdown
    split
    · exact (h.ask (Or.inl ‹_›)).quiet (quiet_shutdownInLoop _ _)
    · exact h
  | @forceClose d _ _ =>
    dsimp only
    unfold TcpServer.forceClose
    split
    · have hask := h.ask ‹_›
      exact hask.keep rfl rfl id
    · exact h
  | returns hst => exact h.quiet (quiet_pop hst)
  | @closeCb d rest hst hd =>
    have htst : t.stack = .closeCb d :: rest.map closing := by
      rw [hshadow.stack, hst]
      rfl
    have hmem : Task.closeCb d ∈ t.stack := htst ▸ List.mem_cons_self
    have hclosed := (hlife.disconnected d).mpr (hlife.closing d hmem)
    rw [hshadow.others d hd] at hclosed
    refine h.closeCb hst ?_ hclosed
    intro hin
    have hord := hlife.ordered
    rw [htst, List.pairwise_cons] at hord
    exact (hord.1 _ (List.mem_map_of_mem hin)).2 d rfl rfl
  | @removeChannel d rest hst _ =>
    exact h.quiet ((quiet_pop hst).trans (quiet_onChannel _ _ _))
  | @destroy d _ _ =>
    have hq := quiet_modify (u := s.server) (c := d) (f := fun k => { k with alive := false }) rfl rfl
    exact h.keep (hq.state c) (hq.trace c) id

theorem told_reach (hstart : TcpServer.machine.Reach start) (hids : start.accepts < 2 ^ 64)
    (hpolls : start.polls = true) (h : (machine start).Reach s) (c : Nat) :
    Told start s.server c := by
  refine h.invariant (I := fun s => ∀ c, Told start s.server c) ?_ ?_ c
  · simp only [TcpServer.polls, Bool.and_eq_true, List.isEmpty_iff] at hpolls
    exact fun c => .nothing rfl (Or.inl rfl) (by simp [machine, hpolls.1])
  · intro s a s' hr htold hs c
    obtain ⟨t, ht, -, hshadow⟩ := shadow_reach hstart hpolls hids hr
    exact told_move (htold c) (move_of_step hshadow.tasks hs) hshadow (TcpServer.life_reach ht)

/-! ## The law -/

/-- Nothing of a server is left when the table of its connections is empty. -/
theorem no_names {t : TcpServer} (hlife : TcpServer.Life t) (htab : TcpServer.Tables t)
    (hidle : t.stack = []) (hempty : ∀ c < t.accepts, t.connections (t.conns c).connId ≠ some c)
    (fd c : Nat) : ¬ t.poller.Names fd c := by
  intro hnames
  obtain ⟨hlive, rfl⟩ := htab.watched.owned fd c hnames
  have hborn := hlife.lt_accepts hlive
  have hphase : t.phase c = .gone := by
    by_cases hzero : (t.conns c).closes = 0
    · exact absurd (htab.listed.opened c hborn (TcpServer.phase_eq_opened.mpr hzero)).2
        (hempty c hborn)
    · exact TcpServer.Between.phase (by simp [TcpServer.Between, hidle]) (by omega)
  exact ((htab.watched.status c hlive).names hnames).2 hphase

/-- The destructor of the server leaves no channel of a connection in the poller or in the kernel,
whatever the order of the table and whatever the callbacks of the user send, shut down or close
meanwhile, and the entry that its loop stands at is never erased. Each connection that was
connected is told once that it is closed, but for those that a shutdown was asked for and not
finished: those are told nothing. -/
theorem the_destructor_leaves_no_channel (hstart : TcpServer.machine.Reach start)
    (hids : start.accepts < 2 ^ 64) (hpolls : start.polls = true) (h : (machine start).Reach s) :
    (∀ c ∈ s.visited, s.server.connections (s.server.conns c).connId = some c) ∧
    (s.Done →
      (∀ fd, s.server.poller.channels fd = none ∧ s.server.poller.interest fd = none) ∧
      ∀ c, (s.server.conns c).state ≠ .kConnected ∧
        ((s.server.conns c).trace = (start.conns c).trace ∧
            ((start.conns c).state = .kConnected → (s.server.conns c).state = .kDisconnecting) ∨
          (start.conns c).state = .kConnected ∧ ∃ rest, (rest = [] ∨ rest = [.close]) ∧
            (s.server.conns c).trace =
              (start.conns c).trace ++ .connection false :: rest)) := by
  obtain ⟨t, hr, ht, hshadow⟩ := shadow_reach hstart hpolls hids h
  have hlife := TcpServer.life_reach hr
  have htab := TcpServer.tables_reach hr ht
  refine ⟨fun c hc => (hshadow.held c hc).2, ?_⟩
  rintro ⟨hidle, hall⟩
  have htidle : t.stack = [] := by
    rw [hshadow.stack, hidle]
    rfl
  -- whoever is in a table of the clients is open, and was come to
  have hclosed : ∀ c < t.accepts, t.phase c ≠ .opened := by
    intro c hc hopen
    have hin := (htab.listed.opened c hc hopen).2
    rw [(hshadow.same_fields c).1] at hin
    have hvisited := hall c (hshadow.accepts ▸ hc) (hshadow.entries _ c hin)
    have hpos := (hlife.disconnected c).mp (hshadow.retired c hvisited).closed
    rw [TcpServer.phase_eq_opened] at hopen
    omega
  have hempty : ∀ c < t.accepts, t.connections (t.conns c).connId ≠ some c := by
    intro c hc hin
    refine (htab.listed.entries _ c hin).2.2 (TcpServer.Between.phase ?_ ?_)
    · simp [TcpServer.Between, htidle]
    · have hne := hclosed c hc
      rw [ne_eq, TcpServer.phase_eq_opened] at hne
      omega
  have hno := no_names hlife htab htidle hempty
  refine ⟨?_, ?_⟩
  · intro fd
    rw [← hshadow.poller]
    refine ⟨?_, ?_⟩
    · refine Option.eq_none_iff_forall_ne_some.mpr ?_
      exact fun c hc => hno fd c (Or.inl hc)
    · refine Option.eq_none_iff_forall_ne_some.mpr ?_
      rintro ⟨events, c⟩ hc
      exact hno fd c (Or.inr ⟨events, hc⟩)
  · intro c
    have hstate : (s.server.conns c).state ≠ .kConnected := by
      intro hst
      have hc : c ∉ s.visited := fun hin => (hshadow.retired c hin).state hst
      rw [← hshadow.others c hc] at hst
      have hzero : (t.conns c).closes = 0 := by
        have hnot := mt (hlife.disconnected c).mpr (by simp [hst])
        omega
      by_cases hborn : c < t.accepts
      · exact hclosed c hborn (TcpServer.phase_eq_opened.mpr hzero)
      · rw [hlife.unborn c (by omega)] at hst
        cases hst
    refine ⟨hstate, ?_⟩
    cases told_reach hstart hids hpolls h c with
    | nothing htrace hkeep _ =>
      refine Or.inl ⟨htrace, ?_⟩
      intro hwas
      rcases hkeep with hsame | ⟨-, hasked⟩
      · exact absurd (hsame.trans hwas) hstate
      · exact hasked
    | disconnected hwas _ htrace => exact Or.inr ⟨hwas, [], Or.inl rfl, htrace⟩
    | closed hwas _ htrace _ => exact Or.inr ⟨hwas, [.close], Or.inr rfl, htrace⟩

/-- Three clients are connected, and a shutdown of the third was asked for, when the server is
destroyed. The callback of the first sends to the second, and the send fails. -/
theorem the_third_client_is_told_nothing :
    ∃ start s, TcpServer.machine.Reach start ∧ (machine start).Reach s ∧ s.Done ∧
      s.visited = [2, 0] ∧ (∀ fd, s.server.poller.interest fd = none) ∧
      ((s.server.conns 1).trace = [.connection true, .connection false, .close]) ∧
      (s.server.conns 2).trace = [.connection true] := by
  obtain ⟨start, hstart, hpolls, haccepts, hrun⟩ : ∃ start, TcpServer.machine.Reach start ∧
      (start.polls = true ∧ start.accepts = 3 ∧
        ((machine start).run (fun _ _ => True) ⟨start, []⟩
          [.next 0, .server (.send 1 [7] .error), .server .returns, .server .resume,
            .server .returns, .server .resume, .next 2]).any (fun s => s.Done ∧ s.visited = [2, 0] ∧
              (s.server.conns 1).trace = [.connection true, .connection false, .close] ∧
              (s.server.conns 2).trace = [.connection true]) = true) :=
    Machine.ReachUnder.of_run [.accept (some 5), .returns, .accept (some 6), .returns,
      .accept (some 7), .returns, .shutdown 2] (by decide +kernel)
  obtain ⟨s, hs, hok⟩ := (Option.any_eq_true _ _).mp hrun
  obtain ⟨hdone, hvisited, htrace1, htrace2⟩ := of_decide_eq_true hok
  have hreach : (machine start).Reach s :=
    Machine.ReachUnder.run Machine.Reach.init hs
  have hclean := ((the_destructor_leaves_no_channel hstart (by rw [haccepts]; decide) hpolls
    hreach).2 hdone).1
  exact ⟨start, s, hstart, hreach, hdone, hvisited, fun fd => (hclean fd).2, htrace1, htrace2⟩

end rpc.net.Teardown
