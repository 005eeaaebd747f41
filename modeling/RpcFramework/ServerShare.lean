-- A server that serves many connections, as one of them sees it. What belongs to
-- the other connections is left out, and the requests that are left are numbered
-- anew. Each step of the server is then a step of a server with this one connection,
-- or nothing of it is seen.
import RpcFramework.ServerLedger
import RpcFramework.Simulation

namespace rpc

open net codec runs

/-! ## Lists of which a part is seen -/

section Lists

variable {α β : Type} {g : α → Option β} {l : List α} {i : Nat} {x : α} {y : β}

/-- The place of an entry among those that are seen. -/
def shownPlace (g : α → Option β) (l : List α) (i : Nat) : Nat := ((l.take i).filterMap g).length

theorem split_getElem? (h : l[i]? = some x) : l = l.take i ++ x :: l.drop (i + 1) := by
  obtain ⟨hi, rfl⟩ := List.getElem?_eq_some_iff.mp h
  rw [List.getElem_cons_drop, List.take_append_drop]

theorem filterMap_getElem? (h : l[i]? = some x) (hx : g x = some y) :
    (l.filterMap g)[shownPlace g l i]? = some y := by
  rw [congrArg (List.filterMap g) (split_getElem? h), List.filterMap_append,
    List.filterMap_cons_some hx, shownPlace, List.getElem?_append_right (Nat.le_refl _),
    Nat.sub_self]
  rfl

theorem filterMap_eraseIdx (h : l[i]? = some x) (hx : g x = some y) :
    (l.eraseIdx i).filterMap g = (l.filterMap g).eraseIdx (shownPlace g l i) := by
  rw [congrArg (List.filterMap g) (split_getElem? h), List.eraseIdx_eq_take_drop_succ,
    List.filterMap_append, List.filterMap_append, List.filterMap_cons_some hx, shownPlace,
    List.eraseIdx_append_of_length_le (Nat.le_refl _), Nat.sub_self]
  rfl

theorem filterMap_eraseIdx_none (h : l[i]? = some x) (hx : g x = none) :
    (l.eraseIdx i).filterMap g = l.filterMap g := by
  rw [congrArg (List.filterMap g) (split_getElem? h), List.eraseIdx_eq_take_drop_succ,
    List.filterMap_append, List.filterMap_append, List.filterMap_cons_none hx]

end Lists

/-- The functors of which a part is seen. -/
def net.EventLoop.filterMap {F G : Type} (g : F → Option G) (l : EventLoop F) : EventLoop G where
  pendingFunctors := l.pendingFunctors.filterMap g
  functors := l.functors.filterMap g

section Functors

variable {F G : Type} {g : F → Option G} {l l' : EventLoop F} {f : F} {f' : G}

theorem net.EventLoop.filterMap_queueInLoop (l : EventLoop F) (hf : g f = some f') :
    (l.queueInLoop f).filterMap g = (l.filterMap g).queueInLoop f' := by
  simp [EventLoop.queueInLoop, EventLoop.filterMap, hf]

theorem net.EventLoop.filterMap_queueInLoop_none (l : EventLoop F) (hf : g f = none) :
    (l.queueInLoop f).filterMap g = l.filterMap g := by
  simp [EventLoop.queueInLoop, EventLoop.filterMap, hf]

theorem net.EventLoop.filterMap_swap (h : l.swap = some l') :
    (l.filterMap g).swap = some (l'.filterMap g) := by
  unfold EventLoop.swap at h
  split at h
  · rename_i hempty
    cases h
    simp [EventLoop.filterMap, EventLoop.swap, List.isEmpty_iff.mp hempty]
  · cases h

theorem net.EventLoop.filterMap_next (h : l.next = some (f, l')) (hf : g f = some f') :
    (l.filterMap g).next = some (f', l'.filterMap g) := by
  unfold EventLoop.next at h
  split at h
  · cases h
  · rename_i hfs
    cases h
    simp [EventLoop.filterMap, EventLoop.next, hfs, hf]

theorem net.EventLoop.filterMap_next_none (h : l.next = some (f, l')) (hf : g f = none) :
    l'.filterMap g = l.filterMap g := by
  unfold EventLoop.next at h
  split at h
  · cases h
  · rename_i hfs
    cases h
    simp [EventLoop.filterMap, hfs, hf]

end Functors

/-! ## The server of one connection -/

variable {κ Msg : Type}

/-- What stands under a ticket, under the name that the ticket is given. -/
def named {β : Type} (f : Ticket κ → Option (Ticket Unit)) (p : Ticket κ × β) :
    Option (Ticket Unit × β) :=
  (f p.1).map fun t => (t, p.2)

def Task.named (f : Ticket κ → Option (Ticket Unit)) (task : Task κ Msg) :
    Option (Task Unit Msg) :=
  (f task.ticket).map fun t => ⟨t, task.service, task.method, task.request⟩

def Running.named (f : Ticket κ → Option (Ticket Unit)) (r : Running κ Msg) :
    Option (Running Unit Msg) :=
  (f r.task.ticket).map fun t => ⟨⟨t, r.task.service, r.task.method, r.task.request⟩, r.progress⟩

def Answer.named (f : Ticket κ → Option (Ticket Unit)) (a : Answer κ) : Option (Answer Unit) :=
  (f a.ticket).map fun t => ⟨t, a.response, a.state⟩

namespace Server

/-- What the server holds under the tickets that are given a name. `k` is their connection. -/
def through (f : Ticket κ → Option (Ticket Unit)) (k : κ) (s : Server κ Msg) : Server Unit Msg where
  connState := fun _ => s.connState k
  tasks := s.tasks.filterMap (Task.named f)
  running := s.running.filterMap (Running.named f)
  loop := s.loop.filterMap (named f)
  handed := fun _ => s.handed k
  received := s.received.filterMap (named f)
  invoked := s.invoked.filterMap (Task.named f)
  outcomes := s.outcomes.filterMap (named f)
  answered := s.answered.filterMap (Answer.named f)
  dropped := s.dropped.filterMap (named f)
  refused := s.refused.filterMap (named f)

/-- The names are given to the tickets of connection `k`, and they keep the ids. -/
structure Names (f : Ticket κ → Option (Ticket Unit)) (k : κ) : Prop where
  own : ∀ t, (f t).isSome = true ↔ t.conn = k
  requestId : ∀ t t', f t = some t' → t'.requestId = t.requestId

variable {f : Ticket κ → Option (Ticket Unit)} {k : κ} {s s' : Server κ Msg}

theorem Names.conn (hf : Names f k) {t : Ticket κ} {t' : Ticket Unit} (ht : f t = some t') :
    t.conn = k :=
  (hf.own t).mp (by rw [ht]; rfl)

theorem Names.other (hf : Names f k) {t : Ticket κ} (ht : f t = none) : t.conn ≠ k := by
  intro hk
  have := (hf.own t).mpr hk
  rw [ht] at this
  cases this

/-- The place that a task in the hand of a worker has among those that are seen. -/
def seenPlace (f : Ticket κ → Option (Ticket Unit)) (s : Server κ Msg) (i : Nat) : Option Nat :=
  s.running[i]?.bind fun r => (f r.task.ticket).map fun _ =>
    shownPlace (Running.named f) s.running i

/-- The action as which an action of the server is seen. -/
def shown [DecidableEq κ] (f : Ticket κ → Option (Ticket Unit)) (k : κ) (s : Server κ Msg) :
    Act κ Msg → Option (Act Unit Msg)
  | .frame k' bytes => if k' = k then some (.frame () bytes) else none
  | .take => s.tasks.head?.bind fun task => (f task.ticket).map fun _ => .take
  | .call i => (seenPlace f s i).map .call
  | .finish i controller response => (seenPlace f s i).map fun j => .finish j controller response
  | .respond i => (seenPlace f s i).map .respond
  | .swap => some .swap
  | .functor => s.loop.functors.head?.bind fun p => (f p.1).map fun _ => .functor
  | .setState k' state => if k' = k then some (.setState () state) else none

/-! ## One step -/

theorem update_unit {β : Type} (g : Unit → β) (u : Unit) (b : β) :
    Function.update g u b = fun _ => b :=
  funext fun v => by rw [Subsingleton.elim v u, Function.update_self]

/-- Where a task in the hand of a worker is seen, and how the others are seen without it. -/
structure SeenAt (f : Ticket κ → Option (Ticket Unit)) (s : Server κ Msg) (i : Nat)
    (r' : Running Unit Msg) (j : Nat) : Prop where
  place : seenPlace f s i = some j
  entry : (s.running.filterMap (Running.named f))[j]? = some r'
  rest : (s.running.eraseIdx i).filterMap (Running.named f) =
    (s.running.filterMap (Running.named f)).eraseIdx j

theorem seenAt {i : Nat} {r : Running κ Msg} {t' : Ticket Unit} (h : s.running[i]? = some r)
    (ht : f r.task.ticket = some t') :
    ∃ j, SeenAt f s i ⟨⟨t', r.task.service, r.task.method, r.task.request⟩, r.progress⟩ j := by
  have hr : r.named f =
      some ⟨⟨t', r.task.service, r.task.method, r.task.request⟩, r.progress⟩ := by
    unfold Running.named
    rw [ht]
    rfl
  refine ⟨shownPlace (Running.named f) s.running i, ?_, filterMap_getElem? h hr,
    filterMap_eraseIdx h hr⟩
  rw [seenPlace, h, Option.bind_some, ht]
  rfl

/-- A task of another connection is not seen. -/
theorem unseenAt {i : Nat} {r : Running κ Msg} (h : s.running[i]? = some r)
    (ht : f r.task.ticket = none) : seenPlace f s i = none ∧
      (s.running.eraseIdx i).filterMap (Running.named f) =
        s.running.filterMap (Running.named f) := by
  have hr : r.named f = none := by
    unfold Running.named
    rw [ht]
    rfl
  refine ⟨?_, filterMap_eraseIdx_none h hr⟩
  rw [seenPlace, h, Option.bind_some, ht]
  rfl

variable [DecidableEq κ] {pb : Protobuf Msg} {services : String → Option (Service Msg)}
  {threads : Nat} {a : Act κ Msg}

theorem send_through (hf : Names f k) (s : Server κ Msg) {t : Ticket κ} {t' : Ticket Unit}
    (ht : f t = some t') (resp : RpcResponse) :
    (s.send pb t resp).through f k = (s.through f k).send pb t' resp := by
  have hk := hf.conn ht
  unfold send
  split
  · simp [through, named, ht]
  · subst hk
    by_cases hst : s.connState t.conn = .kConnected
    · simp [through, Answer.named, ht, hst, update_unit]
    · simp [through, named, ht, hst]

theorem send_through_none (hf : Names f k) (s : Server κ Msg) {t : Ticket κ} (ht : f t = none)
    (resp : RpcResponse) : (s.send pb t resp).through f k = s.through f k := by
  have hk := hf.other ht
  unfold send
  split
  · simp [through, named, ht]
  · by_cases hst : s.connState t.conn = .kConnected
    · simp [through, Answer.named, ht, hst, Function.update_of_ne hk.symm]
    · simp [through, named, ht, hst]

/-- A step without a frame, under names that stay. -/
theorem step_through (hf : Names f k) (ha : ∀ k bytes, a ≠ .frame k bytes)
    (hs : step pb services threads s a = some s') :
    (machine pb services threads).stepOrStay (s.through f k) (shown f k s a) =
      some (s'.through f k) := by
  unfold step at hs
  cases a with
  | frame k' bytes => exact absurd rfl (ha k' bytes)
  | take =>
    dsimp only at hs
    split at hs
    · cases hs
    · rename_i task rest htasks
      split at hs
      · rename_i hlt
        cases hs
        cases ht : f task.ticket with
        | none =>
          simp [shown, htasks, ht, Machine.stepOrStay, through, Task.named, Running.named]
        | some t' =>
          have hle : (s.running.filterMap (Running.named f)).length < threads :=
            Nat.lt_of_le_of_lt (List.length_filterMap_le _ _) hlt
          simp [shown, htasks, ht, Machine.stepOrStay, machine, step, through, Task.named,
            Running.named, hle]
      · cases hs
  | call i =>
    dsimp only at hs
    split at hs
    · rename_i task hi
      cases hs
      cases ht : f task.ticket with
      | none =>
        obtain ⟨hplace, hrest⟩ := unseenAt hi ht
        simp [shown, hplace, Machine.stepOrStay, through, advance, hrest, Task.named,
          Running.named, ht]
      | some t' =>
        obtain ⟨j, hplace, hentry, hrest⟩ := seenAt hi ht
        simp [shown, hplace, Machine.stepOrStay, machine, step, through, advance, hrest,
          Task.named, Running.named, ht, hentry]
    · cases hs
  | finish i controller response =>
    dsimp only at hs
    split at hs
    · rename_i task hi
      cases hs
      cases ht : f task.ticket with
      | none =>
        obtain ⟨hplace, hrest⟩ := unseenAt hi ht
        simp [shown, hplace, Machine.stepOrStay, through, advance, hrest, named, Task.named,
          Running.named, ht]
      | some t' =>
        obtain ⟨j, hplace, hentry, hrest⟩ := seenAt hi ht
        simp [shown, hplace, Machine.stepOrStay, machine, step, through, advance, hrest,
          named, Task.named, Running.named, ht, hentry]
    · cases hs
  | respond i =>
    dsimp only at hs
    split at hs
    · rename_i task controller response hi
      cases hs
      cases ht : f task.ticket with
      | none =>
        obtain ⟨hplace, hrest⟩ := unseenAt hi ht
        simp [shown, hplace, Machine.stepOrStay, through, hrest, named, ht,
          EventLoop.filterMap_queueInLoop_none]
      | some t' =>
        obtain ⟨j, hplace, hentry, hrest⟩ := seenAt hi ht
        have hid := hf.requestId _ _ ht
        simp [shown, hplace, Machine.stepOrStay, machine, step, through, hrest, named, ht, hentry,
          EventLoop.filterMap_queueInLoop, hid]
    · cases hs
  | swap =>
    obtain ⟨l, hl, rfl⟩ := Option.map_eq_some_iff.mp hs
    simp [shown, Machine.stepOrStay, machine, step, through, EventLoop.filterMap_swap hl]
  | functor =>
    obtain ⟨⟨⟨t, resp⟩, l⟩, hl, rfl⟩ := Option.map_eq_some_iff.mp hs
    have hhead := EventLoop.head?_next hl
    cases ht : f t with
    | none =>
      have hloop := EventLoop.filterMap_next_none (g := named f) hl (by simp [named, ht])
      simp only [shown, hhead, Option.bind_some, ht, Option.map_none, Machine.stepOrStay,
        send_through_none hf _ ht]
      simp [through, hloop]
    | some t' =>
      have hloop : (s.through f k).loop.next = some ((t', resp), l.filterMap (named f)) :=
        EventLoop.filterMap_next hl (by simp only [named, ht, Option.map_some])
      simp only [shown, hhead, Option.bind_some, ht, Option.map_some, Machine.stepOrStay,
        send_through hf _ ht, machine, step, hloop]
      rfl
  | setState k' state =>
    dsimp only at hs
    split at hs
    · cases hs
    · rename_i hst
      cases hs
      by_cases hk : k' = k
      · subst hk
        simp [shown, Machine.stepOrStay, machine, step, through, hst, update_unit]
      · simp [shown, Machine.stepOrStay, through, hk, Function.update_of_ne (Ne.symm hk)]

/-! ## The numbers of the requests -/

omit [DecidableEq κ] in
/-- All tickets that the server knows. -/
def tickets (s : Server κ Msg) : List (Ticket κ) :=
  places s ++ s.received.map (·.1) ++ s.invoked.map (·.ticket) ++ s.outcomes.map (·.1)

omit [DecidableEq κ] in
theorem ticket_numbered (h : Ledger [] s) {t : Ticket κ} (ht : t ∈ s.tickets) :
    t.seq < s.received.length := by
  have hreceived : t ∈ s.received.map (·.1) := by
    rcases List.mem_append.mp ht with ht | ht
    · rcases List.mem_append.mp ht with ht | ht
      · rcases List.mem_append.mp ht with ht | ht
        · exact h.placed.subset ht
        · exact ht
      · obtain ⟨task, htask, rfl⟩ := List.mem_map.mp ht
        exact h.invoked task htask
    · obtain ⟨o, ho, rfl⟩ := List.mem_map.mp ht
      obtain ⟨task, htask, heq⟩ := List.mem_map.mp (h.outcomes o ho)
      exact heq ▸ h.invoked task htask
  obtain ⟨p, hp, rfl⟩ := List.mem_map.mp hreceived
  have hseq : p.1.seq ∈ s.received.map (·.1.seq) := List.mem_map.mpr ⟨p, hp, rfl⟩
  rw [h.numbered] at hseq
  exact List.mem_range.mp hseq

omit [DecidableEq κ] in
theorem filterMap_named_congr {α β : Type} {g : Ticket κ → Option (Ticket Unit)} {l : List α}
    (ticket : α → Ticket κ) (make : α → Ticket Unit → β)
    (h : ∀ x ∈ l, f (ticket x) = g (ticket x)) :
    (l.filterMap fun x => (f (ticket x)).map (make x)) =
      l.filterMap fun x => (g (ticket x)).map (make x) :=
  List.filterMap_congr fun x hx => by rw [h x hx]

omit [DecidableEq κ] in
/-- Two ways to name the tickets that the server knows show the same. -/
theorem through_congr {g : Ticket κ → Option (Ticket Unit)} (k : κ)
    (h : ∀ t ∈ s.tickets, f t = g t) : s.through f k = s.through g k := by
  simp only [tickets, places, List.mem_append, List.mem_map, EventLoop.queued] at h
  unfold through EventLoop.filterMap
  congr 1
  · exact filterMap_named_congr Task.ticket _ fun x hx => h _ (by grind)
  · exact filterMap_named_congr (fun r : Running κ Msg => r.task.ticket) _
      fun x hx => h _ (by grind)
  · congr 1
    · exact filterMap_named_congr Prod.fst _ fun x hx => h _ (by grind)
    · exact filterMap_named_congr Prod.fst _ fun x hx => h _ (by grind)
  · exact filterMap_named_congr Prod.fst _ fun x hx => h _ (by grind)
  · exact filterMap_named_congr Task.ticket _ fun x hx => h _ (by grind)
  · exact filterMap_named_congr Prod.fst _ fun x hx => h _ (by grind)
  · exact filterMap_named_congr Answer.ticket _ fun x hx => h _ (by grind)
  · exact filterMap_named_congr Prod.fst _ fun x hx => h _ (by grind)
  · exact filterMap_named_congr Prod.fst _ fun x hx => h _ (by grind)

/-- The name that a ticket of connection `k` would have without the other connections: the
how-manieth request on `k` it is. -/
def alone (received : List (Ticket κ × RpcRequest)) (k : κ) (t : Ticket κ) :
    Option (Ticket Unit) :=
  if t.conn = k then
    some ⟨((received.take t.seq).filter fun p => p.1.conn = k).length, (), t.requestId⟩
  else none

/-- The server as connection `k` sees it. -/
def share (k : κ) (s : Server κ Msg) : Server Unit Msg := s.through (alone s.received k) k

theorem names_alone (received : List (Ticket κ × RpcRequest)) (k : κ) :
    Names (alone received k) k := by
  refine ⟨?_, ?_⟩
  · intro t
    unfold alone
    split <;> simp [*]
  · intro t t' h
    unfold alone at h
    split at h
    · cases h
      rfl
    · cases h

/-- A request that comes in does not change the numbers of those before. -/
theorem alone_append {received : List (Ticket κ × RpcRequest)} (more : List (Ticket κ × RpcRequest))
    {t : Ticket κ} (ht : t.seq < received.length) :
    alone (received ++ more) k t = alone received k t := by
  unfold alone
  rw [List.take_append_of_le_length (Nat.le_of_lt ht)]

theorem received_share_length (k : κ) (received : List (Ticket κ × RpcRequest))
    (l : List (Ticket κ × RpcRequest)) :
    (l.filterMap (named (alone received k))).length =
      (l.filter fun p => p.1.conn = k).length := by
  induction l with
  | nil => rfl
  | cons p l ih =>
    by_cases hp : p.1.conn = k <;> simp [named, alone, hp, ih]

/-- A step without a frame receives nothing. -/
theorem received_quiet (ha : ∀ k bytes, a ≠ .frame k bytes)
    (hs : step pb services threads s a = some s') : s'.received = s.received := by
  unfold step at hs
  cases a with
  | frame k bytes => exact absurd rfl (ha k bytes)
  | take =>
    dsimp only at hs
    split at hs
    · cases hs
    · split at hs <;> cases hs
      rfl
  | swap =>
    obtain ⟨l, hl, rfl⟩ := Option.map_eq_some_iff.mp hs
    rfl
  | functor =>
    obtain ⟨⟨⟨t, resp⟩, l⟩, hl, rfl⟩ := Option.map_eq_some_iff.mp hs
    exact (send_logs pb { s with loop := l } t resp).1
  | _ =>
    dsimp only at hs
    split at hs <;> cases hs
    rfl

omit [DecidableEq κ] in
theorem through_submit (f : Ticket κ → Option (Ticket Unit)) (k : κ) (s : Server κ Msg)
    (task : Task κ Msg) :
    ({ s with tasks := s.tasks ++ [task] } : Server κ Msg).through f k =
      { s.through f k with tasks := (s.through f k).tasks ++ (task.named f).toList } := by
  cases h : task.named f <;> simp [through, h]

/-- A request that is noted down, as connection `k` sees it: under the next number, or not at
all. -/
theorem receive_share (h : Ledger [] s) (k' : κ) (req : RpcRequest)
    {ticket : Ticket κ} (hticket : ticket = ⟨s.received.length, k', req.requestId⟩) :
    (k' = k → alone (s.received ++ [(ticket, req)]) k ticket =
        some ⟨(s.share k).received.length, (), req.requestId⟩ ∧
      ({ s with received := s.received ++ [(ticket, req)] } : Server κ Msg).through
          (alone (s.received ++ [(ticket, req)]) k) k =
        { s.share k with received := (s.share k).received ++
          [(⟨(s.share k).received.length, (), req.requestId⟩, req)] }) ∧
    (k' ≠ k → alone (s.received ++ [(ticket, req)]) k ticket = none ∧
      ({ s with received := s.received ++ [(ticket, req)] } : Server κ Msg).through
        (alone (s.received ++ [(ticket, req)]) k) k = s.share k) := by
  -- the tickets that the server knows keep their numbers
  have hkeep : s.through (alone (s.received ++ [(ticket, req)]) k) k = s.share k :=
    through_congr k fun t ht => alone_append _ (ticket_numbered h ht)
  have hlen : (s.share k).received.length = (s.received.filter fun p => p.1.conn = k).length :=
    received_share_length k s.received s.received
  constructor
  · intro hk
    have hname : alone (s.received ++ [(ticket, req)]) k ticket =
        some ⟨(s.share k).received.length, (), req.requestId⟩ := by
      subst hticket
      rw [hlen, alone, if_pos hk, List.take_left]
    refine ⟨hname, ?_⟩
    rw [← hkeep] at hname ⊢
    simp [through, named, hname]
  · intro hk
    have hname : alone (s.received ++ [(ticket, req)]) k ticket = none := by
      subst hticket
      exact if_neg hk
    refine ⟨hname, ?_⟩
    rw [← hkeep]
    simp [through, named, hname]

/-- A frame, as connection `k` sees it. -/
theorem onFrame_share (h : Ledger [] s) (k' : κ) (bytes : Bytes) :
    (s.onFrame pb services k' bytes).share k =
      if k' = k then (s.share k).onFrame pb services () bytes else s.share k := by
  unfold onFrame
  cases hparse : pb.parseRequest bytes with
  | none => simp
  | some req =>
    obtain ⟨hown, hother⟩ := receive_share (k := k) h k' req rfl
    generalize hticket : (⟨s.received.length, k', req.requestId⟩ : Ticket κ) = ticket at hown hother
    dsimp only
    rw [hticket]
    have hnames := names_alone (s.received ++ [(ticket, req)]) k
    cases hreq : onRequest pb services req with
    | reply resp =>
      dsimp only
      rw [share, (send_logs pb _ ticket resp).1]
      split
      · obtain ⟨hname, hsame⟩ := hown ‹_›
        rw [send_through hnames _ hname, hsame]
      · obtain ⟨hname, hsame⟩ := hother ‹_›
        rw [send_through_none hnames _ hname, hsame]
    | submit service method request =>
      have hsubmit := through_submit (alone (s.received ++ [(ticket, req)]) k) k
        { s with received := s.received ++ [(ticket, req)] } ⟨ticket, service, method, request⟩
      refine hsubmit.trans ?_
      split
      · obtain ⟨hname, hsame⟩ := hown ‹_›
        rw [hsame, Task.named, hname]
        rfl
      · obtain ⟨hname, hsame⟩ := hother ‹_›
        rw [hsame, Task.named, hname]
        simp

/-- A step of the server, as connection `k` sees it. -/
theorem step_share (k : κ) (h : Ledger [] s) (hs : step pb services threads s a = some s') :
    (machine pb services threads).stepOrStay (s.share k) (shown (alone s.received k) k s a) =
      some (s'.share k) := by
  by_cases hframe : ∃ k' bytes, a = .frame k' bytes
  · obtain ⟨k', bytes, rfl⟩ := hframe
    simp only [step] at hs
    split at hs
    · rename_i hready
      cases hs
      rw [onFrame_share h]
      by_cases hk : k' = k
      · subst hk
        have hfunctors : (s.share k').loop.functors = [] := by
          simp [share, through, EventLoop.filterMap, hready.1]
        have hstate : (s.share k').connState () ≠ .kConnecting := hready.2
        simp [shown, Machine.stepOrStay, machine, step, hfunctors, hstate]
      · simp [shown, hk, Machine.stepOrStay]
    · cases hs
  · have hquiet : ∀ k bytes, a ≠ .frame k bytes := fun k bytes ha => hframe ⟨k, bytes, ha⟩
    rw [share, share, received_quiet hquiet hs]
    exact step_through (names_alone _ k) hquiet hs

/-- The server with all its connections, shown as one that has connection `k` only. -/
def onlyConnection (pb : Protobuf Msg) (services : String → Option (Service Msg)) (threads : Nat)
    (k : κ) : Simulation (machine pb services threads : Machine (Server κ Msg) (Act κ Msg))
      (machine pb services threads : Machine (Server Unit Msg) (Act Unit Msg)) where
  view := share k
  shown := fun s => shown (alone s.received k) k s
  init := rfl
  step := fun _ _ _ hr hs => step_share k (sound_reach hr).ledger hs

end Server

end rpc
