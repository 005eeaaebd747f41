-- Where the requests of the server are. Each request that was received stands
-- in exactly one place: it is answered, dropped or refused, or it waits in the
-- pool, with a worker or in the loop. Every action moves it from one place to
-- the next.
import Mathlib.Data.List.Nodup
import Mathlib.Data.List.Perm.Basic
import Mathlib.Data.Multiset.AddSub
import RpcFramework.Server

namespace rpc.Server

open net codec runs

variable {κ Msg : Type} {pb : Protobuf Msg} {services : String → Option (Service Msg)}
  {threads : Nat} {s s' : Server κ Msg}

/-! ## The places -/

/-- The requests in all the places where one can stand. -/
def places (s : Server κ Msg) : List (Ticket κ) :=
  s.answered.map (·.ticket) ++ s.dropped.map (·.1) ++ s.refused.map (·.1) ++
    s.tasks.map (·.ticket) ++ s.running.map (·.task.ticket) ++ s.loop.queued.map (·.1)

/-- The pool was given this task for a request that was received. -/
def Submitted (pb : Protobuf Msg) (services : String → Option (Service Msg)) (s : Server κ Msg)
    (task : Task κ Msg) : Prop :=
  ∃ req, (task.ticket, req) ∈ s.received ∧
    onRequest pb services req = .submit task.service task.method task.request

/-- The response is what the server computed for the request: the reply of `on_frame`, or the
response to the outcome that the handler gave. -/
def Computed (pb : Protobuf Msg) (services : String → Option (Service Msg)) (s : Server κ Msg)
    (ticket : Ticket κ) (resp : RpcResponse) : Prop :=
  ∃ req, (ticket, req) ∈ s.received ∧
    (onRequest pb services req = .reply resp ∨
      ∃ service method request controller response,
        onRequest pb services req = .submit service method request ∧
        (ticket, controller, response) ∈ s.outcomes ∧
        resp = dispatchResponse pb ticket.requestId controller response)

/-- What is known of a task in the hand of a worker. -/
def Known (s : Server κ Msg) (r : Running κ Msg) : Prop :=
  match r.progress with
  | .taken => r.task.ticket ∉ s.invoked.map (·.ticket)
  | .called => r.task.ticket ∈ s.invoked.map (·.ticket) ∧ r.task.ticket ∉ s.outcomes.map (·.1)
  | .finished controller response => (r.task.ticket, controller, response) ∈ s.outcomes

/-- The requests that were received are in the places, but for those that the loop thread has
in its hand. -/
structure Ledger (hand : List (Ticket κ)) (s : Server κ Msg) : Prop where
  numbered : s.received.map (·.1.seq) = List.range s.received.length
  placed : (hand ++ places s).Perm (s.received.map (·.1))
  named : ∀ p ∈ s.received, p.1.requestId = p.2.requestId ∧ s.connState p.1.conn ≠ .kConnecting
  invoked : ∀ task ∈ s.invoked, task.ticket ∈ s.received.map (·.1)
  once : (s.invoked.map (·.ticket)).Nodup
  outcomes : ∀ o ∈ s.outcomes, o.1 ∈ s.invoked.map (·.ticket)
  single : (s.outcomes.map (·.1)).Nodup

/-- What stands in a place is what belongs there. -/
structure Content (pb : Protobuf Msg) (services : String → Option (Service Msg))
    (s : Server κ Msg) : Prop where
  tasks : ∀ task ∈ s.tasks, Submitted pb services s task ∧
    task.ticket ∉ s.invoked.map (·.ticket)
  running : ∀ r ∈ s.running, Submitted pb services s r.task ∧ Known s r
  queued : ∀ p ∈ s.loop.queued, Computed pb services s p.1 p.2
  answered : ∀ a ∈ s.answered, Computed pb services s a.ticket a.response ∧
    a.state = .kConnected ∧ ∃ body, pb.serializeResponse a.response = some body
  dropped : ∀ p ∈ s.dropped, p.2 ≠ .kConnected ∧ p.2 ≠ .kConnecting
  refused : ∀ p ∈ s.refused, Computed pb services s p.1 p.2 ∧ pb.serializeResponse p.2 = none

/-! ## What growing logs keep -/

/-- Requests and outcomes are only added. -/
structure Grown (s s' : Server κ Msg) : Prop where
  received : ∀ p ∈ s.received, p ∈ s'.received
  outcomes : ∀ o ∈ s.outcomes, o ∈ s'.outcomes

theorem Submitted.mono {task : Task κ Msg} (h : Submitted pb services s task)
    (hg : Grown s s') : Submitted pb services s' task := by
  obtain ⟨req, hreq, hsub⟩ := h
  exact ⟨req, hg.received _ hreq, hsub⟩

theorem Computed.mono {ticket : Ticket κ} {resp : RpcResponse}
    (h : Computed pb services s ticket resp) (hg : Grown s s') :
    Computed pb services s' ticket resp := by
  obtain ⟨req, hreq, hcomp⟩ := h
  refine ⟨req, hg.received _ hreq, ?_⟩
  rcases hcomp with hrep | ⟨service, method, request, controller, response, hsub, hout, hresp⟩
  · exact Or.inl hrep
  · exact Or.inr ⟨service, method, request, controller, response, hsub, hg.outcomes _ hout, hresp⟩

/-- An entry taken out of a list by its place. -/
theorem eraseIdx_perm {α : Type} {l : List α} {i : Nat} {x : α} (h : l[i]? = some x) :
    (x :: l.eraseIdx i).Perm l := by
  obtain ⟨hi, rfl⟩ := List.getElem?_eq_some_iff.mp h
  exact List.getElem_cons_eraseIdx_perm hi

/-- A ticket that the next request will have was not seen before. -/
theorem Ledger.fresh {hand : List (Ticket κ)} (h : Ledger hand s) {t : Ticket κ}
    (ht : t.seq = s.received.length) : t ∉ s.received.map (·.1) := by
  intro hmem
  obtain ⟨p, hp, rfl⟩ := List.mem_map.mp hmem
  have hseq : p.1.seq ∈ s.received.map (·.1.seq) := List.mem_map.mpr ⟨p, hp, rfl⟩
  rw [h.numbered, List.mem_range] at hseq
  omega

/-- No two requests are one. -/
theorem Ledger.nodup {hand : List (Ticket κ)} (h : Ledger hand s) :
    (s.received.map (·.1)).Nodup := by
  have hseq : ((s.received.map (·.1)).map (·.seq)).Nodup := by
    rw [List.map_map]
    have := h.numbered
    simp only [Function.comp_def] at this ⊢
    rw [this]
    exact List.nodup_range
  exact List.Nodup.of_map _ hseq

/-- A ticket has one request. -/
theorem Ledger.request_unique {hand : List (Ticket κ)} (h : Ledger hand s) {t : Ticket κ}
    {req req' : RpcRequest} (hreq : (t, req) ∈ s.received) (hreq' : (t, req') ∈ s.received) :
    req = req' :=
  (Prod.mk.inj (List.inj_on_of_nodup_map h.nodup hreq hreq' rfl)).2

/-! ## The loop thread sends a response -/

variable [DecidableEq κ]

/-- The three ways of a response that the loop thread sends: it is answered, dropped or
refused, and nothing else changes. -/
theorem send_cases (pb : Protobuf Msg) (s : Server κ Msg) (ticket : Ticket κ)
    (resp : RpcResponse) :
    (∃ body, pb.serializeResponse resp = some body ∧ s.connState ticket.conn = .kConnected ∧
      s.send pb ticket resp = { s with
        handed := Function.update s.handed ticket.conn (s.handed ticket.conn ++ sendRaw body)
        answered := s.answered ++ [⟨ticket, resp, .kConnected⟩] }) ∨
    (s.connState ticket.conn ≠ .kConnected ∧
      s.send pb ticket resp =
        { s with dropped := s.dropped ++ [(ticket, s.connState ticket.conn)] }) ∨
    (pb.serializeResponse resp = none ∧
      s.send pb ticket resp = { s with refused := s.refused ++ [(ticket, resp)] }) := by
  unfold send
  cases hser : pb.serializeResponse resp with
  | none => exact Or.inr (Or.inr ⟨rfl, rfl⟩)
  | some body =>
    dsimp only
    split
    · rename_i hcon
      exact Or.inl ⟨body, rfl, hcon, by rw [hcon]⟩
    · rename_i hcon
      exact Or.inr (Or.inl ⟨hcon, rfl⟩)

theorem ledger_send {hand : List (Ticket κ)} {ticket : Ticket κ} {resp : RpcResponse}
    (h : Ledger (ticket :: hand) s) : Ledger hand (s.send pb ticket resp) := by
  obtain ⟨h1, h2, h3, h4, h5, h6, h7⟩ := h
  have hplaces : (places (s.send pb ticket resp)).Perm (ticket :: places s) := by
    rw [List.perm_iff_count]
    intro t
    rcases send_cases pb s ticket resp with ⟨body, -, -, heq⟩ | ⟨-, heq⟩ | ⟨-, heq⟩ <;>
      simp only [heq, places, List.map_append, List.map_cons, List.map_nil, List.count_append,
        List.count_cons, List.count_nil] <;> omega
  have hperm : (hand ++ places (s.send pb ticket resp)).Perm (s.received.map (·.1)) :=
    ((hplaces.append_left hand).trans List.perm_middle).trans h2
  rcases send_cases pb s ticket resp with ⟨body, -, -, heq⟩ | ⟨-, heq⟩ | ⟨-, heq⟩ <;>
    rw [heq] at hperm ⊢ <;> exact ⟨h1, hperm, h3, h4, h5, h6, h7⟩

theorem content_send {hand : List (Ticket κ)} {ticket : Ticket κ} {resp : RpcResponse}
    (hl : Ledger hand s) (h : Content pb services s) (hc : Computed pb services s ticket resp) :
    Content pb services (s.send pb ticket resp) := by
  obtain ⟨h1, h2, h3, h4, h5, h6⟩ := h
  rcases send_cases pb s ticket resp with ⟨body, hser, hcon, heq⟩ | ⟨hcon, heq⟩ | ⟨hser, heq⟩
  · rw [heq]
    refine ⟨h1, h2, h3, ?_, h5, h6⟩
    intro a ha
    rcases List.mem_append.mp ha with ha | ha
    · exact h4 a ha
    · rw [List.mem_singleton.mp ha]
      exact ⟨hc, rfl, body, hser⟩
  · rw [heq]
    refine ⟨h1, h2, h3, h4, ?_, h6⟩
    intro p hp
    rcases List.mem_append.mp hp with hp | hp
    · exact h5 p hp
    · rw [List.mem_singleton.mp hp]
      obtain ⟨req, hreq, -⟩ := hc
      exact ⟨hcon, (hl.named _ hreq).2⟩
  · rw [heq]
    refine ⟨h1, h2, h3, h4, h5, ?_⟩
    intro p hp
    rcases List.mem_append.mp hp with hp | hp
    · exact h6 p hp
    · rw [List.mem_singleton.mp hp]
      exact ⟨hc, hser⟩

/-! ## The steps -/

/-- The two halves of the invariant, when the loop thread has no request in its hand. -/
structure Sound (pb : Protobuf Msg) (services : String → Option (Service Msg))
    (s : Server κ Msg) : Prop where
  ledger : Ledger [] s
  content : Content pb services s

omit [DecidableEq κ] in
/-- A request is noted down, and is in the hand of the loop thread. -/
theorem ledger_receive (h : Ledger [] s) (k : κ) (req : RpcRequest)
    (hk : s.connState k ≠ .kConnecting) :
    Ledger [⟨s.received.length, k, req.requestId⟩]
      { s with received := s.received ++ [(⟨s.received.length, k, req.requestId⟩, req)] } := by
  obtain ⟨h1, h2, h3, h4, h5, h6, h7⟩ := h
  refine ⟨?_, ?_, ?_, ?_, h5, h6, h7⟩
  · simp [h1, List.range_succ]
  · have hsnoc := (List.perm_append_singleton (⟨s.received.length, k, req.requestId⟩ : Ticket κ)
      (s.received.map (·.1))).symm
    simp only [List.map_append, List.map_cons, List.map_nil]
    exact (List.Perm.cons _ h2).trans hsnoc
  · intro p hp
    rcases List.mem_append.mp hp with hp | hp
    · exact h3 p hp
    · rw [List.mem_singleton.mp hp]
      exact ⟨rfl, hk⟩
  · intro task htask
    rw [List.map_append]
    exact List.mem_append_left _ (h4 task htask)

omit [DecidableEq κ] in
/-- What belongs in its place still does when a request is noted down. -/
theorem content_grown (h : Content pb services s) (hg : Grown s s')
    (h1 : s'.tasks = s.tasks) (h2 : s'.running = s.running) (h3 : s'.loop = s.loop)
    (h4 : s'.answered = s.answered) (h5 : s'.dropped = s.dropped) (h6 : s'.refused = s.refused)
    (h7 : s'.invoked = s.invoked) (h8 : s'.outcomes = s.outcomes) : Content pb services s' := by
  refine ⟨?_, ?_, ?_, ?_, by rw [h5]; exact h.dropped, ?_⟩
  · intro task htask
    rw [h1] at htask
    rw [h7]
    exact ⟨(h.tasks task htask).1.mono hg, (h.tasks task htask).2⟩
  · intro r hr
    rw [h2] at hr
    refine ⟨(h.running r hr).1.mono hg, ?_⟩
    have hk := (h.running r hr).2
    unfold Known at hk ⊢
    rw [h7, h8]
    exact hk
  · intro p hp
    rw [h3] at hp
    exact (h.queued p hp).mono hg
  · intro a ha
    rw [h4] at ha
    exact ⟨(h.answered a ha).1.mono hg, (h.answered a ha).2⟩
  · intro p hp
    rw [h6] at hp
    exact ⟨(h.refused p hp).1.mono hg, (h.refused p hp).2⟩

theorem sound_onFrame (h : Sound pb services s) (k : κ) (bytes : Bytes)
    (hk : s.connState k ≠ .kConnecting) : Sound pb services (s.onFrame pb services k bytes) := by
  unfold onFrame
  split
  · exact h
  · rename_i req _
    dsimp only
    have hl := ledger_receive h.ledger k req hk
    have hfresh : (⟨s.received.length, k, req.requestId⟩ : Ticket κ) ∉
        s.invoked.map (·.ticket) := by
      intro hmem
      obtain ⟨task, htask, heq⟩ := List.mem_map.mp hmem
      exact h.ledger.fresh rfl (heq ▸ h.ledger.invoked task htask)
    have hg : Grown s { s with
        received := s.received ++ [(⟨s.received.length, k, req.requestId⟩, req)] } :=
      ⟨fun p hp => List.mem_append_left _ hp, fun o ho => ho⟩
    have hc := content_grown h.content hg rfl rfl rfl rfl rfl rfl rfl rfl
    split
    · rename_i resp hrep
      exact ⟨ledger_send hl, content_send hl hc ⟨req, by simp, Or.inl hrep⟩⟩
    · rename_i service method request hsub
      refine ⟨⟨hl.numbered, ?_, hl.named, hl.invoked, hl.once, hl.outcomes, hl.single⟩,
        ⟨?_, hc.running, hc.queued, hc.answered, hc.dropped, hc.refused⟩⟩
      · refine List.Perm.trans ?_ hl.placed
        rw [List.perm_iff_count]
        intro t
        simp only [places, List.map_append, List.map_cons, List.map_nil, List.count_append,
          List.count_cons, List.count_nil, List.nil_append]
        omega
      · intro task htask
        rcases List.mem_append.mp htask with htask | htask
        · exact hc.tasks task htask
        · rw [List.mem_singleton.mp htask]
          exact ⟨⟨req, by simp, hsub⟩, hfresh⟩

theorem sound_take {task : Task κ Msg} {rest : List (Task κ Msg)} (h : Sound pb services s)
    (htasks : s.tasks = task :: rest) :
    Sound pb services { s with tasks := rest, running := s.running ++ [⟨task, .taken⟩] } := by
  obtain ⟨⟨h1, h2, h3, h4, h5, h6, h7⟩, ⟨c1, c2, c3, c4, c5, c6⟩⟩ := h
  have htask := c1 task (by simp [htasks])
  refine ⟨⟨h1, ?_, h3, h4, h5, h6, h7⟩, ⟨?_, ?_, c3, c4, c5, c6⟩⟩
  · refine List.Perm.trans ?_ h2
    rw [List.perm_iff_count]
    intro t
    simp only [places, htasks, List.map_append, List.map_cons, List.map_nil, List.count_append,
      List.count_cons, List.count_nil, List.nil_append]
    omega
  · intro other hother
    exact c1 other (by rw [htasks]; exact List.mem_cons_of_mem _ hother)
  · intro r hr
    rcases List.mem_append.mp hr with hr | hr
    · exact c2 r hr
    · rw [List.mem_singleton.mp hr]
      exact ⟨htask.1, htask.2⟩

/-- A worker that goes on with its task leaves every request in its place. -/
theorem places_advance {i : Nat} {r : Running κ Msg} (r' : Running κ Msg)
    (hi : s.running[i]? = some r) (ht : r'.task = r.task) :
    (places (s.advance i r')).Perm (places s) := by
  have hrun := ((eraseIdx_perm hi).map (·.task.ticket))
  rw [List.perm_iff_count] at hrun ⊢
  intro t
  have hcount := hrun t
  simp only [List.map_cons, List.count_cons] at hcount
  simp only [places, advance, List.map_append, List.map_cons, List.map_nil, List.count_append,
    List.count_cons, List.count_nil, ht]
  omega

omit [DecidableEq κ] in
/-- A task in the hand of a worker is not in the queue, and no other worker has it. -/
theorem Ledger.apart (h : Ledger [] s) {i : Nat} {r : Running κ Msg}
    (hi : s.running[i]? = some r) :
    (∀ task ∈ s.tasks, task.ticket ≠ r.task.ticket) ∧
      ∀ x ∈ s.running.eraseIdx i, x.task.ticket ≠ r.task.ticket := by
  have hnodup : (places s).Nodup := h.placed.nodup_iff.mpr h.nodup
  unfold places at hnodup
  rw [List.nodup_append, List.nodup_append] at hnodup
  obtain ⟨⟨-, hrun, hdisj⟩, -, -⟩ := hnodup
  have hmem : r.task.ticket ∈ s.running.map (·.task.ticket) :=
    List.mem_map.mpr ⟨r, List.mem_of_getElem? hi, rfl⟩
  refine ⟨?_, ?_⟩
  · intro task htask
    exact hdisj _ (List.mem_append_right _ (List.mem_map.mpr ⟨task, htask, rfl⟩)) _ hmem
  · intro x hx heq
    have hnd := ((eraseIdx_perm hi).map (·.task.ticket)).nodup_iff.mpr hrun
    rw [List.map_cons, List.nodup_cons] at hnd
    exact hnd.1 (List.mem_map.mpr ⟨x, hx, heq⟩)

omit [DecidableEq κ] in
/-- What is known of one task stays so when others are called and finish. -/
theorem Known.grow {s' : Server κ Msg} {r : Running κ Msg} {invoked : List (Task κ Msg)}
    {outcomes : List (Ticket κ × RpcController × Msg)} (h : Known s r)
    (hinvoked : s'.invoked = s.invoked ++ invoked) (houtcomes : s'.outcomes = s.outcomes ++ outcomes)
    (hi : r.task.ticket ∉ invoked.map (·.ticket)) (ho : r.task.ticket ∉ outcomes.map (·.1)) :
    Known s' r := by
  unfold Known at h ⊢
  rw [hinvoked, houtcomes, List.map_append, List.map_append]
  cases hp : r.progress with
  | taken =>
    rw [hp] at h
    dsimp only at h ⊢
    rw [List.mem_append]
    rintro (hmem | hmem)
    · exact h hmem
    · exact hi hmem
  | called =>
    rw [hp] at h
    refine ⟨List.mem_append_left _ h.1, ?_⟩
    rw [List.mem_append]
    rintro (hmem | hmem)
    · exact h.2 hmem
    · exact ho hmem
  | finished controller response =>
    rw [hp] at h
    exact List.mem_append_left _ h

theorem sound_call {i : Nat} {task : Task κ Msg} (h : Sound pb services s)
    (hi : s.running[i]? = some ⟨task, .taken⟩) :
    Sound pb services { s.advance i ⟨task, .called⟩ with invoked := s.invoked ++ [task] } := by
  obtain ⟨hl, hc⟩ := h
  obtain ⟨hqueue, hothers⟩ := hl.apart hi
  obtain ⟨hsub, hnew⟩ := hc.running _ (List.mem_of_getElem? hi)
  have hnew : task.ticket ∉ s.invoked.map (·.ticket) := hnew
  have hperm := places_advance ⟨task, .called⟩ hi rfl
  refine ⟨⟨hl.numbered, hperm.trans hl.placed, hl.named, ?_, ?_, ?_, hl.single⟩,
    ⟨?_, ?_, hc.queued, hc.answered, hc.dropped, hc.refused⟩⟩
  · intro other hother
    rcases List.mem_append.mp hother with hother | hother
    · exact hl.invoked other hother
    · rw [List.mem_singleton.mp hother]
      obtain ⟨req, hreq, -⟩ := hsub
      exact List.mem_map.mpr ⟨_, hreq, rfl⟩
  · rw [List.map_append, List.nodup_append]
    refine ⟨hl.once, by simp, ?_⟩
    intro t ht u hu
    rw [List.mem_singleton.mp hu]
    rintro rfl
    exact hnew ht
  · intro o ho
    rw [List.map_append]
    exact List.mem_append_left _ (hl.outcomes o ho)
  · intro other hother
    refine ⟨(hc.tasks other hother).1, ?_⟩
    rw [List.map_append, List.mem_append]
    rintro (hmem | hmem)
    · exact (hc.tasks other hother).2 hmem
    · exact hqueue other hother (List.mem_singleton.mp hmem)
  · intro r hr
    rcases List.mem_append.mp hr with hr | hr
    · obtain ⟨hrsub, hrk⟩ := hc.running r (List.mem_of_mem_eraseIdx hr)
      exact ⟨hrsub, hrk.grow rfl (List.append_nil _).symm (by simpa using hothers r hr) (by simp)⟩
    · rw [List.mem_singleton.mp hr]
      refine ⟨hsub, by simp, ?_⟩
      intro hmem
      obtain ⟨o, ho, heq⟩ := List.mem_map.mp hmem
      exact hnew (heq ▸ hl.outcomes o ho)

theorem sound_finish {i : Nat} {task : Task κ Msg} (controller : RpcController) (response : Msg)
    (h : Sound pb services s) (hi : s.running[i]? = some ⟨task, .called⟩) :
    Sound pb services { s.advance i ⟨task, .finished controller response⟩ with
      outcomes := s.outcomes ++ [(task.ticket, controller, response)] } := by
  obtain ⟨hl, hc⟩ := h
  obtain ⟨-, hothers⟩ := hl.apart hi
  obtain ⟨hsub, hnew⟩ := hc.running _ (List.mem_of_getElem? hi)
  obtain ⟨hasked, hnew⟩ := hnew
  have hperm := places_advance ⟨task, .finished controller response⟩ hi rfl
  have hg : Grown s { s.advance i ⟨task, .finished controller response⟩ with
      outcomes := s.outcomes ++ [(task.ticket, controller, response)] } :=
    ⟨fun p hp => hp, fun o ho => List.mem_append_left _ ho⟩
  refine ⟨⟨hl.numbered, hperm.trans hl.placed, hl.named, hl.invoked, hl.once, ?_, ?_⟩,
    ⟨hc.tasks, ?_, ?_, ?_, hc.dropped, ?_⟩⟩
  · intro o ho
    rcases List.mem_append.mp ho with ho | ho
    · exact hl.outcomes o ho
    · rw [List.mem_singleton.mp ho]
      exact hasked
  · rw [List.map_append, List.nodup_append]
    refine ⟨hl.single, by simp, ?_⟩
    intro t ht u hu
    rw [List.mem_singleton.mp hu]
    rintro rfl
    exact hnew ht
  · intro r hr
    rcases List.mem_append.mp hr with hr | hr
    · obtain ⟨hrsub, hrk⟩ := hc.running r (List.mem_of_mem_eraseIdx hr)
      exact ⟨hrsub, hrk.grow (List.append_nil _).symm rfl (by simp) (by simpa using hothers r hr)⟩
    · rw [List.mem_singleton.mp hr]
      exact ⟨hsub, by simp [Known]⟩
  · intro p hp
    exact (hc.queued p hp).mono hg
  · intro a ha
    exact ⟨(hc.answered a ha).1.mono hg, (hc.answered a ha).2⟩
  · intro p hp
    exact ⟨(hc.refused p hp).1.mono hg, (hc.refused p hp).2⟩

theorem sound_respond {i : Nat} {task : Task κ Msg} {controller : RpcController} {response : Msg}
    (h : Sound pb services s) (hi : s.running[i]? = some ⟨task, .finished controller response⟩) :
    Sound pb services { s with
      running := s.running.eraseIdx i
      loop := s.loop.queueInLoop
        (task.ticket, dispatchResponse pb task.ticket.requestId controller response) } := by
  obtain ⟨hl, hc⟩ := h
  obtain ⟨⟨req, hreq, hsub⟩, hout⟩ := hc.running _ (List.mem_of_getElem? hi)
  refine ⟨⟨hl.numbered, ?_, hl.named, hl.invoked, hl.once, hl.outcomes, hl.single⟩,
    ⟨hc.tasks, ?_, ?_, hc.answered, hc.dropped, hc.refused⟩⟩
  · refine List.Perm.trans ?_ hl.placed
    have hrun := ((eraseIdx_perm hi).map (·.task.ticket))
    rw [List.perm_iff_count] at hrun ⊢
    intro t
    have hcount := hrun t
    simp only [List.map_cons, List.count_cons] at hcount
    simp only [places, EventLoop.queued_queueInLoop, List.map_append, List.map_cons, List.map_nil,
      List.count_append, List.count_cons, List.count_nil, List.nil_append]
    omega
  · intro r hr
    exact hc.running r (List.mem_of_mem_eraseIdx hr)
  · intro p hp
    rw [EventLoop.queued_queueInLoop] at hp
    rcases List.mem_append.mp hp with hp | hp
    · exact hc.queued p hp
    · rw [List.mem_singleton.mp hp]
      exact ⟨req, hreq, Or.inr ⟨_, _, _, controller, response, hsub, hout, rfl⟩⟩

theorem sound_functor {t : Ticket κ} {resp : RpcResponse} {l : EventLoop (Ticket κ × RpcResponse)}
    (h : Sound pb services s) (hl : s.loop.next = some ((t, resp), l)) :
    Sound pb services ({ s with loop := l }.send pb t resp) := by
  obtain ⟨hled, hc⟩ := h
  have hq := EventLoop.queued_next hl
  have hhand : Ledger [t] { s with loop := l } := by
    refine ⟨hled.numbered, ?_, hled.named, hled.invoked, hled.once, hled.outcomes, hled.single⟩
    refine List.Perm.trans ?_ hled.placed
    rw [List.perm_iff_count]
    intro u
    simp only [places, hq, List.map_cons, List.count_append, List.count_cons, List.count_nil,
      List.nil_append]
    omega
  have hcont : Content pb services { s with loop := l } :=
    ⟨hc.tasks, hc.running, fun p hp => hc.queued p (by rw [hq]; exact List.mem_cons_of_mem _ hp),
      hc.answered, hc.dropped, hc.refused⟩
  have hcomp : Computed pb services { s with loop := l } t resp :=
    hc.queued (t, resp) (by rw [hq]; exact List.mem_cons_self)
  exact ⟨ledger_send hhand, content_send hhand hcont hcomp⟩

theorem sound_step {a : Act κ Msg} (h : Sound pb services s)
    (hs : step pb services threads s a = some s') : Sound pb services s' := by
  unfold step at hs
  cases a with
  | frame k bytes =>
    dsimp only at hs
    split at hs
    · cases hs
      rename_i hk
      exact sound_onFrame h k bytes hk.2
    · cases hs
  | take =>
    dsimp only at hs
    split at hs
    · cases hs
    · split at hs
      · cases hs
        exact sound_take h ‹_›
      · cases hs
  | call i =>
    dsimp only at hs
    split at hs
    · cases hs
      exact sound_call h ‹_›
    · cases hs
  | finish i controller response =>
    dsimp only at hs
    split at hs
    · cases hs
      exact sound_finish controller response h ‹_›
    · cases hs
  | respond i =>
    dsimp only at hs
    split at hs
    · cases hs
      exact sound_respond h ‹_›
    · cases hs
  | swap =>
    obtain ⟨l, hl, rfl⟩ := Option.map_eq_some_iff.mp hs
    have hq := EventLoop.queued_swap hl
    obtain ⟨hled, hc⟩ := h
    refine ⟨⟨hled.numbered, ?_, hled.named, hled.invoked, hled.once, hled.outcomes, hled.single⟩,
      ⟨hc.tasks, hc.running, ?_, hc.answered, hc.dropped, hc.refused⟩⟩
    · simpa [places, hq] using hled.placed
    · intro p hp
      exact hc.queued p (hq ▸ hp)
  | functor =>
    obtain ⟨⟨⟨t, resp⟩, l⟩, hl, rfl⟩ := Option.map_eq_some_iff.mp hs
    exact sound_functor h hl
  | setState k state =>
    dsimp only at hs
    split at hs
    · cases hs
    · cases hs
      rename_i hstate
      obtain ⟨hled, hc⟩ := h
      refine ⟨⟨hled.numbered, hled.placed, ?_, hled.invoked, hled.once, hled.outcomes,
        hled.single⟩,
        ⟨hc.tasks, hc.running, hc.queued, hc.answered, hc.dropped, hc.refused⟩⟩
      intro p hp
      refine ⟨(hled.named p hp).1, ?_⟩
      simp only [Function.update_apply]
      split
      · exact hstate
      · exact (hled.named p hp).2

omit [DecidableEq κ] in
theorem sound_new : Sound pb services (new : Server κ Msg) where
  ledger := ⟨rfl, .nil, by simp [new], by simp [new], by simp [new], by simp [new], by simp [new]⟩
  content := ⟨by simp [new], by simp [new], by simp [new], by simp [new], by simp [new],
    by simp [new]⟩

theorem sound_reach (h : (machine pb services threads).Reach s) : Sound pb services s :=
  h.invariant (I := Sound pb services) sound_new fun _ _ _ _ hi hs => sound_step hi hs

/-! ## What a step adds to the logs -/

/-- The answers on connection `k`, in the order in which they were sent. -/
def answersOn (s : Server κ Msg) (k : κ) : List (Answer κ) :=
  s.answered.filter fun a => a.ticket.conn = k

omit [DecidableEq κ] in
/-- The bytes of an answer. -/
def answerBytes (pb : Protobuf Msg) (a : Answer κ) : Bytes :=
  sendRaw ((pb.serializeResponse a.response).getD [])

/-- What a step adds: a frame may add a request, a worker may call the handler of a task that
it has in hand, outcomes come behind those before, and each answer adds its bytes. -/
structure Added (pb : Protobuf Msg) (s : Server κ Msg) (a : Act κ Msg) (s' : Server κ Msg) :
    Prop where
  received : s'.received.map (·.2) = s.received.map (·.2) ++
    match a with
    | .frame _ bytes => (pb.parseRequest bytes).toList
    | _ => []
  grown : Grown s s'
  invoked : s'.invoked = s.invoked ∨
    ∃ r ∈ s.running, s'.invoked = s.invoked ++ [r.task]
  answered : ∃ new : κ → List (Answer κ), ∀ k, answersOn s' k = answersOn s k ++ new k ∧
    s'.handed k = s.handed k ++ (new k).flatMap (answerBytes pb)

/-- A response that is sent adds at most one answer. -/
theorem send_logs (pb : Protobuf Msg) (s : Server κ Msg) (ticket : Ticket κ)
    (resp : RpcResponse) :
    (s.send pb ticket resp).received = s.received ∧ (s.send pb ticket resp).outcomes = s.outcomes ∧
      (s.send pb ticket resp).invoked = s.invoked ∧
      ∃ new : κ → List (Answer κ), ∀ k, answersOn (s.send pb ticket resp) k = answersOn s k ++ new k ∧
        (s.send pb ticket resp).handed k = s.handed k ++ (new k).flatMap (answerBytes pb) := by
  rcases send_cases pb s ticket resp with ⟨body, hser, -, heq⟩ | ⟨-, heq⟩ | ⟨-, heq⟩
  · rw [heq]
    refine ⟨rfl, rfl, rfl,
      fun k => [⟨ticket, resp, .kConnected⟩].filter fun a => a.ticket.conn = k, ?_⟩
    intro k
    unfold answersOn
    by_cases hk : k = ticket.conn
    · subst hk
      simp [answerBytes, hser]
    · have hne : ¬ ticket.conn = k := fun he => hk he.symm
      simp [hk, hne]
  · rw [heq]
    exact ⟨rfl, rfl, rfl, fun _ => [], fun k => by simp [answersOn]⟩
  · rw [heq]
    exact ⟨rfl, rfl, rfl, fun _ => [], fun k => by simp [answersOn]⟩

omit [DecidableEq κ] in
theorem grown_same (h1 : s'.received = s.received) (h2 : s'.outcomes = s.outcomes) : Grown s s' :=
  ⟨fun _ hp => h1 ▸ hp, fun _ ho => h2 ▸ ho⟩

/-- A step that receives and answers nothing. -/
theorem added_quiet {a : Act κ Msg} (ha : ∀ k bytes, a ≠ .frame k bytes)
    (h1 : s'.received = s.received) (h2 : Grown s s')
    (h3 : s'.invoked = s.invoked ∨ ∃ r ∈ s.running, s'.invoked = s.invoked ++ [r.task])
    (h4 : s'.answered = s.answered) (h5 : s'.handed = s.handed) : Added pb s a s' := by
  refine ⟨?_, h2, h3, fun _ => [], ?_⟩
  · cases a with
    | frame k bytes => exact absurd rfl (ha k bytes)
    | _ => simp [h1]
  · intro k
    simp [answersOn, h4, h5]

theorem added_step {a : Act κ Msg} (hs : step pb services threads s a = some s') :
    Added pb s a s' := by
  unfold step at hs
  cases a with
  | frame k bytes =>
    dsimp only at hs
    split at hs
    · cases hs
      unfold onFrame
      split
      · rename_i hnone
        exact ⟨by simp [hnone], grown_same rfl rfl, Or.inl rfl, fun _ => [], by simp⟩
      · rename_i req hreq
        dsimp only
        have hg : Grown s { s with
            received := s.received ++ [(⟨s.received.length, k, req.requestId⟩, req)] } :=
          ⟨fun p hp => List.mem_append_left _ hp, fun _ h => h⟩
        split
        · rename_i resp _
          obtain ⟨h1, h2, h3, h4⟩ := send_logs pb
            { s with received := s.received ++ [(⟨s.received.length, k, req.requestId⟩, req)] }
            ⟨s.received.length, k, req.requestId⟩ resp
          refine ⟨by simp [h1, hreq], ⟨?_, ?_⟩, Or.inl h3, h4⟩
          · rw [h1]
            exact hg.received
          · rw [h2]
            exact hg.outcomes
        · exact ⟨by simp [hreq], ⟨hg.received, hg.outcomes⟩, Or.inl rfl, fun _ => [],
            by simp [answersOn]⟩
    · cases hs
  | take =>
    dsimp only at hs
    split at hs
    · cases hs
    · split at hs
      · cases hs
        exact added_quiet (by simp) rfl (grown_same rfl rfl) (Or.inl rfl) rfl rfl
      · cases hs
  | call i =>
    dsimp only at hs
    split at hs <;> cases hs
    rename_i task hi
    exact added_quiet (by simp) rfl (grown_same rfl rfl)
      (Or.inr ⟨_, List.mem_of_getElem? hi, rfl⟩) rfl rfl
  | finish i controller response =>
    dsimp only at hs
    split at hs <;> cases hs
    exact added_quiet (by simp) rfl ⟨fun _ h => h, fun _ h => List.mem_append_left _ h⟩
      (Or.inl rfl) rfl rfl
  | respond i =>
    dsimp only at hs
    split at hs <;> cases hs
    exact added_quiet (by simp) rfl (grown_same rfl rfl) (Or.inl rfl) rfl rfl
  | swap =>
    obtain ⟨l, hl, rfl⟩ := Option.map_eq_some_iff.mp hs
    exact added_quiet (by simp) rfl (grown_same rfl rfl) (Or.inl rfl) rfl rfl
  | functor =>
    obtain ⟨⟨⟨t, resp⟩, l⟩, hl, rfl⟩ := Option.map_eq_some_iff.mp hs
    obtain ⟨h1, h2, h3, h4⟩ := send_logs pb { s with loop := l } t resp
    exact ⟨by simp [h1], grown_same h1 h2, Or.inl h3, h4⟩
  | setState k state =>
    dsimp only at hs
    split at hs <;> cases hs
    exact added_quiet (by simp) rfl (grown_same rfl rfl) (Or.inl rfl) rfl rfl

/-- A handler is called for a task that the pool was given. -/
theorem invoked_submitted (h : (machine pb services threads).Reach s) :
    ∀ task ∈ s.invoked, Submitted pb services s task := by
  refine h.invariant (I := fun s => ∀ task ∈ s.invoked, Submitted pb services s task) ?_ ?_
  · intro task htask
    cases htask
  · intro s a s' hr hi hs task htask
    obtain ⟨-, hg, hinv, -⟩ := added_step hs
    rcases hinv with hinv | ⟨r, hrun, hinv⟩
    · rw [hinv] at htask
      exact (hi task htask).mono hg
    · rw [hinv] at htask
      rcases List.mem_append.mp htask with htask | htask
      · exact (hi task htask).mono hg
      · rw [List.mem_singleton.mp htask]
        exact ((sound_reach hr).content.running r hrun).1.mono hg

/-! ## The bytes handed to the connections -/

/-- Bytes come behind those that a connection was handed before. -/
theorem Added.handed {a : Act κ Msg} (h : Added pb s a s') (k : κ) :
    s.handed k <+: s'.handed k := by
  obtain ⟨new, hnew⟩ := h.answered
  rw [(hnew k).2]
  exact List.prefix_append _ _

/-- What a connection was handed are its answers, one after another. -/
theorem handed_reach (h : (machine pb services threads).Reach s) (k : κ) :
    s.handed k = (answersOn s k).flatMap (answerBytes pb) := by
  revert k
  refine h.invariant (I := fun s => ∀ k, s.handed k = (answersOn s k).flatMap (answerBytes pb))
    (fun _ => rfl) ?_
  intro s a s' _ hi hs k
  obtain ⟨new, hnew⟩ := (added_step hs).answered
  rw [(hnew k).1, (hnew k).2, hi k, List.flatMap_append]

/-! ## The law -/

omit [DecidableEq κ] in
/-- A reply that `on_frame` sends itself is a failure with the id of the request. -/
theorem onRequest_reply {req : RpcRequest} {resp : RpcResponse}
    (h : onRequest pb services req = .reply resp) :
    resp.success = false ∧ resp.requestId = req.requestId ∧ resp.resultData = [] := by
  unfold onRequest at h
  split at h
  · cases h
    exact ⟨rfl, rfl, rfl⟩
  · split at h
    · cases h
      exact ⟨rfl, rfl, rfl⟩
    · dsimp only at h
      split at h
      · cases h
      · cases h
        exact ⟨rfl, rfl, rfl⟩

omit [DecidableEq κ] in
/-- The pool is given exactly the requests for a registered service that has the method, with
arguments that parse. -/
theorem onRequest_submit_iff {req : RpcRequest} {service : Service Msg} {method : Method Msg}
    {request : Msg} : onRequest pb services req = .submit service method request ↔
      services req.serviceName = some service ∧
        service.findMethodByName req.methodName = some method ∧
        pb.parse method.requestPrototype req.argsData = (request, true) := by
  constructor
  · intro h
    unfold onRequest at h
    split at h
    · cases h
    · rename_i svc hsvc
      split at h
      · cases h
      · rename_i m hm
        dsimp only at h
        split at h
        · rename_i hparse
          simp only [Decision.submit.injEq] at h
          obtain ⟨rfl, rfl, rfl⟩ := h
          exact ⟨hsvc, hm, Prod.ext rfl hparse⟩
        · cases h
  · rintro ⟨hsvc, hm, hparse⟩
    simp [onRequest, hsvc, hm, hparse]

omit [DecidableEq κ] in
/-- A response that was computed carries the id of its request. -/
theorem Computed.requestId (hl : Ledger [] s) {t : Ticket κ} {resp : RpcResponse}
    (h : Computed pb services s t resp) : resp.requestId = t.requestId := by
  obtain ⟨req, hreq, hrep | ⟨_, _, _, controller, response, _, _, rfl⟩⟩ := h
  · rw [(onRequest_reply hrep).2.1, (hl.named _ hreq).1]
  · unfold dispatchResponse
    split <;> rfl

omit [DecidableEq κ] in
/-- A response that was computed is a success exactly when the service and the method exist,
the arguments parse, and the handler did not fail its controller. -/
theorem Computed.success_iff (hl : Ledger [] s) {t : Ticket κ} {resp : RpcResponse}
    (h : Computed pb services s t resp) :
    ∃ req, (t, req) ∈ s.received ∧ (resp.success = true ↔
      ∃ service method, services req.serviceName = some service ∧
        service.findMethodByName req.methodName = some method ∧
        (pb.parse method.requestPrototype req.argsData).2 = true ∧
        ∃ controller response, (t, controller, response) ∈ s.outcomes ∧
          controller.failed = false) := by
  obtain ⟨req, hreq, hcomp⟩ := h
  refine ⟨req, hreq, ?_⟩
  rcases hcomp with hrep | ⟨service, method, request, controller, response, hsub, hout, rfl⟩
  · rw [(onRequest_reply hrep).1]
    constructor
    · intro hfalse
      cases hfalse
    · rintro ⟨service, method, hsvc, hm, hparse, -⟩
      have hsub := onRequest_submit_iff.mpr ⟨hsvc, hm, Prod.ext rfl hparse⟩
      rw [hrep] at hsub
      cases hsub
  · obtain ⟨hsvc, hm, hparse⟩ := onRequest_submit_iff.mp hsub
    constructor
    · intro hsucc
      refine ⟨service, method, hsvc, hm, congrArg Prod.snd hparse, controller, response, hout, ?_⟩
      unfold dispatchResponse at hsucc
      split at hsucc
      · cases hsucc
      · simpa using ‹¬ controller.failed = true›
    · rintro ⟨-, -, -, -, -, controller', response', hout', hok⟩
      have hsame : controller' = controller := by
        have hinj := List.inj_on_of_nodup_map hl.single hout' hout rfl
        simpa using congrArg (fun o => o.2.1) hinj
      rw [hsame] at hok
      simp [dispatchResponse, hok]

/-- The connection and the id of a request. -/
def pair (t : Ticket κ) : κ × UInt32 := (t.conn, t.requestId)

def receivedPairs (s : Server κ Msg) : Multiset (κ × UInt32) :=
  ↑(s.received.map fun p => (p.1.conn, p.2.requestId))

def answeredPairs (s : Server κ Msg) : Multiset (κ × UInt32) :=
  ↑(s.answered.map fun a => pair a.ticket)

/-- What the pool queue, the workers and the loop hold. -/
def heldPairs (s : Server κ Msg) : Multiset (κ × UInt32) :=
  ↑((s.tasks.map fun task => pair task.ticket) ++ (s.running.map fun r => pair r.task.ticket) ++
    s.loop.queued.map fun p => pair p.1)

def droppedPairs (s : Server κ Msg) : Multiset (κ × UInt32) := ↑(s.dropped.map fun p => pair p.1)

def refusedPairs (s : Server κ Msg) : Multiset (κ × UInt32) := ↑(s.refused.map fun p => pair p.1)

omit [DecidableEq κ] in
theorem pairs_eq (h : Ledger [] s) :
    receivedPairs s = answeredPairs s + heldPairs s + droppedPairs s + refusedPairs s := by
  have hnames : (s.received.map fun p => (p.1.conn, p.2.requestId)) =
      (s.received.map (·.1)).map pair := by
    rw [List.map_map]
    apply List.map_congr_left
    intro p hp
    simp [pair, (h.named p hp).1]
  have hperm := (h.placed.map pair).symm
  simp only [List.nil_append, places, List.map_append, List.map_map] at hperm
  unfold receivedPairs answeredPairs heldPairs droppedPairs refusedPairs
  rw [hnames]
  simp only [Multiset.coe_add]
  rw [Multiset.coe_eq_coe]
  classical
  rw [List.perm_iff_count] at hperm ⊢
  intro p
  rw [List.map_map, hperm p]
  simp only [List.count_append, Function.comp_def]
  omega

/-- At every state the requests that were received, each with its connection and its id, are
those that were answered, those that the pool, a worker or the loop holds, those that were
dropped because their connection had left `kConnected`, and those whose response could not be
serialised; and no request is in two of these places. An answer went to the connection of its
request while that was `kConnected`, as the bytes that the connection was handed show, and
carries the id of the request. No handler is called twice for one request. An answer is a
success exactly when the service and the method exist, the arguments parse, and the handler
did not fail its controller. -/
theorem each_request_is_in_one_place (h : (machine pb services threads).Reach s) :
    receivedPairs s = answeredPairs s + heldPairs s + droppedPairs s + refusedPairs s ∧
    (places s).Nodup ∧
    (∀ a ∈ s.answered, a.state = .kConnected ∧ a.response.requestId = a.ticket.requestId) ∧
    (∀ k, s.handed k = (answersOn s k).flatMap (answerBytes pb)) ∧
    (∀ p ∈ s.dropped, p.2 = .kDisconnecting ∨ p.2 = .kDisconnected) ∧
    (∀ p ∈ s.refused, pb.serializeResponse p.2 = none) ∧
    (s.invoked.map (·.ticket)).Nodup ∧
    (∀ a ∈ s.answered, ∃ req, (a.ticket, req) ∈ s.received ∧ (a.response.success = true ↔
      ∃ service method, services req.serviceName = some service ∧
        service.findMethodByName req.methodName = some method ∧
        (pb.parse method.requestPrototype req.argsData).2 = true ∧
        ∃ controller response, (a.ticket, controller, response) ∈ s.outcomes ∧
          controller.failed = false)) := by
  obtain ⟨hl, hc⟩ := sound_reach h
  refine ⟨pairs_eq hl, hl.placed.nodup_iff.mpr hl.nodup, ?_, handed_reach h, ?_, ?_, hl.once, ?_⟩
  · intro a ha
    exact ⟨(hc.answered a ha).2.1, (hc.answered a ha).1.requestId hl⟩
  · intro p hp
    obtain ⟨h1, h2⟩ := hc.dropped p hp
    cases hst : p.2 <;> simp_all
  · intro p hp
    exact (hc.refused p hp).2
  · intro a ha
    exact (hc.answered a ha).1.success_iff hl

/-! ## A request of the hello client -/

/-- The bytes of the request that the hello client makes. -/
def helloFrame : Bytes :=
  (helloProto.serializeRequest
    ⟨"example.HelloService", "SayHello", 1,
      (helloProto.serialize (.helloRequest "World")).getD []⟩).getD []

/-- The request comes in, and a worker calls the handler. -/
def helloCalled : List (Act Unit Hello) :=
  [.setState () .kConnected, .frame () helloFrame, .take, .call 0]

theorem the_hello_request_is_answered :
    ∃ s : Server Unit Hello, (machine helloProto helloServices 1).Reach s ∧
      s.received.map (fun p => p.2.requestId) = [1] ∧
      s.answered.map (fun a => (a.response.requestId, a.response.success)) = [(1, true)] ∧
      (∀ k, s.handed k = (answersOn s k).flatMap (answerBytes helloProto)) := by
  obtain ⟨s, h, hreq, hans⟩ : ∃ s : Server Unit Hello,
      (machine helloProto helloServices 1).Reach s ∧
      s.received.map (fun p => p.2.requestId) = [1] ∧
      s.answered.map (fun a => (a.response.requestId, a.response.success)) = [(1, true)] :=
    Machine.ReachUnder.of_run (helloCalled ++ [.finish 0 .new (.helloResponse "Hello, World!"),
      .respond 0, .swap, .functor]) (by decide +kernel)
  exact ⟨s, h, hreq, hans, (each_request_is_in_one_place h).2.2.2.1⟩

/-- An error text of 2^n bytes. -/
def longText : Nat → String
  | 0 => "a"
  | n + 1 => longText n ++ longText n

theorem longText_size (n : Nat) : (longText n).utf8ByteSize = 2 ^ n := by
  induction n with
  | zero => rfl
  | succ n ih =>
    rw [longText, String.utf8ByteSize_append, ih]
    omega

/-- A response with an error text of 2 GiB is not serialised. -/
theorem longText_refused (id : UInt32) :
    helloProto.serializeResponse (failure id (longText 31)) = none := by
  have hsize : (proto3.putText (longText 31)).length = 2 ^ 31 := longText_size 31
  have hne : longText 31 ≠ "" := by
    intro hempty
    have hzero := longText_size 31
    rw [hempty] at hzero
    cases hzero
  have hlong : 2 ^ 31 ≤ (proto3.putFields (responseFields (failure id (longText 31)))).length := by
    simp only [responseFields, textField, failure, hne, if_false, proto3.putFields,
      List.flatMap_append, List.flatMap_cons, List.flatMap_nil, List.length_append,
      proto3.putField, proto3.putValue, hsize]
    omega
  exact if_neg (Nat.not_lt.mpr hlong)

/-- The handler of the hello request fails its controller with that text. The request is then
in none of the places but with the refused ones. -/
theorem an_unserialisable_response_is_lost :
    ∃ s : Server Unit Hello, (machine helloProto helloServices 1).Reach s ∧
      receivedPairs s ≠ answeredPairs s + heldPairs s + droppedPairs s := by
  obtain ⟨s, h, hreq, hrun, htasks, hfun, hpend, hans, hdrop⟩ : ∃ s : Server Unit Hello,
      (machine helloProto helloServices 1).Reach s ∧ s.received.length = 1 ∧
        (s.running.map fun r => r.progress.isCalled) = [true] ∧
        s.tasks.length = 0 ∧ s.loop.functors.length = 0 ∧ s.loop.pendingFunctors.length = 0 ∧
        s.answered.length = 0 ∧ s.dropped.length = 0 :=
    Machine.ReachUnder.of_run helloCalled (by decide +kernel)
  obtain ⟨connState, tasks, running, ⟨pending, functors⟩, handed, received, invoked, outcomes,
    answered, dropped, refused⟩ := s
  simp only [List.length_eq_zero_iff] at htasks hfun hpend hans hdrop
  subst htasks hfun hpend hans hdrop
  obtain ⟨⟨task, progress⟩, rfl⟩ : ∃ r, running = [r] :=
    List.length_eq_one_iff.mp (by simpa using congrArg List.length hrun)
  cases progress with
  | taken => simp [Progress.isCalled] at hrun
  | finished controller response => simp [Progress.isCalled] at hrun
  | called =>
    have h1 := h.step (a := .finish 0 ⟨true, longText 31⟩ (.helloResponse "")) rfl
    have h2 := h1.step (a := .respond 0) rfl
    have h3 := h2.step (a := .swap) rfl
    have h4 := h3.step (a := .functor) rfl
    refine ⟨_, h4, ?_⟩
    have hresp : dispatchResponse helloProto task.ticket.requestId ⟨true, longText 31⟩
        (.helloResponse "") = failure task.ticket.requestId (longText 31) := rfl
    intro heq
    have hcard := congrArg Multiset.card heq
    simp only [hresp, send, longText_refused, receivedPairs, answeredPairs, heldPairs,
      droppedPairs, EventLoop.queued] at hcard
    simp [advance, hreq] at hcard

end rpc.Server
