-- The server at work. When no request comes in any more and no connection changes,
-- the workers and the loop thread come to rest, in whatever order they go on, and
-- then no request is held any more.
import Mathlib.Algebra.BigOperators.Group.List.Basic
import Mathlib.Algebra.GroupWithZero.Nat
import RpcFramework.Progress
import RpcFramework.ServerLedger

namespace rpc

open net codec runs

/-! ## What is left to do -/

/-- How many steps the worker has before its response is queued, and two for the queue. -/
def Progress.left {Msg : Type} : Progress Msg → Nat
  | .taken => 5
  | .called => 4
  | .finished _ _ => 3

namespace Server

variable {κ Msg : Type}

/-- The steps that are left for the requests that the server holds. -/
def workLeft (s : Server κ Msg) : Nat :=
  6 * s.tasks.length + (s.running.map fun r => r.progress.left).sum +
    2 * s.loop.pendingFunctors.length + s.loop.functors.length

/-- The steps of the workers and of the loop thread. A round of the loop that finds an empty
queue is none. -/
def Works (s : Server κ Msg) : Act κ Msg → Prop
  | .take | .call _ | .finish _ _ _ | .respond _ | .functor => True
  | .swap => s.loop.pendingFunctors ≠ []
  | .frame _ _ | .setState _ _ => False

theorem sum_left_eraseIdx {l : List (Running κ Msg)} {i : Nat} {r : Running κ Msg}
    (h : l[i]? = some r) : (l.map fun r => r.progress.left).sum =
      r.progress.left + ((l.eraseIdx i).map fun r => r.progress.left).sum := by
  rw [← ((eraseIdx_perm h).map _).sum_eq, List.map_cons, List.sum_cons]

/-- A worker that goes on has a step less to do. -/
theorem workLeft_advance {s : Server κ Msg} {i : Nat} {r : Running κ Msg}
    (h : s.running[i]? = some r) (r' : Running κ Msg)
    (hlt : r'.progress.left < r.progress.left) :
    (((s.running.eraseIdx i ++ [r']).map fun r => r.progress.left)).sum <
      (s.running.map fun r => r.progress.left).sum := by
  rw [sum_left_eraseIdx h, List.map_append, List.sum_append, List.map_singleton,
    List.sum_singleton]
  omega

variable [DecidableEq κ] {pb : Protobuf Msg} {services : String → Option (Service Msg)}
  {threads : Nat} {s s' : Server κ Msg} {a : Act κ Msg}

theorem send_work (pb : Protobuf Msg) (s : Server κ Msg) (ticket : Ticket κ)
    (resp : RpcResponse) : (s.send pb ticket resp).workLeft = s.workLeft := by
  rcases send_cases pb s ticket resp with ⟨body, -, -, heq⟩ | ⟨-, heq⟩ | ⟨-, heq⟩ <;>
    rw [heq] <;> rfl

theorem workLeft_step (ha : Works s a) (hs : step pb services threads s a = some s') :
    s'.workLeft < s.workLeft := by
  unfold step at hs
  cases a with
  | frame k bytes => exact absurd ha id
  | setState k state => exact absurd ha id
  | take =>
    dsimp only at hs
    split at hs
    · cases hs
    · rename_i task rest htasks
      split at hs
      · cases hs
        simp only [workLeft, htasks, List.map_append, List.sum_append, List.map_singleton,
          List.sum_singleton, List.length_cons, Progress.left]
        omega
      · cases hs
  | call i =>
    dsimp only at hs
    split at hs
    · rename_i task hi
      cases hs
      have := workLeft_advance hi ⟨task, .called⟩ (by
        change 4 < 5
        omega)
      simp only [workLeft, advance]
      omega
    · cases hs
  | finish i controller response =>
    dsimp only at hs
    split at hs
    · rename_i task hi
      cases hs
      have := workLeft_advance hi ⟨task, .finished controller response⟩ (by
        change 3 < 4
        omega)
      simp only [workLeft, advance]
      omega
    · cases hs
  | respond i =>
    dsimp only at hs
    split at hs
    · rename_i task controller response hi
      cases hs
      have hsum := sum_left_eraseIdx hi
      simp only [workLeft, EventLoop.queueInLoop, List.length_append, List.length_singleton]
      simp only [Progress.left] at hsum ⊢
      omega
    · cases hs
  | swap =>
    obtain ⟨l, hl, rfl⟩ := Option.map_eq_some_iff.mp hs
    unfold EventLoop.swap at hl
    split at hl
    · rename_i hempty
      cases hl
      have hpos := List.length_pos_iff.mpr ha
      have hzero := congrArg List.length (List.isEmpty_iff.mp hempty)
      simp only [workLeft, List.length_nil] at hzero ⊢
      omega
    · cases hl
  | functor =>
    obtain ⟨⟨⟨t, resp⟩, l⟩, hl, rfl⟩ := Option.map_eq_some_iff.mp hs
    rw [send_work]
    unfold EventLoop.next at hl
    split at hl
    · cases hl
    · rename_i hfs
      cases hl
      simp only [workLeft, hfs, List.length_cons]
      omega

/-- Where no worker and no functor can go on, nothing waits. A handler may be at rest with
outcomes that it does not give, but not with all of them. -/
theorem idle_of_stuck (pb : Protobuf Msg) (services : String → Option (Service Msg))
    (hthreads : 0 < threads) (htake : step pb services threads s .take = none)
    (hcall : ∀ i, step pb services threads s (.call i) = none)
    (hfinish : ∀ i r, s.running[i]? = some r → r.progress = .called →
      ∃ controller response, step pb services threads s (.finish i controller response) = none)
    (hrespond : ∀ i, step pb services threads s (.respond i) = none)
    (hswap : s.loop.pendingFunctors ≠ [] → step pb services threads s .swap = none)
    (hfunctor : step pb services threads s .functor = none) :
    s.tasks = [] ∧ s.running = [] ∧ s.loop.queued = [] := by
  have hrunning : s.running = [] := by
    by_contra hne
    obtain ⟨⟨task, progress⟩, rest, hr⟩ := List.exists_cons_of_ne_nil hne
    cases progress with
    | taken => simpa [step, hr] using hcall 0
    | called =>
      obtain ⟨controller, response, hnone⟩ := hfinish 0 _ (by rw [hr]; rfl) rfl
      simp [step, hr] at hnone
    | finished controller response => simpa [step, hr] using hrespond 0
  have htasks : s.tasks = [] := by
    by_contra hne
    obtain ⟨task, rest, ht⟩ := List.exists_cons_of_ne_nil hne
    simp [step, ht, hrunning, hthreads] at htake
  have hfunctors : s.loop.functors = [] := by
    by_contra hne
    obtain ⟨f, fs, hf⟩ := List.exists_cons_of_ne_nil hne
    simp [step, EventLoop.next, hf] at hfunctor
  have hpending : s.loop.pendingFunctors = [] := by
    by_contra hne
    simpa [step, EventLoop.swap, hfunctors] using hswap hne
  refine ⟨htasks, hrunning, ?_⟩
  rw [EventLoop.queued, hfunctors, hpending]
  rfl

theorem idle_of_atRest (hthreads : 0 < threads)
    (hrest : (machine pb services threads).AtRest Works s) :
    s.tasks = [] ∧ s.running = [] ∧ s.loop.queued = [] := by
  refine idle_of_stuck pb services hthreads (hrest .take trivial)
    (fun i => hrest (.call i) trivial) ?_ (fun i => hrest (.respond i) trivial)
    (fun hne => hrest .swap hne) (hrest .functor trivial)
  intro i r _ _
  exact ⟨.new, r.task.request, hrest (.finish i .new r.task.request) trivial⟩

/-! ## The law -/

/-- What the workers and the loop thread leave as it was: the requests, the states of the
connections, and that no response on an open connection is dropped. -/
structure Untouched (s s' : Server κ Msg) : Prop where
  received : s'.received = s.received
  connState : s'.connState = s.connState
  dropped : ∀ p ∈ s'.dropped, p ∈ s.dropped ∨ s.connState p.1.conn ≠ .kConnected

omit [DecidableEq κ] in
theorem Untouched.trans {s'' : Server κ Msg} (h : Untouched s s') (h' : Untouched s' s'') :
    Untouched s s'' := by
  refine ⟨h'.received.trans h.received, h'.connState.trans h.connState, ?_⟩
  intro p hp
  rcases h'.dropped p hp with hold | hnew
  · exact h.dropped p hold
  · exact Or.inr (h.connState ▸ hnew)

omit [DecidableEq κ] in
theorem untouched_same (h1 : s'.received = s.received) (h2 : s'.connState = s.connState)
    (h3 : s'.dropped = s.dropped) : Untouched s s' :=
  ⟨h1, h2, fun _ hp => Or.inl (h3 ▸ hp)⟩

theorem untouched_send (pb : Protobuf Msg) (s : Server κ Msg) (ticket : Ticket κ)
    (resp : RpcResponse) : Untouched s (s.send pb ticket resp) := by
  rcases send_cases pb s ticket resp with ⟨body, -, -, heq⟩ | ⟨hcon, heq⟩ | ⟨-, heq⟩
  · rw [heq]
    exact untouched_same rfl rfl rfl
  · rw [heq]
    refine ⟨rfl, rfl, ?_⟩
    intro p hp
    rcases List.mem_append.mp hp with hold | hnew
    · exact Or.inl hold
    · rw [List.mem_singleton.mp hnew]
      exact Or.inr hcon
  · rw [heq]
    exact untouched_same rfl rfl rfl

theorem untouched_step (ha : Works s a) (hs : step pb services threads s a = some s') :
    Untouched s s' := by
  unfold step at hs
  cases a with
  | frame k bytes => exact absurd ha id
  | setState k state => exact absurd ha id
  | swap =>
    obtain ⟨l, -, rfl⟩ := Option.map_eq_some_iff.mp hs
    exact untouched_same rfl rfl rfl
  | functor =>
    obtain ⟨⟨⟨t, resp⟩, l⟩, -, rfl⟩ := Option.map_eq_some_iff.mp hs
    obtain ⟨h1, h2, h3⟩ := untouched_send pb { s with loop := l } t resp
    exact ⟨h1, h2, h3⟩
  | take =>
    dsimp only at hs
    split at hs
    · cases hs
    · split at hs
      · cases hs
        exact untouched_same rfl rfl rfl
      · cases hs
  | _ =>
    dsimp only at hs
    split at hs
    · cases hs
      exact untouched_same rfl rfl rfl
    · cases hs

omit [DecidableEq κ] in
/-- A request that stands in no other place is answered, dropped or refused. -/
theorem settled_of_idle (hl : Ledger [] s)
    (hidle : s.tasks = [] ∧ s.running = [] ∧ s.loop.queued = []) {t : Ticket κ}
    (ht : t ∈ s.received.map (·.1)) :
    t ∈ s.answered.map (·.ticket) ∨ t ∈ s.dropped.map (·.1) ∨ t ∈ s.refused.map (·.1) := by
  have hplace : t ∈ places s := hl.placed.mem_iff.mpr ht
  obtain ⟨h1, h2, h3⟩ := hidle
  simpa [places, h1, h2, h3] using hplace

/-- Left alone, the workers and the loop thread settle every request that was received. In
whatever order they go on, they come to a state in which none is held, and there a request whose
connection is open was answered, unless it was dropped before the connection was opened or its
response cannot be serialised. -/
theorem every_request_is_settled (hthreads : 0 < threads)
    (h : (machine pb services threads).Reach s) :
    (machine pb services threads).Inevitable Works Works (fun s' =>
      s'.received = s.received ∧ heldPairs s' = 0 ∧
      ∀ t ∈ s.received.map (·.1), s.connState t.conn = .kConnected →
        t ∉ s.dropped.map (·.1) → (∃ a ∈ s'.answered, a.ticket = t) ∨
          ∃ resp, (t, resp) ∈ s'.refused ∧ pb.serializeResponse resp = none) s := by
  refine Machine.inevitable_of_measure (r := (· < ·)) Nat.lt_wfRel.wf workLeft
    (I := fun s' => (machine pb services threads).Reach s' ∧ Untouched s s') ?_ ?_
    ⟨h, untouched_same rfl rfl rfl⟩
  · rintro s1 a s2 ⟨hreach, hkept⟩ ha hs
    exact ⟨⟨hreach.step hs, hkept.trans (untouched_step ha hs)⟩, workLeft_step ha hs⟩
  · rintro s' ⟨hreach, hkept⟩ hrest
    have hidle := idle_of_atRest hthreads hrest
    obtain ⟨hl, hc⟩ := sound_reach hreach
    refine ⟨hkept.received, ?_, ?_⟩
    · obtain ⟨h1, h2, h3⟩ := hidle
      simp [heldPairs, h1, h2, h3]
    · intro t ht hopen hnot
      rw [← hkept.received] at ht
      rcases settled_of_idle hl hidle ht with hans | hdrop | href
      · obtain ⟨a, ha, rfl⟩ := List.mem_map.mp hans
        exact Or.inl ⟨a, ha, rfl⟩
      · obtain ⟨p, hp, rfl⟩ := List.mem_map.mp hdrop
        rcases hkept.dropped p hp with hold | hclosed
        · exact absurd (List.mem_map_of_mem hold) hnot
        · exact absurd hopen hclosed
      · obtain ⟨p, hp, rfl⟩ := List.mem_map.mp href
        exact Or.inr ⟨p.2, hp, (hc.refused p hp).2⟩

/-- Two requests come in, and a worker has called the handler of the first. -/
theorem two_requests_are_settled :
    ∃ s : Server Unit Hello, (machine helloProto helloServices 1).Reach s ∧
      s.received.length = 2 ∧ (machine helloProto helloServices 1).Inevitable Works Works
        (fun s' => s'.received = s.received ∧ heldPairs s' = 0) s := by
  obtain ⟨s, h, hlen⟩ : ∃ s : Server Unit Hello, (machine helloProto helloServices 1).Reach s ∧
      s.received.length = 2 :=
    Machine.ReachUnder.of_run (helloCalled ++ [.frame () helloFrame]) (by decide +kernel)
  have hsettled := every_request_is_settled (by decide) h
  exact ⟨s, h, hlen, hsettled.mono fun _ hs' => ⟨hs'.1, hs'.2.1⟩⟩

end Server

end rpc
