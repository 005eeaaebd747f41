-- The sockets of the client channel. `connect` opens one and closes it again on
-- each of its failures; `disconnect` and the destructor close the one in use, if
-- `connected_` says that there is one. A reader that sees the connection end stores
-- `connected_ = false` and closes nothing, and so does a `connect` over a socket
-- that is in use.
import Mathlib.Logic.Function.Basic
import RpcFramework.Runs

namespace rpc

open runs

/-! ## The state -/

/-- Where the owner stands: between its calls; inside `connect` in front of `::connect`, `::poll`,
`::getsockopt`, the store of `connected_` and the start of the reader; inside `disconnect`, or
the `disconnect` of the destructor when `final`, in front of `::close` and of the store of
`sockfd_`; or behind the destructor. -/
inductive SocketPc
  | idle
  | connecting | polling | polled | succeeded | starting
  | closing (final : Bool) | resetting (final : Bool)
  | destroyed
  deriving DecidableEq

/-- Where a reader thread stands: at the head of its loop, in `read_fd`, or at a frame. -/
inductive SocketReader
  | absent | loop | reading | parsing | exited
  deriving DecidableEq

/-- The channel as far as its sockets go. Sockets are numbered as `::socket` returns them, and
`none` is the descriptor -1. `closed` has the arguments of `::close` in order. -/
structure ChannelSockets where
  sockfd : Option Nat
  connected : Bool
  owner : SocketPc
  readers : Nat → SocketReader
  started : Nat
  opened : Nat
  closed : List (Option Nat)

namespace ChannelSockets

/-! ## The steps -/

/-- What `::connect` on a non-blocking socket gives. -/
inductive ConnectResult
  | established
  | inProgress
  | failed

inductive Act
  | socket (ok : Bool)
  | connect (res : ConnectResult)
  | poll (ready : Bool)
  | getsockopt (err : Bool)
  | store
  | start
  | exchange (final : Bool)
  | close
  | reset
  | loopHead (r : Nat)
  | readv (r : Nat) (ok : Bool)
  | parse (r : Nat) (ok : Bool)

def init : ChannelSockets where
  sockfd := none
  connected := false
  owner := .idle
  readers := fun _ => .absent
  started := 0
  opened := 0
  closed := []

/-- `::close(sockfd_); sockfd_ = -1; return false;` -/
def giveUp (s : ChannelSockets) : ChannelSockets :=
  { s with closed := s.closed ++ [s.sockfd], sockfd := none, owner := .idle }

def setReader (s : ChannelSockets) (r : Nat) (pc : SocketReader) : ChannelSockets :=
  { s with readers := Function.update s.readers r pc }

/-- Behind `disconnect` the owner goes on, and behind the destructor it is gone. -/
def ownerAfter (final : Bool) : SocketPc := if final then .destroyed else .idle

def step (s : ChannelSockets) : Act → Option ChannelSockets
  | .socket ok =>
    match s.owner with
    | .idle =>
      if ok then
        some { s with sockfd := some s.opened, opened := s.opened + 1, owner := .connecting }
      else some { s with sockfd := none }
    | _ => none
  | .connect res =>
    match s.owner with
    | .connecting =>
      match res with
      | .established => some { s with owner := .succeeded }
      | .inProgress => some { s with owner := .polling }
      | .failed => some s.giveUp
    | _ => none
  | .poll ready =>
    match s.owner with
    | .polling => if ready then some { s with owner := .polled } else some s.giveUp
    | _ => none
  | .getsockopt err =>
    match s.owner with
    | .polled => if err then some s.giveUp else some { s with owner := .succeeded }
    | _ => none
  | .store =>
    match s.owner with
    | .succeeded => some { s with connected := true, owner := .starting }
    | _ => none
  | .start =>
    match s.owner with
    | .starting =>
      some { s.setReader s.started .loop with started := s.started + 1, owner := .idle }
    | _ => none
  | .exchange final =>
    match s.owner with
    | .idle =>
      if s.connected then some { s with connected := false, owner := .closing final }
      else some { s with owner := ownerAfter final }
    | _ => none
  | .close =>
    match s.owner with
    | .closing final =>
      some { s with closed := s.closed ++ [s.sockfd], owner := .resetting final }
    | _ => none
  | .reset =>
    match s.owner with
    | .resetting final => some { s with sockfd := none, owner := ownerAfter final }
    | _ => none
  | .loopHead r =>
    match s.readers r with
    | .loop => some (s.setReader r (if s.connected then .reading else .exited))
    | _ => none
  | .readv r ok =>
    match s.readers r with
    | .reading =>
      if ok then some (s.setReader r .parsing)
      else some { s.setReader r .exited with connected := false }
    | _ => none
  | .parse r ok =>
    match s.readers r with
    | .parsing =>
      if ok then some (s.setReader r .loop)
      else some { s.setReader r .exited with connected := false }
    | _ => none

def machine : Machine ChannelSockets Act := ⟨init, step⟩

/-- The changes of the channel, each with its action and where its thread stood. -/
inductive Move (s : ChannelSockets) : Act → ChannelSockets → Prop
  | socket : s.owner = .idle → Move s (.socket true)
      { s with sockfd := some s.opened, opened := s.opened + 1, owner := .connecting }
  | noSocket : s.owner = .idle → Move s (.socket false) { s with sockfd := none }
  | connect (res : ConnectResult) (pc : SocketPc) : s.owner = .connecting →
      pc = .polling ∨ pc = .succeeded → Move s (.connect res) { s with owner := pc }
  | refused : s.owner = .connecting → Move s (.connect .failed) s.giveUp
  | poll : s.owner = .polling → Move s (.poll true) { s with owner := .polled }
  | timedOut : s.owner = .polling → Move s (.poll false) s.giveUp
  | getsockopt : s.owner = .polled → Move s (.getsockopt false) { s with owner := .succeeded }
  | socketError : s.owner = .polled → Move s (.getsockopt true) s.giveUp
  | store : s.owner = .succeeded →
      Move s .store { s with connected := true, owner := .starting }
  | start : s.owner = .starting →
      Move s .start { s.setReader s.started .loop with started := s.started + 1, owner := .idle }
  | exchange (final : Bool) : s.owner = .idle → s.connected = true →
      Move s (.exchange final) { s with connected := false, owner := .closing final }
  | leave (final : Bool) : s.owner = .idle → s.connected = false →
      Move s (.exchange final) { s with owner := ownerAfter final }
  | close (final : Bool) : s.owner = .closing final →
      Move s .close { s with closed := s.closed ++ [s.sockfd], owner := .resetting final }
  | reset (final : Bool) : s.owner = .resetting final →
      Move s .reset { s with sockfd := none, owner := ownerAfter final }
  | loopHead (r : Nat) (pc : SocketReader) : Move s (.loopHead r) (s.setReader r pc)
  | readv (r : Nat) : Move s (.readv r true) (s.setReader r .parsing)
  | parse (r : Nat) : Move s (.parse r true) (s.setReader r .loop)
  | readvEnds (r : Nat) : Move s (.readv r false) { s.setReader r .exited with connected := false }
  | parseEnds (r : Nat) : Move s (.parse r false) { s.setReader r .exited with connected := false }

variable {s s' : ChannelSockets} {a : Act}

theorem move_of_step (hs : step s a = some s') : Move s a s' := by
  cases a with
  | socket ok =>
    simp only [step] at hs
    split at hs
    · split at hs
      · rename_i hok
        cases hok
        cases hs
        exact .socket ‹_›
      · rename_i hok
        cases Bool.eq_false_iff.mpr hok
        cases hs
        exact .noSocket ‹_›
    · cases hs
  | connect res =>
    simp only [step] at hs
    split at hs
    · cases res with
      | established =>
        cases hs
        exact .connect _ _ ‹_› (Or.inr rfl)
      | inProgress =>
        cases hs
        exact .connect _ _ ‹_› (Or.inl rfl)
      | failed =>
        cases hs
        exact .refused ‹_›
    · cases hs
  | poll ready =>
    simp only [step] at hs
    split at hs
    · cases ready <;> cases hs
      · exact .timedOut ‹_›
      · exact .poll ‹_›
    · cases hs
  | getsockopt err =>
    simp only [step] at hs
    split at hs
    · cases err <;> cases hs
      · exact .getsockopt ‹_›
      · exact .socketError ‹_›
    · cases hs
  | store =>
    simp only [step] at hs
    split at hs
    · cases hs
      exact .store ‹_›
    · cases hs
  | start =>
    simp only [step] at hs
    split at hs
    · cases hs
      exact .start ‹_›
    · cases hs
  | exchange final =>
    simp only [step] at hs
    split at hs
    · split at hs
      · cases hs
        exact .exchange final ‹_› ‹_›
      · cases hs
        exact .leave final ‹_› (Bool.eq_false_iff.mpr ‹_›)
    · cases hs
  | close =>
    simp only [step] at hs
    split at hs
    · cases hs
      exact .close _ ‹_›
    · cases hs
  | reset =>
    simp only [step] at hs
    split at hs
    · cases hs
      exact .reset _ ‹_›
    · cases hs
  | loopHead r =>
    simp only [step] at hs
    split at hs
    · cases hs
      exact .loopHead r _
    · cases hs
  | readv r ok =>
    simp only [step] at hs
    split at hs
    · cases ok <;> cases hs
      · exact .readvEnds r
      · exact .readv r
    · cases hs
  | parse r ok =>
    simp only [step] at hs
    split at hs
    · cases ok <;> cases hs
      · exact .parseEnds r
      · exact .parse r
    · cases hs

/-! ## What a step does to the sockets -/

/-- The owner has a socket that it will close: inside `connect`, in front of a `::close`, or
between its calls, as `connected_` says. -/
def live (s : ChannelSockets) : Bool :=
  match s.owner with
  | .idle => s.connected
  | .connecting | .polling | .polled | .succeeded | .starting | .closing _ => true
  | .resetting _ | .destroyed => false

/-- The newest socket is the one in `sockfd_`, and was not closed. -/
def Open (s : ChannelSockets) : Prop :=
  ∃ fd, s.opened = fd + 1 ∧ s.sockfd = some fd ∧ some fd ∉ s.closed ∧
    ∀ fd' < fd, s.closed.count (some fd') = 1

def AllClosed (s : ChannelSockets) : Prop := ∀ fd < s.opened, s.closed.count (some fd) = 1

structure Good (s : ChannelSockets) : Prop where
  new : ∀ fd, s.opened ≤ fd → some fd ∉ s.closed
  sockets : if s.live then s.Open else s.AllClosed
  flag : s.connected = true → s.owner = .idle ∨ s.owner = .starting
  starting : s.owner = .starting → s.connected = true

theorem good_init : Good init where
  new := by simp [init]
  sockets := by simp [init, live, AllClosed]
  flag := by simp [init]
  starting := by simp [init]

theorem Good.open_of_live (h : Good s) (hl : s.live = true) : s.Open := by
  have hsockets := h.sockets
  rwa [if_pos hl] at hsockets

theorem Good.closed_of_not_live (h : Good s) (hl : s.live = false) : s.AllClosed := by
  have hsockets := h.sockets
  rwa [if_neg (by simp [hl])] at hsockets

/-- Away from the idle owner and the start of a reader, `connected_` is false. -/
theorem Good.not_connected (h : Good s) (howner : ¬ (s.owner = .idle ∨ s.owner = .starting)) :
    s.connected = false := by
  by_contra hconn
  exact howner (h.flag (by simpa using hconn))

/-- `::close` of the socket in use. -/
theorem Open.close (h : s.Open) :
    ∀ fd < s.opened, (s.closed ++ [s.sockfd]).count (some fd) = 1 := by
  obtain ⟨fd, hopened, hsock, hnot, hothers⟩ := h
  intro fd' hfd'
  rw [List.count_append, hsock, List.count_singleton]
  by_cases heq : fd' = fd
  · subst heq
    simp [List.count_eq_zero.mpr hnot]
  · have hlt := hothers fd' (by omega)
    simp [hlt, Ne.symm heq]

theorem Good.new_after_close (h : Good s) (ho : s.Open) :
    ∀ fd, s.opened ≤ fd → some fd ∉ s.closed ++ [s.sockfd] := by
  obtain ⟨fd, hopened, hsock, -⟩ := ho
  intro fd' hfd' hmem
  rw [hsock, List.mem_append, List.mem_singleton] at hmem
  rcases hmem with hold | heq
  · exact h.new fd' hfd' hold
  · cases heq
    omega

theorem Good.giveUp (h : Good s) (hl : s.live = true) (hconn : s.connected = false) :
    Good s.giveUp where
  new := h.new_after_close (h.open_of_live hl)
  sockets := by
    rw [if_neg (by simp [ChannelSockets.giveUp, live, hconn])]
    exact (h.open_of_live hl).close
  flag hc := by
    rw [show s.giveUp.connected = s.connected from rfl, hconn] at hc
    cases hc
  starting ho := by cases ho

/-- A step that leaves the sockets and `connected_` alone, and the owner with the socket that it
had. -/
theorem Good.move (h : Good s) {owner : SocketPc} {readers : Nat → SocketReader} {started : Nat}
    (hlive : { s with owner := owner }.live = s.live)
    (hflag : s.connected = true → owner = .idle ∨ owner = .starting) (hstart : owner ≠ .starting) :
    Good { s with owner := owner, readers := readers, started := started } where
  new := h.new
  sockets := by
    have hsockets := h.sockets
    rw [← hlive] at hsockets
    exact hsockets
  flag := hflag
  starting ho := absurd ho hstart

/-! ## The condition -/

/-- `connect` is called only while the channel is not connected, and no reader sees the end of a
connection, or a bad frame, while it is. -/
def Undisturbed (s : ChannelSockets) : Act → Prop
  | .socket _ => s.connected = false
  | .readv _ ok | .parse _ ok => ok = false → s.connected = false
  | _ => True

instance (s : ChannelSockets) (a : Act) : Decidable (Undisturbed s a) :=
  match a with
  | .socket _ => inferInstanceAs (Decidable (_ = _))
  | .readv _ _ | .parse _ _ => inferInstanceAs (Decidable (_ → _))
  | .connect _ | .poll _ | .getsockopt _ | .store | .start | .exchange _ | .close | .reset
  | .loopHead _ => isTrue trivial

/-- A reader that goes on, or that stores false over false, leaves the sockets alone. -/
theorem Good.setReader (h : Good s) (r : Nat) (pc : SocketReader) : Good (s.setReader r pc) :=
  ⟨h.new, h.sockets, h.flag, h.starting⟩

theorem Good.step (h : Good s) (ha : Undisturbed s a) (hm : Move s a s') : Good s' := by
  cases hm with
  | socket howner =>
    have hconn : s.connected = false := ha
    have hclosed := h.closed_of_not_live (by simp [live, howner, hconn])
    refine ⟨fun fd hfd => h.new fd (by simp at hfd; omega), ?_, by simp [hconn], by simp⟩
    exact ⟨s.opened, rfl, rfl, h.new _ (Nat.le_refl _), hclosed⟩
  | noSocket howner =>
    have hconn : s.connected = false := ha
    refine ⟨h.new, ?_, h.flag, h.starting⟩
    rw [if_neg (by simp [live, howner, hconn])]
    exact h.closed_of_not_live (by simp [live, howner, hconn])
  | connect res pc howner hpc =>
    have hconn := h.not_connected (by simp [howner])
    rcases hpc with rfl | rfl <;>
      exact h.move (by simp [live, howner]) (by simp [hconn]) (by simp)
  | poll howner =>
    have hconn := h.not_connected (by simp [howner])
    exact h.move (by simp [live, howner]) (by simp [hconn]) (by simp)
  | getsockopt howner =>
    have hconn := h.not_connected (by simp [howner])
    exact h.move (by simp [live, howner]) (by simp [hconn]) (by simp)
  | refused howner =>
    exact h.giveUp (by simp [live, howner]) (h.not_connected (by simp [howner]))
  | timedOut howner =>
    exact h.giveUp (by simp [live, howner]) (h.not_connected (by simp [howner]))
  | socketError howner =>
    exact h.giveUp (by simp [live, howner]) (h.not_connected (by simp [howner]))
  | store howner => exact ⟨h.new, h.open_of_live (by simp [live, howner]), by simp, by simp⟩
  | start howner =>
    exact h.move (by simp [live, howner, h.starting howner]) (by simp) (by simp)
  | exchange final howner hconn =>
    exact ⟨h.new, h.open_of_live (by simp [live, howner, hconn]), by simp, by simp⟩
  | leave final howner hconn =>
    refine h.move ?_ (by simp [hconn]) ?_
    · cases final <;> simp [live, howner, ownerAfter, hconn]
    · cases final <;> simp [ownerAfter]
  | close final howner =>
    have hconn := h.not_connected (by simp [howner])
    have hopen := h.open_of_live (by simp [live, howner])
    exact ⟨h.new_after_close hopen, hopen.close, by simp [hconn], by simp⟩
  | reset final howner =>
    have hconn := h.not_connected (by simp [howner])
    refine ⟨h.new, ?_, by simp [hconn], ?_⟩
    · rw [if_neg (by cases final <;> simp [live, ownerAfter, hconn])]
      exact h.closed_of_not_live (by simp [live, howner])
    · cases final <;> simp [ownerAfter]
  | loopHead r pc => exact h.setReader r pc
  | readv r => exact h.setReader r _
  | parse r => exact h.setReader r _
  | readvEnds r =>
    rw [← ha rfl]
    exact h.setReader r _
  | parseEnds r =>
    rw [← ha rfl]
    exact h.setReader r _

/-! ## The law -/

theorem good_reach (h : machine.ReachUnder Undisturbed s) : Good s :=
  h.invariant good_init fun _ _ _ _ hi ha hs => hi.step ha (move_of_step hs)

/-- In a run in which no `connect` and no reader disturbs a connection: no socket is closed twice,
a connected channel has the open socket of the latest `connect`, and behind the destructor each
socket was closed once. -/
theorem every_socket_is_closed_once (h : machine.ReachUnder Undisturbed s) :
    (∀ fd, s.closed.count (some fd) ≤ 1) ∧
      (s.connected = true → ∃ fd, s.sockfd = some fd ∧ s.opened = fd + 1 ∧ some fd ∉ s.closed) ∧
      (s.owner = .destroyed → ∀ fd < s.opened, s.closed.count (some fd) = 1) := by
  have hgood := good_reach h
  refine ⟨?_, ?_, ?_⟩
  · intro fd
    by_cases hfd : s.opened ≤ fd
    · simp [List.count_eq_zero.mpr (hgood.new fd hfd)]
    · cases hl : s.live with
      | false => exact Nat.le_of_eq (hgood.closed_of_not_live hl fd (by omega))
      | true =>
        obtain ⟨last, hopened, -, hnot, hothers⟩ := hgood.open_of_live hl
        by_cases heq : fd = last
        · subst heq
          simp [List.count_eq_zero.mpr hnot]
        · exact Nat.le_of_eq (hothers fd (by omega))
  · intro hconn
    have hl : s.live = true := by
      rcases hgood.flag hconn with ho | ho <;> simp [live, ho, hconn]
    obtain ⟨fd, hopened, hsock, hnot, -⟩ := hgood.open_of_live hl
    exact ⟨fd, hsock, hopened, hnot⟩
  · intro ho
    exact hgood.closed_of_not_live (by simp [live, ho])

/-- A connect that times out, one that succeeds, and the destructor. -/
theorem two_sockets_are_closed_once :
    ∃ s, machine.ReachUnder Undisturbed s ∧ s.owner = .destroyed ∧ s.opened = 2 ∧
      s.closed.count (some 0) = 1 ∧ s.closed.count (some 1) = 1 := by
  obtain ⟨s, hs, ho, hopened⟩ : ∃ s, machine.ReachUnder Undisturbed s ∧ s.owner = .destroyed ∧
      s.opened = 2 :=
    Machine.ReachUnder.of_run [.socket true, .connect .inProgress, .poll false, .socket true,
      .connect .inProgress, .poll true, .getsockopt false, .store, .start, .loopHead 0,
      .exchange true, .readv 0 false, .close, .reset] (by decide +kernel)
  have hclosed := (every_socket_is_closed_once hs).2.2 ho
  exact ⟨s, hs, ho, hopened, hclosed 0 (by omega), hclosed 1 (by omega)⟩

/-- A connect, the end of the connection, and the destructor. -/
theorem a_socket_is_not_closed_after_the_end_of_file :
    ∃ s, machine.Reach s ∧ s.owner = .destroyed ∧ s.opened = 1 ∧ s.closed.count (some 0) = 0 :=
  Machine.ReachUnder.of_run [.socket true, .connect .established, .store, .start, .loopHead 0,
    .readv 0 false, .exchange true] (by decide +kernel)

/-! ## No part of the condition is idle -/

/-- The socket was opened, was not closed, and nobody will close it. -/
def Lost (s : ChannelSockets) (fd : Nat) : Prop :=
  fd < s.opened ∧ some fd ∉ s.closed ∧
    (s.sockfd = some fd →
      s.connected = false ∧ (s.owner = .idle ∨ s.owner = .starting ∨ s.owner = .destroyed))

variable {fd : Nat}

/-- Elsewhere the owner works on another socket. -/
theorem Lost.other (h : s.Lost fd)
    (howner : ¬ (s.owner = .idle ∨ s.owner = .starting ∨ s.owner = .destroyed)) :
    s.sockfd ≠ some fd :=
  fun heq => howner (h.2.2 heq).2

theorem Lost.close (h : s.Lost fd) (hother : s.sockfd ≠ some fd) :
    some fd ∉ s.closed ++ [s.sockfd] := by
  intro hmem
  rw [List.mem_append, List.mem_singleton] at hmem
  rcases hmem with hold | heq
  · exact h.2.1 hold
  · exact hother heq.symm

theorem Lost.giveUp (h : s.Lost fd) (hother : s.sockfd ≠ some fd) : s.giveUp.Lost fd :=
  ⟨h.1, h.close hother, fun heq => (by cases heq)⟩

/-- A step that leaves `closed` and `sockfd_` alone, where the owner works on another socket. -/
theorem Lost.move (h : s.Lost fd) (hother : s.sockfd ≠ some fd) (connected : Bool)
    (owner : SocketPc) : Lost { s with connected := connected, owner := owner } fd :=
  ⟨h.1, h.2.1, fun heq => absurd heq hother⟩

theorem Lost.step (h : s.Lost fd) (hm : Move s a s') : s'.Lost fd := by
  have hlt := h.1
  cases hm with
  | socket _ =>
    refine ⟨Nat.lt_succ_of_lt hlt, h.2.1, fun heq => ?_⟩
    cases heq
    exact absurd hlt (Nat.lt_irrefl _)
  | noSocket _ => exact ⟨hlt, h.2.1, fun heq => (by cases heq)⟩
  | connect res pc howner _ =>
    exact h.move (h.other (by simp [howner])) _ _
  | poll howner =>
    exact h.move (h.other (by simp [howner])) _ _
  | getsockopt howner =>
    exact h.move (h.other (by simp [howner])) _ _
  | store howner =>
    exact h.move (h.other (by simp [howner])) _ _
  | refused howner =>
    exact h.giveUp (h.other (by simp [howner]))
  | timedOut howner =>
    exact h.giveUp (h.other (by simp [howner]))
  | socketError howner =>
    exact h.giveUp (h.other (by simp [howner]))
  | start _ => exact ⟨hlt, h.2.1, fun heq => ⟨(h.2.2 heq).1, Or.inl rfl⟩⟩
  | exchange final _ hconn =>
    refine ⟨hlt, h.2.1, fun heq => ?_⟩
    rw [(h.2.2 heq).1] at hconn
    cases hconn
  | leave final _ _ =>
    refine ⟨hlt, h.2.1, fun heq => ⟨(h.2.2 heq).1, ?_⟩⟩
    cases final <;> simp [ownerAfter]
  | close final howner =>
    have hother := h.other (by simp [howner])
    exact ⟨hlt, h.close hother, fun heq => absurd heq hother⟩
  | reset final _ => exact ⟨hlt, h.2.1, fun heq => (by cases heq)⟩
  | loopHead r pc => exact h
  | readv r => exact h
  | parse r => exact h
  | readvEnds r => exact ⟨hlt, h.2.1, fun heq => ⟨rfl, (h.2.2 heq).2⟩⟩
  | parseEnds r => exact ⟨hlt, h.2.1, fun heq => ⟨rfl, (h.2.2 heq).2⟩⟩

/-- A reader that stores false over a connection loses its socket. -/
theorem Good.lost_by_reader (h : Good s) (hconn : s.connected = true) (r : Nat)
    (pc : SocketReader) :
    ∃ fd < s.opened, { s.setReader r pc with connected := false }.Lost fd := by
  have ho := h.flag hconn
  have hl : s.live = true := by
    rcases ho with ho | ho <;> simp [live, ho, hconn]
  obtain ⟨fd, hopened, -, hnot, -⟩ := h.open_of_live hl
  exact ⟨fd, by omega, by change fd < s.opened; omega, hnot,
    fun _ => ⟨rfl, ho.imp_right Or.inl⟩⟩

/-- After the first `connect` or reader that disturbs a connection there is a socket that no
later step closes, the destructor's included. -/
theorem a_disturbed_socket_is_never_closed (h : machine.ReachUnder Undisturbed s)
    (hs : step s a = some s') (ha : ¬ Undisturbed s a) :
    ∃ fd < s'.opened, ∀ t, machine.Later s' t → some fd ∉ t.closed := by
  have hgood := good_reach h
  have hlost : ∃ fd < s'.opened, s'.Lost fd := by
    have hm := move_of_step hs
    cases hm with
    | socket howner =>
      have hconn : s.connected = true := by simpa [Undisturbed] using ha
      obtain ⟨fd, hopened, -, hnot, -⟩ := hgood.open_of_live (by simp [live, howner, hconn])
      refine ⟨fd, by simp only; omega, by simp only; omega, hnot, fun heq => ?_⟩
      have hfd := Option.some.inj heq
      omega
    | noSocket howner =>
      have hconn : s.connected = true := by simpa [Undisturbed] using ha
      obtain ⟨fd, hopened, -, hnot, -⟩ := hgood.open_of_live (by simp [live, howner, hconn])
      exact ⟨fd, by simp only; omega, by simp only; omega, hnot, fun heq => (by cases heq)⟩
    | readvEnds r => exact hgood.lost_by_reader (by simpa [Undisturbed] using ha) r .exited
    | parseEnds r => exact hgood.lost_by_reader (by simpa [Undisturbed] using ha) r .exited
    | readv r => exact absurd (fun h => nomatch h) ha
    | parse r => exact absurd (fun h => nomatch h) ha
    | _ => exact absurd trivial ha
  obtain ⟨fd, hlt, hfd⟩ := hlost
  refine ⟨fd, hlt, fun t hl => ?_⟩
  exact (hl.keeps (I := fun s => Lost s fd) (fun _ _ _ hi hs => hi.step (move_of_step hs)) hfd).2.1

end ChannelSockets

end rpc
