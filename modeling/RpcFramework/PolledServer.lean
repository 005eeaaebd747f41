-- The loop around the server. A poll leaves raw pointers to channels in a list, and the loop
-- goes through it. A channel dies with its connection, and the handlers of the channels that
-- come first may close connections that come later.
import Mathlib.Data.List.Nodup
import RpcFramework.ServerCallbacks
import RpcFramework.ServerTables
import RpcFramework.Simulation

namespace rpc.net

open runs

/-! ## The model -/

/-- The size of `events_` at the start. -/
def kInitEventListSize : Nat := 16

/-- A file descriptor that the kernel watches. -/
inductive WatchedFd
  | listener
  | wakeup
  | socket (fd : Nat)
  deriving DecidableEq

/-- A pointer to a channel: the one of the listening socket, the one of the wake-up descriptor,
or that of a connection. -/
inductive ChannelPtr
  | listener
  | wakeup
  | conn (c : Nat)
  deriving DecidableEq

/-- The server in its loop. `events` is the size of `events_`, and `activeChannels` what is left
of `active_channels_`, each with its `revents_`. `handling` tells that the loop goes through that
list, and `current` which connection the handler that runs belongs to. -/
structure PolledServer where
  server : TcpServer
  events : Nat
  activeChannels : List (ChannelPtr × UInt32)
  handling : Bool
  current : Option Nat

namespace PolledServer

def new : PolledServer where
  server := TcpServer.new
  events := kInitEventListSize
  activeChannels := []
  handling := false
  current := none

/-- The pointer that `epoll_wait` gives back with the events of a file descriptor. The kernel
reports what the channel waits for, a hang-up and an error. -/
def reported (s : PolledServer) : WatchedFd × UInt32 → Option (ChannelPtr × UInt32)
  | (.listener, revents) => some (.listener, revents)
  | (.wakeup, revents) => some (.wakeup, revents)
  | (.socket fd, revents) =>
    (s.server.poller.interest fd).bind fun (events, c) =>
      if revents &&& ~~~(events ||| EPOLLERR ||| EPOLLHUP) = 0 then some (.conn c, revents) else none

/-- The connection is still to come in the list. -/
def awaits (s : PolledServer) (c : Nat) : Prop := .conn c ∈ s.activeChannels.map Prod.fst

instance (s : PolledServer) (c : Nat) : Decidable (s.awaits c) :=
  inferInstanceAs (Decidable (_ ∈ _))

/-- What the server does on its own: the tasks of a handler, and the functors when the list is
done. User code runs in a callback, or in a functor of its own. -/
def allowed (s : PolledServer) : TcpServer.Act → Bool
  | .accept _ | .event _ _ | .swap => false
  | .functor | .queuedSend _ _ _ => !s.handling
  | .send _ _ _ | .shutdown _ | .forceClose _ => !s.handling || !s.server.stack.isEmpty
  | .read _ | .write _ | .resume | .returns | .destroy _ => true

/-- `poll` with what `epoll_wait` gives; a timeout or an error gives nothing. `accept`, `wake` and
`event` are `handle_event` of the next channel, and `swap` begins `do_pending_functors`. -/
inductive Act
  | poll (ready : List (WatchedFd × UInt32))
  | accept (connFd : Option Nat)
  | wake
  | event
  | swap
  | server (a : TcpServer.Act)

def step (s : PolledServer) : Act → Option PolledServer
  | .poll ready =>
    if s.handling = false ∧ s.server.polls ∧ ready.length ≤ s.events ∧
        (ready.map Prod.fst).Nodup ∧ ready.all fun w => (s.reported w).isSome then
      some { s with
        activeChannels := ready.filterMap s.reported
        handling := true
        current := none
        -- a list that was filled may have been too short
        events := if ready.length = s.events then s.events * 2 else s.events }
    else none
  | .accept connFd =>
    match s.activeChannels with
    | (.listener, _) :: rest =>
      (s.server.step (.accept connFd)).map fun t =>
        { s with
          server := t
          activeChannels := rest
          current := connFd.map fun _ => s.server.accepts }
    | _ => none
  | .wake =>
    match s.activeChannels with
    | (.wakeup, _) :: rest =>
      if s.server.stack.isEmpty then some { s with activeChannels := rest, current := none }
      else none
    | _ => none
  | .event =>
    match s.activeChannels with
    | (.conn c, revents) :: rest =>
      -- there is no step where the pointer is to a channel that is gone
      (s.server.step (.event c revents)).map fun t =>
        { s with server := t, activeChannels := rest, current := some c }
    | _ => none
  | .swap =>
    if s.handling = true ∧ s.activeChannels.isEmpty then
      (s.server.step .swap).map fun t => { s with server := t, handling := false, current := none }
    else none
  | .server a =>
    if s.allowed a then (s.server.step a).map fun t => { s with server := t } else none

def machine : Machine PolledServer Act where
  init := new
  step := step

variable {s s' : PolledServer} {a : Act} {c : Nat}

/-- What each step has checked. -/
inductive Move (s : PolledServer) : Act → PolledServer → Prop
  | poll {ready : List (WatchedFd × UInt32)} : s.handling = false → s.server.polls = true →
      ready.length ≤ s.events → (ready.map Prod.fst).Nodup →
      (∀ w ∈ ready, (s.reported w).isSome = true) →
      Move s (.poll ready) { s with
        activeChannels := ready.filterMap s.reported
        handling := true
        current := none
        events := if ready.length = s.events then s.events * 2 else s.events }
  | accept {connFd : Option Nat} {revents : UInt32} {rest : List (ChannelPtr × UInt32)}
      {t : TcpServer} : s.activeChannels = (.listener, revents) :: rest →
      s.server.step (.accept connFd) = some t →
      Move s (.accept connFd) { s with
        server := t
        activeChannels := rest
        current := connFd.map fun _ => s.server.accepts }
  | wake {revents : UInt32} {rest : List (ChannelPtr × UInt32)} :
      s.activeChannels = (.wakeup, revents) :: rest → s.server.stack = [] →
      Move s .wake { s with activeChannels := rest, current := none }
  | event {c : Nat} {revents : UInt32} {rest : List (ChannelPtr × UInt32)} {t : TcpServer} :
      s.activeChannels = (.conn c, revents) :: rest → s.server.step (.event c revents) = some t →
      Move s .event { s with server := t, activeChannels := rest, current := some c }
  | swap {t : TcpServer} : s.activeChannels = [] → s.server.step .swap = some t →
      Move s .swap { s with server := t, handling := false, current := none }
  | server {a : TcpServer.Act} {t : TcpServer} : s.allowed a = true → s.server.step a = some t →
      Move s (.server a) { s with server := t }

theorem move_of_step (hs : s.step a = some s') : Move s a s' := by
  cases a with
  | poll ready =>
    dsimp only [step] at hs
    split at hs
    · rename_i hok
      obtain ⟨hhandling, hpolls, hlen, hnodup, hall⟩ := hok
      cases hs
      exact .poll hhandling hpolls hlen hnodup (List.all_eq_true.mp hall)
    · cases hs
  | accept connFd =>
    dsimp only [step] at hs
    split at hs
    · rename_i hactive
      obtain ⟨t, ht, rfl⟩ := Option.map_eq_some_iff.mp hs
      exact .accept hactive ht
    · cases hs
  | wake =>
    dsimp only [step] at hs
    split at hs
    · rename_i hactive
      split at hs
      · rename_i hidle
        cases hs
        exact .wake hactive (List.isEmpty_iff.mp hidle)
      · cases hs
    · cases hs
  | event =>
    dsimp only [step] at hs
    split at hs
    · rename_i hactive
      obtain ⟨t, ht, rfl⟩ := Option.map_eq_some_iff.mp hs
      exact .event hactive ht
    · cases hs
  | swap =>
    dsimp only [step] at hs
    split at hs
    · rename_i hok
      obtain ⟨t, ht, rfl⟩ := Option.map_eq_some_iff.mp hs
      exact .swap (List.isEmpty_iff.mp hok.2) ht
    · cases hs
  | server a =>
    dsimp only [step] at hs
    split at hs
    · obtain ⟨t, ht, rfl⟩ := Option.map_eq_some_iff.mp hs
      exact .server ‹_› ht
    · cases hs

/-- The server in its loop is a server: what holds in every run of it holds here. -/
def bareServer : Simulation machine TcpServer.machine where
  view s := s.server
  shown s a :=
    match a with
    | .poll _ | .wake => none
    | .accept connFd => some (.accept connFd)
    | .event =>
      match s.activeChannels with
      | (.conn c, revents) :: _ => some (.event c revents)
      | _ => none
    | .swap => some .swap
    | .server a => some a
  init := rfl
  step := by
    intro s a s' _ hs
    cases move_of_step hs with
    | poll _ _ _ _ _ => rfl
    | wake _ _ => rfl
    | accept _ ht => exact ht
    | event hactive ht =>
      simp only [hactive]
      exact ht
    | swap _ ht => exact ht
    | server _ ht => exact ht

end PolledServer

end rpc.net
