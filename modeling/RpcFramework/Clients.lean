-- One server and its clients. Every client is a channel of its own and numbers its
-- calls from 1, so that two clients use the same ids. Other peers may be connected
-- too, and send any bytes. What one client sees of the server is a server that has
-- no other client.
import RpcFramework.ServerShare
import RpcFramework.Session

namespace rpc

open net codec runs

/-- The server, the channels of its clients, and the bytes between them. Each connection has an
input buffer on the server's end; `decoding` is the connection whose bytes the loop of
`Codec::on_message` takes apart. The last two fields count the bytes that have arrived, as those
of `Session` do. -/
structure Clients (κ ι Msg : Type) where
  client : κ → Channel ι Msg
  server : Server κ Msg
  inputBuf : κ → Buffer
  decoding : Option κ
  toServer : κ → Nat
  toClient : κ → Nat

namespace Clients

variable {κ ι Msg : Type} [DecidableEq κ] [DecidableEq ι]

/-! ## The steps -/

/-- The actions: those of a channel and of the server, the reads at both ends of a connection,
a read of what a stranger has sent, and one pass of the loop of `Codec::on_message`. -/
inductive Act (κ ι Msg : Type)
  | client (k : κ) (a : rpc.Act ι)
  | clientRead (k : κ) (n : Nat)
  | handleRead (k : κ) (n : Nat)
  | strangerRead (k : κ) (bytes : Bytes)
  | decode (k : κ)
  | server (a : Server.Act κ Msg)

/-- As for one session. A channel makes one connection, and a frame comes from the codec only. -/
def allowed (s : Clients κ ι Msg) : Act κ ι Msg → Bool
  | .client _ (.readv _ (.data _)) => false
  | .client k (.socket _) => (s.client k).sockets = 0
  | .server (.frame _ _) => false
  | .server .swap => s.decoding = none
  | _ => true

/-- The next bytes of the responses to client `k`, when a read asks for `n`. -/
def nextResponses (s : Clients κ ι Msg) (k : κ) (n : Nat) : Bytes :=
  ((s.server.handed k).drop (s.toClient k)).take n

/-- The next bytes of the requests of client `k`. -/
def nextRequests (s : Clients κ ι Msg) (k : κ) (n : Nat) : Bytes :=
  (((s.client k).wire 0).drop (s.toServer k)).take n

/-- `handle_read` on the connection `k`, when `readv` gives these bytes. -/
def handleRead (s : Clients κ ι Msg) (k : κ) (bytes : Bytes) : Option (Clients κ ι Msg) :=
  if s.decoding = none ∧ s.server.loop.functors = [] ∧ s.server.connState k ≠ .kConnecting ∧
      bytes ≠ [] ∧ bytes.length ≤ (s.inputBuf k).iovTotal then
    some { s with
      inputBuf := Function.update s.inputBuf k ((s.inputBuf k).readFd bytes)
      decoding := some k }
  else none

/-- One pass of the loop of `Codec::on_message` on the connection `k`. -/
def decode (pb : Protobuf Msg) (services : String → Option (Service Msg)) (threads : Nat)
    (s : Clients κ ι Msg) (k : κ) : Option (Clients κ ι Msg) :=
  match codec.pass (s.inputBuf k) with
  | .wait => some { s with decoding := none }
  | .error _ =>
    (Server.step pb services threads s.server
      (.setState k (Session.forceClose (s.server.connState k)))).map fun server =>
        { s with server := server, decoding := none }
  | .frame body rest =>
    (Server.step pb services threads s.server (.frame k body)).map fun server =>
      { s with server := server, inputBuf := Function.update s.inputBuf k rest }

/-- The state after an action. The peers that `stranger` tells are no channels. -/
def step (pb : Protobuf Msg) (args : κ → ι → CallArgs Msg)
    (services : String → Option (Service Msg)) (threads : Nat) (stranger : κ → Bool)
    (s : Clients κ ι Msg) (a : Act κ ι Msg) : Option (Clients κ ι Msg) :=
  if s.allowed a then
    match a with
    | .client k a =>
      ((Channel.machine pb (args k)).step (s.client k) a).map fun client =>
        { s with client := Function.update s.client k client }
    | .clientRead k n =>
      ((Channel.machine pb (args k)).step (s.client k)
        (.readv 0 (.data (s.nextResponses k n)))).map fun client =>
          { s with
            client := Function.update s.client k client
            toClient := Function.update s.toClient k
              (s.toClient k + (s.nextResponses k n).length) }
    | .handleRead k n =>
      if stranger k then none
      else
        (s.handleRead k (s.nextRequests k n)).map fun s' =>
          { s' with
            toServer := Function.update s.toServer k
              (s.toServer k + (s.nextRequests k n).length) }
    | .strangerRead k bytes => if stranger k then s.handleRead k bytes else none
    | .decode k => if s.decoding = some k then s.decode pb services threads k else none
    | .server a =>
      (Server.step pb services threads s.server a).map fun server => { s with server := server }
  else none

/-- The server and its clients as one machine. -/
def machine (pb : Protobuf Msg) (args : κ → ι → CallArgs Msg)
    (services : String → Option (Service Msg)) (threads : Nat) (stranger : κ → Bool) :
    Machine (Clients κ ι Msg) (Act κ ι Msg) where
  init :=
    { client := fun k => Channel.init (args k), server := Server.new,
      inputBuf := fun _ => Buffer.new kInitialSize, decoding := none, toServer := fun _ => 0,
      toClient := fun _ => 0 }
  step := step pb args services threads stranger

variable {pb : Protobuf Msg} {args : κ → ι → CallArgs Msg}
  {services : String → Option (Service Msg)} {threads : Nat} {stranger : κ → Bool}
  {s s' : Clients κ ι Msg} {a : Act κ ι Msg} {k : κ}

/-! ## What a step can do -/

/-- `handle_read` may be called on the connection `k`, and gets these bytes. -/
structure Readable (s : Clients κ ι Msg) (k : κ) (bytes : Bytes) : Prop where
  outside : s.decoding = none
  functors : s.server.loop.functors = []
  opened : s.server.connState k ≠ .kConnecting
  nonempty : bytes ≠ []
  fits : bytes.length ≤ (s.inputBuf k).iovTotal

/-- The changes of the clients and their server, each with its action. -/
inductive Move (pb : Protobuf Msg) (args : κ → ι → CallArgs Msg)
    (services : String → Option (Service Msg)) (threads : Nat) (stranger : κ → Bool)
    (s : Clients κ ι Msg) : Act κ ι Msg → Clients κ ι Msg → Prop
  | client (k : κ) (a : rpc.Act ι) (client : Channel ι Msg) : s.allowed (.client k a) = true →
      (Channel.machine pb (args k)).step (s.client k) a = some client →
      Move pb args services threads stranger s (.client k a)
        { s with client := Function.update s.client k client }
  | clientRead (k : κ) (n : Nat) (client : Channel ι Msg) :
      (Channel.machine pb (args k)).step (s.client k)
        (.readv 0 (.data (s.nextResponses k n))) = some client →
      Move pb args services threads stranger s (.clientRead k n) { s with
        client := Function.update s.client k client
        toClient := Function.update s.toClient k (s.toClient k + (s.nextResponses k n).length) }
  | handleRead (k : κ) (n : Nat) : s.Readable k (s.nextRequests k n) →
      Move pb args services threads stranger s (.handleRead k n) { s with
        inputBuf := Function.update s.inputBuf k ((s.inputBuf k).readFd (s.nextRequests k n))
        decoding := some k
        toServer := Function.update s.toServer k (s.toServer k + (s.nextRequests k n).length) }
  | strangerRead (k : κ) (bytes : Bytes) : stranger k = true → s.Readable k bytes →
      Move pb args services threads stranger s (.strangerRead k bytes) { s with
        inputBuf := Function.update s.inputBuf k ((s.inputBuf k).readFd bytes)
        decoding := some k }
  | decoded (k : κ) : s.decoding = some k → codec.pass (s.inputBuf k) = .wait →
      Move pb args services threads stranger s (.decode k) { s with decoding := none }
  | refused (k : κ) (e : String) (server : Server κ Msg) : s.decoding = some k →
      codec.pass (s.inputBuf k) = .error e →
      Server.step pb services threads s.server
        (.setState k (Session.forceClose (s.server.connState k))) = some server →
      Move pb args services threads stranger s (.decode k)
        { s with server := server, decoding := none }
  | frame (k : κ) (body : Bytes) (rest : Buffer) (server : Server κ Msg) :
      s.decoding = some k → codec.pass (s.inputBuf k) = .frame body rest →
      Server.step pb services threads s.server (.frame k body) = some server →
      Move pb args services threads stranger s (.decode k)
        { s with server := server, inputBuf := Function.update s.inputBuf k rest }
  | server (a : Server.Act κ Msg) (server : Server κ Msg) : s.allowed (.server a) = true →
      Server.step pb services threads s.server a = some server →
      Move pb args services threads stranger s (.server a) { s with server := server }

omit [DecidableEq ι] in
theorem readable_of_handleRead {bytes : Bytes} (h : s.handleRead k bytes = some s') :
    s.Readable k bytes ∧ s' = { s with
      inputBuf := Function.update s.inputBuf k ((s.inputBuf k).readFd bytes)
      decoding := some k } := by
  unfold handleRead at h
  split at h
  · rename_i hready
    obtain ⟨h1, h2, h3, h4, h5⟩ := hready
    cases h
    exact ⟨⟨h1, h2, h3, h4, h5⟩, rfl⟩
  · cases h

theorem move_of_step (hs : step pb args services threads stranger s a = some s') :
    Move pb args services threads stranger s a s' := by
  unfold step at hs
  split at hs
  · rename_i hallow
    cases a with
    | client k a =>
      obtain ⟨client, hclient, rfl⟩ := Option.map_eq_some_iff.mp hs
      exact .client k a client hallow hclient
    | clientRead k n =>
      obtain ⟨client, hclient, rfl⟩ := Option.map_eq_some_iff.mp hs
      exact .clientRead k n client hclient
    | handleRead k n =>
      dsimp only at hs
      split at hs
      · cases hs
      · obtain ⟨s₁, hs₁, rfl⟩ := Option.map_eq_some_iff.mp hs
        obtain ⟨hread, rfl⟩ := readable_of_handleRead hs₁
        exact .handleRead k n hread
    | strangerRead k bytes =>
      dsimp only at hs
      split at hs
      · obtain ⟨hread, rfl⟩ := readable_of_handleRead hs
        exact .strangerRead k bytes ‹_› hread
      · cases hs
    | decode k =>
      dsimp only at hs
      split at hs
      · rename_i hdecoding
        unfold decode at hs
        split at hs
        · cases hs
          exact .decoded k hdecoding ‹_›
        · obtain ⟨server, hserver, rfl⟩ := Option.map_eq_some_iff.mp hs
          exact .refused k _ server hdecoding ‹_› hserver
        · obtain ⟨server, hserver, rfl⟩ := Option.map_eq_some_iff.mp hs
          exact .frame k _ _ server hdecoding ‹_› hserver
      · cases hs
    | server a =>
      obtain ⟨server, hserver, rfl⟩ := Option.map_eq_some_iff.mp hs
      exact .server a server hallow hserver
  · cases hs

/-- The server runs as it does alone. -/
theorem server_reach (h : (machine pb args services threads stranger).Reach s) :
    (Server.machine pb services threads).Reach s.server := by
  refine h.invariant (I := fun s => (Server.machine pb services threads).Reach s.server) .init ?_
  intro s a s' _ hi hs
  cases move_of_step hs with
  | refused k e server _ _ hserver =>
    exact hi.step (a := .setState k (Session.forceClose (s.server.connState k))) hserver
  | frame k body rest server _ _ hserver => exact hi.step (a := .frame k body) hserver
  | server a server _ hserver => exact hi.step (a := a) hserver
  | _ => exact hi

/-! ## What one client sees -/

/-- The session of client `k`. -/
def view (k : κ) (s : Clients κ ι Msg) : Session ι Msg where
  client := s.client k
  server := s.server.share k
  inputBuf := s.inputBuf k
  decoding := s.decoding = some k
  toServer := s.toServer k
  toClient := s.toClient k

/-- The action as which client `k` sees an action. -/
def shown (k : κ) (s : Clients κ ι Msg) : Act κ ι Msg → Option (Session.Act ι Msg)
  | .client k' a => if k' = k then some (.client a) else none
  | .clientRead k' n => if k' = k then some (.clientRead n) else none
  | .handleRead k' n => if k' = k then some (.handleRead n) else none
  | .strangerRead _ _ => none
  | .decode k' => if k' = k then some .decode else none
  | .server a => (Server.shown (Server.alone s.server.received k) k s.server a).map .server

omit [DecidableEq ι] in
theorem allowed_view_client (k : κ) (a : rpc.Act ι) :
    (s.view k).allowed (.client a) = s.allowed (.client k a) := by
  cases a with
  | readv r result => cases result <;> rfl
  | _ => rfl

omit [DecidableEq ι] in
/-- A frame is not seen where there is none, and the loop is seen to come to its functors only
when it has left the codec. -/
theorem allowed_view_server {a : Server.Act κ Msg} {a' : Server.Act Unit Msg}
    (h : s.allowed (.server a) = true)
    (ha : Server.shown (Server.alone s.server.received k) k s.server a = some a') :
    (s.view k).allowed (.server a') = true := by
  cases a with
  | frame k' bytes => cases h
  | swap =>
    cases ha
    simp only [allowed, decide_eq_true_eq] at h
    simp [Session.allowed, view, h]
  | setState k' state =>
    simp only [Server.shown] at ha
    split at ha <;> cases ha
    rfl
  | take =>
    obtain ⟨task, -, hmap⟩ := Option.bind_eq_some_iff.mp ha
    obtain ⟨t, -, rfl⟩ := Option.map_eq_some_iff.mp hmap
    rfl
  | functor =>
    obtain ⟨p, -, hmap⟩ := Option.bind_eq_some_iff.mp ha
    obtain ⟨t, -, rfl⟩ := Option.map_eq_some_iff.mp hmap
    rfl
  | _ =>
    obtain ⟨j, -, rfl⟩ := Option.map_eq_some_iff.mp ha
    rfl

/-- A step, as client `k` sees it. -/
theorem step_view (hk : stranger k = false) (hl : Server.Ledger [] s.server)
    (hm : Move pb args services threads stranger s a s') :
    (Session.machine pb (args k) services threads).stepOrStay (s.view k) (s.shown k a) =
      some (s'.view k) := by
  cases hm with
  | client k' a client hallow hclient =>
    by_cases he : k' = k
    · subst he
      simp only [shown, if_true, Machine.stepOrStay, Session.machine, Session.step,
        allowed_view_client, hallow]
      simp [view, hclient]
    · simp [shown, he, Machine.stepOrStay, view, Function.update_of_ne (Ne.symm he)]
  | clientRead k' n client hclient =>
    by_cases he : k' = k
    · subst he
      have hbytes : (s.view k').nextResponses n = s.nextResponses k' n := rfl
      simp only [shown, if_true, Machine.stepOrStay, Session.machine, Session.step,
        Session.allowed, hbytes]
      simp [view, hclient]
    · simp [shown, he, Machine.stepOrStay, view, Function.update_of_ne (Ne.symm he)]
  | handleRead k' n hread =>
    by_cases he : k' = k
    · subst he
      obtain ⟨houtside, hfunctors, hopened, hbytes, hfits⟩ := hread
      have hnext : (s.view k').nextRequests n = s.nextRequests k' n := rfl
      have hidle : (s.view k').server.loop.functors = [] := by
        simp [view, Server.share, Server.through, EventLoop.filterMap, hfunctors]
      have hstate : (s.server.share k').connState () ≠ .kConnecting := hopened
      simp only [shown, if_true, Machine.stepOrStay, Session.machine, Session.step,
        Session.allowed, hnext, hidle]
      simp [view, houtside, hbytes, hfits, hstate]
    · simp [shown, he, Machine.stepOrStay, view, Function.update_of_ne (Ne.symm he), hread.outside]
  | strangerRead k' bytes hstranger hread =>
    have he : k' ≠ k := by
      rintro rfl
      rw [hk] at hstranger
      cases hstranger
    simp [shown, he, Machine.stepOrStay, view, Function.update_of_ne (Ne.symm he), hread.outside]
  | decoded k' hdecoding hpass =>
    by_cases he : k' = k
    · subst he
      simp [shown, Machine.stepOrStay, Session.machine, Session.step, Session.allowed, view,
        hdecoding, Session.decode, hpass]
    · simp [shown, he, Machine.stepOrStay, view, hdecoding]
  | refused k' e server hdecoding hpass hserver =>
    have hshare := Server.step_share k hl hserver
    by_cases he : k' = k
    · subst he
      simp only [Server.shown, if_true, Machine.stepOrStay, Server.machine] at hshare
      have hstate : (s.server.share k').connState () = s.server.connState k' := rfl
      simp [shown, Machine.stepOrStay, Session.machine, Session.step, Session.allowed, view,
        hdecoding, Session.decode, hpass, hstate, hshare]
    · simp only [Server.shown, he, if_false, Machine.stepOrStay, Option.some.injEq] at hshare
      simp [shown, he, Machine.stepOrStay, view, hdecoding, hshare]
  | frame k' body rest server hdecoding hpass hserver =>
    have hshare := Server.step_share k hl hserver
    by_cases he : k' = k
    · subst he
      simp only [Server.shown, if_true, Machine.stepOrStay, Server.machine] at hshare
      simp [shown, Machine.stepOrStay, Session.machine, Session.step, Session.allowed, view,
        hdecoding, Session.decode, hpass, hshare]
    · simp only [Server.shown, he, if_false, Machine.stepOrStay, Option.some.injEq] at hshare
      simp [shown, he, Machine.stepOrStay, view, hshare, Function.update_of_ne (Ne.symm he)]
  | server a server hallow hserver =>
    have hshare := Server.step_share k hl hserver
    cases ha : Server.shown (Server.alone s.server.received k) k s.server a with
    | none =>
      rw [ha] at hshare
      have hsame : s.server.share k = server.share k := Option.some.inj hshare
      simp [shown, ha, Machine.stepOrStay, view, hsame]
    | some a' =>
      rw [ha] at hshare
      simp only [Machine.stepOrStay, Server.machine] at hshare
      simp only [shown, ha, Option.map_some, Machine.stepOrStay, Session.machine, Session.step,
        allowed_view_server hallow ha, if_true]
      simp [view, hshare]

/-- Client `k` and what it sees of the server are a session. -/
def session (pb : Protobuf Msg) (args : κ → ι → CallArgs Msg)
    (services : String → Option (Service Msg)) (threads : Nat) (hk : stranger k = false) :
    Simulation (machine pb args services threads stranger)
      (Session.machine pb (args k) services threads) where
  view := view k
  shown := shown k
  init := rfl
  step := fun _ _ _ hr hs =>
    step_view hk (Server.sound_reach (server_reach hr)).ledger (move_of_step hs)

end Clients

end rpc
