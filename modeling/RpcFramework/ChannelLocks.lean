-- The two mutexes of the client channel, and the closures that run while they are
-- held or not. A thread is a stack: a closure may call `CallMethod` again, and that
-- call may run a closure, to any depth. The report of a failed write runs the
-- closure under both mutexes, and a call from there must not get as far as `mu_`.
import Mathlib.Logic.Function.Basic
import RpcFramework.Runs

namespace rpc

open runs

/-! ## The state -/

inductive ChannelMutex
  | mu
  | connMu
  deriving DecidableEq

/-- A user of the channel, or the reader thread of a connection. -/
inductive Thread (υ : Type)
  | user (u : υ)
  | reader (r : Nat)
  deriving DecidableEq

/-- Where a function of a thread's stack stands. After `entered` and `checked` a `CallMethod`
knows its `PendingCall` by number.

`CallMethod`: `refused` has run the closure after "not connected"; `storing`, `sending`,
`writeFailed` and `awaiting` are in front of a lock; `inserting`, `writing`, `reporting` and
`testing` are behind it; `waiting` is in `cv.wait`; `unwinding` has run the closure after "write
failed" and still has both guards, and `releasing` has the one of `conn_mu_`.

`on_message`: `looking` and `applied` are in front of a lock, `taking` and `flagging` behind it,
and `notified` has run the closure. -/
inductive Frame
  | entered (hasDone : Bool) | refused | checked (hasDone : Bool)
  | storing (c : Nat) | inserting (c : Nat) | sending (c : Nat) | writing (c : Nat)
  | writeFailed (c : Nat) | reporting (c : Nat) | unwinding | releasing
  | awaiting (c : Nat) | testing (c : Nat) | waiting (c : Nat)
  | looking (id : UInt32) | taking (id : UInt32) | applied (c : Nat) | flagging (c : Nat)
  | notified
  | closure
  | loop | reading | closing | sweeping | parsing
  deriving DecidableEq

/-- The mutex that the function locks next. -/
def Frame.wants : Frame → Option ChannelMutex
  | .storing _ | .writeFailed _ | .awaiting _ | .looking _ | .applied _ | .closing => some .mu
  | .sending _ => some .connMu
  | _ => none

/-- The guards of the function. -/
def Frame.holds : Frame → ChannelMutex → Bool
  | .inserting _, .mu | .testing _, .mu | .taking _, .mu | .flagging _, .mu | .sweeping, .mu => true
  | .writing _, .connMu | .writeFailed _, .connMu | .releasing, .connMu => true
  | .reporting _, _ | .unwinding, _ => true
  | _, _ => false

/-- The function behind the lock. -/
def Frame.locked : Frame → Frame
  | .storing c => .inserting c
  | .sending c => .writing c
  | .writeFailed c => .reporting c
  | .awaiting c => .testing c
  | .looking id => .taking id
  | .applied c => .flagging c
  | .closing => .sweeping
  | f => f

/-- The function has called another one. -/
def Frame.calls : Frame → Bool
  | .refused | .unwinding | .notified | .closure | .parsing => true
  | _ => false

/-- A closure, or a `CallMethod` that has not found the channel connected. -/
def Frame.quiet : Frame → Bool
  | .closure | .entered _ | .refused => true
  | _ => false

/-- A `PendingCall`, with the id under which it is stored. -/
structure Pending where
  requestId : UInt32
  hasDone : Bool
  doneFlag : Bool

/-- The threads and the mutexes. The function that runs comes first in a stack. A user whose stack
is empty is outside the channel, and a reader whose stack is empty has not started or has ended. -/
structure Stacks (υ : Type) where
  readers : Nat
  owner : ChannelMutex → Option (Thread υ)
  stack : Thread υ → List Frame

/-- The channel and its threads. -/
structure ChannelThreads (υ : Type) extends Stacks υ where
  connected : Bool
  nextRequestId : UInt32
  pendingCalls : UInt32 → Option Nat
  pending : Nat → Pending
  made : Nat

/-! ## The steps -/

namespace ChannelThreads

/-- What the inner loop of a reader finds in its buffer. A frame that is no response has no id. -/
inductive Parsed
  | badMagic
  | incomplete
  | message (id : Option UInt32)

inductive Act (υ : Type)
  | connect
  | disconnect
  | call (t : Thread υ) (hasDone : Bool)
  | finish (t : Thread υ)
  | check (t : Thread υ)
  | draw (t : Thread υ)
  | lock (t : Thread υ)
  | insert (t : Thread υ)
  | write (t : Thread υ) (ok : Bool)
  | report (t : Thread υ)
  | unwind (t : Thread υ)
  | release (t : Thread υ)
  | test (t : Thread υ)
  | wake (t : Thread υ)
  | ret (t : Thread υ)
  | loopHead (t : Thread υ)
  | readv (t : Thread υ) (ok : Bool)
  | sweep (t : Thread υ)
  | parse (t : Thread υ) (res : Parsed)
  | take (t : Thread υ)
  | flag (t : Thread υ)

variable {υ : Type} [DecidableEq υ]

def init : ChannelThreads υ where
  connected := false
  nextRequestId := 1
  pendingCalls := fun _ => none
  pending := fun _ => ⟨0, false, false⟩
  made := 0
  owner := fun _ => none
  readers := 0
  stack := fun _ => []

def put (s : ChannelThreads υ) (t : Thread υ) (fs : List Frame) : ChannelThreads υ :=
  { s with stack := Function.update s.stack t fs }

def lock (s : ChannelThreads υ) (t : Thread υ) (m : ChannelMutex) : ChannelThreads υ :=
  { s with owner := Function.update s.owner m (some t) }

def unlock (s : ChannelThreads υ) (m : ChannelMutex) : ChannelThreads υ :=
  { s with owner := Function.update s.owner m none }

/-- `if (done) done->Run()`, in front of what the function does next. -/
def runDone (hasDone : Bool) (fs : List Frame) : List Frame :=
  if hasDone then .closure :: fs else fs

/-- A closure may make any calls, one after the other. A wait may end without a reason. -/
def step (s : ChannelThreads υ) : Act υ → Option (ChannelThreads υ)
  | .connect => some ({ s with connected := true, readers := s.readers + 1 }.put
      (.reader s.readers) [.loop])
  | .disconnect => some { s with connected := false }
  | .call t hasDone =>
    match t, s.stack t with
    | .user _, [] => some (s.put t [.entered hasDone])
    | _, .closure :: rest => some (s.put t (.entered hasDone :: .closure :: rest))
    | _, _ => none
  | .finish t =>
    match s.stack t with
    | .closure :: rest => some (s.put t rest)
    | _ => none
  | .check t =>
    match s.stack t with
    | .entered hasDone :: rest =>
      if s.connected then some (s.put t (.checked hasDone :: rest))
      else some (s.put t (runDone hasDone (.refused :: rest)))
    | _ => none
  | .draw t =>
    match s.stack t with
    | .checked hasDone :: rest =>
      some ({ s with
        nextRequestId := s.nextRequestId + 1
        pending := Function.update s.pending s.made ⟨s.nextRequestId, hasDone, false⟩
        made := s.made + 1 }.put t (.storing s.made :: rest))
    | _ => none
  | .lock t =>
    match s.stack t with
    | f :: rest =>
      match f.wants with
      | some m => if s.owner m = none then some ((s.lock t m).put t (f.locked :: rest)) else none
      | none => none
    | [] => none
  | .insert t =>
    match s.stack t with
    | .inserting c :: rest =>
      some (({ s with
        pendingCalls := Function.update s.pendingCalls (s.pending c).requestId (some c) }.unlock
          .mu).put t (.sending c :: rest))
    | _ => none
  | .write t ok =>
    match s.stack t with
    | .writing c :: rest =>
      if ok then
        some ((s.unlock .connMu).put t
          (if (s.pending c).hasDone then rest else .awaiting c :: rest))
      else some (s.put t (.writeFailed c :: rest))
    | _ => none
  | .report t =>
    match s.stack t with
    | .reporting c :: rest =>
      some ({ s with
        pendingCalls := Function.update s.pendingCalls (s.pending c).requestId none }.put t
          (runDone (s.pending c).hasDone (.unwinding :: rest)))
    | _ => none
  | .unwind t =>
    match s.stack t with
    | .unwinding :: rest => some ((s.unlock .mu).put t (.releasing :: rest))
    | _ => none
  | .release t =>
    match s.stack t with
    | .releasing :: rest => some ((s.unlock .connMu).put t rest)
    | _ => none
  | .test t =>
    match s.stack t with
    | .testing c :: rest =>
      some ((s.unlock .mu).put t (if (s.pending c).doneFlag then rest else .waiting c :: rest))
    | _ => none
  | .wake t =>
    match s.stack t with
    | .waiting c :: rest => some (s.put t (.awaiting c :: rest))
    | _ => none
  | .ret t =>
    match s.stack t with
    | .refused :: rest => some (s.put t rest)
    | .notified :: rest => some (s.put t rest)
    | _ => none
  | .loopHead t =>
    match s.stack t with
    | .loop :: rest => some (s.put t (if s.connected then .reading :: rest else rest))
    | _ => none
  | .readv t ok =>
    match s.stack t with
    | .reading :: rest =>
      if ok then some (s.put t (.parsing :: rest))
      else some ({ s with connected := false }.put t (.closing :: rest))
    | _ => none
  | .sweep t =>
    match s.stack t with
    | .sweeping :: rest =>
      -- the entries of the table are the calls that stand in it under their own id
      some (({ s with
        pending := fun c =>
          if s.pendingCalls (s.pending c).requestId = some c then
            { s.pending c with doneFlag := true }
          else s.pending c }.unlock .mu).put t rest)
    | _ => none
  | .parse t res =>
    match s.stack t with
    | .parsing :: rest =>
      match res with
      | .badMagic => some ({ s with connected := false }.put t rest)
      | .incomplete => some (s.put t (.loop :: rest))
      | .message none => some (s.put t (.parsing :: rest))
      | .message (some id) => some (s.put t (.looking id :: .parsing :: rest))
    | _ => none
  | .take t =>
    match s.stack t with
    | .taking id :: rest =>
      match s.pendingCalls id with
      | none => some ((s.unlock .mu).put t rest)
      | some c =>
        some (({ s with pendingCalls := Function.update s.pendingCalls id none }.unlock .mu).put t
          (.applied c :: rest))
    | _ => none
  | .flag t =>
    match s.stack t with
    | .flagging c :: rest =>
      some (({ s with
        pending := Function.update s.pending c { s.pending c with doneFlag := true } }.unlock
          .mu).put t (runDone (s.pending c).hasDone (.notified :: rest)))
    | _ => none

def machine : Machine (ChannelThreads υ) (Act υ) := ⟨init, step⟩

/-! ## What a step does to one stack -/

/-- The functions that come to stand in the place of one when no mutex is locked or freed. -/
inductive Keeps (connected : Bool) : Frame → List Frame → Prop
  | check (hasDone : Bool) : connected = true →
      Keeps connected (.entered hasDone) [.checked hasDone]
  | refuse (hasDone : Bool) : connected = false →
      Keeps connected (.entered hasDone) (runDone hasDone [.refused])
  | draw (hasDone : Bool) (c : Nat) : Keeps connected (.checked hasDone) [.storing c]
  | writeFailed (c : Nat) : Keeps connected (.writing c) [.writeFailed c]
  | report (c : Nat) (hasDone : Bool) :
      Keeps connected (.reporting c) (runDone hasDone [.unwinding])
  | wake (c : Nat) : Keeps connected (.waiting c) [.awaiting c]
  | refused : Keeps connected .refused []
  | notified : Keeps connected .notified []
  | finish : Keeps connected .closure []
  | call (hasDone : Bool) : Keeps connected .closure [.entered hasDone, .closure]
  | reading : Keeps connected .loop [.reading]
  | stop : Keeps connected .loop []
  | readv : Keeps connected .reading [.parsing]
  | endOfFile : Keeps connected .reading [.closing]
  | badMagic : Keeps connected .parsing []
  | incomplete : Keeps connected .parsing [.loop]
  | noResponse : Keeps connected .parsing [.parsing]
  | message (id : UInt32) : Keeps connected .parsing [.looking id, .parsing]

/-- So when a mutex is freed. -/
inductive Frees : Frame → ChannelMutex → List Frame → Prop
  | insert (c : Nat) : Frees (.inserting c) .mu [.sending c]
  | written (c : Nat) : Frees (.writing c) .connMu []
  | awaiting (c : Nat) : Frees (.writing c) .connMu [.awaiting c]
  | unwind : Frees .unwinding .mu [.releasing]
  | release : Frees .releasing .connMu []
  | answered (c : Nat) : Frees (.testing c) .mu []
  | wait (c : Nat) : Frees (.testing c) .mu [.waiting c]
  | sweep : Frees .sweeping .mu []
  | unknown (id : UInt32) : Frees (.taking id) .mu []
  | take (id : UInt32) (c : Nat) : Frees (.taking id) .mu [.applied c]
  | flag (c : Nat) (hasDone : Bool) : Frees (.flagging c) .mu (runDone hasDone [.notified])

/-- A step of the channel: one thread goes on in its topmost function, locks the mutex that it
wants, frees one, or starts. -/
inductive Move (s : ChannelThreads υ) (a : Act υ) (s' : ChannelThreads υ) : Prop
  | keep {t : Thread υ} {f : Frame} {rest new : List Frame} (htop : s.stack t = f :: rest)
      (hkeeps : Keeps s.connected f new) (hcheck : ∀ d, f = .entered d → a = .check t)
      (hs : s'.toStacks = ⟨s.readers, s.owner, Function.update s.stack t (new ++ rest)⟩)
  | lock {t : Thread υ} {f : Frame} {rest : List Frame} {m : ChannelMutex}
      (htop : s.stack t = f :: rest) (hwants : f.wants = some m) (hfree : s.owner m = none)
      (hs : s'.toStacks = ⟨s.readers, Function.update s.owner m (some t),
        Function.update s.stack t (f.locked :: rest)⟩)
  | free {t : Thread υ} {f : Frame} {rest new : List Frame} {m : ChannelMutex}
      (htop : s.stack t = f :: rest) (hfrees : Frees f m new)
      (hs : s'.toStacks = ⟨s.readers, Function.update s.owner m none,
        Function.update s.stack t (new ++ rest)⟩)
  | enter {u : υ} {hasDone : Bool} (htop : s.stack (.user u) = [])
      (hs : s'.toStacks =
        ⟨s.readers, s.owner, Function.update s.stack (.user u) [.entered hasDone]⟩)
  | start (hs : s'.toStacks =
      ⟨s.readers + 1, s.owner, Function.update s.stack (.reader s.readers) [.loop]⟩)
  | none (hs : s'.toStacks = s.toStacks)

omit [DecidableEq υ] in
theorem runDone_append (hasDone : Bool) (fs rest : List Frame) :
    runDone hasDone fs ++ rest = runDone hasDone (fs ++ rest) := by
  unfold runDone
  split <;> rfl

variable {s s' : ChannelThreads υ} {a : Act υ} {t : Thread υ}

theorem move_of_step (h : step s a = some s') : Move s a s' := by
  cases a with
  | connect =>
    cases h
    exact .start rfl
  | disconnect =>
    cases h
    exact .none rfl
  | call t hasDone =>
    simp only [step] at h
    split at h
    · rename_i hempty
      cases h
      exact .enter hempty rfl
    · rename_i htop
      cases h
      exact .keep htop (.call hasDone) (by simp) rfl
    · cases h
  | finish t =>
    simp only [step] at h
    split at h
    · rename_i htop
      cases h
      exact .keep htop .finish (by simp) rfl
    · cases h
  | check t =>
    simp only [step] at h
    split at h
    · rename_i hasDone rest htop
      split at h
      · rename_i hconn
        cases h
        exact .keep htop (.check hasDone hconn) (fun _ _ => rfl) rfl
      · rename_i hconn
        cases h
        refine .keep htop (.refuse hasDone (by simpa using hconn)) (fun _ _ => rfl) ?_
        rw [runDone_append]
        rfl
    · cases h
  | draw t =>
    simp only [step] at h
    split at h
    · rename_i hasDone rest htop
      cases h
      exact .keep htop (.draw hasDone s.made) (by simp) rfl
    · cases h
  | lock t =>
    simp only [step] at h
    split at h
    · rename_i f rest htop
      split at h
      · rename_i m hwants
        split at h
        · rename_i hfree
          cases h
          exact .lock htop hwants hfree rfl
        · cases h
      · cases h
    · cases h
  | insert t =>
    simp only [step] at h
    split at h
    · rename_i c rest htop
      cases h
      exact .free htop (.insert c) rfl
    · cases h
  | write t ok =>
    simp only [step] at h
    split at h
    · rename_i c rest htop
      split at h
      · cases h
        cases hdone : (s.pending c).hasDone with
        | true => exact .free htop (.written c) rfl
        | false => exact .free htop (.awaiting c) rfl
      · cases h
        exact .keep htop (.writeFailed c) (by simp) rfl
    · cases h
  | report t =>
    simp only [step] at h
    split at h
    · rename_i c rest htop
      cases h
      refine .keep htop (.report c (s.pending c).hasDone) (by simp) ?_
      rw [runDone_append]
      rfl
    · cases h
  | unwind t =>
    simp only [step] at h
    split at h
    · rename_i htop
      cases h
      exact .free htop .unwind rfl
    · cases h
  | release t =>
    simp only [step] at h
    split at h
    · rename_i htop
      cases h
      exact .free htop .release rfl
    · cases h
  | test t =>
    simp only [step] at h
    split at h
    · rename_i c rest htop
      cases h
      cases hflag : (s.pending c).doneFlag with
      | true => exact .free htop (.answered c) rfl
      | false => exact .free htop (.wait c) rfl
    · cases h
  | wake t =>
    simp only [step] at h
    split at h
    · rename_i c rest htop
      cases h
      exact .keep htop (.wake c) (by simp) rfl
    · cases h
  | ret t =>
    simp only [step] at h
    split at h
    · rename_i htop
      cases h
      exact .keep htop .refused (by simp) rfl
    · rename_i htop
      cases h
      exact .keep htop .notified (by simp) rfl
    · cases h
  | loopHead t =>
    simp only [step] at h
    split at h
    · rename_i htop
      cases h
      cases hconn : s.connected with
      | true => exact .keep htop .reading (by simp) (by simp [put, hconn])
      | false => exact .keep htop .stop (by simp) (by simp [put, hconn])
    · cases h
  | readv t ok =>
    simp only [step] at h
    split at h
    · rename_i htop
      split at h
      · cases h
        exact .keep htop .readv (by simp) rfl
      · cases h
        exact .keep htop .endOfFile (by simp) rfl
    · cases h
  | sweep t =>
    simp only [step] at h
    split at h
    · rename_i htop
      cases h
      exact .free htop .sweep rfl
    · cases h
  | parse t res =>
    simp only [step] at h
    split at h
    · rename_i htop
      split at h
      · cases h
        exact .keep htop .badMagic (by simp) rfl
      · cases h
        exact .keep htop .incomplete (by simp) rfl
      · cases h
        exact .keep htop .noResponse (by simp) rfl
      · rename_i id
        cases h
        exact .keep htop (.message id) (by simp) rfl
    · cases h
  | take t =>
    simp only [step] at h
    split at h
    · rename_i id rest htop
      split at h
      · cases h
        exact .free htop (.unknown id) rfl
      · rename_i c hc
        cases h
        exact .free htop (.take id c) rfl
    · cases h
  | flag t =>
    simp only [step] at h
    split at h
    · rename_i c rest htop
      cases h
      refine .free htop (.flag c (s.pending c).hasDone) ?_
      rw [runDone_append]
      rfl
    · cases h

/-! ## Who holds what -/

omit [DecidableEq υ] in
theorem Keeps.held {b : Bool} {f : Frame} {new : List Frame} (h : Keeps b f new)
    (m : ChannelMutex) : new.countP (·.holds m) = [f].countP (·.holds m) := by
  cases h with
  | refuse hasDone _ => cases hasDone <;> rfl
  | report c hasDone => cases hasDone <;> rfl
  | writeFailed c => cases m <;> rfl
  | _ => rfl

omit [DecidableEq υ] in
theorem Frees.held {f : Frame} {m : ChannelMutex} {new : List Frame} (h : Frees f m new) :
    f.holds m = true ∧ new.countP (·.holds m) = 0 ∧
      ∀ m' ≠ m, new.countP (·.holds m') = [f].countP (·.holds m') := by
  cases h with
  | flag c hasDone =>
    refine ⟨rfl, ?_, ?_⟩
    · cases hasDone <;> rfl
    · intro m' hm
      cases m' <;> cases hasDone <;> first | rfl | exact absurd rfl hm
  | _ =>
    refine ⟨rfl, rfl, ?_⟩
    intro m' hm
    cases m' <;> first | rfl | exact absurd rfl hm

omit [DecidableEq υ] in
theorem locked_held {f : Frame} {m : ChannelMutex} (h : f.wants = some m) :
    f.locked.holds m = true ∧ f.holds m = false ∧ ∀ m' ≠ m, f.locked.holds m' = f.holds m' := by
  cases f <;> cases h <;> refine ⟨rfl, rfl, ?_⟩ <;> intro m' hm <;> cases m' <;>
    first | rfl | exact absurd rfl hm

/-- The function that stands lower has called the one above it, and if it has the guard of `mu_`,
nothing but closures and refused calls stand above it. -/
def Under (above below : Frame) : Prop :=
  below.calls = true ∧ (below.holds .mu = true → above.quiet = true)

structure Good (s : Stacks υ) : Prop where
  fresh : ∀ r, s.readers ≤ r → s.stack (.reader r) = []
  counted : ∀ t m, (s.stack t).countP (·.holds m) = if s.owner m = some t then 1 else 0
  stacked : ∀ t, (s.stack t).Pairwise Under

theorem good_init : Good (init : ChannelThreads υ).toStacks where
  fresh _ _ := rfl
  counted t m := by simp [init]
  stacked t := List.Pairwise.nil

/-- One thread goes on, and the mutexes stay with the other threads. -/
theorem Good.counted_update (h : Good s.toStacks) {fs : List Frame}
    {owner' : ChannelMutex → Option (Thread υ)}
    (hself : ∀ m, fs.countP (·.holds m) = if owner' m = some t then 1 else 0)
    (hothers : ∀ u ≠ t, ∀ m, owner' m = some u ↔ s.owner m = some u) (u : Thread υ)
    (m : ChannelMutex) :
    (Function.update s.stack t fs u).countP (·.holds m) = if owner' m = some u then 1 else 0 := by
  by_cases hu : u = t
  · subst hu
    rw [Function.update_self]
    exact hself m
  · rw [Function.update_of_ne hu, h.counted u m]
    simp only [hothers u hu m]

omit [DecidableEq υ] in
theorem stacked_update {fs : List Frame} (h : ∀ u, (s.stack u).Pairwise Under) [DecidableEq υ]
    (hself : fs.Pairwise Under) (u : Thread υ) :
    (Function.update s.stack t fs u).Pairwise Under := by
  by_cases hu : u = t
  · subst hu
    rwa [Function.update_self]
  · rw [Function.update_of_ne hu]
    exact h u

/-- A reader that has not started does not take part. -/
theorem Good.fresh_update (h : Good s.toStacks) {f : Frame} {rest fs : List Frame}
    (htop : s.stack t = f :: rest) (r : Nat) (hr : s.readers ≤ r) :
    Function.update s.stack t fs (.reader r) = [] := by
  have hempty := h.fresh r hr
  rw [Function.update_of_ne]
  · exact hempty
  · rintro rfl
    rw [htop] at hempty
    cases hempty

/-- Who has a guard in its stack is the owner of the mutex. -/
theorem Good.owner_of_mem (h : Good s.toStacks) {g : Frame} (hg : g ∈ s.stack t) {m : ChannelMutex}
    (hm : g.holds m = true) : s.owner m = some t := by
  have hcount := h.counted t m
  have hpos : 0 < (s.stack t).countP (·.holds m) := List.countP_pos_iff.mpr ⟨g, hg, hm⟩
  split at hcount
  · assumption
  · omega

/-- A function that is not quiet has no guard of `mu_` below it. -/
theorem Good.no_guard_below (h : Good s.toStacks) {f : Frame} {rest : List Frame}
    (htop : s.stack t = f :: rest) (hf : f.quiet = false) : ∀ g ∈ rest, g.holds .mu = false := by
  intro g hg
  have hstack := h.stacked t
  rw [htop] at hstack
  have hunder := (List.pairwise_cons.mp hstack).1 g hg
  cases hmu : g.holds .mu with
  | false => rfl
  | true =>
    rw [hunder.2 hmu] at hf
    cases hf

/-- What was called may stand on what has called it. -/
theorem stacked_two {above below : Frame} (hcalls : below.calls = true)
    (hquiet : below.holds .mu = true → above.quiet = true) : [above, below].Pairwise Under :=
  List.pairwise_pair.mpr ⟨hcalls, hquiet⟩

theorem runDone_stacked {f : Frame} (hasDone : Bool) (hcalls : f.calls = true) :
    (runDone hasDone [f]).Pairwise Under := by
  cases hasDone with
  | false => exact List.pairwise_singleton ..
  | true => exact stacked_two hcalls fun _ => rfl

omit [DecidableEq υ] in
theorem Keeps.stacked {b : Bool} {f : Frame} {new : List Frame} (h : Keeps b f new) :
    new.Pairwise Under := by
  cases h with
  | refuse hasDone _ => exact runDone_stacked hasDone rfl
  | report c hasDone => exact runDone_stacked hasDone rfl
  | call hasDone => exact stacked_two rfl fun _ => rfl
  | message id => exact stacked_two rfl fun hmu => (by cases hmu)
  | _ => simp

omit [DecidableEq υ] in
/-- What is quiet stays so, while the channel is not connected. -/
theorem Keeps.quiet {b : Bool} {f : Frame} {new : List Frame} (h : Keeps b f new)
    (hf : f.quiet = true) (hb : ∀ d, f = .entered d → b = false) :
    ∀ g ∈ new, g.quiet = true := by
  cases h with
  | check hasDone hconn => rw [hb hasDone rfl] at hconn; cases hconn
  | refuse hasDone _ => cases hasDone <;> simp [runDone, Frame.quiet]
  | call hasDone => simp [Frame.quiet]
  | refused => simp
  | finish => simp
  | _ => cases hf

omit [DecidableEq υ] in
theorem Frees.stacked {f : Frame} {m : ChannelMutex} {new : List Frame} (h : Frees f m new) :
    f.quiet = false ∧ new.Pairwise Under := by
  cases h with
  | flag c hasDone => exact ⟨rfl, runDone_stacked hasDone rfl⟩
  | _ => exact ⟨rfl, by simp⟩

omit [DecidableEq υ] in
theorem quiet_of_wants {f : Frame} {m : ChannelMutex} (h : f.wants = some m) : f.quiet = false := by
  cases f <;> first | rfl | cases h

omit [DecidableEq υ] in
/-- Other functions come to stand where one stood. -/
theorem stacked_replace {f : Frame} {rest new : List Frame} (h : (f :: rest).Pairwise Under)
    (hnew : new.Pairwise Under)
    (hquiet : ∀ g ∈ rest, g.holds .mu = true → ∀ n ∈ new, n.quiet = true) :
    (new ++ rest).Pairwise Under := by
  obtain ⟨hunder, hrest⟩ := List.pairwise_cons.mp h
  refine List.pairwise_append.mpr ⟨hnew, hrest, ?_⟩
  intro n hn g hg
  exact ⟨(hunder g hg).1, fun hmu => hquiet g hg hmu n hn⟩

/-! ## The condition -/

/-- A `CallMethod` that is entered while its thread holds `mu_` finds the channel not connected. -/
def NestedRefused (s : ChannelThreads υ) : Act υ → Prop
  | .check t => s.owner .mu = some t → s.connected = false
  | _ => True

instance (s : ChannelThreads υ) (a : Act υ) : Decidable (NestedRefused s a) :=
  match a with
  | .check _ => inferInstanceAs (Decidable (_ → _))
  | .connect | .disconnect | .call _ _ | .finish _ | .draw _ | .lock _ | .insert _ | .write _ _
  | .report _ | .unwind _ | .release _ | .test _ | .wake _ | .ret _ | .loopHead _ | .readv _ _
  | .sweep _ | .parse _ _ | .take _ | .flag _ => isTrue trivial

theorem Good.step (h : Good s.toStacks) (ha : NestedRefused s a) (hs : step s a = some s') :
    Good s'.toStacks := by
  cases move_of_step hs with
  | @keep t f rest new htop hkeeps hcheck hs =>
    rw [hs]
    have htopstack := h.stacked t
    rw [htop] at htopstack
    refine ⟨?_, ?_, ?_⟩
    · exact h.fresh_update htop
    · refine h.counted_update ?_ fun _ _ _ => Iff.rfl
      intro m
      rw [← h.counted t m, htop, List.countP_append, hkeeps.held, ← List.countP_append]
      rfl
    · refine stacked_update h.stacked (stacked_replace htopstack hkeeps.stacked ?_)
      intro g hg hmu
      have hquiet := ((List.pairwise_cons.mp htopstack).1 g hg).2 hmu
      refine hkeeps.quiet hquiet fun d hd => ?_
      -- the call is made from a closure that runs under the guards
      have hact := hcheck d hd
      subst hact
      exact ha (h.owner_of_mem (by rw [htop]; exact List.mem_cons_of_mem f hg) hmu)
  | @lock t f rest m htop hwants hfree hs =>
    rw [hs]
    obtain ⟨hheld, hnot, hother⟩ := locked_held hwants
    have htopstack := h.stacked t
    rw [htop] at htopstack
    refine ⟨?_, ?_, ?_⟩
    · exact h.fresh_update htop
    · dsimp only
      refine h.counted_update ?_ ?_
      · intro m'
        have hcount := h.counted t m'
        rw [htop, List.countP_cons] at hcount
        rw [List.countP_cons]
        by_cases hm : m' = m
        · subst hm
          rw [hnot, hfree] at hcount
          rw [hheld, Function.update_self]
          simpa using hcount
        · rw [hother m' hm, Function.update_of_ne hm]
          exact hcount
      · intro u hu m'
        by_cases hm : m' = m
        · subst hm
          rw [Function.update_self, hfree]
          simp [Ne.symm hu]
        · rw [Function.update_of_ne hm]
    · refine stacked_update h.stacked (stacked_replace htopstack
        (List.pairwise_singleton Under f.locked) ?_)
      intro g hg hmu
      rw [h.no_guard_below htop (quiet_of_wants hwants) g hg] at hmu
      cases hmu
  | @free t f rest new m htop hfrees hs =>
    rw [hs]
    obtain ⟨hheld, hnone, hother⟩ := hfrees.held
    obtain ⟨hloud, hnew⟩ := hfrees.stacked
    have hmine : s.owner m = some t := h.owner_of_mem (by rw [htop]; simp) hheld
    have htopstack := h.stacked t
    rw [htop] at htopstack
    refine ⟨?_, ?_, ?_⟩
    · exact h.fresh_update htop
    · dsimp only
      refine h.counted_update ?_ ?_
      · intro m'
        have hcount := h.counted t m'
        rw [htop, List.countP_cons] at hcount
        rw [List.countP_append]
        by_cases hm : m' = m
        · subst hm
          rw [hheld, hmine] at hcount
          rw [hnone, Function.update_self]
          simpa using hcount
        · rw [hother m' hm, Function.update_of_ne hm, ← hcount, List.countP_singleton]
          omega
      · intro u hu m'
        by_cases hm : m' = m
        · subst hm
          rw [Function.update_self, hmine]
          simp [Ne.symm hu]
        · rw [Function.update_of_ne hm]
    · refine stacked_update h.stacked (stacked_replace htopstack hnew ?_)
      intro g hg hmu
      rw [h.no_guard_below htop hloud g hg] at hmu
      cases hmu
  | @enter u hasDone htop hs =>
    rw [hs]
    refine ⟨?_, ?_, ?_⟩
    · intro r hr
      dsimp only at hr ⊢
      rw [Function.update_of_ne (by simp)]
      exact h.fresh r hr
    · refine h.counted_update ?_ fun _ _ _ => Iff.rfl
      intro m
      rw [← h.counted (.user u) m, htop]
      rfl
    · exact stacked_update h.stacked (List.pairwise_singleton _ _)
  | start hs =>
    rw [hs]
    refine ⟨?_, ?_, ?_⟩
    · intro r hr
      dsimp only at hr ⊢
      rw [Function.update_of_ne (by simp; omega)]
      exact h.fresh r (by omega)
    · refine h.counted_update ?_ fun _ _ _ => Iff.rfl
      intro m
      rw [← h.counted (.reader s.readers) m, h.fresh s.readers (Nat.le_refl _)]
      rfl
    · exact stacked_update h.stacked (List.pairwise_singleton _ _)
  | none hs =>
    rw [hs]
    exact h

/-! ## The law -/

/-- The next thing that the thread does is to lock the mutex. -/
def TriesToLock (s : ChannelThreads υ) (t : Thread υ) (m : ChannelMutex) : Prop :=
  (s.stack t).head?.bind Frame.wants = some m

instance (s : ChannelThreads υ) (t : Thread υ) (m : ChannelMutex) :
    Decidable (s.TriesToLock t m) := inferInstanceAs (Decidable (_ = _))

omit [DecidableEq υ] in
theorem TriesToLock.top {m : ChannelMutex} (h : s.TriesToLock t m) :
    ∃ f rest, s.stack t = f :: rest ∧ f.wants = some m := by
  unfold TriesToLock at h
  cases htop : s.stack t with
  | nil => simp [htop] at h
  | cons f rest => exact ⟨f, rest, rfl, by simpa [htop] using h⟩

omit [DecidableEq υ] in
theorem no_guard_of_wants {f : Frame} {m : ChannelMutex} (h : f.wants = some m) :
    f.holds .mu = false := by
  cases f <;> first | rfl | cases h

omit [DecidableEq υ] in
/-- A function that has called another one has both guards or none. -/
theorem no_guard_of_calls {f : Frame} {m : ChannelMutex} (h : f.calls = true)
    (hmu : f.holds .mu = false) : f.holds m = false := by
  cases f <;> cases m <;>
    first | rfl | exact absurd hmu (Ne.symm Bool.false_ne_true) | exact absurd h Bool.false_ne_true

/-- A thread in front of a lock does not hold the mutex, and does not hold `mu_` at all. -/
theorem Good.not_owner (h : Good s.toStacks) {m : ChannelMutex} (ht : s.TriesToLock t m) :
    s.owner .mu ≠ some t ∧ s.owner m ≠ some t := by
  obtain ⟨f, rest, htop, hwants⟩ := ht.top
  have hbelow := h.no_guard_below htop (quiet_of_wants hwants)
  have hguard : ∀ m', s.owner m' = some t → f.holds m' = true ∨ ∃ g ∈ rest, g.holds m' = true := by
    intro m' howner
    have hcount := h.counted t m'
    rw [if_pos howner, htop] at hcount
    obtain ⟨g, hg, hm⟩ := List.countP_pos_iff.mp (by omega : 0 < (f :: rest).countP (·.holds m'))
    rcases List.mem_cons.mp hg with rfl | hg
    · exact Or.inl hm
    · exact Or.inr ⟨g, hg, hm⟩
  refine ⟨?_, ?_⟩
  · intro howner
    rcases hguard .mu howner with hf | ⟨g, hg, hmu⟩
    · rw [no_guard_of_wants hwants] at hf
      cases hf
    · rw [hbelow g hg] at hmu
      cases hmu
  · intro howner
    rcases hguard m howner with hf | ⟨g, hg, hm⟩
    · rw [(locked_held hwants).2.1] at hf
      cases hf
    · have hstack := h.stacked t
      rw [htop] at hstack
      have hcalls := ((List.pairwise_cons.mp hstack).1 g hg).1
      rw [no_guard_of_calls hcalls (hbelow g hg)] at hm
      cases hm

theorem good_reach (h : machine.ReachUnder NestedRefused s) : Good s.toStacks :=
  h.invariant (I := fun s => Good s.toStacks) good_init fun _ _ _ _ hi ha hs => hi.step ha hs

/-- When every call that a closure makes under `mu_` finds the channel not connected: no thread
tries to lock a mutex that it holds, and no two threads wait for each other's. -/
theorem the_mutexes_never_deadlock (h : machine.ReachUnder NestedRefused s) :
    (∀ t m, s.TriesToLock t m → s.owner m ≠ some t) ∧
      ∀ t u m m', t ≠ u → s.TriesToLock t m → s.owner m = some u → s.TriesToLock u m' →
        s.owner m' ≠ some t := by
  have hgood := good_reach h
  refine ⟨fun t m ht => (hgood.not_owner ht).2, ?_⟩
  intro t u m m' htu ht hu hu' ht'
  -- who waits holds `conn_mu_` at most, and it has one owner
  cases m with
  | mu => exact (hgood.not_owner hu').1 hu
  | connMu =>
    cases m' with
    | mu => exact (hgood.not_owner ht).1 ht'
    | connMu => exact htu (Option.some.inj (ht'.symm.trans hu))

/-- A user calls with a closure, its write fails, and the closure runs under both mutexes. -/
def failedWrite : List (Act Unit) :=
  [.connect, .call (.user ()) true, .check (.user ()), .draw (.user ()), .lock (.user ()),
    .insert (.user ()), .lock (.user ()), .write (.user ()) false, .lock (.user ()),
    .report (.user ())]

/-- The channel is disconnected before the closure calls again. Meanwhile its reader waits for
`mu_`. -/
theorem a_closure_is_refused_under_the_mutexes :
    ∃ s : ChannelThreads Unit, machine.ReachUnder NestedRefused s ∧
      s.owner .mu = some (.user ()) ∧ s.TriesToLock (.reader 0) .mu ∧
      s.owner .mu ≠ some (.reader 0) := by
  obtain ⟨s, hs, howner, hwaits⟩ : ∃ s : ChannelThreads Unit,
      machine.ReachUnder NestedRefused s ∧ s.owner .mu = some (.user ()) ∧
        s.TriesToLock (.reader 0) .mu :=
    Machine.ReachUnder.of_run (failedWrite ++ [.loopHead (.reader 0), .readv (.reader 0) false,
      .call (.user ()) true, .check (.user ())]) (by decide +kernel)
  exact ⟨s, hs, howner, hwaits, (the_mutexes_never_deadlock hs).1 _ _ hwaits⟩

/-- The closure calls again while the channel still counts as connected. -/
theorem a_closure_waits_for_its_own_thread :
    ∃ s : ChannelThreads Unit, machine.Reach s ∧ s.TriesToLock (.user ()) .mu ∧
      s.owner .mu = some (.user ()) :=
  Machine.ReachUnder.of_run (failedWrite ++ [.call (.user ()) true, .check (.user ()),
    .draw (.user ())]) (by decide +kernel)

/-- A call that has found the channel connected draws its id and comes to its first lock. -/
theorem tries_after_draw {hasDone : Bool} {rest : List Frame}
    (htop : s.stack t = .checked hasDone :: rest) :
    ∃ s', step s (.draw t) = some s' ∧ s'.TriesToLock t .mu ∧ s'.owner = s.owner := by
  simp only [step, htop]
  refine ⟨_, rfl, ?_, rfl⟩
  unfold TriesToLock put
  dsimp only
  rw [Function.update_self]
  rfl

/-- Whenever such a call finds the channel connected, its thread goes on to lock `mu_` again. -/
theorem a_nested_call_locks_again (hs : step s a = some s') (ha : ¬ NestedRefused s a) :
    ∃ t s'', step s' (.draw t) = some s'' ∧ s''.TriesToLock t .mu ∧ s''.owner .mu = some t := by
  cases a with
  | check t =>
    simp only [NestedRefused, Classical.not_imp, Bool.not_eq_false] at ha
    obtain ⟨howner, hconn⟩ := ha
    simp only [step] at hs
    split at hs
    · rename_i hasDone rest htop
      rw [if_pos hconn] at hs
      cases hs
      obtain ⟨s'', hdraw, htries, hsame⟩ :=
        tries_after_draw (s := s.put t (.checked hasDone :: rest)) (Function.update_self ..)
      exact ⟨t, s'', hdraw, htries, by rw [hsame]; exact howner⟩
    · cases hs
  | _ => exact absurd trivial ha

end ChannelThreads

end rpc
