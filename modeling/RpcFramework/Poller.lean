-- Channels and the poller. A channel knows the interest of its owner; the
-- poller keeps a map from file descriptors to channels, and tells the kernel.
-- The index of a channel decides which of the three `epoll_ctl` operations an
-- update takes, and an operation that the kernel refuses is passed over.
import Mathlib.Logic.Function.Basic

namespace rpc.net

/-! ## The model -/

def EPOLLIN : UInt32 := 0x001

def EPOLLPRI : UInt32 := 0x002

def EPOLLOUT : UInt32 := 0x004

def EPOLLERR : UInt32 := 0x008

def EPOLLHUP : UInt32 := 0x010

def EPOLLRDHUP : UInt32 := 0x2000

def kNoneEvent : UInt32 := 0

def kReadEvent : UInt32 := EPOLLIN ||| EPOLLPRI

def kWriteEvent : UInt32 := EPOLLOUT

/-- Whether the poller knows a channel, and whether the kernel does. -/
inductive ChannelIndex
  | kNew | kAdded | kDeleted
  deriving DecidableEq

structure Channel where
  fd : Nat
  events : UInt32
  index : ChannelIndex
  deriving DecidableEq

namespace Channel

def new (fd : Nat) : Channel := ⟨fd, kNoneEvent, .kNew⟩

def isWriting (ch : Channel) : Bool := ch.events &&& kWriteEvent ≠ 0

def isNoneEvent (ch : Channel) : Bool := ch.events = kNoneEvent

end Channel

/-- The poller over channels named by `κ`, with the interest list of the kernel: the events
and the channel that were last given for a file descriptor. -/
structure EpollPoller (κ : Type) where
  channels : Nat → Option κ
  interest : Nat → Option (UInt32 × κ)

inductive EpollOp
  | add | mod | del
  deriving DecidableEq

namespace EpollPoller

variable {κ : Type}

def new : EpollPoller κ := ⟨fun _ => none, fun _ => none⟩

/-- What the kernel demands of each operation. Otherwise it returns an error. -/
def legal (p : EpollPoller κ) (op : EpollOp) (ch : Channel) : Bool :=
  match op with
  | .add => (p.interest ch.fd).isNone
  | .mod | .del => (p.interest ch.fd).isSome

/-- `epoll_ctl`. On an error nothing happens. -/
def epollCtl (p : EpollPoller κ) (op : EpollOp) (c : κ) (ch : Channel) : EpollPoller κ :=
  if p.legal op ch then
    { p with
      interest := Function.update p.interest ch.fd
        (if op = .del then none else some (ch.events, c)) }
  else p

/-- `update_channel` for the channel `c`, which holds `ch`. -/
def updateChannel (c : κ) (ch : Channel) (p : EpollPoller κ) : Channel × EpollPoller κ :=
  if ch.index = .kNew ∨ ch.index = .kDeleted then
    -- a deleted channel is still in the map
    let p :=
      if ch.index = .kNew then { p with channels := Function.update p.channels ch.fd (some c) }
      else p
    let ch := { ch with index := .kAdded }
    (ch, p.epollCtl .add c ch)
  else if ch.isNoneEvent then ({ ch with index := .kDeleted }, p.epollCtl .del c ch)
  else (ch, p.epollCtl .mod c ch)

def removeChannel (c : κ) (ch : Channel) (p : EpollPoller κ) : Channel × EpollPoller κ :=
  let p := { p with channels := Function.update p.channels ch.fd none }
  let p := if ch.index = .kAdded then p.epollCtl .del c ch else p
  ({ ch with index := .kNew }, p)

/-- The kernel drops a file descriptor that is closed. -/
def closeFd (p : EpollPoller κ) (fd : Nat) : EpollPoller κ :=
  { p with interest := Function.update p.interest fd none }

end EpollPoller

namespace Channel

variable {κ : Type}

def enableReading (c : κ) (ch : Channel) (p : EpollPoller κ) : Channel × EpollPoller κ :=
  p.updateChannel c { ch with events := ch.events ||| kReadEvent }

def disableReading (c : κ) (ch : Channel) (p : EpollPoller κ) : Channel × EpollPoller κ :=
  p.updateChannel c { ch with events := ch.events &&& ~~~kReadEvent }

def enableWriting (c : κ) (ch : Channel) (p : EpollPoller κ) : Channel × EpollPoller κ :=
  p.updateChannel c { ch with events := ch.events ||| kWriteEvent }

def disableWriting (c : κ) (ch : Channel) (p : EpollPoller κ) : Channel × EpollPoller κ :=
  p.updateChannel c { ch with events := ch.events &&& ~~~kWriteEvent }

def disableAll (c : κ) (ch : Channel) (p : EpollPoller κ) : Channel × EpollPoller κ :=
  p.updateChannel c { ch with events := kNoneEvent }

def remove (c : κ) (ch : Channel) (p : EpollPoller κ) : Channel × EpollPoller κ :=
  let r := disableAll c ch p
  r.2.removeChannel c r.1

end Channel

/-! ## Other file descriptors -/

/-- An operation on a channel keeps its file descriptor, and the entries of all others. -/
def Local {κ : Type} (op : Channel → EpollPoller κ → Channel × EpollPoller κ) : Prop :=
  ∀ ch p, (op ch p).1.fd = ch.fd ∧ ∀ fd, fd ≠ ch.fd →
    (op ch p).2.channels fd = p.channels fd ∧ (op ch p).2.interest fd = p.interest fd

namespace EpollPoller

variable {κ : Type} {p : EpollPoller κ}

@[simp]
theorem channels_epollCtl (op : EpollOp) (c : κ) (ch : Channel) :
    (p.epollCtl op c ch).channels = p.channels := by
  unfold epollCtl
  split <;> rfl

theorem interest_epollCtl_ne {op : EpollOp} {c : κ} {ch : Channel} {fd : Nat} (h : fd ≠ ch.fd) :
    (p.epollCtl op c ch).interest fd = p.interest fd := by
  unfold epollCtl
  split
  · exact Function.update_of_ne h _ _
  · rfl

/-- Nothing is dropped with a file descriptor that the kernel does not have. -/
theorem closeFd_of_none {fd : Nat} (h : p.interest fd = none) : p.closeFd fd = p := by
  unfold closeFd
  rw [← h, Function.update_eq_self]

theorem local_updateChannel (c : κ) : Local (updateChannel c) := by
  intro ch p
  unfold updateChannel
  split
  · refine ⟨rfl, ?_⟩
    intro fd hne
    dsimp only
    rw [channels_epollCtl, interest_epollCtl_ne (by exact hne)]
    split
    · exact ⟨Function.update_of_ne hne _ _, rfl⟩
    · exact ⟨rfl, rfl⟩
  · split <;> exact ⟨rfl, fun fd hne => ⟨by simp, interest_epollCtl_ne hne⟩⟩

@[simp]
theorem events_updateChannel (c : κ) (ch : Channel) :
    (updateChannel c ch p).1.events = ch.events := by
  unfold updateChannel
  split
  · rfl
  · split <;> rfl

theorem local_removeChannel (c : κ) : Local (removeChannel c) := by
  intro ch p
  refine ⟨rfl, ?_⟩
  intro fd hne
  unfold removeChannel
  dsimp only
  split
  · rw [channels_epollCtl, interest_epollCtl_ne hne]
    exact ⟨Function.update_of_ne hne _ _, rfl⟩
  · exact ⟨Function.update_of_ne hne _ _, rfl⟩

end EpollPoller

namespace Channel

variable {κ : Type}

theorem local_enableReading (c : κ) : Local (enableReading c) := fun _ p =>
  EpollPoller.local_updateChannel c _ p

theorem local_enableWriting (c : κ) : Local (enableWriting c) := fun _ p =>
  EpollPoller.local_updateChannel c _ p

theorem local_disableWriting (c : κ) : Local (disableWriting c) := fun _ p =>
  EpollPoller.local_updateChannel c _ p

theorem local_disableAll (c : κ) : Local (disableAll c) := fun _ p =>
  EpollPoller.local_updateChannel c _ p

theorem local_remove (c : κ) : Local (remove c) := by
  intro ch p
  obtain ⟨hfd, hrest⟩ := local_disableAll c ch p
  obtain ⟨hfd', hrest'⟩ := EpollPoller.local_removeChannel c (disableAll c ch p).1
    (disableAll c ch p).2
  refine ⟨hfd'.trans hfd, ?_⟩
  intro fd hne
  obtain ⟨hch, hint⟩ := hrest' fd (by rw [hfd]; exact hne)
  exact ⟨hch.trans (hrest fd hne).1, hint.trans (hrest fd hne).2⟩

@[simp]
theorem events_disableAll (c : κ) (ch : Channel) (p : EpollPoller κ) :
    (disableAll c ch p).1.events = kNoneEvent :=
  EpollPoller.events_updateChannel c _

@[simp]
theorem events_remove (c : κ) (ch : Channel) (p : EpollPoller κ) :
    (remove c ch p).1.events = kNoneEvent :=
  events_disableAll c ch p

end Channel

/-! ## What the tables hold of one channel -/

/-- The poller or the kernel has the channel for the file descriptor. -/
def EpollPoller.Names {κ : Type} (p : EpollPoller κ) (fd : Nat) (c : κ) : Prop :=
  p.channels fd = some c ∨ ∃ events, p.interest fd = some (events, c)

/-- How far the owner of a channel is: it reads, it has disabled the channel, or it has
removed it. A new channel counts as removed. -/
inductive Phase
  | opened | leaving | gone
  deriving DecidableEq

/-- The entries of a channel in each phase. A channel that is disabled a second time is in the
kernel's list, with no interest, until it is removed. -/
inductive Registered {κ : Type} (p : EpollPoller κ) (c : κ) (ch : Channel) : Phase → Prop
  | opened : ch.index = .kAdded → ch.events &&& kReadEvent = kReadEvent →
      p.channels ch.fd = some c → p.interest ch.fd = some (ch.events, c) →
      Registered p c ch .opened
  | leaving : ch.events = kNoneEvent → p.channels ch.fd = some c →
      (ch.index = .kDeleted ∧ p.interest ch.fd = none ∨
        ch.index = .kAdded ∧ p.interest ch.fd = some (kNoneEvent, c)) →
      Registered p c ch .leaving
  | gone : ch.events = kNoneEvent → ch.index = .kNew → p.channels ch.fd = none →
      p.interest ch.fd = none → Registered p c ch .gone

namespace Registered

variable {κ : Type} {p p' : EpollPoller κ} {c : κ} {ch : Channel} {phase : Phase}

/-- Only the entries for the file descriptor count. -/
theorem of_eq (h : Registered p c ch phase) (hch : p'.channels ch.fd = p.channels ch.fd)
    (hint : p'.interest ch.fd = p.interest ch.fd) : Registered p' c ch phase := by
  cases h with
  | opened hi he h1 h2 => exact .opened hi he (hch.trans h1) (hint.trans h2)
  | leaving he h1 h2 =>
    refine .leaving he (hch.trans h1) ?_
    rw [hint]
    exact h2
  | gone he hi h1 h2 => exact .gone he hi (hch.trans h1) (hint.trans h2)

theorem new_channel (fd : Nat) (h1 : p.channels fd = none) (h2 : p.interest fd = none) :
    Registered p c (Channel.new fd) .gone :=
  .gone rfl rfl h1 h2

theorem enableReading (h : Registered p c ch .gone) :
    Registered (ch.enableReading c p).2 c (ch.enableReading c p).1 .opened := by
  have hread : (kNoneEvent ||| kReadEvent) &&& kReadEvent = kReadEvent := by decide
  unfold Channel.enableReading EpollPoller.updateChannel EpollPoller.epollCtl EpollPoller.legal
  cases h with
  | gone he hi _ h2 => refine .opened ?_ ?_ ?_ ?_ <;> simp [he, hi, h2, hread]

/-- A change of the write interest leaves the interest in reading. -/
theorem update_opened (h : Registered p c ch .opened) {events : UInt32}
    (he : events &&& kReadEvent = kReadEvent) :
    Registered (p.updateChannel c { ch with events }).2 c
      (p.updateChannel c { ch with events }).1 .opened := by
  have hne : events ≠ kNoneEvent := by
    rintro rfl
    exact absurd he (by decide)
  unfold EpollPoller.updateChannel EpollPoller.epollCtl EpollPoller.legal Channel.isNoneEvent
  cases h with
  | opened hi _ h1 h2 => refine .opened ?_ ?_ ?_ ?_ <;> simp [hi, h1, h2, hne, he]

theorem enableWriting (h : Registered p c ch .opened) :
    Registered (ch.enableWriting c p).2 c (ch.enableWriting c p).1 .opened := by
  have hkeep : (ch.events ||| kWriteEvent) &&& kReadEvent = kReadEvent := by
    cases h with
    | opened _ he _ _ =>
      apply UInt32.toBitVec_inj.mp
      rw [UInt32.toBitVec_and, UInt32.toBitVec_or, BitVec.and_or_distrib_right,
        ← UInt32.toBitVec_and, he]
      decide
  exact update_opened h hkeep

theorem disableWriting (h : Registered p c ch .opened) :
    Registered (ch.disableWriting c p).2 c (ch.disableWriting c p).1 .opened := by
  have hkeep : ch.events &&& ~~~kWriteEvent &&& kReadEvent = kReadEvent := by
    cases h with
    | opened _ he _ _ =>
      rw [UInt32.and_assoc, show ~~~kWriteEvent &&& kReadEvent = kReadEvent by decide]
      exact he
  exact update_opened h hkeep

/-- A channel that was removed before is added again, with no interest. -/
theorem disableAll (h : Registered p c ch phase) (hphase : phase ≠ .leaving) :
    Registered (ch.disableAll c p).2 c (ch.disableAll c p).1 .leaving := by
  unfold Channel.disableAll EpollPoller.updateChannel EpollPoller.epollCtl EpollPoller.legal
    Channel.isNoneEvent
  cases h with
  | opened hi _ h1 h2 => refine .leaving ?_ ?_ ?_ <;> simp [hi, h1, h2]
  | leaving => exact absurd rfl hphase
  | gone _ hi _ h2 => refine .leaving ?_ ?_ ?_ <;> simp [hi, h2]

theorem remove (h : Registered p c ch .leaving) :
    Registered (ch.remove c p).2 c (ch.remove c p).1 .gone := by
  unfold Channel.remove Channel.disableAll EpollPoller.removeChannel EpollPoller.updateChannel
    EpollPoller.epollCtl EpollPoller.legal Channel.isNoneEvent
  cases h with
  | leaving _ _ h2 =>
    rcases h2 with ⟨hi, h2⟩ | ⟨hi, h2⟩
    · refine .gone ?_ ?_ ?_ ?_ <;> simp [hi, h2]
    · refine .gone ?_ ?_ ?_ ?_ <;> simp [hi, h2]

/-- The entries at the file descriptor of a channel are its own. -/
theorem names (h : Registered p c ch phase) {d : κ} (hd : p.Names ch.fd d) :
    d = c ∧ phase ≠ .gone := by
  cases h with
  | opened _ _ h1 h2 =>
    rcases hd with hd | ⟨events, hd⟩
    · rw [h1] at hd
      cases hd
      exact ⟨rfl, by simp⟩
    · rw [h2] at hd
      cases hd
      exact ⟨rfl, by simp⟩
  | leaving _ h1 h2 =>
    rcases hd with hd | ⟨events, hd⟩
    · rw [h1] at hd
      cases hd
      exact ⟨rfl, by simp⟩
    · rcases h2 with ⟨-, h2⟩ | ⟨-, h2⟩
      · rw [h2] at hd
        cases hd
      · rw [h2] at hd
        cases hd
        exact ⟨rfl, by simp⟩
  | gone _ _ h1 h2 =>
    rcases hd with hd | ⟨events, hd⟩
    · rw [h1] at hd
      cases hd
    · rw [h2] at hd
      cases hd

end Registered

end rpc.net
