-- Channels that share one poller. Their owners enable, disable and remove them
-- in any order. The index of a channel, the map of the poller and the list of
-- the kernel stay in step, and the kernel refuses no call. But a channel that is
-- disabled when it has no interest is put back into the list.
import Mathlib.Data.List.Induction
import RpcFramework.Poller

namespace rpc.net

/-! ## The operations -/

/-- What an owner does with a channel. -/
inductive ChannelOp
  | enableReading | disableReading | enableWriting | disableWriting | disableAll | remove
  deriving DecidableEq

variable {κ : Type}

def ChannelOp.run (c : κ) (ch : Channel) (p : EpollPoller κ) : ChannelOp → Channel × EpollPoller κ
  | .enableReading => ch.enableReading c p
  | .disableReading => ch.disableReading c p
  | .enableWriting => ch.enableWriting c p
  | .disableWriting => ch.disableWriting c p
  | .disableAll => ch.disableAll c p
  | .remove => ch.remove c p

/-- The interest that an operation leaves. -/
def ChannelOp.mask (events : UInt32) : ChannelOp → UInt32
  | .enableReading => events ||| kReadEvent
  | .disableReading => events &&& ~~~kReadEvent
  | .enableWriting => events ||| kWriteEvent
  | .disableWriting => events &&& ~~~kWriteEvent
  | .disableAll | .remove => kNoneEvent

/-- The operation takes interest away, and keeps the channel. -/
def ChannelOp.disables : ChannelOp → Bool
  | .disableReading | .disableWriting | .disableAll => true
  | .enableReading | .enableWriting | .remove => false

/-- The channels and their poller. -/
structure PolledChannels (κ : Type) where
  channels : κ → Channel
  poller : EpollPoller κ

namespace PolledChannels

/-- New channels on the file descriptors `fds`. -/
def new (fds : κ → Nat) : PolledChannels κ := ⟨fun c => Channel.new (fds c), EpollPoller.new⟩

variable [DecidableEq κ]

def apply (s : PolledChannels κ) (a : κ × ChannelOp) : PolledChannels κ :=
  let r := a.2.run a.1 (s.channels a.1) s.poller
  ⟨Function.update s.channels a.1 r.1, r.2⟩

/-- The state after a sequence of operations. -/
def after (fds : κ → Nat) (ops : List (κ × ChannelOp)) : PolledChannels κ :=
  ops.foldl apply (new fds)

theorem after_append (fds : κ → Nat) (ops : List (κ × ChannelOp)) (a : κ × ChannelOp) :
    after fds (ops ++ [a]) = (after fds ops).apply a := by
  simp [after]

end PolledChannels

/-! ## The calls of the kernel -/

namespace EpollPoller

/-- The call of `epoll_ctl` in `update_channel`, with the channel as it then is. -/
def updateCall (ch : Channel) : EpollOp × Channel :=
  if ch.index = .kNew ∨ ch.index = .kDeleted then (.add, { ch with index := .kAdded })
  else if ch.isNoneEvent then (.del, ch)
  else (.mod, ch)

/-- The calls in `remove_channel`. -/
def removeCalls (ch : Channel) : List (EpollOp × Channel) :=
  if ch.index = .kAdded then [(.del, ch)] else []

/-- The kernel carries out calls of `epoll_ctl`, if it refuses none of them. -/
def issue (c : κ) (p : EpollPoller κ) : List (EpollOp × Channel) → Option (EpollPoller κ)
  | [] => some p
  | call :: calls =>
    if p.legal call.1 call.2 then (p.epollCtl call.1 c call.2).issue c calls else none

end EpollPoller

/-- The calls of `epoll_ctl` that an operation makes. -/
def ChannelOp.calls (c : κ) (ch : Channel) (p : EpollPoller κ) (op : ChannelOp) :
    List (EpollOp × Channel) :=
  let update := EpollPoller.updateCall { ch with events := op.mask ch.events }
  match op with
  | .remove => update :: EpollPoller.removeCalls (ch.disableAll c p).1
  | _ => [update]

theorem ChannelOp.run_eq {op : ChannelOp} (h : op ≠ .remove) (c : κ) (ch : Channel)
    (p : EpollPoller κ) :
    op.run c ch p = p.updateChannel c { ch with events := op.mask ch.events } := by
  cases op with
  | remove => exact absurd rfl h
  | _ => rfl

theorem ChannelOp.calls_eq {op : ChannelOp} (h : op ≠ .remove) (c : κ) (ch : Channel)
    (p : EpollPoller κ) :
    op.calls c ch p = [EpollPoller.updateCall { ch with events := op.mask ch.events }] := by
  cases op with
  | remove => exact absurd rfl h
  | _ => rfl

theorem ChannelOp.local_run (c : κ) (op : ChannelOp) : Local fun ch p => op.run c ch p := by
  intro ch p
  by_cases h : op = .remove
  · subst h
    exact Channel.local_remove c ch p
  · simp only [op.run_eq h]
    exact EpollPoller.local_updateChannel c { ch with events := op.mask ch.events } p

@[simp]
theorem ChannelOp.events_run (c : κ) (ch : Channel) (p : EpollPoller κ) (op : ChannelOp) :
    (op.run c ch p).1.events = op.mask ch.events := by
  by_cases h : op = .remove
  · subst h
    exact Channel.events_remove c ch p
  · rw [op.run_eq h]
    exact EpollPoller.events_updateChannel c _

/-! ## One channel and its entries -/

/-- The kernel has the channel when its index is `kAdded`, with the interest of the owner, and
the map has it unless its index is `kNew`. -/
structure Mirrored (p : EpollPoller κ) (c : κ) (ch : Channel) : Prop where
  kernel : p.interest ch.fd = if ch.index = .kAdded then some (ch.events, c) else none
  map : p.channels ch.fd = if ch.index = .kNew then none else some c

namespace Mirrored

variable {p p' : EpollPoller κ} {c : κ} {ch : Channel}

theorem update (h : Mirrored p c ch) (events : UInt32) :
    Mirrored (p.updateChannel c { ch with events }).2 c
      (p.updateChannel c { ch with events }).1 := by
  obtain ⟨hk, hm⟩ := h
  unfold EpollPoller.updateChannel EpollPoller.epollCtl EpollPoller.legal Channel.isNoneEvent
  cases hi : ch.index with
  | kNew => refine ⟨?_, ?_⟩ <;> simp [hi, hk]
  | kDeleted => refine ⟨?_, ?_⟩ <;> simp [hi, hk, hm]
  | kAdded =>
    by_cases he : events = kNoneEvent
    · refine ⟨?_, ?_⟩ <;> simp [hi, hk, hm, he]
    · refine ⟨?_, ?_⟩ <;> simp [hi, hk, hm, he]

theorem removed (h : Mirrored p c ch) :
    Mirrored (p.removeChannel c ch).2 c (p.removeChannel c ch).1 := by
  obtain ⟨hk, hm⟩ := h
  unfold EpollPoller.removeChannel EpollPoller.epollCtl EpollPoller.legal
  cases hi : ch.index <;> refine ⟨?_, ?_⟩ <;> simp [hi, hk]

theorem run (h : Mirrored p c ch) (op : ChannelOp) :
    Mirrored (op.run c ch p).2 c (op.run c ch p).1 := by
  by_cases hop : op = .remove
  · subst hop
    exact (h.update kNoneEvent).removed
  · rw [op.run_eq hop]
    exact h.update _

/-- The kernel accepts the call in `update_channel`. -/
theorem legal_update (h : Mirrored p c ch) (events : UInt32) :
    p.legal (EpollPoller.updateCall { ch with events }).1
      (EpollPoller.updateCall { ch with events }).2 = true := by
  obtain ⟨hk, -⟩ := h
  unfold EpollPoller.updateCall EpollPoller.legal
  cases hi : ch.index with
  | kNew => simp [hk, hi]
  | kDeleted => simp [hk, hi]
  | kAdded => by_cases he : events = kNoneEvent <;> simp [hk, hi, he, Channel.isNoneEvent]

theorem issue_update (h : Mirrored p c ch) (events : UInt32) (calls : List (EpollOp × Channel)) :
    ∃ q : EpollPoller κ, q.interest = (p.updateChannel c { ch with events }).2.interest ∧
      p.issue c (EpollPoller.updateCall { ch with events } :: calls) = q.issue c calls := by
  have hlegal := h.legal_update events
  obtain ⟨hk, -⟩ := h
  refine ⟨p.epollCtl (EpollPoller.updateCall { ch with events }).1 c
    (EpollPoller.updateCall { ch with events }).2, ?_, ?_⟩
  · unfold EpollPoller.updateCall EpollPoller.updateChannel EpollPoller.epollCtl EpollPoller.legal
    cases hi : ch.index with
    | kNew => simp [hk, hi]
    | kDeleted => simp [hk, hi]
    | kAdded => by_cases he : events = kNoneEvent <;> simp [hk, hi, he, Channel.isNoneEvent]
  · rw [EpollPoller.issue, if_pos hlegal]

/-- The kernel accepts the call in `remove_channel`. -/
theorem issue_removed (h : Mirrored p c ch) {q : EpollPoller κ} (hq : q.interest = p.interest) :
    ∃ q' : EpollPoller κ, q'.interest = (p.removeChannel c ch).2.interest ∧
      q.issue c (EpollPoller.removeCalls ch) = some q' := by
  obtain ⟨hk, -⟩ := h
  unfold EpollPoller.removeCalls EpollPoller.removeChannel EpollPoller.epollCtl EpollPoller.legal
  cases hi : ch.index with
  | kNew => exact ⟨q, by simpa [hi] using hq, by simp [EpollPoller.issue]⟩
  | kDeleted => exact ⟨q, by simpa [hi] using hq, by simp [EpollPoller.issue]⟩
  | kAdded =>
    refine ⟨q.epollCtl .del c ch, ?_, ?_⟩
    · simp [EpollPoller.epollCtl, EpollPoller.legal, hq, hk, hi]
    · simp [EpollPoller.issue, EpollPoller.legal, hq, hk, hi]

/-- The kernel accepts every call that an operation makes. -/
theorem issue_run (h : Mirrored p c ch) (op : ChannelOp) :
    ∃ q : EpollPoller κ, q.interest = (op.run c ch p).2.interest ∧
      p.issue c (op.calls c ch p) = some q := by
  by_cases hop : op = .remove
  · subst hop
    obtain ⟨q, hq, hissue⟩ := h.issue_update kNoneEvent
      (EpollPoller.removeCalls (ch.disableAll c p).1)
    obtain ⟨q', hq', hrest⟩ := (h.update kNoneEvent).issue_removed hq
    exact ⟨q', hq', hissue.trans hrest⟩
  · rw [op.run_eq hop, op.calls_eq hop]
    obtain ⟨q, hq, hissue⟩ := h.issue_update (op.mask ch.events) []
    exact ⟨q, hq, hissue⟩

end Mirrored

/-! ## All the channels -/

namespace PolledChannels

variable [DecidableEq κ] {fds : κ → Nat} {s : PolledChannels κ}

/-- Every channel has its own file descriptor and its entries. -/
structure InStep (fds : κ → Nat) (s : PolledChannels κ) : Prop where
  fd : ∀ c, (s.channels c).fd = fds c
  mirrored : ∀ c, Mirrored s.poller c (s.channels c)

omit [DecidableEq κ] in
theorem inStep_new (fds : κ → Nat) : InStep fds (new fds) :=
  ⟨fun _ => rfl, fun _ => ⟨rfl, rfl⟩⟩

theorem inStep_apply (hfds : Function.Injective fds) (h : InStep fds s) (a : κ × ChannelOp) :
    InStep fds (s.apply a) := by
  obtain ⟨c, op⟩ := a
  obtain ⟨hfd, hother⟩ := op.local_run c (s.channels c) s.poller
  refine ⟨?_, ?_⟩
  · intro d
    by_cases hd : d = c
    · subst hd
      simp only [apply, Function.update_self]
      exact hfd.trans (h.fd d)
    · simp only [apply, Function.update_of_ne hd]
      exact h.fd d
  · intro d
    by_cases hd : d = c
    · subst hd
      simp only [apply, Function.update_self]
      exact (h.mirrored d).run op
    · have hne : (s.channels d).fd ≠ (s.channels c).fd := by
        rw [h.fd, h.fd]
        exact fun he => hd (hfds he)
      obtain ⟨hch, hint⟩ := hother _ hne
      simp only [apply, Function.update_of_ne hd]
      exact ⟨hint.trans (h.mirrored d).kernel, hch.trans (h.mirrored d).map⟩

theorem inStep_after (hfds : Function.Injective fds) (ops : List (κ × ChannelOp)) :
    InStep fds (after fds ops) := by
  induction ops using List.reverseRecOn with
  | nil => exact inStep_new fds
  | append_singleton ops a ih =>
    rw [after_append]
    exact inStep_apply hfds ih a

/-- After every sequence of operations on channels with different file descriptors: the kernel
has a channel exactly when its index is `kAdded`, with the events of the channel; the map of the
poller has it exactly when its index is not `kNew`; and the kernel accepts every call of
`epoll_ctl` that the next operation makes, whatever it is. -/
theorem the_poller_mirrors_the_kernel (hfds : Function.Injective fds) (ops : List (κ × ChannelOp)) :
    (∀ c, ((∃ entry, (after fds ops).poller.interest (fds c) = some entry) ↔
        ((after fds ops).channels c).index = .kAdded) ∧
      (((after fds ops).channels c).index = .kAdded →
        (after fds ops).poller.interest (fds c) = some (((after fds ops).channels c).events, c)) ∧
      ((∃ d, (after fds ops).poller.channels (fds c) = some d) ↔
        ((after fds ops).channels c).index ≠ .kNew) ∧
      (((after fds ops).channels c).index ≠ .kNew →
        (after fds ops).poller.channels (fds c) = some c)) ∧
    ∀ c op, ((after fds ops).poller.issue c
        (op.calls c ((after fds ops).channels c) (after fds ops).poller)).map (·.interest) =
      some (after fds (ops ++ [(c, op)])).poller.interest := by
  obtain ⟨hfd, hmir⟩ := inStep_after hfds ops
  refine ⟨?_, ?_⟩
  · intro c
    obtain ⟨hk, hm⟩ := hmir c
    rw [hfd] at hk hm
    refine ⟨?_, ?_, ?_, ?_⟩
    · rw [hk]
      split <;> simp_all
    · intro hi
      rw [hk, if_pos hi]
    · rw [hm]
      split <;> simp_all
    · intro hi
      rw [hm, if_neg hi]
  · intro c op
    obtain ⟨q, hq, hissue⟩ := (hmir c).issue_run op
    rw [hissue, after_append, Option.map_some, hq]
    rfl

/-- Two channels are enabled, disabled and removed in turn. -/
def twoChannels : List (Bool × ChannelOp) :=
  [(true, .enableReading), (false, .enableWriting), (true, .disableAll), (true, .disableAll),
    (false, .remove), (false, .enableReading)]

theorem two_channels_are_mirrored :
    (after (fun c : Bool => if c then 5 else 6) twoChannels).poller.interest 6 =
        some (kReadEvent, false) ∧
      ((after (fun c : Bool => if c then 5 else 6) twoChannels).poller.issue true
        (ChannelOp.remove.calls true
          ((after (fun c : Bool => if c then 5 else 6) twoChannels).channels true)
          (after (fun c : Bool => if c then 5 else 6) twoChannels).poller)).isSome = true := by
  have hfds : Function.Injective fun c : Bool => if c then 5 else 6 := by
    rintro (_ | _) (_ | _) h <;> first | rfl | cases h
  obtain ⟨hmir, hissue⟩ := the_poller_mirrors_the_kernel hfds twoChannels
  refine ⟨(hmir false).2.1 (by decide), ?_⟩
  have hremove := congrArg Option.isSome (hissue true .remove)
  rwa [Option.isSome_map] at hremove

/-! ## Channels without interest -/

/-- A channel without interest is not in the list of the kernel. -/
def Silent (s : PolledChannels κ) (c : κ) : Prop :=
  (s.channels c).events = kNoneEvent → s.poller.interest (s.channels c).fd = none

/-- The operation does not take interest away from a channel that has none. -/
def Needed (s : PolledChannels κ) (a : κ × ChannelOp) : Prop :=
  a.2.disables = true → (s.channels a.1).events ≠ kNoneEvent

/-- What holds at each operation of a sequence, in terms of the operations before it. -/
def AtEach (P : List (κ × ChannelOp) → κ × ChannelOp → Prop) (ops : List (κ × ChannelOp)) : Prop :=
  ∀ before a later, ops = before ++ a :: later → P before a

omit [DecidableEq κ] in
theorem atEach_append {P : List (κ × ChannelOp) → κ × ChannelOp → Prop}
    {ops : List (κ × ChannelOp)} {a : κ × ChannelOp} :
    AtEach P (ops ++ [a]) ↔ AtEach P ops ∧ P ops a := by
  refine ⟨?_, ?_⟩
  · intro h
    refine ⟨?_, h ops a [] rfl⟩
    rintro before b later rfl
    exact h before b (later ++ [a]) (by simp)
  · rintro ⟨hops, ha⟩ before b later heq
    rcases List.eq_nil_or_concat later with rfl | ⟨later, last, rfl⟩
    · obtain ⟨rfl, hlast⟩ := List.append_inj' heq rfl
      cases hlast
      exact ha
    · have heq' : ops ++ [a] = (before ++ b :: later) ++ [last] := by simpa using heq
      exact hops before b later (List.append_inj' heq' rfl).1

/-- Without needless operations, the kernel has just the channels with interest. -/
def Tight (s : PolledChannels κ) : Prop :=
  ∀ c, (s.channels c).index = .kAdded ↔ (s.channels c).events ≠ kNoneEvent

omit [DecidableEq κ] in
/-- The index after an operation. -/
theorem index_run (c : κ) (ch : Channel) (p : EpollPoller κ) (op : ChannelOp) :
    (op.run c ch p).1.index =
      if op = .remove then .kNew
      else if ch.index = .kAdded ∧ op.mask ch.events = kNoneEvent then .kDeleted
      else .kAdded := by
  by_cases hop : op = .remove
  · subst hop
    rfl
  · rw [op.run_eq hop, if_neg hop]
    unfold EpollPoller.updateChannel Channel.isNoneEvent
    cases hi : ch.index <;> by_cases he : op.mask ch.events = kNoneEvent <;> simp [he]

/-- Which operations leave no interest. -/
theorem mask_eq_none {op : ChannelOp} {events : UInt32} (hop : op ≠ .remove)
    (he : events = kNoneEvent) : op.mask events = kNoneEvent ↔ op.disables = true := by
  subst he
  cases op <;> first | exact absurd rfl hop | decide

theorem mask_ne_none {op : ChannelOp} {events : UInt32} (hop : op ≠ .remove)
    (hdis : op.disables = false) : op.mask events ≠ kNoneEvent := by
  cases op with
  | remove => exact absurd rfl hop
  | enableReading =>
    intro h
    exact absurd (UInt32.or_eq_zero_iff.mp h).2 (by decide)
  | enableWriting =>
    intro h
    exact absurd (UInt32.or_eq_zero_iff.mp h).2 (by decide)
  | _ => cases hdis

theorem tight_apply {a : κ × ChannelOp} (h : Tight s) (ha : Needed s a) : Tight (s.apply a) := by
  obtain ⟨c, op⟩ := a
  intro d
  by_cases hd : d = c
  · subst hd
    simp only [apply, Function.update_self, index_run, ChannelOp.events_run]
    by_cases hop : op = .remove
    · subst hop
      simp [ChannelOp.mask]
    · simp only [if_neg hop, h d]
      by_cases he : (s.channels d).events = kNoneEvent
      · have hdis : op.disables = false := by
          rw [← Bool.not_eq_true]
          exact fun hdis => ha hdis he
        simp [he, mask_ne_none hop hdis]
      · by_cases hm : op.mask (s.channels d).events = kNoneEvent <;> simp [he, hm]
  · simp only [apply, Function.update_of_ne hd]
    exact h d

theorem tight_after {ops : List (κ × ChannelOp)}
    (h : AtEach (fun before a => Needed (after fds before) a) ops) : Tight (after fds ops) := by
  induction ops using List.reverseRecOn with
  | nil =>
    intro c
    simp [after, new, Channel.new]
  | append_singleton ops a ih =>
    obtain ⟨hops, ha⟩ := atEach_append.mp h
    rw [after_append]
    exact tight_apply (ih hops) ha

/-- The operation leaves the channel silent exactly when it was needed. -/
theorem silent_apply_iff (h : Tight s) (c : κ) (op : ChannelOp)
    (hin : InStep fds (s.apply (c, op))) : Silent (s.apply (c, op)) c ↔ Needed s (c, op) := by
  have hk := (hin.mirrored c).kernel
  unfold Silent
  rw [hk]
  simp only [apply, Function.update_self, index_run, ChannelOp.events_run, Needed]
  by_cases hop : op = .remove
  · subst hop
    simp [ChannelOp.disables]
  · simp only [if_neg hop, h c]
    by_cases he : (s.channels c).events = kNoneEvent
    · simp [he, mask_eq_none hop]
    · by_cases hm : op.mask (s.channels c).events = kNoneEvent <;> simp [he, hm]

/-- `disable_all` takes a channel out of the kernel's list that is in it, and puts in one that
is not. -/
theorem index_disableAll (s : PolledChannels κ) (c : κ) :
    ((s.apply (c, .disableAll)).channels c).index = .kAdded ↔
      (s.channels c).index ≠ .kAdded := by
  simp only [apply, Function.update_self, index_run]
  by_cases hi : (s.channels c).index = .kAdded <;> simp [hi, ChannelOp.mask]

/-- For every sequence of operations: each operation that leaves a channel without interest
leaves it out of the kernel's list, if and only if no channel without interest is disabled. And
a second `disable_all` always changes the list again. -/
theorem a_disabled_channel_is_silent_iff (hfds : Function.Injective fds)
    (ops : List (κ × ChannelOp)) :
    (AtEach (fun before a => Silent (after fds (before ++ [a])) a.1) ops ↔
      AtEach (fun before a => Needed (after fds before) a) ops) ∧
    ∀ c, (after fds (ops ++ [(c, .disableAll)] ++ [(c, .disableAll)])).poller.interest ≠
      (after fds (ops ++ [(c, .disableAll)])).poller.interest := by
  refine ⟨?_, ?_⟩
  · induction ops using List.reverseRecOn with
    | nil => simp [AtEach]
    | append_singleton ops a ih =>
      rw [atEach_append, atEach_append, ih]
      apply and_congr_right
      intro hops
      have hin := inStep_after hfds (ops ++ [a])
      rw [after_append] at hin ⊢
      exact silent_apply_iff (tight_after hops) a.1 a.2 hin
  · intro c heq
    have hone := inStep_after hfds (ops ++ [(c, .disableAll)])
    have htwo := inStep_after hfds (ops ++ [(c, .disableAll)] ++ [(c, .disableAll)])
    have hk := (hone.mirrored c).kernel
    have hk' := (htwo.mirrored c).kernel
    have hflip := index_disableAll (after fds (ops ++ [(c, .disableAll)])) c
    rw [htwo.fd, heq, ← hone.fd, hk] at hk'
    rw [← after_append] at hflip
    by_cases hi : ((after fds (ops ++ [(c, .disableAll)])).channels c).index = .kAdded
    · have hi' := mt hflip.mp (not_not.mpr hi)
      rw [if_pos hi, if_neg hi'] at hk'
      cases hk'
    · rw [if_neg hi, if_pos (hflip.mpr hi)] at hk'
      cases hk'

/-- A channel is enabled once and disabled once, as by a connection that is closed once. -/
theorem a_channel_disabled_once_is_silent :
    (after (fun _ : Unit => 5) [((), .enableReading), ((), .disableAll)]).poller.interest 5 =
      none := by
  have hneeded : AtEach (fun before a => Needed (after (fun _ : Unit => 5) before) a)
      [((), .enableReading), ((), .disableAll)] := by
    change AtEach _ ([] ++ [((), .enableReading)] ++ [((), .disableAll)])
    rw [atEach_append, atEach_append]
    refine ⟨⟨?_, ?_⟩, ?_⟩
    · simp [AtEach]
    · simp [Needed, ChannelOp.disables]
    · exact fun _ => by decide
  have hfds : Function.Injective fun _ : Unit => 5 := fun _ _ _ => rfl
  have hsilent := (a_disabled_channel_is_silent_iff hfds _).1.mpr hneeded
  exact hsilent [((), .enableReading)] ((), .disableAll) [] rfl (by decide)

/-- It is disabled a second time, as by a second `handle_close`. -/
theorem a_channel_disabled_twice_comes_back :
    ((after (fun _ : Unit => 5) [((), .enableReading), ((), .disableAll),
        ((), .disableAll)]).channels ()).events = kNoneEvent ∧
      (after (fun _ : Unit => 5) [((), .enableReading), ((), .disableAll),
        ((), .disableAll)]).poller.interest 5 = some (kNoneEvent, ()) ∧
      (after (fun _ : Unit => 5) [((), .enableReading), ((), .disableAll)]).poller.interest 5 =
        none := by
  decide

end PolledChannels

end rpc.net
