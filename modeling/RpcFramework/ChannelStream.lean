-- The bytes that the channel puts on a socket. Each call writes its frame in
-- one piece under `conn_mu_`, but the count that `::write` gives is only asked
-- for its sign. So the stream is whole frames as long as every count is full.
import Mathlib.Algebra.Order.BigOperators.Group.List
import Mathlib.Algebra.Order.Group.Nat
import RpcFramework.ChannelIds

namespace rpc

open net codec runs

variable {ι Msg : Type} [DecidableEq ι]

/-! ## Calls that have written -/

/-- The write of the call did not fail. -/
def CallPc.sent : CallPc → Bool
  | .written | .waiting | .returned => true
  | _ => false

/-- The call reports "write failed", or is about to. -/
def CallPc.reported : CallPc → Bool
  | .writeFailed | .failed => true
  | _ => false

namespace Channel

variable {pb : Protobuf Msg} {args : ι → CallArgs Msg} {s s' : Channel ι Msg} {a : Act ι}

omit [DecidableEq ι] in
/-- The outcome of a write is not taken back. -/
theorem CallStep.keeps_outcome {c : ι} {k k' : Call Msg} (h : CallStep pb (args c) c k a k') :
    (k.pc.sent = true → k'.pc.sent = true) ∧ (k.pc.reported = true → k'.pc.reported = true) := by
  cases h with
  | same => exact ⟨id, id⟩
  | enter hpc => simp [hpc, CallPc.sent, CallPc.reported]
  | check hpc => simp [hpc, CallPc.sent, CallPc.reported]
  | refuse hpc => simp [hpc, CallPc.sent, CallPc.reported]
  | draw id ticket hpc => simp [hpc, CallPc.sent, CallPc.reported]
  | insert late hpc => simp [hpc, CallPc.sent, CallPc.reported]
  | written n hpc => simp [hpc, CallPc.sent, CallPc.reported]
  | writeFailed count hpc => simp [hpc, CallPc.sent, CallPc.reported]
  | failWrite hpc => simp [hpc, CallPc.sent, CallPc.reported, Call.runDone]
  | wait hpc =>
    simp only [hpc]
    split <;> simp [CallPc.sent, CallPc.reported]
  | wake hpc _ => simp [hpc, CallPc.sent, CallPc.reported]
  | sweep r _ _ => exact ⟨id, id⟩
  | take r resp _ _ _ => exact ⟨id, id⟩
  | apply r resp _ => simp
  | flag r resp _ => exact ⟨id, id⟩
  | runDone r resp _ => exact ⟨id, id⟩

/-! ## The log of the writes -/

/-- What the log says of one write: its bytes are the frame of its call, and its count tells
whether the call was sent or reported. -/
structure Logged (pb : Protobuf Msg) (args : ι → CallArgs Msg) (s : Channel ι Msg)
    (w : Write ι) : Prop where
  frame : w.frame = callFrame pb (args w.call) (s.calls w.call).requestId
  outcome : match w.count with
    | some n => (s.calls w.call).pc.sent = true ∧ n ≤ w.frame.length
    | none => (s.calls w.call).pc.reported = true

/-- The bytes that a write put on its socket. -/
def Write.accepted (w : Write ι) : Bytes := w.frame.take (w.count.getD 0)

/-- The writes on socket `k`, in the order of `conn_mu_`. -/
def writesOn (s : Channel ι Msg) (k : Nat) : List (Write ι) :=
  s.writes.filter fun w => w.fd = some k

/-- The log accounts for every byte on every socket. -/
structure Stream (pb : Protobuf Msg) (args : ι → CallArgs Msg) (s : Channel ι Msg) : Prop where
  logged : ∀ w ∈ s.writes, Logged pb args s w
  wire : ∀ k, s.wire k = (writesOn s k).flatMap Write.accepted

omit [DecidableEq ι] in
theorem Logged.pc {w : Write ι} (h : Logged pb args s w) :
    (s.calls w.call).pc.sent = true ∨ (s.calls w.call).pc.reported = true := by
  have hout := h.outcome
  split at hout
  · exact Or.inl hout.1
  · exact Or.inr hout

/-- What the log says of a write stays true. -/
theorem logged_step (hr : (machine pb args).Reach s) (hs : (machine pb args).step s a = some s')
    {w : Write ι} (h : Logged pb args s w) : Logged pb args s' w := by
  have hcall := calls_step hr hs w.call
  have hkeep := CallStep.keeps_outcome hcall
  have hdraw : a ≠ .draw w.call := by
    rintro rfl
    have hpc : (s.calls w.call).pc = .checked := by simpa [enabled] using (step_iff.mp hs).1
    rcases h.pc with hsent | hrep
    · simp [hpc, CallPc.sent] at hsent
    · simp [hpc, CallPc.reported] at hrep
  have hid := (CallStep.keeps_id hcall hdraw).2.1
  obtain ⟨hframe, hout⟩ := h
  refine ⟨by rw [hid]; exact hframe, ?_⟩
  split at hout
  · exact ⟨hkeep.1 hout.1, hout.2⟩
  · exact hkeep.2 hout

/-- What a `::write` does: the socket takes a part of the frame from its front, or it fails. -/
theorem write_cases {c : ι} {count : Option Nat} (he : s.enabled pb args (.write c count) = true) :
    (∃ fd n, n ≤ (callFrame pb (args c) (s.calls c).requestId).length ∧
      ((s.effect pb args (.write c count)).calls c).pc.sent = true ∧
      (s.effect pb args (.write c count)).writes = s.writes ++
        [⟨c, some fd, callFrame pb (args c) (s.calls c).requestId, some n⟩] ∧
      (s.effect pb args (.write c count)).wire = Function.update s.wire fd
        (s.wire fd ++ (callFrame pb (args c) (s.calls c).requestId).take n)) ∨
    (∃ fd, ((s.effect pb args (.write c count)).calls c).pc.reported = true ∧
      (s.effect pb args (.write c count)).writes = s.writes ++
        [⟨c, fd, callFrame pb (args c) (s.calls c).requestId, none⟩] ∧
      (s.effect pb args (.write c count)).wire = s.wire) := by
  simp only [enabled, Bool.and_eq_true, decide_eq_true_eq] at he
  cases hfd : s.sockfd with
  | none =>
    right
    exact ⟨none, by simp [effect, hfd, modify, CallPc.reported], by simp [effect, hfd],
      by simp [effect, hfd, modify]⟩
  | some fd =>
    cases count with
    | none =>
      right
      exact ⟨some fd, by simp [effect, hfd, modify, CallPc.reported], by simp [effect, hfd],
        by simp [effect, hfd, modify]⟩
    | some n =>
      left
      refine ⟨fd, n, by simpa [hfd] using he.2, ?_, by simp [effect, hfd], by simp [effect, hfd]⟩
      simp only [effect, hfd, modify, Function.update_self]
      split <;> rfl

theorem stream_write (hr : (machine pb args).Reach s) (hi : Stream pb args s) {c : ι}
    {count : Option Nat} (hs : (machine pb args).step s (.write c count) = some s') :
    Stream pb args s' := by
  have hold : ∀ w ∈ s.writes, Logged pb args s' w := fun w hw => logged_step hr hs (hi.logged w hw)
  have hid := (CallStep.keeps_id (calls_step hr hs c) (by simp)).2.1
  obtain ⟨he, rfl⟩ := step_iff.mp hs
  rcases write_cases he with ⟨fd, n, hn, hsent, hwrites, hwire⟩ | ⟨fd, hrep, hwrites, hwire⟩
  · refine ⟨?_, ?_⟩
    · intro w hw
      rw [hwrites] at hw
      rcases List.mem_append.mp hw with hw | hw
      · exact hold w hw
      · rw [List.mem_singleton.mp hw]
        exact ⟨by rw [hid], hsent, hn⟩
    · intro k
      rw [hwire, writesOn, hwrites]
      by_cases hk : k = fd
      · subst hk
        simp [hi.wire, writesOn, Write.accepted]
      · have hk' : fd ≠ k := fun h => hk h.symm
        simp [hi.wire, writesOn, hk, hk']
  · refine ⟨?_, ?_⟩
    · intro w hw
      rw [hwrites] at hw
      rcases List.mem_append.mp hw with hw | hw
      · exact hold w hw
      · rw [List.mem_singleton.mp hw]
        exact ⟨by rw [hid], hrep⟩
    · intro k
      rw [hwire, writesOn, hwrites, List.filter_append, List.flatMap_append, hi.wire, writesOn]
      -- a failed write has put nothing on its socket
      have hnone : ((List.filter (fun w : Write ι => decide (w.fd = some k))
          [⟨c, fd, callFrame pb (args c) (s.calls c).requestId, none⟩]).flatMap
          Write.accepted) = [] := by
        by_cases hk : fd = some k <;> simp [hk, Write.accepted]
      rw [hnone, List.append_nil]

theorem stream_reach (h : (machine pb args).Reach s) : Stream pb args s := by
  refine h.invariant (I := Stream pb args) ⟨?_, ?_⟩ ?_
  · intro w hw
    cases hw
  · intro k
    rfl
  · intro s a s' hr hi hs
    by_cases hw : ∃ c count, a = .write c count
    · obtain ⟨c, count, rfl⟩ := hw
      exact stream_write hr hi hs
    · have hlog : ∀ w ∈ s.writes, Logged pb args s' w :=
        fun w hw => logged_step hr hs (hi.logged w hw)
      obtain ⟨-, rfl⟩ := step_iff.mp hs
      obtain ⟨hwire, hwrites⟩ :=
        (frame_effect pb args s a).stream fun c count h => hw ⟨c, count, h⟩
      refine ⟨by rw [hwrites]; exact hlog, ?_⟩
      intro k
      rw [hwire, writesOn, hwrites]
      exact hi.wire k

/-- A call writes once. -/
theorem writes_once (h : (machine pb args).Reach s) : (s.writes.map (·.call)).Nodup := by
  refine h.invariant (I := fun s => (s.writes.map (·.call)).Nodup) (by simp [machine, init]) ?_
  intro s a s' hr hi hs
  obtain ⟨he, rfl⟩ := step_iff.mp hs
  by_cases hw : ∃ c count, a = .write c count
  · obtain ⟨c, count, rfl⟩ := hw
    have hpc : (s.calls c).pc = .inserted := by
      simp only [enabled, Bool.and_eq_true, decide_eq_true_eq] at he
      exact he.1.1
    -- the call that writes now is in none of the writes before
    have hnew : c ∉ s.writes.map (·.call) := by
      intro hmem
      obtain ⟨w, hw, rfl⟩ := List.mem_map.mp hmem
      rcases ((stream_reach hr).logged w hw).pc with hsent | hrep
      · simp [hpc, CallPc.sent] at hsent
      · simp [hpc, CallPc.reported] at hrep
    have hadd : ∃ w : Write ι, w.call = c ∧
        (s.effect pb args (.write c count)).writes = s.writes ++ [w] := by
      rcases write_cases he with ⟨fd, n, -, -, hwrites, -⟩ | ⟨fd, -, hwrites, -⟩
      · exact ⟨_, rfl, hwrites⟩
      · exact ⟨_, rfl, hwrites⟩
    obtain ⟨w, rfl, hwrites⟩ := hadd
    rw [hwrites, List.map_append, List.nodup_append]
    refine ⟨hi, by simp, ?_⟩
    intro x hx y hy hxy
    rw [List.map_singleton, List.mem_singleton] at hy
    exact hnew (by rw [← hy, ← hxy]; exact hx)
  · rw [((frame_effect pb args s a).stream fun c count h => hw ⟨c, count, h⟩).2]
    exact hi

/-- Bytes are only added to a socket. -/
theorem wire_grows (hs : (machine pb args).step s a = some s') (k : Nat) :
    s.wire k <+: s'.wire k := by
  obtain ⟨he, rfl⟩ := step_iff.mp hs
  by_cases hw : ∃ c count, a = .write c count
  · obtain ⟨c, count, rfl⟩ := hw
    rcases write_cases he with ⟨fd, n, -, -, -, hwire⟩ | ⟨fd, -, -, hwire⟩
    · rw [hwire, Function.update_apply]
      split
      · rename_i hk
        rw [hk]
        exact List.prefix_append _ _
      · exact List.prefix_rfl
    · rw [hwire]
  · rw [((frame_effect pb args s a).stream fun c count h => hw ⟨c, count, h⟩).1]

/-! ## The law -/

/-- The writes on socket `k` of the calls that did not report a failure, in the order of
`conn_mu_`. -/
def sentOn (s : Channel ι Msg) (k : Nat) : List (Write ι) :=
  s.writes.filter fun w => w.fd = some k && !(s.calls w.call).pc.reported

/-- The complete frames of these calls. -/
def wholeFrames (pb : Protobuf Msg) (args : ι → CallArgs Msg) (s : Channel ι Msg) (k : Nat) :
    Bytes :=
  (sentOn s k).flatMap fun w => callFrame pb (args w.call) (s.calls w.call).requestId

/-- Pieces of which each is the front of a frame make up the frames only when each is whole. -/
theorem whole_of_flatMap_eq {α β : Type} {f g : α → List β} {l : List α}
    (h : ∀ x ∈ l, f x <+: g x) (heq : l.flatMap f = l.flatMap g) : ∀ x ∈ l, f x = g x := by
  induction l with
  | nil => simp
  | cons x l ih =>
    have hx := h x List.mem_cons_self
    have hl : ∀ y ∈ l, f y <+: g y := fun y hy => h y (List.mem_cons_of_mem _ hy)
    have hlen : (l.flatMap f).length ≤ (l.flatMap g).length := by
      rw [List.length_flatMap, List.length_flatMap]
      exact List.sum_le_sum fun y hy => (hl y hy).length_le
    have hlen' := congrArg List.length heq
    simp only [List.flatMap_cons, List.length_append] at heq hlen'
    have hx' : f x = g x := hx.eq_of_length (by have := hx.length_le; omega)
    rw [hx'] at heq
    have htail := ih hl (List.append_cancel_left heq)
    intro y hy
    rcases List.mem_cons.mp hy with rfl | hy
    · exact hx'
    · exact htail y hy

theorem flatMap_filter_eq {α β : Type} (p : α → Bool) (g : α → List β) (l : List α) :
    (l.filter p).flatMap g = l.flatMap fun x => if p x then g x else [] := by
  induction l with
  | nil => rfl
  | cons x l ih => by_cases hx : p x <;> simp [hx, ih]

theorem wholeFrames_eq (h : (machine pb args).Reach s) (k : Nat) :
    wholeFrames pb args s k =
      (writesOn s k).flatMap fun w => if w.count.isSome then w.frame else [] := by
  unfold wholeFrames sentOn writesOn
  rw [flatMap_filter_eq, flatMap_filter_eq]
  refine List.flatMap_congr ?_
  intro w hw
  obtain ⟨hframe, hout⟩ := (stream_reach h).logged w hw
  rw [← hframe]
  cases hcount : w.count with
  | none =>
    rw [hcount] at hout
    simp [show (s.calls w.call).pc.reported = true from hout]
  | some n =>
    rw [hcount] at hout
    have hrep : (s.calls w.call).pc.reported = false := by
      cases hpc : (s.calls w.call).pc <;> simp_all [CallPc.sent, CallPc.reported]
    simp [hrep]

omit [DecidableEq ι] in
/-- A write that took all its bytes, or failed, put all or nothing on its socket. -/
theorem accepted_eq {w : Write ι} (h : ∀ n, w.count = some n → n = w.frame.length) :
    Write.accepted w = if w.count.isSome then w.frame else [] := by
  unfold Write.accepted
  cases hcount : w.count with
  | none => simp
  | some n => simp [h n hcount]

/-- When every write was complete, the stream is whole frames. -/
theorem wire_whole (h : (machine pb args).Reach s) {k : Nat}
    (hall : ∀ w ∈ s.writes, w.fd = some k → ∀ n, w.count = some n → n = w.frame.length) :
    s.wire k = wholeFrames pb args s k := by
  rw [(stream_reach h).wire k, wholeFrames_eq h k]
  refine List.flatMap_congr ?_
  intro w hw
  obtain ⟨hw, hfd⟩ := List.mem_filter.mp hw
  exact accepted_eq (hall w hw (by simpa using hfd))

/-- The bytes that a socket has accepted are whole frames, one for each call that was not
reported, exactly when every `::write` on it that did not fail took all its bytes. -/
theorem the_stream_is_whole_frames_iff (h : (machine pb args).Reach s) (k : Nat) :
    s.wire k = wholeFrames pb args s k ↔
      ∀ w ∈ s.writes, w.fd = some k → ∀ n, w.count = some n → n = w.frame.length := by
  refine ⟨?_, wire_whole h⟩
  have hst := stream_reach h
  have hfront : ∀ w ∈ writesOn s k,
      Write.accepted w <+: if w.count.isSome then w.frame else [] := by
    intro w _
    unfold Write.accepted
    cases w.count with
    | none => simp
    | some n => simpa using List.take_prefix n w.frame
  rw [hst.wire k, wholeFrames_eq h k]
  intro heq w hw hfd n hn
  have hfull := whole_of_flatMap_eq hfront heq w (List.mem_filter.mpr ⟨hw, by simpa using hfd⟩)
  have hle := (hst.logged w hw).outcome
  simp only [hn] at hle
  simp only [Write.accepted, hn, Option.getD_some, Option.isSome_some, if_true,
    List.take_eq_self_iff] at hfull
  omega

/-- Two calls write their frames, the second before the first. -/
def bothWrite (c d : Fin 2) (n : Nat) : List (Act (Fin 2)) :=
  [.socket true, .connect true, .enter c, .check c, .draw c, .insert c, .enter d, .check d,
    .draw d, .insert d, .write d (some n),
    .write c (some (callFrame helloProto (sayHello true) 1).length)]

theorem two_full_writes_are_two_whole_frames :
    ∃ s, (machine helloProto fun _ : Fin 2 => sayHello true).Reach s ∧
      s.wire 0 = callFrame helloProto (sayHello true) 2 ++ callFrame helloProto (sayHello true) 1 ∧
      s.wire 0 = wholeFrames helloProto (fun _ => sayHello true) s 0 := by
  obtain ⟨s, h, hwire, hall⟩ : ∃ s, (machine helloProto fun _ : Fin 2 => sayHello true).Reach s ∧
      s.wire 0 = callFrame helloProto (sayHello true) 2 ++
        callFrame helloProto (sayHello true) 1 ∧
      ∀ w ∈ s.writes, w.count = some w.frame.length :=
    Machine.ReachUnder.of_run (bothWrite 0 1 (callFrame helloProto (sayHello true) 2).length)
      (by decide +kernel)
  refine ⟨s, h, hwire, (the_stream_is_whole_frames_iff h 0).mpr ?_⟩
  intro w hw _ n hn
  rw [hall w hw] at hn
  exact (Option.some.inj hn).symm

/-- The socket takes ten bytes of the second call's frame. The first call's frame then starts
inside the body of the second. -/
theorem a_short_write_breaks_the_stream :
    ∃ s, (machine helloProto fun _ : Fin 2 => sayHello true).Reach s ∧
      (∀ c, (s.calls c).pc.reported = false) ∧
      s.wire 0 = (callFrame helloProto (sayHello true) 2).take 10 ++
        callFrame helloProto (sayHello true) 1 ∧
      s.wire 0 ≠ wholeFrames helloProto (fun _ => sayHello true) s 0 :=
  Machine.ReachUnder.of_run (bothWrite 0 1 10) (by decide +kernel)

end Channel

end rpc
