-- What is left to do for the callers of a channel, for its owner and for its reader.
-- A step of a run without failures brings one of them on.
import RpcFramework.Progress
import RpcFramework.SmoothRuns

namespace rpc

open net codec runs

/-! ## What is left to do -/

/-- How many steps the caller has before it returns. -/
def CallPc.left : CallPc → Nat
  | .idle => 7
  | .entered => 6
  | .checked => 5
  | .drawn => 4
  | .inserted => 3
  | .written => 2
  | .waiting | .writeFailed => 1
  | .refused | .failed | .returned => 0

/-- How many steps the reader has before it reads again, when no whole frame waits. -/
def ReaderPc.left {ι : Type} : ReaderPc ι → Nat
  | .message _ => 6
  | .taken _ _ => 5
  | .applied _ _ => 4
  | .flagged _ _ => 3
  | .parsing => 2
  | .loop => 1
  | .reading | .absent | .closing _ | .exited _ => 0

namespace Channel

variable {ι Msg : Type} [DecidableEq ι]

/-- The steps that are left for the owner. -/
def ownerLeft (s : Channel ι Msg) : Nat := (1 - s.sockets) + if s.connected then 0 else 1

/-- The steps that are left for the callers and for the owner. -/
def callsLeft [Fintype ι] (s : Channel ι Msg) : Nat := ∑ c, (s.calls c).pc.left + s.ownerLeft

/-- The steps that are left for the reader, with the bytes in its buffer. -/
def readerLeft (s : Channel ι Msg) : Nat :=
  (s.readers 0).buf.peek.length + (s.readers 0).pc.left

variable {pb : Protobuf Msg} {args : ι → CallArgs Msg} {s s' : Channel ι Msg} {a : Act ι}

/-- A caller that goes on. -/
theorem callsLeft_lt [Fintype ι] {c : ι} {k : Call Msg}
    (hcalls : s'.calls = Function.update s.calls c k) (howner : s'.ownerLeft = s.ownerLeft)
    (hk : k.pc.left < (s.calls c).pc.left) : s'.callsLeft < s.callsLeft := by
  have hsum := sum_update (fun k : Call Msg => k.pc.left) s.calls (Finset.mem_univ c) k
  rw [callsLeft, callsLeft, hcalls, howner]
  omega

omit [DecidableEq ι] in
/-- A step of the reader takes no caller further. -/
theorem callsLeft_same [Fintype ι] (hcalls : ∀ c, (s'.calls c).pc = (s.calls c).pc)
    (howner : s'.ownerLeft = s.ownerLeft) : s'.callsLeft = s.callsLeft := by
  simp only [callsLeft, hcalls, howner]

theorem reader_at_zero (hr : (machine pb args).Reach s) (h : Sunny s) {r : Nat} {pc : ReaderPc ι}
    (hpc : (s.readers r).pc = pc) (hne : pc ≠ .absent) : r = 0 :=
  (begun_connected (r := r) hr h (by rw [hpc]; exact hne)).2

/-- A step of a caller that does not fail takes it further. -/
theorem caller_left [Fintype ι] (h : Sunny s) (he : s.enabled pb args a = true)
    (ha : Smooth pb args s a) (hcaller : ∃ c, a = .enter c ∨ a = .check c ∨ a = .draw c ∨
      a = .insert c ∨ (∃ count, a = .write c count) ∨ a = .wait c ∨ a = .wake c) :
    (s.effect pb args a).callsLeft < s.callsLeft := by
  obtain ⟨c, rfl | rfl | rfl | rfl | ⟨count, rfl⟩ | rfl | rfl⟩ := hcaller
  · have hpc : (s.calls c).pc = .idle := by simpa [enabled] using he
    exact callsLeft_lt (c := c) rfl rfl (by simp [hpc, CallPc.left])
  · have hpc : (s.calls c).pc = .entered := by simpa [enabled] using he
    have hcon : s.connected = true := ha
    simp only [effect, hcon, if_true]
    exact callsLeft_lt (c := c) rfl rfl (by simp [hpc, CallPc.left])
  · have hpc : (s.calls c).pc = .checked := by simpa [enabled] using he
    exact callsLeft_lt (c := c) rfl rfl (by simp [hpc, CallPc.left])
  · have hpc : (s.calls c).pc = .drawn := by simpa [enabled] using he
    exact callsLeft_lt (c := c) rfl rfl (by simp [hpc, CallPc.left])
  · have hpc : (s.calls c).pc = .inserted := by
      simp only [enabled, Bool.and_eq_true, decide_eq_true_eq] at he
      exact he.1.1
    rw [write_smooth h he ha]
    refine callsLeft_lt (c := c) rfl rfl ?_
    dsimp only
    split <;> simp [hpc, CallPc.left]
  · have hpc : (s.calls c).pc = .written := by simpa [enabled] using he
    refine callsLeft_lt (c := c) rfl rfl ?_
    dsimp only
    split <;> simp [hpc, CallPc.left]
  · have hpc : (s.calls c).pc = .waiting := by
      simp only [enabled, Bool.and_eq_true, decide_eq_true_eq] at he
      exact he.1
    exact callsLeft_lt (c := c) rfl rfl (by simp [hpc, CallPc.left])

/-- Where the reader of a good run is, and that it is the first. -/
theorem readerLeft_lt (hr : (machine pb args).Reach s) (h : Sunny s) {r : Nat}
    (hpc : (s.readers r).pc ≠ .absent) {x : Reader ι}
    (hreaders : s'.readers = Function.update s.readers r x)
    (hx : x.buf.peek.length + x.pc.left < (s.readers r).buf.peek.length + (s.readers r).pc.left) :
    s'.readerLeft < s.readerLeft := by
  have hzero := (begun_connected hr h hpc).2
  subst hzero
  rw [readerLeft, readerLeft, hreaders, Function.update_self]
  exact hx

/-- A step of the reader that does not fail, and reads nothing, takes it further. -/
theorem reader_left (hr : (machine pb args).ReachUnder (Smooth pb args) s)
    (he : s.enabled pb args a = true) (ha : Smooth pb args s a)
    (hreader : ∃ r, a = .loopHead r ∨ a = .parse r ∨ a = .take r ∨ a = .apply r ∨ a = .flag r ∨
      a = .runDone r) :
    (s.effect pb args a).readerLeft < s.readerLeft := by
  have hsunny := sunny_reach hr
  obtain ⟨r, rfl | rfl | rfl | rfl | rfl | rfl⟩ := hreader
  · have hpc : (s.readers r).pc = .loop := by simpa [enabled] using he
    have hcon := (begun_connected (r := r) hr.reach hsunny (by simp [hpc])).1
    refine readerLeft_lt (r := r) hr.reach hsunny (by simp [hpc]) rfl ?_
    simp [hpc, hcon, ReaderPc.left]
  · have hpc : (s.readers r).pc = .parsing := by simpa [enabled] using he
    have hspec := RpcChannel.readerPass_spec (s.readers r).buf
    simp only [effect]
    split
    · refine readerLeft_lt (r := r) hr.reach hsunny (by simp [hpc]) rfl ?_
      simp [hpc, ReaderPc.left]
    · exact absurd ‹_› (ha _)
    · rename_i body rest hpass
      rw [hpass] at hspec
      have hfits := (look_frame hspec.1).1
      refine readerLeft_lt (r := r) hr.reach hsunny (by simp [hpc]) rfl ?_
      simp only [hspec.2, List.length_drop, hpc, ReaderPc.left, kHeaderSize] at hfits ⊢
      omega
  · simp only [enabled] at he
    split at he
    · rename_i body hpc
      simp only [effect, hpc]
      split
      · refine readerLeft_lt (r := r) hr.reach hsunny (by simp [hpc]) rfl ?_
        simp [hpc, ReaderPc.left]
      · split
        · refine readerLeft_lt (r := r) hr.reach hsunny (by simp [hpc]) rfl ?_
          simp [hpc, ReaderPc.left]
        · refine readerLeft_lt (r := r) hr.reach hsunny (by simp [hpc]) rfl ?_
          simp [hpc, ReaderPc.left, modify]
    · cases he
  · simp only [enabled] at he
    split at he
    · rename_i c resp hpc
      simp only [effect, hpc]
      refine readerLeft_lt (r := r) hr.reach hsunny (by simp [hpc]) rfl ?_
      simp [hpc, ReaderPc.left, modify]
    · cases he
  · simp only [enabled] at he
    split at he
    · rename_i c resp hpc
      simp only [effect, hpc]
      refine readerLeft_lt (r := r) hr.reach hsunny (by simp [hpc]) rfl ?_
      simp [hpc, ReaderPc.left, modify]
    · cases he
  · simp only [enabled] at he
    split at he
    · rename_i c resp hpc
      simp only [effect, hpc]
      refine readerLeft_lt (r := r) hr.reach hsunny (by simp [hpc]) rfl ?_
      simp [hpc, ReaderPc.left, modify]
    · cases he

/-- The steps of the owner, when it has a step to take. -/
theorem owner_left [Fintype ι] (h : Sunny s) (he : s.enabled pb args a = true)
    (ha : Smooth pb args s a) (howner : (∃ ok, a = .socket ok) ∨ ∃ ok, a = .connect ok) :
    (s.effect pb args a).callsLeft < s.callsLeft := by
  rcases howner with ⟨ok, rfl⟩ | ⟨ok, rfl⟩
  · obtain ⟨rfl, hzero⟩ := ha
    simp only [callsLeft, ownerLeft, effect, if_true, hzero]
    omega
  · cases ha
    rcases h.phase with ⟨hown, -⟩ | ⟨hown, -, hoff, -⟩ | ⟨hown, -⟩
    · simp [enabled, hown] at he
    · simp [callsLeft, ownerLeft, effect, hown, hoff]
    · simp [enabled, hown] at he

/-- A step of the reader leaves every caller where it is. -/
theorem reader_pc (hr : (machine pb args).Reach s) (he : s.enabled pb args a = true)
    (hreader : ∃ r, a = .loopHead r ∨ a = .parse r ∨ a = .take r ∨ a = .apply r ∨ a = .flag r ∨
      a = .runDone r) (c : ι) : ((s.effect pb args a).calls c).pc = (s.calls c).pc := by
  have hcall := calls_step hr (step_iff.mpr ⟨he, rfl⟩) c
  generalize (s.effect pb args a).calls c = k at hcall
  obtain ⟨r, rfl | rfl | rfl | rfl | rfl | rfl⟩ := hreader <;> cases hcall
  case apply => simp
  all_goals rfl

/-- A good step brings the callers or the owner on, or it leaves them and the stream of the
requests as they were and brings the reader on. -/
theorem left_step [Fintype ι] (hr : (machine pb args).ReachUnder (Smooth pb args) s)
    (ha : Smooth pb args s a) (hread : ∀ r res, a ≠ .readv r res)
    (hs : (machine pb args).step s a = some s') :
    s'.callsLeft < s.callsLeft ∨
      (s'.callsLeft = s.callsLeft ∧ s'.wire = s.wire ∧ s'.readerLeft < s.readerLeft) := by
  have hsunny := sunny_reach hr
  obtain ⟨he, rfl⟩ := step_iff.mp hs
  have hreader : (∃ r, a = .loopHead r ∨ a = .parse r ∨ a = .take r ∨ a = .apply r ∨ a = .flag r ∨
      a = .runDone r) → (∀ c count, a ≠ .write c count) → (∀ ok, a ≠ .socket ok) →
      (∀ ok, a ≠ .connect ok) → (s.effect pb args a).callsLeft = s.callsLeft ∧
        (s.effect pb args a).wire = s.wire ∧ (s.effect pb args a).readerLeft < s.readerLeft := by
    intro hreader hwrite hsocket hconnect
    obtain ⟨-, hsockets, hconnected, -⟩ := link_effect hsunny he ha hsocket hconnect
    refine ⟨callsLeft_same (reader_pc hr.reach he hreader) ?_,
      ((frame_effect pb args s a).stream hwrite).1, reader_left hr he ha hreader⟩
    rw [ownerLeft, ownerLeft, hsockets, hconnected]
  cases a with
  | enter c => exact Or.inl (caller_left hsunny he ha ⟨c, by simp⟩)
  | check c => exact Or.inl (caller_left hsunny he ha ⟨c, by simp⟩)
  | draw c => exact Or.inl (caller_left hsunny he ha ⟨c, by simp⟩)
  | insert c => exact Or.inl (caller_left hsunny he ha ⟨c, by simp⟩)
  | write c count => exact Or.inl (caller_left hsunny he ha ⟨c, by simp⟩)
  | wait c => exact Or.inl (caller_left hsunny he ha ⟨c, by simp⟩)
  | wake c => exact Or.inl (caller_left hsunny he ha ⟨c, by simp⟩)
  | socket ok => exact Or.inl (owner_left hsunny he ha (Or.inl ⟨ok, rfl⟩))
  | connect ok => exact Or.inl (owner_left hsunny he ha (Or.inr ⟨ok, rfl⟩))
  | failWrite c => exact absurd (by simpa [enabled] using he) (hsunny.not_writeFailed c)
  | readv r res => exact absurd rfl (hread r res)
  | disconnect => exact absurd ha id
  | close =>
    have hclosing : s.owner = .closing := by simpa [enabled] using he
    rcases hsunny.phase with ⟨hown, -⟩ | ⟨hown, -⟩ | ⟨hown, -⟩ <;>
      rw [hclosing] at hown <;> cases hown
  | sweep r =>
    have hstays := hsunny.stays r
    simp only [enabled] at he
    split at he
    · rename_i cause hpc
      rw [hpc] at hstays
      cases hstays
    · cases he
  | loopHead r => exact Or.inr (hreader ⟨r, by simp⟩ (by simp) (by simp) (by simp))
  | parse r => exact Or.inr (hreader ⟨r, by simp⟩ (by simp) (by simp) (by simp))
  | take r => exact Or.inr (hreader ⟨r, by simp⟩ (by simp) (by simp) (by simp))
  | apply r => exact Or.inr (hreader ⟨r, by simp⟩ (by simp) (by simp) (by simp))
  | flag r => exact Or.inr (hreader ⟨r, by simp⟩ (by simp) (by simp) (by simp))
  | runDone r => exact Or.inr (hreader ⟨r, by simp⟩ (by simp) (by simp) (by simp))

omit [DecidableEq ι] in
/-- The bytes that a read gives are to be parsed. -/
theorem left_read [DecidableEq ι] [Fintype ι] {bytes : Bytes}
    (hs : (machine pb args).step s (.readv 0 (.data bytes)) = some s') :
    s'.callsLeft = s.callsLeft ∧ s'.wire = s.wire ∧
      s'.readerLeft = s.readerLeft + bytes.length + 2 := by
  obtain ⟨he, rfl⟩ := step_iff.mp hs
  have hpc : (s.readers 0).pc = .reading := by
    simp only [enabled, Bool.and_eq_true, decide_eq_true_eq] at he
    exact he.1
  refine ⟨rfl, rfl, ?_⟩
  simp [readerLeft, effect, hpc, ReaderPc.left, Buffer.peek_readFd]

end Channel

end rpc
