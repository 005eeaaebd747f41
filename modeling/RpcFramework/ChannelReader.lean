-- The reader threads of the channel: what an action can do to one of them, and
-- the four ways in which a reader leaves its loop.
import RpcFramework.ChannelTable

namespace rpc

open net codec runs

variable {ι Msg : Type} [DecidableEq ι]

/-! ## What an action can do to one reader -/

/-- The changes of reader `r`, each with the action that makes it and what the action saw of
the channel. -/
inductive ReaderStep (pb : Protobuf Msg) (s : Channel ι Msg) (r : Nat) :
    Act ι → Reader ι → Prop
  | same (act : Act ι) : ReaderStep pb s r act (s.readers r)
  | start : s.owner = .connecting r →
      ReaderStep pb s r (.connect true) ⟨.loop, Buffer.new kInitialSize⟩
  | read : (s.readers r).pc = .loop → s.connected = true →
      ReaderStep pb s r (.loopHead r) ⟨.reading, (s.readers r).buf⟩
  | leave : (s.readers r).pc = .loop → s.connected = false →
      ReaderStep pb s r (.loopHead r) ⟨.exited .disconnected, (s.readers r).buf⟩
  | data (bytes : Bytes) : (s.readers r).pc = .reading →
      ReaderStep pb s r (.readv r (.data bytes)) ⟨.parsing, (s.readers r).buf.readFd bytes⟩
  | endOfFile : (s.readers r).pc = .reading →
      ReaderStep pb s r (.readv r .endOfFile) ⟨.closing .endOfFile, (s.readers r).buf⟩
  | readError : (s.readers r).pc = .reading →
      ReaderStep pb s r (.readv r .error) ⟨.closing .readError, (s.readers r).buf⟩
  | sweep (cause : ExitCause) : (s.readers r).pc = .closing cause →
      ReaderStep pb s r (.sweep r) ⟨.exited cause, (s.readers r).buf⟩
  | drained : (s.readers r).pc = .parsing → RpcChannel.readerPass (s.readers r).buf = .wait →
      ReaderStep pb s r (.parse r) ⟨.loop, (s.readers r).buf⟩
  | badMagic (e : String) : (s.readers r).pc = .parsing →
      RpcChannel.readerPass (s.readers r).buf = .error e →
      ReaderStep pb s r (.parse r) ⟨.exited .badMagic, (s.readers r).buf⟩
  | frame (body : Bytes) (rest : Buffer) : (s.readers r).pc = .parsing →
      RpcChannel.readerPass (s.readers r).buf = .frame body rest →
      ReaderStep pb s r (.parse r) ⟨.message body, rest⟩
  | drop (body : Bytes) : (s.readers r).pc = .message body →
      ReaderStep pb s r (.take r) ⟨.parsing, (s.readers r).buf⟩
  | take (body : Bytes) (resp : RpcResponse) (c : ι) : (s.readers r).pc = .message body →
      pb.parseResponse body = some resp → s.pendingCalls resp.requestId = some c →
      ReaderStep pb s r (.take r) ⟨.taken c resp, (s.readers r).buf⟩
  | apply (c : ι) (resp : RpcResponse) : (s.readers r).pc = .taken c resp →
      ReaderStep pb s r (.apply r) ⟨.applied c resp, (s.readers r).buf⟩
  | flag (c : ι) (resp : RpcResponse) : (s.readers r).pc = .applied c resp →
      ReaderStep pb s r (.flag r) ⟨.flagged c resp, (s.readers r).buf⟩
  | runDone (c : ι) (resp : RpcResponse) : (s.readers r).pc = .flagged c resp →
      ReaderStep pb s r (.runDone r) ⟨.parsing, (s.readers r).buf⟩

namespace Channel

variable {pb : Protobuf Msg} {args : ι → CallArgs Msg} {s s' : Channel ι Msg} {a : Act ι}

omit [DecidableEq ι] in
/-- A change of reader `q` is seen at `q` only. -/
theorem readerStep_update (s : Channel ι Msg) {q : Nat} {x : Reader ι}
    (hx : ReaderStep pb s q a x) (r : Nat) :
    ReaderStep pb s r a (Function.update s.readers q x r) := by
  by_cases hrq : r = q
  · subst hrq
    rwa [Function.update_self]
  · rw [Function.update_of_ne hrq]
    exact .same a

/-- Every action does one of these to each reader. -/
theorem readerStep_effect (he : s.enabled pb args a = true) (r : Nat) :
    ReaderStep pb s r a ((s.effect pb args a).readers r) := by
  cases a with
  | loopHead q =>
    have hpc : (s.readers q).pc = .loop := by simpa [enabled] using he
    apply readerStep_update
    split
    · exact .read hpc ‹_›
    · exact .leave hpc (by simpa using ‹¬ s.connected = true›)
  | readv q res =>
    have hpc : (s.readers q).pc = .reading := by
      simp only [enabled, Bool.and_eq_true, decide_eq_true_eq] at he
      exact he.1
    cases res with
    | data bytes => exact readerStep_update s (.data bytes hpc) r
    | endOfFile => exact readerStep_update s (.endOfFile hpc) r
    | error => exact readerStep_update s (.readError hpc) r
  | sweep q =>
    simp only [effect]
    split
    · exact readerStep_update s (.sweep _ ‹_›) r
    · exact .same _
  | parse q =>
    have hpc : (s.readers q).pc = .parsing := by simpa [enabled] using he
    simp only [effect]
    split
    · exact readerStep_update s (.drained hpc ‹_›) r
    · exact readerStep_update s (.badMagic _ hpc ‹_›) r
    · exact readerStep_update s (.frame _ _ hpc ‹_›) r
  | take q =>
    simp only [effect]
    split
    · split
      · exact readerStep_update s (.drop _ ‹_›) r
      · split
        · exact readerStep_update s (.drop _ ‹_›) r
        · exact readerStep_update s (.take _ _ _ ‹_› ‹_› ‹_›) r
    · exact .same _
  | apply q =>
    simp only [effect]
    split
    · exact readerStep_update s (.apply _ _ ‹_›) r
    · exact .same _
  | flag q =>
    simp only [effect]
    split
    · exact readerStep_update s (.flag _ _ ‹_›) r
    · exact .same _
  | runDone q =>
    simp only [effect]
    split
    · exact readerStep_update s (.runDone _ _ ‹_›) r
    · exact .same _
  | connect ok =>
    simp only [effect]
    split
    · split
      · rename_i fd hown hok
        subst hok
        exact readerStep_update s (.start hown) r
      · exact .same _
    · exact .same _
  | check c => simp only [effect]; split <;> exact .same _
  | write c count => simp only [effect]; split <;> exact .same _
  | socket ok => simp only [effect]; split <;> exact .same _
  | disconnect => simp only [effect]; split <;> exact .same _
  | _ => exact .same _

theorem readers_step (hs : (machine pb args).step s a = some s') (r : Nat) :
    ReaderStep pb s r a (s'.readers r) := by
  obtain ⟨he, rfl⟩ := step_iff.mp hs
  exact readerStep_effect he r

/-! ## Readers and sockets -/

/-- The owner takes one of these to its next place; every other action leaves it. -/
theorem owner_effect (pb : Protobuf Msg) (args : ι → CallArgs Msg) (s : Channel ι Msg)
    (a : Act ι) :
    (a = .socket true ∧ (s.effect pb args a).sockets = s.sockets + 1 ∧
      (s.effect pb args a).owner = .connecting s.sockets) ∨
    ((s.effect pb args a).sockets = s.sockets ∧ ∀ fd,
      (s.effect pb args a).owner = .connecting fd → s.owner = .connecting fd ∧
        a ≠ .connect true) := by
  cases a with
  | socket ok =>
    cases ok with
    | true => exact Or.inl ⟨rfl, rfl, rfl⟩
    | false => exact Or.inr ⟨rfl, fun fd h => ⟨h, by simp⟩⟩
  | connect ok =>
    refine Or.inr ?_
    simp only [effect]
    split
    · split
      · exact ⟨rfl, fun fd h => by cases h⟩
      · exact ⟨rfl, fun fd h => by cases h⟩
    · rename_i hown
      exact ⟨rfl, fun fd h => absurd h (hown fd)⟩
  | disconnect =>
    refine Or.inr ?_
    simp only [effect]
    split
    · exact ⟨rfl, fun fd h => by cases h⟩
    · exact ⟨rfl, fun fd h => ⟨h, by simp⟩⟩
  | close => exact Or.inr ⟨rfl, fun fd h => by cases h⟩
  | check c => simp only [effect]; split <;> exact Or.inr ⟨rfl, fun fd h => ⟨h, by simp⟩⟩
  | write c count => simp only [effect]; split <;> exact Or.inr ⟨rfl, fun fd h => ⟨h, by simp⟩⟩
  | readv r res => cases res <;> exact Or.inr ⟨rfl, fun fd h => ⟨h, by simp⟩⟩
  | sweep r => simp only [effect]; split <;> exact Or.inr ⟨rfl, fun fd h => ⟨h, by simp⟩⟩
  | parse r => simp only [effect]; split <;> exact Or.inr ⟨rfl, fun fd h => ⟨h, by simp⟩⟩
  | take r =>
    simp only [effect]
    split
    · split
      · exact Or.inr ⟨rfl, fun fd h => ⟨h, by simp⟩⟩
      · split <;> exact Or.inr ⟨rfl, fun fd h => ⟨h, by simp⟩⟩
    · exact Or.inr ⟨rfl, fun fd h => ⟨h, by simp⟩⟩
  | apply r => simp only [effect]; split <;> exact Or.inr ⟨rfl, fun fd h => ⟨h, by simp⟩⟩
  | flag r => simp only [effect]; split <;> exact Or.inr ⟨rfl, fun fd h => ⟨h, by simp⟩⟩
  | runDone r => simp only [effect]; split <;> exact Or.inr ⟨rfl, fun fd h => ⟨h, by simp⟩⟩
  | _ => exact Or.inr ⟨rfl, fun fd h => ⟨h, by simp⟩⟩

/-- A reader begins once, on the last socket that was opened. -/
structure Opened (s : Channel ι Msg) : Prop where
  unopened : ∀ r, s.sockets ≤ r → (s.readers r).pc = .absent
  connecting : ∀ fd, s.owner = .connecting fd → fd < s.sockets ∧ (s.readers fd).pc = .absent

omit [DecidableEq ι] in
theorem opened_init (args : ι → CallArgs Msg) : Opened (init args) where
  unopened := by simp [init]
  connecting := by simp [init]

theorem opened_reach (h : (machine pb args).Reach s) : Opened s := by
  refine h.invariant (opened_init args) ?_
  intro s a s' _ hi hs
  have hreader := readers_step hs
  obtain ⟨-, rfl⟩ := step_iff.mp hs
  -- an absent reader begins only on the socket with which the owner connects
  have habsent : ∀ r, (s.readers r).pc = .absent → (s.owner = .connecting r → a ≠ .connect true) →
      ((s.effect pb args a).readers r).pc = .absent := by
    intro r hr hown
    have hstep := hreader r
    generalize (s.effect pb args a).readers r = x at hstep
    cases hstep with
    | same => exact hr
    | start h => exact absurd rfl (hown h)
    | _ => simp_all
  rcases owner_effect pb args s a with ⟨rfl, hsock, hown⟩ | ⟨hsock, hown⟩
  · refine ⟨?_, ?_⟩
    · intro r hr
      rw [hsock] at hr
      exact habsent r (hi.unopened r (by omega)) (by simp)
    · intro fd hfd
      rw [hown] at hfd
      cases hfd
      rw [hsock]
      exact ⟨Nat.lt_succ_self _, habsent _ (hi.unopened _ (Nat.le_refl _)) (by simp)⟩
  · refine ⟨?_, ?_⟩
    · intro r hr
      rw [hsock] at hr
      refine habsent r (hi.unopened r hr) ?_
      intro hc
      have := (hi.connecting r hc).1
      omega
    · intro fd hfd
      obtain ⟨hfd, hne⟩ := hown fd hfd
      rw [hsock]
      exact ⟨(hi.connecting fd hfd).1, habsent fd (hi.connecting fd hfd).2 fun _ => hne⟩

/-- A reader that has begun does not begin again. -/
theorem not_restarted (h : (machine pb args).Reach s) {r : Nat} (hr : (s.readers r).pc ≠ .absent) :
    s.owner ≠ .connecting r := fun hown => hr ((opened_reach h).connecting r hown).2

/-- The channel opens one socket only. -/
def OneConnection (s : Channel ι Msg) : Act ι → Prop
  | .socket _ => s.sockets = 0
  | _ => True

theorem few_sockets (h : (machine pb args).ReachUnder OneConnection s) : s.sockets ≤ 1 := by
  refine h.invariant (I := fun s => s.sockets ≤ 1) (Nat.zero_le 1) ?_
  intro s a s' _ hi ha hs
  obtain ⟨-, rfl⟩ := step_iff.mp hs
  by_cases hsock : a = .socket true
  · subst hsock
    have hzero : s.sockets = 0 := ha
    simp [effect, hzero]
  · rw [(frame_effect pb args s a).sockets hsock]
    exact hi

/-- A reader that is not the first has not begun. -/
theorem only_reader (h : (machine pb args).ReachUnder OneConnection s) {r : Nat}
    (hr : (s.readers r).pc ≠ .absent) : r = 0 := by
  have hfew := few_sockets h
  by_contra hne
  exact hr ((opened_reach h.reach).unopened r (by omega))

/-! ## The ways out of the loop -/

/-- A reader that is about to sweep got no bytes. -/
theorem closing_cause (h : (machine pb args).Reach s) {r : Nat} {cause : ExitCause}
    (hr : (s.readers r).pc = .closing cause) : cause = .endOfFile ∨ cause = .readError := by
  revert hr
  refine h.invariant (I := fun s => (s.readers r).pc = .closing cause →
    cause = .endOfFile ∨ cause = .readError) ?_ ?_
  · intro hr
    simp [machine, init] at hr
  · intro s a s' _ hi hs
    have hstep := readers_step hs r
    generalize s'.readers r = x at hstep
    cases hstep with
    | same => exact hi
    | endOfFile _ =>
      intro hx
      cases hx
      exact Or.inl rfl
    | readError _ =>
      intro hx
      cases hx
      exact Or.inr rfl
    | _ => intro hx; cases hx

/-- A reader leaves its loop with its sweep, or with a step that changes no call: at the head
of the loop, or at a bad magic number. -/
theorem exit_cases (h : (machine pb args).Reach s) (hs : (machine pb args).step s a = some s')
    {r : Nat} {cause : ExitCause} (hin : (s.readers r).pc ≠ .exited cause)
    (hout : (s'.readers r).pc = .exited cause) :
    ((cause = .endOfFile ∨ cause = .readError) ∧ a = .sweep r ∧
      (s.readers r).pc = .closing cause) ∨
    ((cause = .badMagic ∨ cause = .disconnected) ∧ s'.calls = s.calls) := by
  have hstep := readers_step hs r
  obtain ⟨-, rfl⟩ := step_iff.mp hs
  generalize hx : (s.effect pb args a).readers r = x at hstep
  rw [hx] at hout
  cases hstep with
  | same => exact absurd hout hin
  | leave hpc hcon =>
    cases hout
    exact Or.inr ⟨Or.inr rfl, rfl⟩
  | sweep c hpc =>
    cases hout
    exact Or.inl ⟨closing_cause h hpc, rfl, hpc⟩
  | badMagic e hpc hpass =>
    cases hout
    exact Or.inr ⟨Or.inl rfl, by simp [effect, hpass, setReader]⟩
  | _ => cases hout

end Channel

end rpc
