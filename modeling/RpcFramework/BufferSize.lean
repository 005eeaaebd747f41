-- How much memory a buffer takes. Its vector never shrinks, and it is made longer only when less
-- room than the new bytes need stands in front of the readable ones and behind them. So it stays
-- near twice the most that was ever readable.
import RpcFramework.BufferQueue
import RpcFramework.Codec

namespace rpc.net

open runs codec

namespace Buffer

/-! ## One call -/

theorem size_eq (b : Buffer) : b.buf.length = b.readIdx + b.readable + b.writable := by
  have h1 := b.read_le_write
  have h2 := b.write_le_size
  unfold readable writable
  omega

theorem readable_append (b : Buffer) (data : Bytes) :
    (b.append data).readable = b.readable + data.length := by
  rw [← peek_length, peek_append, List.length_append, peek_length]

theorem readable_readFd (b : Buffer) (data : Bytes) :
    (b.readFd data).readable = b.readable + data.length := by
  rw [← peek_length, peek_readFd, List.length_append, peek_length]

theorem readable_ensureWritable (b : Buffer) (len : Nat) :
    (b.ensureWritable len).readable = b.readable := by
  rw [← peek_length, (b.ensureWritable_spec len).1, peek_length]

theorem size_copyIn (b : Buffer) (data : Bytes) (h : data.length ≤ b.writable) :
    (b.copyIn data h).buf.length = b.buf.length := by
  have hle := b.write_le_size
  unfold writable at h
  exact blit_length (by omega)

theorem size_retrieve (b : Buffer) (len : Nat) (h : len ≤ b.readable) :
    (b.retrieve len h).buf.length = b.buf.length := by
  unfold retrieve
  split <;> rfl

/-- Room is made within the vector, or the vector gets exactly the size that is needed, and then
less than the new bytes and the prependable area stand in front. -/
theorem size_ensureWritable (b : Buffer) (len : Nat) :
    (b.ensureWritable len).buf.length = b.buf.length ∨
      b.writable < len ∧ b.readIdx < len + kPrependSize ∧
        (b.ensureWritable len).buf.length = b.readIdx + b.readable + len := by
  have h1 := b.read_le_write
  have h2 := b.write_le_size
  have h3 := b.prepend_le_read
  unfold ensureWritable
  split
  · rename_i hshort
    unfold grow
    split
    · left
      have hfit : kPrependSize + b.peek.length ≤ b.buf.length := by
        rw [peek_length]
        unfold readable
        omega
      exact blit_length hfit
    · rename_i hroom
      right
      unfold writable prependable at hroom
      unfold writable at hshort ⊢
      refine ⟨hshort, by omega, ?_⟩
      simp only [List.length_append, List.length_take, List.length_replicate]
      unfold readable
      omega
  · exact Or.inl rfl

theorem le_size_ensureWritable (b : Buffer) (len : Nat) :
    b.buf.length ≤ (b.ensureWritable len).buf.length := by
  have heq := b.size_eq
  rcases b.size_ensureWritable len with hsame | ⟨hshort, -, hlong⟩ <;> omega

theorem size_append (b : Buffer) (data : Bytes) :
    (b.append data).buf.length = (b.ensureWritable data.length).buf.length :=
  size_copyIn _ _ _

/-- The size that `n` readable bytes may lead to. -/
def sizeFor (n : Nat) : Nat := 2 * n + kPrependSize

theorem size_ensureWritable_le (b : Buffer) (len : Nat) :
    (b.ensureWritable len).buf.length ≤ max b.buf.length (sizeFor (b.readable + len)) := by
  unfold sizeFor
  rcases b.size_ensureWritable len with hsame | ⟨-, hfront, heq⟩
  · omega
  · omega

theorem le_size_readFd (b : Buffer) (data : Bytes) :
    b.buf.length ≤ (b.readFd data).buf.length := by
  unfold readFd
  split
  · exact Nat.le_of_eq (size_copyIn _ _ _).symm
  · rw [size_append]
    have hfit : (data.take b.writable).length ≤ b.writable := List.length_take_le _ _
    rw [← b.size_copyIn (data.take b.writable) hfit]
    exact le_size_ensureWritable _ _

theorem size_readFd_le (b : Buffer) (data : Bytes) :
    (b.readFd data).buf.length ≤ max b.buf.length (sizeFor (b.readable + data.length)) := by
  unfold readFd
  split
  · rw [size_copyIn]
    omega
  · rename_i hlong
    rw [size_append]
    have hfit : (data.take b.writable).length ≤ b.writable := List.length_take_le _ _
    have hle := (b.copyIn (data.take b.writable) hfit).size_ensureWritable_le
      (data.drop b.writable).length
    have hread : (b.copyIn (data.take b.writable) hfit).readable = b.readable + b.writable := by
      rw [← peek_length, peek_copyIn, List.length_append, peek_length, List.length_take]
      omega
    have hsum : b.readable + b.writable + (data.drop b.writable).length =
        b.readable + data.length := by
      rw [List.length_drop]
      omega
    rw [size_copyIn, hread, hsum] at hle
    exact hle

/-- A read that overflows the room fills at most the stack area besides. So what was readable
before counts once. -/
theorem size_readFd_of_iovTotal {b : Buffer} {data : Bytes} (h : data.length ≤ b.iovTotal) :
    (b.readFd data).buf.length ≤ max b.buf.length (b.readable + 3 * kExtraSize + kPrependSize) := by
  unfold readFd
  split
  · rw [size_copyIn]
    omega
  · rename_i hlong
    have hroom : b.writable < kExtraSize ∧ data.length ≤ b.writable + kExtraSize := by
      unfold iovTotal at h
      split at h
      · exact ⟨‹_›, h⟩
      · omega
    have hfit : (data.take b.writable).length ≤ b.writable := List.length_take_le _ _
    have hfront : (b.copyIn (data.take b.writable) hfit).readIdx = b.readIdx := rfl
    have hread : (b.copyIn (data.take b.writable) hfit).readable = b.readable + b.writable := by
      rw [← peek_length, peek_copyIn, List.length_append, peek_length, List.length_take]
      omega
    rw [size_append]
    rcases (b.copyIn (data.take b.writable) hfit).size_ensureWritable
      (data.drop b.writable).length with hsame | ⟨-, hless, heq⟩
    · rw [hsame, size_copyIn]
      omega
    · rw [heq, hread, hfront]
      rw [hfront] at hless
      rw [List.length_drop] at hless ⊢
      omega

end Buffer

/-! ## A run -/

namespace BufferRun

/-- What a call makes readable at most, or asks room for. -/
def demand (m : BufferMemory) : BufferOp → Nat
  | .append data | .readFd (some data) => m.readable + data.length
  | .ensureWritable len => m.readable + len
  | .retrieve _ | .retrieveAsString _ | .retrieveAllAsString | .readFd none => m.readable

/-- No call demands more than `n` bytes. -/
def Within (n : Nat) (s : BufferRun) (op : BufferOp) : Prop := ∀ m ∈ s.memory, demand m op ≤ n

instance (n : Nat) (s : BufferRun) (op : BufferOp) : Decidable (Within n s op) :=
  inferInstanceAs (Decidable (∀ m ∈ s.memory, demand m op ≤ n))

/-- A call makes the vector no longer than its demand needs, and never shorter. -/
theorem size_run (b : Buffer) (op : BufferOp) (h : op.allowed b.memory = true) :
    ∃ (str : Option Bytes) (b' : Buffer), op.run b.memory = some (str, b'.memory) ∧
      b.buf.length ≤ b'.buf.length ∧
      b'.buf.length ≤ max b.buf.length (Buffer.sizeFor (demand b.memory op)) := by
  have hkeep : ∀ n, b.buf.length ≤ max b.buf.length n := fun n => Nat.le_max_left _ _
  cases op with
  | append data =>
    refine ⟨none, b.append data, ?_, ?_, ?_⟩
    · simp [BufferOp.run, b.memory_append]
    · rw [b.size_append]
      exact b.le_size_ensureWritable _
    · rw [b.size_append]
      exact b.size_ensureWritable_le _
  | ensureWritable len =>
    refine ⟨none, b.ensureWritable len, ?_, b.le_size_ensureWritable len,
      b.size_ensureWritable_le len⟩
    simp [BufferOp.run, b.memory_ensureWritable]
  | retrieve len =>
    have hlen : len ≤ b.readable := of_decide_eq_true h
    refine ⟨none, b.retrieve len hlen, ?_, ?_, ?_⟩
    · simp [BufferOp.run, b.memory_retrieve len hlen]
    · exact Nat.le_of_eq (b.size_retrieve _ _).symm
    · rw [b.size_retrieve]
      exact hkeep _
  | retrieveAsString len =>
    have hlen : len ≤ b.readable := of_decide_eq_true h
    refine ⟨some (b.peek.take len), b.retrieve len hlen, ?_, ?_, ?_⟩
    · simp [BufferOp.run, b.memory_retrieveAsString len hlen]
    · exact Nat.le_of_eq (b.size_retrieve _ _).symm
    · rw [b.size_retrieve]
      exact hkeep _
  | retrieveAllAsString =>
    have hall := b.memory_retrieveAsString b.readable (Nat.le_refl _)
    refine ⟨some (b.peek.take b.readable), b.retrieve b.readable (Nat.le_refl _), ?_, ?_, ?_⟩
    · change (b.memory.retrieveAsString b.readable).map _ = _
      rw [hall]
      rfl
    · exact Nat.le_of_eq (b.size_retrieve _ _).symm
    · rw [b.size_retrieve]
      exact hkeep _
  | readFd result =>
    cases result with
    | none =>
      refine ⟨none, b, ?_, Nat.le_refl _, hkeep _⟩
      simp [BufferOp.run, b.memory_readFd_error]
    | some data =>
      have hlen : data.length ≤ b.iovTotal := of_decide_eq_true h
      refine ⟨none, b.readFd data, ?_, b.le_size_readFd data, b.size_readFd_le data⟩
      simp [BufferOp.run, b.memory_readFd hlen]

/-- The vector follows the backlog. It never gets shorter, and if no call makes more than `n`
bytes readable or asks for room beyond them, it stays below twice that many, however the bytes
come and go. -/
theorem the_vector_follows_the_backlog {initialSize n : Nat} {s : BufferRun}
    (h : (machine initialSize).ReachUnder (Within n) s) : ∃ m, s.memory = some m ∧
      kPrependSize + initialSize ≤ m.buf.length ∧
      m.buf.length ≤ max (kPrependSize + initialSize) (Buffer.sizeFor n) := by
  have hrun : ∃ b : Buffer, s.memory = some b.memory ∧
      kPrependSize + initialSize ≤ b.buf.length ∧
      b.buf.length ≤ max (kPrependSize + initialSize) (Buffer.sizeFor n) := by
    refine h.invariant (I := fun s => ∃ b : Buffer, s.memory = some b.memory ∧
      kPrependSize + initialSize ≤ b.buf.length ∧
      b.buf.length ≤ max (kPrependSize + initialSize) (Buffer.sizeFor n)) ?_ ?_
    · refine ⟨Buffer.new initialSize, rfl, ?_, ?_⟩
      · simp [Buffer.new]
      · simp only [Buffer.new, List.length_replicate]
        exact Nat.le_max_left _ _
    · rintro s op s' - ⟨b, hb, hlow, hhigh⟩ hwithin hs
      simp only [machine, hb, Option.bind_some] at hs
      split at hs
      · cases hs
        obtain ⟨str, b', hb', hgrow, hle⟩ := size_run b op ‹_›
        have hdemand := hwithin b.memory hb
        unfold Buffer.sizeFor at hle hhigh ⊢
        exact ⟨b', by simp [after, hb'], by omega, by omega⟩
      · cases hs
  obtain ⟨b, hb, hlow, hhigh⟩ := hrun
  exact ⟨b.memory, hb, hlow, hhigh⟩

/-- A buffer for two bytes gets six bytes, of which four are taken out, and then four more. The
vector is made longer once. -/
theorem a_small_buffer_stays_small : ∃ s, (machine 2).ReachUnder (Within 6) s ∧
    s.put.length = 10 ∧ ∃ m, s.memory = some m ∧ m.buf.length ≤ 20 := by
  obtain ⟨s, h, hput⟩ : ∃ s, (machine 2).ReachUnder (Within 6) s ∧ s.put.length = 10 :=
    Machine.ReachUnder.of_run [.append [1, 2, 3, 4, 5, 6], .retrieve 4, .readFd (some [7, 8, 9, 10])]
      (by decide +kernel)
  obtain ⟨m, hm, -, hle⟩ := the_vector_follows_the_backlog h
  exact ⟨s, h, hput, m, hm, hle⟩

end BufferRun

end rpc.net
