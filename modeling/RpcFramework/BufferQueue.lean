-- The buffer as a queue of bytes. Here it is the plain vector with two indices of
-- the source, where nothing ties the indices together and each access to memory
-- is checked. No run of the operations makes an access outside its area, and what
-- is readable is always what was put in less what was taken out.
import RpcFramework.Buffer
import RpcFramework.Runs

namespace rpc.net

open runs

/-! ## The memory -/

/-- The three members of a `Buffer`. -/
structure BufferMemory where
  buf : Bytes
  readIdx : Nat
  writeIdx : Nat

namespace BufferMemory

/-- `len` bytes of an area from `pos` on. `none` is a range that leaves the area. -/
def load (area : Bytes) (pos len : Nat) : Option Bytes :=
  if pos + len ≤ area.length then some ((area.drop pos).take len) else none

/-- An area after `data` was copied to `pos`. `none` is a range that leaves the area. -/
def store (area : Bytes) (pos : Nat) (data : Bytes) : Option Bytes :=
  if pos + data.length ≤ area.length then some (Buffer.blit area pos data) else none

def readable (m : BufferMemory) : Nat := m.writeIdx - m.readIdx

def writable (m : BufferMemory) : Nat := m.buf.length - m.writeIdx

def prependable (m : BufferMemory) : Nat := m.readIdx

/-- The bytes in `[read_idx_, write_idx_)`. -/
def peek (m : BufferMemory) : Bytes := (m.buf.take m.writeIdx).drop m.readIdx

/-! ## The operations -/

def new (initialSize : Nat) : BufferMemory :=
  ⟨List.replicate (kPrependSize + initialSize) 0, kPrependSize, kPrependSize⟩

/-- `std::vector::resize`: cut at the end, or filled up with zeros. -/
def resize (v : Bytes) (size : Nat) : Bytes := v.take size ++ List.replicate (size - v.length) 0

def grow (m : BufferMemory) (len : Nat) : Option BufferMemory :=
  if m.writable + m.prependable ≥ len + kPrependSize then do
    let readableBytes := m.readable
    let moved ← load m.buf m.readIdx readableBytes
    let buf ← store m.buf kPrependSize moved
    return ⟨buf, kPrependSize, kPrependSize + readableBytes⟩
  else
    return { m with buf := resize m.buf (m.writeIdx + len) }

def ensureWritable (m : BufferMemory) (len : Nat) : Option BufferMemory :=
  if m.writable < len then m.grow len else return m

/-- `append`, when the bytes at the source were loaded already. -/
def append (m : BufferMemory) (data : Bytes) : Option BufferMemory := do
  let m ← m.ensureWritable data.length
  let buf ← store m.buf m.writeIdx data
  return { m with buf := buf, writeIdx := m.writeIdx + data.length }

/-- `retrieve`. A failed assertion is `none` as well. -/
def retrieve (m : BufferMemory) (len : Nat) : Option BufferMemory :=
  if len ≤ m.readable then
    if m.readIdx + len = m.writeIdx then
      return { m with readIdx := kPrependSize, writeIdx := kPrependSize }
    else
      return { m with readIdx := m.readIdx + len }
  else none

def retrieveAsString (m : BufferMemory) (len : Nat) : Option (Bytes × BufferMemory) :=
  if len ≤ m.readable then do
    let res ← load m.buf m.readIdx len
    let m ← m.retrieve len
    return (res, m)
  else none

def retrieveAllAsString (m : BufferMemory) : Option (Bytes × BufferMemory) :=
  m.retrieveAsString m.readable

/-- The total length of the iovecs that `read_fd` passes. -/
def iovTotal (m : BufferMemory) : Nat :=
  if m.writable < Buffer.kExtraSize then m.writable + Buffer.kExtraSize else m.writable

/-- `read_fd`. `readv` failed, or it gave bytes: it fills the room behind `write_idx_`
first, and the stack area `extra` with what is left over. -/
def readFd (m : BufferMemory) : Option Bytes → Option BufferMemory
  | none => do
    -- the kernel sees the iovec even when it gives an error
    let _ ← load m.buf m.writeIdx m.writable
    return m
  | some data => do
    let writableBytes := m.writable
    let _ ← load m.buf m.writeIdx writableBytes
    let buf ← store m.buf m.writeIdx (data.take writableBytes)
    let extra ← store (List.replicate Buffer.kExtraSize 0) 0 (data.drop writableBytes)
    if data.length ≤ writableBytes then
      return { m with buf := buf, writeIdx := m.writeIdx + data.length }
    else do
      let source ← load extra 0 (data.length - writableBytes)
      append { m with buf := buf, writeIdx := buf.length } source

end BufferMemory

/-! ## The operations keep to their areas -/

namespace Buffer

/-- The members of a buffer whose indices are in order. -/
def memory (b : Buffer) : BufferMemory := ⟨b.buf, b.readIdx, b.writeIdx⟩

theorem load_peek (b : Buffer) {len : Nat} (h : len ≤ b.readable) :
    BufferMemory.load b.buf b.readIdx len = some (b.peek.take len) := by
  have h2 := b.read_le_write
  have h3 := b.write_le_size
  unfold readable at h
  unfold BufferMemory.load peek
  rw [if_pos (by omega), List.drop_take, List.take_take, Nat.min_eq_left (by omega)]

theorem memory_grow (b : Buffer) (len : Nat) :
    b.memory.grow len = some (b.grow len).memory := by
  have h1 := b.prepend_le_read
  have h2 := b.read_le_write
  have h3 := b.write_le_size
  have hlen := b.peek_length
  have hr : b.readable = b.writeIdx - b.readIdx := rfl
  unfold BufferMemory.grow grow
  change (if b.writable + b.prependable ≥ len + kPrependSize then
    (BufferMemory.load b.buf b.readIdx b.readable).bind _ else _) = _
  split
  · have hstore : BufferMemory.store b.buf kPrependSize b.peek =
        some (blit b.buf kPrependSize b.peek) := by
      unfold BufferMemory.store
      rw [if_pos (by omega)]
    have hload : BufferMemory.load b.buf b.readIdx b.readable = some b.peek := by
      rw [b.load_peek (Nat.le_refl _), ← hlen, List.take_length]
    rw [hload, Option.bind_some]
    change (BufferMemory.store b.buf kPrependSize b.peek).bind _ = _
    rw [hstore]
    rfl
  · rfl

theorem memory_ensureWritable (b : Buffer) (len : Nat) :
    b.memory.ensureWritable len = some (b.ensureWritable len).memory := by
  unfold BufferMemory.ensureWritable ensureWritable
  change (if b.writable < len then _ else _) = _
  split
  · exact b.memory_grow len
  · rfl

theorem store_copyIn (b : Buffer) (data : Bytes) (h : data.length ≤ b.writable) :
    BufferMemory.store b.buf b.writeIdx data = some (b.copyIn data h).buf := by
  have h3 := b.write_le_size
  unfold writable at h
  unfold BufferMemory.store
  rw [if_pos (by omega)]
  rfl

theorem memory_append (b : Buffer) (data : Bytes) :
    b.memory.append data = some (b.append data).memory := by
  unfold BufferMemory.append
  rw [memory_ensureWritable]
  have hroom := (b.ensureWritable_spec data.length).2
  have hstore := (b.ensureWritable data.length).store_copyIn data hroom
  simp only [Option.bind_eq_bind, Option.bind_some]
  change (BufferMemory.store (b.ensureWritable data.length).buf
    (b.ensureWritable data.length).writeIdx data).bind _ = _
  rw [hstore]
  rfl

theorem memory_retrieve (b : Buffer) (len : Nat) (h : len ≤ b.readable) :
    b.memory.retrieve len = some (b.retrieve len h).memory := by
  unfold BufferMemory.retrieve retrieve
  rw [if_pos (show len ≤ b.memory.readable from h)]
  change (if b.readIdx + len = b.writeIdx then _ else _) = _
  split <;> rfl

theorem memory_retrieveAsString (b : Buffer) (len : Nat) (h : len ≤ b.readable) :
    b.memory.retrieveAsString len = some (b.peek.take len, (b.retrieve len h).memory) := by
  unfold BufferMemory.retrieveAsString
  rw [if_pos (show len ≤ b.memory.readable from h)]
  change (BufferMemory.load b.buf b.readIdx len).bind _ = _
  rw [b.load_peek h, Option.bind_some, memory_retrieve b len h]
  rfl

/-- The first iovec is inside the vector. -/
theorem load_room (b : Buffer) :
    ∃ room, BufferMemory.load b.memory.buf b.memory.writeIdx b.memory.writable = some room := by
  have h3 := b.write_le_size
  refine ⟨_, if_pos ?_⟩
  change b.writeIdx + (b.buf.length - b.writeIdx) ≤ b.buf.length
  omega

/-- What the stack area holds is what was copied to it. -/
theorem load_extra {data : Bytes} (h : data.length ≤ kExtraSize) :
    ∃ extra, BufferMemory.store (List.replicate kExtraSize 0) 0 data = some extra ∧
      BufferMemory.load extra 0 data.length = some data := by
  have hroom : 0 + data.length ≤ (List.replicate kExtraSize (0 : UInt8)).length := by
    simpa using h
  refine ⟨_, if_pos hroom, ?_⟩
  unfold BufferMemory.load
  rw [if_pos (by rw [blit_length hroom]; exact hroom)]
  simp [blit]

theorem memory_readFd_error (b : Buffer) : b.memory.readFd none = some b.memory := by
  obtain ⟨room, hroom⟩ := b.load_room
  unfold BufferMemory.readFd
  simp [hroom]

theorem memory_readFd (b : Buffer) {data : Bytes} (h : data.length ≤ b.iovTotal) :
    b.memory.readFd (some data) = some (b.readFd data).memory := by
  obtain ⟨room, hroom⟩ := b.load_room
  have hlen : (data.drop b.writable).length = data.length - b.writable := List.length_drop
  have hextra : (data.drop b.writable).length ≤ kExtraSize := by
    unfold iovTotal at h
    split at h <;> omega
  obtain ⟨extra, hstored, hloaded⟩ := load_extra hextra
  have hfit : (data.take b.writable).length ≤ b.writable := List.length_take_le _ _
  have hstore : BufferMemory.store b.memory.buf b.memory.writeIdx (data.take b.memory.writable) =
      some (b.copyIn (data.take b.writable) hfit).buf := b.store_copyIn _ hfit
  change BufferMemory.store (List.replicate kExtraSize 0) 0 (data.drop b.memory.writable) = _
    at hstored
  unfold BufferMemory.readFd readFd
  simp only [hroom, hstore, hstored, Option.bind_eq_bind, Option.bind_some]
  change (if data.length ≤ b.writable then _ else _) = _
  by_cases hall : data.length ≤ b.writable
  · rw [if_pos hall, dif_pos hall]
    simp only [List.take_of_length_le hall]
    rfl
  · -- the room is full now, so the write index is at the end of the vector
    have hfull : b.writeIdx + (data.take b.writable).length =
        (b.copyIn (data.take b.writable) hfit).buf.length := by
      have h3 := b.write_le_size
      have hw : b.writable = b.buf.length - b.writeIdx := rfl
      have htake : (data.take b.writable).length = b.writable := by
        rw [List.length_take]
        omega
      change _ = (blit b.buf b.writeIdx (data.take b.writable)).length
      rw [blit_length (by omega)]
      omega
    have hmem : (⟨(b.copyIn (data.take b.writable) hfit).buf, b.memory.readIdx,
        (b.copyIn (data.take b.writable) hfit).buf.length⟩ : BufferMemory) =
        (b.copyIn (data.take b.writable) hfit).memory := by
      rw [← hfull]
      rfl
    rw [if_neg hall, dif_neg hall, ← memory_append]
    change (BufferMemory.load extra 0 (data.length - b.writable)).bind _ = _
    rw [← hlen, hloaded, Option.bind_some, hmem]

end Buffer

/-! ## Runs of a buffer -/

/-- The calls on a buffer. A `readFd` carries what `readv` gave: bytes, or an error. -/
inductive BufferOp
  | append (data : Bytes)
  | ensureWritable (len : Nat)
  | retrieve (len : Nat)
  | retrieveAsString (len : Nat)
  | retrieveAllAsString
  | readFd (result : Option Bytes)

namespace BufferOp

/-- What the caller and the kernel promise: no more is retrieved than is readable, and `readv`
gives no more than the iovecs hold. -/
def allowed (m : BufferMemory) : BufferOp → Bool
  | .retrieve len | .retrieveAsString len => len ≤ m.readable
  | .readFd (some data) => data.length ≤ m.iovTotal
  | _ => true

/-- The call: the string that it returns, if it returns one, and the memory after it. -/
def run (m : BufferMemory) : BufferOp → Option (Option Bytes × BufferMemory)
  | .append data => (m.append data).map (none, ·)
  | .ensureWritable len => (m.ensureWritable len).map (none, ·)
  | .retrieve len => (m.retrieve len).map (none, ·)
  | .retrieveAsString len => (m.retrieveAsString len).map fun r => (some r.1, r.2)
  | .retrieveAllAsString => m.retrieveAllAsString.map fun r => (some r.1, r.2)
  | .readFd result => (m.readFd result).map (none, ·)

/-- The bytes that a call puts in. -/
def bytesIn : BufferOp → Bytes
  | .append data | .readFd (some data) => data
  | _ => []

/-- How many bytes a call takes out. -/
def bytesOut (m : BufferMemory) : BufferOp → Nat
  | .retrieve len | .retrieveAsString len => len
  | .retrieveAllAsString => m.readable
  | _ => 0

/-- Each allowed call keeps to its areas, puts its bytes behind the readable ones, takes its
bytes from the front, and returns those that it took. -/
theorem run_spec (b : Buffer) (op : BufferOp) (h : op.allowed b.memory = true) :
    ∃ (str : Option Bytes) (b' : Buffer), op.run b.memory = some (str, b'.memory) ∧
      op.bytesOut b.memory ≤ b.peek.length ∧
      b'.peek = b.peek.drop (op.bytesOut b.memory) ++ op.bytesIn ∧
      ∀ t ∈ str, t = b.peek.take (op.bytesOut b.memory) := by
  cases op with
  | append data =>
    refine ⟨none, b.append data, ?_, Nat.zero_le _, ?_, by simp⟩
    · simp [run, b.memory_append]
    · simp [bytesOut, bytesIn]
  | ensureWritable len =>
    refine ⟨none, b.ensureWritable len, ?_, Nat.zero_le _, ?_, by simp⟩
    · simp [run, b.memory_ensureWritable]
    · simp [bytesOut, bytesIn, (b.ensureWritable_spec len).1]
  | retrieve len =>
    have hlen : len ≤ b.readable := of_decide_eq_true h
    refine ⟨none, b.retrieve len hlen, ?_, ?_, ?_, by simp⟩
    · simp [run, b.memory_retrieve len hlen]
    · rw [b.peek_length]
      exact hlen
    · simp [bytesOut, bytesIn]
  | retrieveAsString len =>
    have hlen : len ≤ b.readable := of_decide_eq_true h
    refine ⟨some (b.peek.take len), b.retrieve len hlen, ?_, ?_, ?_, ?_⟩
    · simp [run, b.memory_retrieveAsString len hlen]
    · rw [b.peek_length]
      exact hlen
    · simp [bytesOut, bytesIn]
    · rintro t ⟨⟩
      rfl
  | retrieveAllAsString =>
    have hall := b.memory_retrieveAsString b.readable (Nat.le_refl _)
    refine ⟨some (b.peek.take b.readable), b.retrieve b.readable (Nat.le_refl _), ?_, ?_, ?_, ?_⟩
    · change (b.memory.retrieveAsString b.readable).map _ = _
      rw [hall]
      rfl
    · rw [b.peek_length]
      exact Nat.le_refl _
    · rw [b.peek_retrieve]
      exact (List.append_nil _).symm
    · rintro t ⟨⟩
      rfl
  | readFd result =>
    cases result with
    | none =>
      refine ⟨none, b, ?_, Nat.zero_le _, ?_, by simp⟩
      · simp [run, b.memory_readFd_error]
      · simp [bytesOut, bytesIn]
    | some data =>
      have hlen : data.length ≤ b.iovTotal := of_decide_eq_true h
      refine ⟨none, b.readFd data, ?_, Nat.zero_le _, ?_, by simp⟩
      · simp [run, b.memory_readFd hlen]
      · simp [bytesOut, bytesIn]

end BufferOp

/-- A string that was given out: where it starts among all bytes put in, how long the caller
asked it to be, and the string. -/
structure GivenString where
  start : Nat
  len : Nat
  str : Bytes

/-- A buffer in use: its memory, or `none` after an access outside an area, all bytes put into
it, how many of them were taken out, and the strings given out. -/
structure BufferRun where
  memory : Option BufferMemory
  put : Bytes
  taken : Nat
  strings : List GivenString

namespace BufferRun

/-- A buffer after one more call. -/
def after (s : BufferRun) (m : BufferMemory) (op : BufferOp) : BufferRun :=
  let result := op.run m
  { memory := result.map (·.2)
    put := s.put ++ op.bytesIn
    taken := s.taken + op.bytesOut m
    strings := s.strings ++ (result.bind (·.1)).toList.map (⟨s.taken, op.bytesOut m, ·⟩) }

/-- All allowed calls on a buffer of an initial size, in any order. -/
def machine (initialSize : Nat) : Machine BufferRun BufferOp where
  init := ⟨some (BufferMemory.new initialSize), [], 0, []⟩
  step s op := s.memory.bind fun m => if op.allowed m then some (s.after m op) else none

/-- The memory is a buffer with its indices in order, its readable bytes are what was put in
less what was taken out, and each string given out is the part it was asked for. -/
structure Queue (s : BufferRun) (b : Buffer) : Prop where
  memory : s.memory = some b.memory
  taken_le : s.taken ≤ s.put.length
  readable : b.peek = s.put.drop s.taken
  strings : ∀ g ∈ s.strings, g.start + g.len ≤ s.put.length ∧
    g.str = (s.put.drop g.start).take g.len

theorem queue_init (n : Nat) : Queue (machine n).init (Buffer.new n) :=
  ⟨rfl, Nat.le_refl _, by simp [machine], by simp [machine]⟩

theorem queue_after {s : BufferRun} {b : Buffer} (h : Queue s b) {op : BufferOp}
    (hok : op.allowed b.memory = true) : ∃ b', Queue (s.after b.memory op) b' ∧
      b'.peek = b.peek.drop (op.bytesOut b.memory) ++ op.bytesIn := by
  obtain ⟨str, b', hrun, hout, hpeek, hstr⟩ := op.run_spec b hok
  have hlen := congrArg List.length h.readable
  rw [List.length_drop] at hlen
  have htaken := h.taken_le
  refine ⟨b', ⟨?_, ?_, ?_, ?_⟩, hpeek⟩
  · simp [after, hrun]
  · simp only [after, List.length_append]
    omega
  · rw [hpeek, h.readable, List.drop_drop]
    exact (List.drop_append_of_le_length (by omega)).symm
  · intro g hg
    simp only [after, hrun, Option.bind_some, List.mem_append] at hg
    simp only [after, List.length_append]
    rcases hg with hold | hnew
    · obtain ⟨hle, heq⟩ := h.strings g hold
      refine ⟨by omega, ?_⟩
      rw [heq, List.drop_append_of_le_length (by omega), List.take_append_of_le_length]
      rw [List.length_drop]
      omega
    · obtain ⟨t, ht, rfl⟩ := List.mem_map.mp hnew
      refine ⟨by simp only; omega, ?_⟩
      simp only
      rw [hstr t (Option.mem_toList.mp ht), h.readable,
        List.drop_append_of_le_length (by omega), List.take_append_of_le_length]
      rw [List.length_drop]
      omega

/-- A step of a run is an allowed call. -/
theorem queue_step {n : Nat} {s s' : BufferRun} {b : Buffer} {op : BufferOp} (h : Queue s b)
    (hs : (machine n).step s op = some s') :
    ∃ b', Queue s' b' ∧ b'.peek = b.peek.drop (op.bytesOut b.memory) ++ op.bytesIn := by
  simp only [machine, h.memory, Option.bind_some] at hs
  split at hs
  · cases hs
    exact queue_after h ‹_›
  · cases hs

theorem queue_reach {n : Nat} {s : BufferRun} (h : (machine n).Reach s) : ∃ b, Queue s b := by
  refine Machine.Reach.invariant (I := fun s => ∃ b, Queue s b) ⟨_, queue_init n⟩ ?_ h
  rintro s op s' - ⟨b, hq⟩ hs
  obtain ⟨b', hq', -⟩ := queue_step hq hs
  exact ⟨b', hq'⟩

/-! ## The law -/

/-- The readable bytes of a buffer in use. -/
def readableBytes (s : BufferRun) : Option Bytes := s.memory.map BufferMemory.peek

/-- However a buffer is used, no access leaves its area, the indices stay in order, and the
readable bytes are all bytes put in less those taken out at the front. A string that was given
out is the part that the caller asked for. A failed `read_fd`, and `ensure_writable`, change
no readable byte. Sizes are natural numbers here, so none of them wraps. -/
theorem the_buffer_is_a_byte_queue (n : Nat) {s : BufferRun} (h : (machine n).Reach s) :
    (∃ m, s.memory = some m ∧ kPrependSize ≤ m.readIdx ∧ m.readIdx ≤ m.writeIdx ∧
      m.writeIdx ≤ m.buf.length) ∧
    s.taken ≤ s.put.length ∧ s.readableBytes = some (s.put.drop s.taken) ∧
    (∀ g ∈ s.strings, g.str = (s.put.drop g.start).take g.len ∧ g.str.length = g.len) ∧
    ∀ op s', (op = .readFd none ∨ ∃ len, op = .ensureWritable len) →
      (machine n).step s op = some s' → s'.readableBytes = s.readableBytes := by
  obtain ⟨b, hq⟩ := queue_reach h
  have hbytes : s.readableBytes = some b.peek := by
    unfold readableBytes
    rw [hq.memory]
    rfl
  refine ⟨⟨_, hq.memory, b.prepend_le_read, b.read_le_write, b.write_le_size⟩, hq.taken_le, ?_,
    ?_, ?_⟩
  · rw [hbytes, hq.readable]
  · intro g hg
    obtain ⟨hle, heq⟩ := hq.strings g hg
    refine ⟨heq, ?_⟩
    rw [heq, List.length_take, List.length_drop]
    omega
  · intro op s' hop hs
    obtain ⟨b', hq', hpeek⟩ := queue_step hq hs
    have hkeep : b'.peek = b.peek := by
      rcases hop with rfl | ⟨len, rfl⟩ <;> simpa [BufferOp.bytesOut, BufferOp.bytesIn] using hpeek
    unfold readableBytes at hbytes ⊢
    rw [hq'.memory, hbytes, ← hkeep]
    rfl

/-- A buffer with room for two bytes: filled, read out in part, moved to the front, and then
read into behind its end. -/
theorem a_small_buffer_is_a_byte_queue :
    ∃ s, (machine 2).Reach s ∧ s.readableBytes = some [2, 3, 4, 5] ∧ s.put = [1, 2, 3, 4, 5] := by
  have hrun : ∃ s, (machine 2).Reach s ∧ s.put = [1, 2, 3, 4, 5] ∧ s.taken = 1 :=
    Machine.ReachUnder.of_run [.append [1, 2], .retrieveAsString 1, .append [3], .readFd none,
      .readFd (some [4, 5])] (by decide +kernel)
  obtain ⟨s, hs, hput, htaken⟩ := hrun
  have hbytes := (the_buffer_is_a_byte_queue 2 hs).2.2.1
  rw [hput, htaken] at hbytes
  exact ⟨s, hs, hbytes, hput⟩

end BufferRun

end rpc.net
