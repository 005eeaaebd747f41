-- The byte buffer of a connection. The readable bytes stand between two
-- indices of a vector; an append that finds no room moves them to the front or
-- makes the vector longer. Neither changes what is readable.
import RpcFramework.Deframe

namespace rpc.net

/-- A byte string, as `std::string` or the bytes of a socket hold it. -/
abbrev Bytes := List UInt8

def kPrependSize : Nat := 8

def kInitialSize : Nat := 4096

/-- The vector and its two indices. The indices never cross, and never leave the vector. -/
structure Buffer where
  buf : Bytes
  readIdx : Nat
  writeIdx : Nat
  prepend_le_read : kPrependSize ≤ readIdx
  read_le_write : readIdx ≤ writeIdx
  write_le_size : writeIdx ≤ buf.length

namespace Buffer

/-- A new buffer: no readable byte, and `initialSize` bytes of room. -/
def new (initialSize : Nat) : Buffer where
  buf := List.replicate (kPrependSize + initialSize) 0
  readIdx := kPrependSize
  writeIdx := kPrependSize
  prepend_le_read := Nat.le_refl _
  read_le_write := Nat.le_refl _
  write_le_size := by simp

def readable (b : Buffer) : Nat := b.writeIdx - b.readIdx

def writable (b : Buffer) : Nat := b.buf.length - b.writeIdx

def prependable (b : Buffer) : Nat := b.readIdx

/-- The bytes that `peek` points at, up to the write index. -/
def peek (b : Buffer) : Bytes := (b.buf.take b.writeIdx).drop b.readIdx

/-- The vector after `data` was copied over it at `pos`, as `memcpy` and `memmove` do. -/
def blit (v : Bytes) (pos : Nat) (data : Bytes) : Bytes :=
  v.take pos ++ data ++ v.drop (pos + data.length)

theorem blit_length {v data : Bytes} {pos : Nat} (h : pos + data.length ≤ v.length) :
    (blit v pos data).length = v.length := by
  simp only [blit, List.length_append, List.length_take, List.length_drop]
  omega

theorem take_blit {v data : Bytes} {pos : Nat} (h : pos ≤ v.length) :
    (blit v pos data).take (pos + data.length) = v.take pos ++ data := by
  unfold blit
  rw [List.take_left' (by simp [Nat.min_eq_left h])]

theorem peek_length (b : Buffer) : b.peek.length = b.readable := by
  have := b.write_le_size
  simp only [peek, readable, List.length_drop, List.length_take]
  omega

/-- `grow`: move the readable bytes to the front when that makes room, and make the vector
longer when it does not. -/
def grow (b : Buffer) (len : Nat) : Buffer :=
  if b.writable + b.prependable ≥ len + kPrependSize then
    { buf := blit b.buf kPrependSize b.peek
      readIdx := kPrependSize
      writeIdx := kPrependSize + b.readable
      prepend_le_read := Nat.le_refl _
      read_le_write := Nat.le_add_right _ _
      write_le_size := by
        have h1 := b.prepend_le_read
        have h2 := b.read_le_write
        have h3 := b.write_le_size
        have hfit : kPrependSize + b.peek.length ≤ b.buf.length := by
          rw [peek_length]; unfold readable; omega
        rw [blit_length hfit, ← peek_length]
        exact hfit }
  else
    { b with
      buf := b.buf.take (b.writeIdx + len) ++
        List.replicate (b.writeIdx + len - b.buf.length) 0
      write_le_size := by
        have := b.write_le_size
        simp only [List.length_append, List.length_take, List.length_replicate]
        omega }

def ensureWritable (b : Buffer) (len : Nat) : Buffer :=
  if b.writable < len then b.grow len else b

/-- Growing keeps the readable bytes, and leaves room for `len` more. -/
theorem grow_spec (b : Buffer) (len : Nat) :
    (b.grow len).peek = b.peek ∧ len ≤ (b.grow len).writable := by
  have h1 := b.prepend_le_read
  have h2 := b.read_le_write
  have h3 := b.write_le_size
  have hlen := b.peek_length
  have hr : b.readable = b.writeIdx - b.readIdx := rfl
  unfold grow
  split
  · rename_i hroom
    have hfit : kPrependSize + b.peek.length ≤ b.buf.length := by omega
    refine ⟨?_, ?_⟩
    · change ((blit b.buf kPrependSize b.peek).take (kPrependSize + b.readable)).drop
        kPrependSize = b.peek
      rw [← hlen, take_blit (by omega), List.drop_left' (by simp; omega)]
    · change len ≤ (blit b.buf kPrependSize b.peek).length - (kPrependSize + b.readable)
      rw [blit_length hfit]
      unfold writable prependable at hroom
      omega
  · rename_i hroom
    refine ⟨?_, ?_⟩
    · simp only [peek]
      rw [List.take_append_of_le_length (by simp; omega), List.take_take,
        Nat.min_eq_left (by omega)]
    · simp only [writable, List.length_append, List.length_take, List.length_replicate]
      omega

theorem ensureWritable_spec (b : Buffer) (len : Nat) :
    (b.ensureWritable len).peek = b.peek ∧ len ≤ (b.ensureWritable len).writable := by
  unfold ensureWritable
  split
  · exact b.grow_spec len
  · exact ⟨rfl, by omega⟩

/-- The copy of `data` behind the readable bytes of a buffer that has the room for it. -/
def copyIn (b : Buffer) (data : Bytes) (h : data.length ≤ b.writable) : Buffer :=
  { b with
    buf := blit b.buf b.writeIdx data
    writeIdx := b.writeIdx + data.length
    read_le_write := Nat.le_trans b.read_le_write (Nat.le_add_right _ _)
    write_le_size := by
      have := b.write_le_size
      unfold writable at h
      rw [blit_length (by omega)]
      omega }

theorem peek_copyIn (b : Buffer) (data : Bytes) (h : data.length ≤ b.writable) :
    (b.copyIn data h).peek = b.peek ++ data := by
  have h2 := b.read_le_write
  have h3 := b.write_le_size
  simp only [peek, copyIn]
  rw [take_blit h3, List.drop_append_of_le_length (by simp; omega)]

def append (b : Buffer) (data : Bytes) : Buffer :=
  (b.ensureWritable data.length).copyIn data (b.ensureWritable_spec data.length).2

@[simp]
theorem peek_append (b : Buffer) (data : Bytes) : (b.append data).peek = b.peek ++ data := by
  unfold append
  rw [peek_copyIn, (b.ensureWritable_spec data.length).1]

/-- `retrieve`. The assertion of the source is the precondition here. -/
def retrieve (b : Buffer) (len : Nat) (h : len ≤ b.readable) : Buffer :=
  if b.readIdx + len = b.writeIdx then
    { b with
      readIdx := kPrependSize
      writeIdx := kPrependSize
      prepend_le_read := Nat.le_refl _
      read_le_write := Nat.le_refl _
      write_le_size := Nat.le_trans b.prepend_le_read
        (Nat.le_trans b.read_le_write b.write_le_size) }
  else
    { b with
      readIdx := b.readIdx + len
      prepend_le_read := Nat.le_trans b.prepend_le_read (Nat.le_add_right _ _)
      read_le_write := by
        have := b.read_le_write
        unfold readable at h
        omega }

@[simp]
theorem peek_retrieve (b : Buffer) (len : Nat) (h : len ≤ b.readable) :
    (b.retrieve len h).peek = b.peek.drop len := by
  have h3 := b.write_le_size
  unfold retrieve
  split
  · rename_i hall
    have hnil : b.peek.drop len = [] := by
      rw [List.drop_eq_nil_iff, peek_length]
      unfold readable
      omega
    rw [hnil]
    simp [peek]
  · simp [peek, List.drop_drop]

def retrieveAsString (b : Buffer) (len : Nat) (h : len ≤ b.readable) : Bytes × Buffer :=
  (b.peek.take len, b.retrieve len h)

def retrieveAllAsString (b : Buffer) : Bytes × Buffer :=
  b.retrieveAsString b.readable (Nat.le_refl _)

theorem retrieveAllAsString_fst (b : Buffer) : b.retrieveAllAsString.1 = b.peek := by
  simp [retrieveAllAsString, retrieveAsString, ← peek_length]

@[simp]
theorem peek_new (n : Nat) : (Buffer.new n).peek = [] := by
  simp [peek, new, kPrependSize]

/-! ## Reading from a socket -/

/-- The size of the stack area of `read_fd`. -/
def kExtraSize : Nat := 65536

/-- How many bytes `readv` may give: the room of the buffer, and the stack area as well
while that room is smaller than it. -/
def iovTotal (b : Buffer) : Nat :=
  if b.writable < kExtraSize then b.writable + kExtraSize else b.writable

/-- `read_fd` when `readv` gave `data`. What does not fit into the room of the buffer lies
in the stack area, and is appended from there. -/
def readFd (b : Buffer) (data : Bytes) : Buffer :=
  if h : data.length ≤ b.writable then b.copyIn data h
  else
    (b.copyIn (data.take b.writable) (List.length_take_le _ _)).append (data.drop b.writable)

@[simp]
theorem peek_readFd (b : Buffer) (data : Bytes) : (b.readFd data).peek = b.peek ++ data := by
  unfold readFd
  split
  · exact b.peek_copyIn data _
  · rw [peek_append, peek_copyIn, List.append_assoc, List.take_append_drop]

end Buffer

end rpc.net
