-- The laws of the framing. What a decoder gives depends on the bytes of the
-- stream alone, never on the way in which they were cut into chunks; and it
-- gives back exactly what `send_raw` framed.
import RpcFramework.Codec

namespace rpc

open net codec deframe

/-! ## The reader loop of the client -/

namespace RpcChannel

/-- One pass of the inner loop of the reader thread. Unlike the codec, it has no cap on the
length of a body. -/
def readerPass (b : Buffer) : Pass :=
  if b.readable < kHeaderSize then .wait
  else if ntohl b.peek ≠ kMagicNumber then .error "bad magic number"
  else
    let bodyLen := (ntohl (b.peek.drop 4)).toNat
    if h : b.readable < kHeaderSize + bodyLen then .wait
    else
      let r := takeFrame b bodyLen (le_of_not_short h)
      .frame r.1 r.2

/-- A pass decides as the deframer without a cap does. -/
theorem readerPass_spec (b : Buffer) :
    match readerPass b with
    | .wait => look none b.peek = .wait
    | .error e => look none b.peek = .bad e
    | .frame f rest => look none b.peek = .frame f (kHeaderSize + f.length) ∧
        rest.peek = b.peek.drop (kHeaderSize + f.length) := by
  have hlen := b.peek_length
  unfold readerPass look
  rw [hlen]
  by_cases h1 : b.readable < kHeaderSize
  · simp [h1]
  by_cases h2 : ntohl b.peek = kMagicNumber
  · by_cases h4 : b.readable < kHeaderSize + (ntohl (b.peek.drop 4)).toNat
    · simp [h1, h2, h4]
    · obtain ⟨hbody, hrest⟩ := takeFrame_spec b (ntohl (b.peek.drop 4)).toNat (by omega)
      have hf : ((b.peek.drop kHeaderSize).take (ntohl (b.peek.drop 4)).toNat).length =
          (ntohl (b.peek.drop 4)).toNat := by
        simp only [List.length_take, List.length_drop]
        omega
      simp only [h1, h2, h4, if_false, ne_eq, not_true_eq_false, dite_false, hbody, hrest,
        hf, Option.any_none, Bool.false_eq_true, and_self]
  · simp [h1, h2]

theorem readerPass_readable {b rest : Buffer} {f : Bytes} (h : readerPass b = .frame f rest) :
    rest.readable < b.readable := by
  have hs := readerPass_spec b
  rw [h] at hs
  exact readable_lt_of_look hs.1 hs.2

/-- What the reader thread did: the frames it gave to `on_message`, its buffer, and whether
it still runs. -/
structure ReaderOut where
  frames : List Bytes
  buf : Buffer
  running : Bool

/-- The inner loop of the reader thread. A bad magic number ends the thread. -/
def readerLoop (b : Buffer) : ReaderOut :=
  match h : readerPass b with
  | .wait => ⟨[], b, true⟩
  | .error _ => ⟨[], b, false⟩
  | .frame f rest =>
    have := readerPass_readable h
    let r := readerLoop rest
    ⟨f :: r.frames, r.buf, r.running⟩
termination_by b.readable

theorem readerLoop_spec (b : Buffer) :
    (readerLoop b).frames = ((deframer none).drain b.peek).frames ∧
      (readerLoop b).buf.peek = ((deframer none).drain b.peek).rest ∧
      (readerLoop b).running = ((deframer none).drain b.peek).error.isNone := by
  induction b using readerLoop.induct with
  | case1 b h =>
    have hs := readerPass_spec b
    rw [h] at hs
    rw [readerLoop]
    split <;> simp_all [(deframer none).drain_wait hs]
  | case2 b e h =>
    have hs := readerPass_spec b
    rw [h] at hs
    rw [readerLoop]
    split <;> simp_all [(deframer none).drain_bad hs]
  | case3 b f rest h _ ih =>
    have hs := readerPass_spec b
    rw [h] at hs
    have hd := (deframer none).drain_frame hs.1
    rw [← hs.2] at hd
    rw [readerLoop]
    split <;> simp_all

/-- The inner loop run after each chunk that `fill` put into the buffer. Once the loop has
ended the thread, further chunks are not read. -/
def readerFeed (fill : Buffer → Bytes → Buffer) (b : Buffer) : List Bytes → ReaderOut
  | [] => ⟨[], b, true⟩
  | c :: cs =>
    let r := readerLoop (fill b c)
    if r.running then
      let later := readerFeed fill r.buf cs
      ⟨r.frames ++ later.frames, later.buf, later.running⟩
    else r

/-- The outer loop of the reader thread, while `connected_` stays true: each chunk is what
one `readv` gave, and a `readv` that gives nothing is the end of the file. -/
def readerThread (b : Buffer) : List Bytes → ReaderOut
  | [] => ⟨[], b, true⟩
  | c :: cs =>
    if c = [] then ⟨[], b, false⟩
    else
      let r := readerLoop (b.readFd c)
      if r.running then
        let later := readerThread r.buf cs
        ⟨r.frames ++ later.frames, later.buf, later.running⟩
      else r

/-- The thread reads chunks that are not empty as the inner loop after each `read_fd`. -/
theorem readerThread_eq (b : Buffer) (cs : List Bytes) (hne : ∀ c ∈ cs, c ≠ []) :
    readerThread b cs = readerFeed Buffer.readFd b cs := by
  induction cs generalizing b with
  | nil => rfl
  | cons c cs ih =>
    have hrest := ih (readerLoop (b.readFd c)).buf fun c' hc' => hne c' (by simp [hc'])
    simp only [readerThread, readerFeed, hne c (by simp), if_false, hrest]

/-- While the thread runs, the chunks give what the whole stream gives. -/
theorem readerFeed_spec {fill : Buffer → Bytes → Buffer}
    (hfill : ∀ b c, (fill b c).peek = b.peek ++ c) (b : Buffer) (cs : List Bytes)
    (hw : look none b.peek = .wait) :
    (readerFeed fill b cs).frames = ((deframer none).drain (b.peek ++ cs.flatten)).frames ∧
      (readerFeed fill b cs).running =
        ((deframer none).drain (b.peek ++ cs.flatten)).error.isNone ∧
      ((readerFeed fill b cs).running = true → (readerFeed fill b cs).buf.peek =
        ((deframer none).drain (b.peek ++ cs.flatten)).rest) := by
  induction cs generalizing b with
  | nil => simp [readerFeed, (deframer none).drain_wait hw]
  | cons c cs ih =>
    obtain ⟨hf, hr, hrun⟩ := readerLoop_spec (fill b c)
    have hl := (deframer none).look_rest (fill b c).peek
    rw [← hr] at hl
    rw [hfill] at hf hr hrun hl
    rw [List.flatten_cons, ← List.append_assoc, (deframer none).drain_append (b.peek ++ c), ← hr]
    simp only [readerFeed, hf, hrun]
    cases he : ((deframer none).drain (b.peek ++ c)).error with
    | none =>
      rw [he] at hl
      obtain ⟨i1, i2, i3⟩ := ih (readerLoop (fill b c)).buf hl
      rw [i2] at i3
      simpa [i1, i2] using i3
    | some e =>
      rw [hr, (deframer none).drain_after_error he]
      simp [hf, hrun, he]

/-- The frames that were sent come out, and nothing is left, however the bytes were cut. -/
theorem readerFeed_frames {fill : Buffer → Bytes → Buffer}
    (hfill : ∀ b c, (fill b c).peek = b.peek ++ c) {b : Buffer} (hb : b.peek = [])
    {bodies chunks : List Bytes} (hsize : ∀ body ∈ bodies, body.length ≤ kMaxBodySize)
    (hcut : chunks.flatten = (bodies.map sendRaw).flatten) :
    (readerFeed fill b chunks).frames = bodies ∧ (readerFeed fill b chunks).running = true ∧
      (readerFeed fill b chunks).buf.readable = 0 := by
  have hfits : ∀ body ∈ bodies, Fits none body := fun body hbody =>
    ⟨Nat.lt_of_le_of_lt (hsize body hbody) (by decide), by simp⟩
  have hdrain := (deframer_code none).drain_encode bodies hfits []
  obtain ⟨h1, h2, h3⟩ := readerFeed_spec hfill b chunks (by rw [hb]; rfl)
  rw [hb, List.nil_append, hcut, ← List.append_nil (List.flatten _), hdrain,
    (deframer none).drain_wait rfl] at h1 h2 h3
  have hrun : (readerFeed fill b chunks).running = true := by simpa using h2
  refine ⟨by simpa using h1, hrun, ?_⟩
  rw [← Buffer.peek_length, h3 hrun]
  rfl

end RpcChannel

/-! ## The codec over a chunked stream -/

/-- The frames that `msg_cb_` got, in order. -/
def messages (es : List Event) : List Bytes :=
  es.filterMap fun
    | .message f => some f
    | .error _ => none

/-- Some call took an error branch. -/
def Errored (es : List Event) : Prop := ∃ e, Event.error e ∈ es

@[simp]
theorem messages_append (es es' : List Event) :
    messages (es ++ es') = messages es ++ messages es' := by
  simp [messages]

theorem messages_eventsOf (out : Out UInt8 Bytes String) :
    messages (eventsOf out) = out.frames := by
  have herr : messages (out.error.toList.map .error) = [] := by
    cases out.error <;> rfl
  rw [eventsOf, messages_append, herr, List.append_nil]
  simp [messages, List.filterMap_map]

theorem errored_append (es es' : List Event) :
    Errored (es ++ es') ↔ Errored es ∨ Errored es' := by
  simp only [Errored, List.mem_append, exists_or]

theorem errored_eventsOf (out : Out UInt8 Bytes String) :
    Errored (eventsOf out) ↔ out.error.isSome = true := by
  cases h : out.error <;> simp [Errored, eventsOf, h]

/-- The codec fed chunk by chunk gives what its deframer gives. -/
theorem feed_spec (b : Buffer) (cs : List Bytes) :
    messages (feed b cs).1 = ((deframer (some kMaxBodySize)).feed b.peek cs).frames ∧
      (feed b cs).2.peek = ((deframer (some kMaxBodySize)).feed b.peek cs).rest ∧
      (Errored (feed b cs).1 ↔
        ((deframer (some kMaxBodySize)).feed b.peek cs).error.isSome = true) := by
  induction cs generalizing b with
  | nil => simp [feed, Deframer.feed, messages, Errored]
  | cons c cs ih =>
    obtain ⟨h1, h2⟩ := onMessage_spec (b.append c)
    obtain ⟨i1, i2, i3⟩ := ih (onMessage (b.append c)).2
    rw [h2, Buffer.peek_append] at i1 i2 i3
    rw [Buffer.peek_append] at h1
    refine ⟨?_, i2, ?_⟩
    · simp only [feed, messages_append, Deframer.feed, i1, h1, messages_eventsOf]
    · simp only [feed, errored_append, Deframer.feed, i3, h1, errored_eventsOf, Option.isSome_or,
        Bool.or_eq_true]

/-- From an empty buffer, the whole stream decides what the chunks give. -/
theorem feed_drain {b : Buffer} (hb : b.peek = []) (cs : List Bytes) :
    messages (feed b cs).1 = ((deframer (some kMaxBodySize)).drain cs.flatten).frames ∧
      (feed b cs).2.peek = ((deframer (some kMaxBodySize)).drain cs.flatten).rest ∧
      (Errored (feed b cs).1 ↔
        ((deframer (some kMaxBodySize)).drain cs.flatten).error.isSome = true) := by
  have h := feed_spec b cs
  rw [hb, (deframer (some kMaxBodySize)).feed_eq_drain rfl, List.nil_append] at h
  exact h

/-- The callbacks are frames first and then errors. -/
def FramesFirst (es : List Event) : Prop :=
  ∃ fs errs, es = List.map Event.message fs ++ List.map Event.error errs

/-- A bad stream gives errors only. -/
theorem feed_after_error {b : Buffer} {e : String}
    (h : look (some kMaxBodySize) b.peek = .bad e) (cs : List Bytes) :
    ∃ errs, (feed b cs).1 = List.map Event.error errs := by
  induction cs generalizing b with
  | nil => exact ⟨[], rfl⟩
  | cons c cs ih =>
    obtain ⟨h1, h2⟩ := onMessage_spec (b.append c)
    have hbad : (deframer (some kMaxBodySize)).look (b.append c).peek = .bad e := by
      rw [Buffer.peek_append]
      exact (deframer (some kMaxBodySize)).bad_stands h c
    rw [(deframer (some kMaxBodySize)).drain_bad hbad] at h1 h2
    obtain ⟨errs, herrs⟩ := ih (b := (onMessage (b.append c)).2) (by rw [h2]; exact hbad)
    refine ⟨e :: errs, ?_⟩
    simp [feed, h1, herrs, eventsOf]

theorem feed_framesFirst (b : Buffer) (cs : List Bytes) : FramesFirst (feed b cs).1 := by
  induction cs generalizing b with
  | nil => exact ⟨[], [], rfl⟩
  | cons c cs ih =>
    obtain ⟨h1, h2⟩ := onMessage_spec (b.append c)
    have hl := (deframer (some kMaxBodySize)).look_rest (b.append c).peek
    rw [← h2] at hl
    simp only [feed, h1, eventsOf]
    generalize hd : (deframer (some kMaxBodySize)).drain (b.append c).peek = out at h1 h2 hl ⊢
    cases he : out.error with
    | none =>
      obtain ⟨fs, errs, hlater⟩ := ih (onMessage (b.append c)).2
      refine ⟨out.frames ++ fs, errs, ?_⟩
      simp [hlater]
    | some e =>
      rw [he] at hl
      obtain ⟨errs, hlater⟩ := feed_after_error hl cs
      refine ⟨out.frames, e :: errs, ?_⟩
      simp [hlater]

/-- The callbacks are the frames `bodies` alone exactly when no call took an error branch and
these are the frames. -/
theorem feed_eq_messages (b : Buffer) (cs bodies : List Bytes) :
    (feed b cs).1 = bodies.map .message ↔
      messages (feed b cs).1 = bodies ∧ ¬ Errored (feed b cs).1 := by
  obtain ⟨fs, errs, hes⟩ := feed_framesFirst b cs
  have herr : messages (errs.map Event.error) = [] := by
    simp [messages, List.filterMap_map]
  have hmsg : ∀ l : List Bytes, messages (l.map Event.message) = l := by
    simp [messages, List.filterMap_map]
  constructor
  · intro h
    rw [h, hmsg]
    exact ⟨rfl, by simp [Errored]⟩
  · rintro ⟨hm, hno⟩
    cases errs with
    | nil => rw [← hm, hes, messages_append, herr, hmsg]; simp
    | cons e errs => exact absurd ⟨e, by simp [hes]⟩ hno

/-! ## The laws -/

/-- The length field of a header. -/
def headerLen (s : Bytes) : Nat := (ntohl (s.drop 4)).toNat

/-- The frames, the unread rest and the error of a stream depend on its bytes alone. The
stream is the frames as `send_raw` writes them and then the rest. Without an error the rest
is a part of one frame that is not too large. With an error it starts with a bad header,
and no frame was given after that header. -/
theorem decoding_depends_on_the_bytes_alone (n : Nat) (chunks : List Bytes) :
    let r := feed (Buffer.new n) chunks
    (∀ (n' : Nat) (chunks' : List Bytes), chunks'.flatten = chunks.flatten →
      messages (feed (Buffer.new n') chunks').1 = messages r.1 ∧
      (feed (Buffer.new n') chunks').2.peek = r.2.peek ∧
      (Errored (feed (Buffer.new n') chunks').1 ↔ Errored r.1)) ∧
    chunks.flatten = ((messages r.1).map sendRaw).flatten ++ r.2.peek ∧
    (∀ f ∈ messages r.1, f.length ≤ kMaxBodySize) ∧
    (¬ Errored r.1 →
      (r.2.readable < kHeaderSize ∨ (ntohl r.2.peek = kMagicNumber ∧
        headerLen r.2.peek ≤ kMaxBodySize ∧
        r.2.readable < kHeaderSize + headerLen r.2.peek)) ∧
      r.2.readable < kHeaderSize + kMaxBodySize) ∧
    (Errored r.1 →
      (kHeaderSize ≤ r.2.readable ∧
        (ntohl r.2.peek ≠ kMagicNumber ∨ kMaxBodySize < headerLen r.2.peek)) ∧
      ∀ (i j : Nat) (e : String) (f : Bytes), r.1[i]? = some (.error e) →
        r.1[j]? = some (.message f) → j < i) := by
  intro r
  obtain ⟨hm, hp, he⟩ := feed_drain (Buffer.peek_new n) chunks
  have hl := (deframer (some kMaxBodySize)).look_rest chunks.flatten
  obtain ⟨hfits, hstream⟩ := (deframer_code (some kMaxBodySize)).drain_eq chunks.flatten
  rw [← hp] at hl
  rw [← hm, ← hp] at hstream
  rw [← hm] at hfits
  refine ⟨?_, hstream, fun f hf => (hfits f hf).2 _ rfl, ?_, ?_⟩
  · intro n' chunks' hsame
    obtain ⟨hm', hp', he'⟩ := feed_drain (Buffer.peek_new n') chunks'
    rw [hsame] at hm' hp' he'
    exact ⟨hm'.trans hm.symm, hp'.trans hp.symm, he'.trans he.symm⟩
  · intro hno
    have hnone : ((deframer (some kMaxBodySize)).drain chunks.flatten).error = none := by
      rw [he] at hno
      simpa using hno
    rw [hnone] at hl
    have hwait := look_wait hl
    rw [Buffer.peek_length] at hwait
    have hcap : kMaxBodySize ∈ some kMaxBodySize := rfl
    refine ⟨?_, ?_⟩
    · rcases hwait with hshort | ⟨hmagic, hle, hpart⟩
      · exact Or.inl hshort
      · exact Or.inr ⟨hmagic, hle _ hcap, hpart⟩
    · rcases hwait with hshort | ⟨-, hle, hpart⟩
      · exact Nat.lt_of_lt_of_le hshort (Nat.le_add_right _ _)
      · exact Nat.lt_of_lt_of_le hpart (Nat.add_le_add_left (hle _ hcap) _)
  · intro herr
    rw [he, Option.isSome_iff_exists] at herr
    obtain ⟨e, hsome⟩ := herr
    rw [hsome] at hl
    obtain ⟨hfull, hbad⟩ := look_bad hl
    rw [Buffer.peek_length] at hfull
    refine ⟨⟨hfull, hbad.imp_right ?_⟩, ?_⟩
    · rintro ⟨c, hc, hlt⟩
      cases hc
      exact hlt
    · obtain ⟨fs, errs, hes⟩ := feed_framesFirst (Buffer.new n) chunks
      intro i j e' f hi hj
      change r.1 = _ at hes
      rw [hes] at hi hj
      by_contra hij
      rw [List.getElem?_append] at hi hj
      split at hi
      · simp at hi
      · split at hj
        · omega
        · simp at hj

/-- The bodies that `send_raw` framed come out of the codec in order, with no error and with
nothing left, however the bytes were cut into chunks. The loop of the client gives the same
bodies from the same chunks, and so does its thread when `readv` gives the chunks that are
not empty. -/
theorem framing_survives_any_cutting (n : Nat) (bodies chunks : List Bytes)
    (hsize : ∀ body ∈ bodies, body.length ≤ kMaxBodySize)
    (hcut : chunks.flatten = (bodies.map sendRaw).flatten) :
    ((feed (Buffer.new n) chunks).1 = bodies.map .message ∧
      (feed (Buffer.new n) chunks).2.readable = 0) ∧
    ((RpcChannel.readerFeed Buffer.append (Buffer.new n) chunks).frames = bodies ∧
      (RpcChannel.readerFeed Buffer.append (Buffer.new n) chunks).running = true ∧
      (RpcChannel.readerFeed Buffer.append (Buffer.new n) chunks).buf.readable = 0) ∧
    ((RpcChannel.readerThread (Buffer.new n) (chunks.filter (· ≠ []))).frames = bodies ∧
      (RpcChannel.readerThread (Buffer.new n) (chunks.filter (· ≠ []))).running = true ∧
      (RpcChannel.readerThread (Buffer.new n) (chunks.filter (· ≠ []))).buf.readable = 0) := by
  refine ⟨?_, ?_, ?_⟩
  · have hdrain := (deframer_code (some kMaxBodySize)).drain_encode bodies
      (fun body hbody => fits_of_le (hsize body hbody)) []
    obtain ⟨hm, hp, he⟩ := feed_drain (Buffer.peek_new n) chunks
    rw [hcut, ← List.append_nil (List.flatten _), hdrain,
      (deframer (some kMaxBodySize)).drain_wait rfl] at hm hp he
    refine ⟨?_, by rw [← Buffer.peek_length, hp]; rfl⟩
    rw [feed_eq_messages, hm, he]
    simp
  · exact RpcChannel.readerFeed_frames Buffer.peek_append (Buffer.peek_new n) hsize hcut
  · rw [RpcChannel.readerThread_eq _ _ (by simp)]
    apply RpcChannel.readerFeed_frames Buffer.peek_readFd (Buffer.peek_new n) hsize
    rw [← hcut, List.flatten_filter_ne_nil]

/-- An empty body and a body of two bytes, cut inside the magic number, inside the length and
inside the body, with an empty chunk between. -/
theorem framing_survives_cuts_in_header_and_body :
    (feed (Buffer.new 0) [[0xCA, 0xFE], [], [0xBA, 0xBE, 0, 0, 0, 0, 0xCA, 0xFE, 0xBA, 0xBE, 0],
      [0, 0, 2, 7], [8]]).1 = [.message [], .message [7, 8]] :=
  (framing_survives_any_cutting 0 [[], [7, 8]]
    [[0xCA, 0xFE], [], [0xBA, 0xBE, 0, 0, 0, 0, 0xCA, 0xFE, 0xBA, 0xBE, 0], [0, 0, 2, 7], [8]]
    (by decide) (by simp only [List.map_cons, sendRaw_eq]; decide)).1.1

end rpc
