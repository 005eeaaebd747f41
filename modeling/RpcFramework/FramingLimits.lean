-- The limits of the framing. The codec refuses a body over 64 MB; the reader of
-- the client has no such check, and neither sender looks at the size of what it
-- frames. So the decoders part at a header with a large length, and a sender can
-- write a frame that its peer must refuse.
import RpcFramework.Framing
import RpcFramework.Channel

namespace rpc

open net codec deframe

/-! ## The two decoders -/

/-- The bytes start with a full header that has the magic number and a length over the cap. -/
def OversizeHeader (s : Bytes) : Prop :=
  kHeaderSize ≤ s.length ∧ ntohl s = kMagicNumber ∧ kMaxBodySize < headerLen s

/-- Some frames as `send_raw` writes them, none of them too large, stand before a header with
a length over the cap. -/
def OversizeStream (s : Bytes) : Prop :=
  ∃ (bodies : List Bytes) (rest : Bytes), s = (bodies.map sendRaw).flatten ++ rest ∧
    (∀ body ∈ bodies, body.length ≤ kMaxBodySize) ∧ OversizeHeader rest

/-- The cap is seen at a header over it only. -/
theorem look_none {s : Bytes} (h : ¬ OversizeHeader s) :
    look none s = look (some kMaxBodySize) s := by
  by_cases hfull : kHeaderSize ≤ s.length
  · rw [look_full hfull, look_full hfull]
    by_cases hmagic : ntohl s = kMagicNumber
    · have hlen : ¬ kMaxBodySize < (ntohl (s.drop 4)).toNat := fun hlt => h ⟨hfull, hmagic, hlt⟩
      simp [hlen]
    · simp [hmagic]
  · unfold look
    simp [Nat.lt_of_not_le hfull]

/-- The codec refuses a header over the cap. -/
theorem look_oversize {s : Bytes} (h : OversizeHeader s) :
    look (some kMaxBodySize) s = .bad "body too large" := by
  obtain ⟨hfull, hmagic, hlen⟩ := h
  unfold headerLen at hlen
  rw [look_full hfull]
  simp [hmagic, hlen]

/-- The reader of the client waits at a header over the cap, or it takes the frame. -/
theorem look_none_oversize {s : Bytes} (h : OversizeHeader s) :
    look none s = .wait ∨ ∃ f k, look none s = .frame f k := by
  obtain ⟨hfull, hmagic, -⟩ := h
  rw [look_full hfull]
  simp only [hmagic, ne_eq, not_true_eq_false, if_false, Option.any_none, Bool.false_eq_true]
  split
  · exact Or.inl rfl
  · exact Or.inr ⟨_, _, rfl⟩

/-- The reader of the client reads as the codec does, up to the place where the codec stops. -/
theorem drain_none (s : Bytes) :
    (deframer none).drain s =
      ⟨((deframer (some kMaxBodySize)).drain s).frames ++
          ((deframer none).drain ((deframer (some kMaxBodySize)).drain s).rest).frames,
        ((deframer none).drain ((deframer (some kMaxBodySize)).drain s).rest).rest,
        ((deframer none).drain ((deframer (some kMaxBodySize)).drain s).rest).error⟩ := by
  obtain ⟨hfits, hs⟩ := (deframer_code (some kMaxBodySize)).drain_eq s
  have hnone : ∀ f ∈ ((deframer (some kMaxBodySize)).drain s).frames, Fits none f :=
    fun f hf => ⟨(hfits f hf).1, by simp⟩
  conv_lhs => rw [hs]
  exact (deframer_code none).drain_encode _ hnone _

/-- The codec stops at a header over the cap exactly when the stream has one behind some
frames. -/
theorem oversizeStream_iff (s : Bytes) :
    OversizeStream s ↔ OversizeHeader ((deframer (some kMaxBodySize)).drain s).rest := by
  obtain ⟨hfits, hs⟩ := (deframer_code (some kMaxBodySize)).drain_eq s
  constructor
  · rintro ⟨bodies, rest, rfl, hsize, hover⟩
    have hbodies : ∀ body ∈ bodies, Fits (some kMaxBodySize) body := fun body hbody =>
      fits_of_le (hsize body hbody)
    rw [(deframer_code (some kMaxBodySize)).drain_encode bodies hbodies,
      (deframer (some kMaxBodySize)).drain_bad (look_oversize hover)]
    exact hover
  · intro hover
    exact ⟨_, _, hs, fun body hbody => (hfits body hbody).2 _ rfl, hover⟩

/-- The deframers with and without the cap give the same frames and fail alike, unless the
codec stops at a header over the cap. -/
theorem drains_agree_iff (s : Bytes) :
    (((deframer (some kMaxBodySize)).drain s).frames = ((deframer none).drain s).frames ∧
      (((deframer none).drain s).error.isSome = true ↔
        ((deframer (some kMaxBodySize)).drain s).error.isSome = true)) ↔
      ¬ OversizeStream s := by
  rw [oversizeStream_iff, drain_none]
  have hl := (deframer (some kMaxBodySize)).look_rest s
  generalize (deframer (some kMaxBodySize)).drain s = out at hl ⊢
  constructor
  · rintro ⟨hframes, herror⟩ hover
    have hbad : ∃ e, out.error = some e := by
      cases he : out.error with
      | none =>
        rw [he] at hl
        exact absurd (hl.symm.trans (look_oversize hover)) (by simp)
      | some e => exact ⟨e, rfl⟩
    obtain ⟨e, he⟩ := hbad
    -- the codec has failed, but the reader of the client waits or takes one more frame
    rcases look_none_oversize hover with hwait | ⟨f, k, hframe⟩
    · rw [(deframer none).drain_wait hwait, he] at herror
      simp at herror
    · rw [(deframer none).drain_frame hframe] at hframes
      simp at hframes
  · intro hover
    have hsame : (deframer none).look out.rest = (deframer (some kMaxBodySize)).look out.rest :=
      look_none hover
    rw [hl] at hsame
    cases he : out.error with
    | none =>
      rw [he] at hsame
      simp [(deframer none).drain_wait hsame]
    | some e =>
      rw [he] at hsame
      simp [(deframer none).drain_bad hsame]

/-- The codec and the reader thread of the client, on the same chunks, give the same frames,
and the thread ends exactly when the codec takes an error branch. A `readv` never gives an
empty chunk without the end of the file, so the thread reads the chunks that are not empty. -/
def DecodersAgree (n : Nat) (chunks : List Bytes) : Prop :=
  let out := RpcChannel.readerThread (Buffer.new n) (chunks.filter (· ≠ []))
  messages (feed (Buffer.new n) chunks).1 = out.frames ∧
    (out.running = false ↔ Errored (feed (Buffer.new n) chunks).1)

/-- How the stream is cut does not matter to the agreement. -/
theorem decodersAgree_drains (n : Nat) (chunks : List Bytes) :
    DecodersAgree n chunks ↔
      ((deframer (some kMaxBodySize)).drain chunks.flatten).frames =
        ((deframer none).drain chunks.flatten).frames ∧
      (((deframer none).drain chunks.flatten).error.isSome = true ↔
        ((deframer (some kMaxBodySize)).drain chunks.flatten).error.isSome = true) := by
  obtain ⟨hm, -, he⟩ := feed_drain (Buffer.peek_new n) chunks
  obtain ⟨hf, hr, -⟩ := RpcChannel.readerFeed_spec Buffer.peek_readFd (Buffer.new n)
    (chunks.filter (· ≠ [])) (by rw [Buffer.peek_new]; rfl)
  rw [Buffer.peek_new, List.nil_append, List.flatten_filter_ne_nil] at hf hr
  unfold DecodersAgree
  dsimp only
  rw [RpcChannel.readerThread_eq _ _ (by simp), hm, hf, hr, he]
  cases ((deframer none).drain chunks.flatten).error <;> simp

/-- The two decoders agree on a stream, however it is cut, exactly when no header over the cap
stands in it behind whole frames. -/
theorem the_decoders_agree_iff (n : Nat) (chunks : List Bytes) :
    DecodersAgree n chunks ↔ ¬ OversizeStream chunks.flatten := by
  rw [decodersAgree_drains, drains_agree_iff]

/-- A header of 64 MB and one byte: the codec refuses it, and the reader of the client waits. -/
theorem the_decoders_part_at_a_large_header :
    ¬ DecodersAgree 0 [[0xCA, 0xFE, 0xBA, 0xBE, 4, 0, 0, 1]] := by
  rw [decodersAgree_drains, drains_agree_iff, not_not]
  exact ⟨[], [0xCA, 0xFE, 0xBA, 0xBE, 4, 0, 0, 1], rfl, by simp,
    by unfold OversizeHeader; decide⟩

/-! ## The senders -/

/-- The two places that frame a body: `Codec::send_raw`, and `RpcChannel::CallMethod`. -/
inductive Sender
  | sendRaw
  | callMethod

/-- The bytes that a sender writes for a body, of any size. -/
def Sender.frame : Sender → Bytes → Bytes
  | .sendRaw => codec.sendRaw
  | .callMethod => wireBytes

theorem Sender.frame_eq (sender : Sender) : sender.frame = codec.sendRaw := by
  cases sender with
  | sendRaw => rfl
  | callMethod => exact funext wireBytes_eq_sendRaw

/-- The codec reads the length of a body modulo `2 ^ 32`. -/
theorem headerLen_sendRaw (body t : Bytes) :
    ntohl (codec.sendRaw body ++ t) = kMagicNumber ∧
      headerLen (codec.sendRaw body ++ t) = body.length % 2 ^ 32 := by
  unfold headerLen
  rw [sendRaw_eq, List.append_assoc, List.append_assoc, ntohl_htonl,
    List.drop_left' (htonl_length _), ntohl_htonl, UInt32.toNat_ofNat']
  exact ⟨rfl, rfl⟩

/-- A body over the cap is refused, or its first bytes are taken for a whole frame. -/
theorem look_oversize_body {body : Bytes} (h : kMaxBodySize < body.length) (t : Bytes) :
    look (some kMaxBodySize) (codec.sendRaw body ++ t) = .bad "body too large" ∨
      ∃ f k, look (some kMaxBodySize) (codec.sendRaw body ++ t) = .frame f k ∧ f ≠ body := by
  obtain ⟨hmagic, hlen⟩ := headerLen_sendRaw body t
  have hlong : (codec.sendRaw body ++ t).length = kHeaderSize + body.length + t.length := by
    rw [List.length_append, sendRaw_length]
  by_cases hcap : kMaxBodySize < body.length % 2 ^ 32
  · exact Or.inl (look_oversize ⟨by omega, hmagic, by omega⟩)
  · have hshort : body.length % 2 ^ 32 ≤ body.length := Nat.mod_le _ _
    refine Or.inr ⟨((codec.sendRaw body ++ t).drop kHeaderSize).take (body.length % 2 ^ 32),
      kHeaderSize + body.length % 2 ^ 32, ?_, ?_⟩
    · unfold headerLen at hlen
      rw [look_full (by omega), hlen, if_neg (by simp [hmagic]), if_neg (by simpa using hcap),
        if_neg (by omega)]
    · intro hsame
      have hl := congrArg List.length hsame
      rw [List.length_take] at hl
      omega

/-- Behind bodies that fit, a body over the cap spoils what the peer gets: it takes an error
branch, or it gives another frame in the place of the body. -/
theorem drain_oversize_body {fits : List Bytes} {body : Bytes}
    (hfits : ∀ f ∈ fits, f.length ≤ kMaxBodySize) (h : kMaxBodySize < body.length)
    (rest : List Bytes) :
    let out := (deframer (some kMaxBodySize)).drain
      (((fits ++ body :: rest).map codec.sendRaw).flatten)
    out.error.isSome = true ∨ out.frames ≠ fits ++ body :: rest := by
  have hsize : ∀ f ∈ fits, Fits (some kMaxBodySize) f := fun f hf => fits_of_le (hfits f hf)
  rw [List.map_append, List.flatten_append,
    (deframer_code (some kMaxBodySize)).drain_encode fits hsize, List.map_cons, List.flatten_cons]
  rcases look_oversize_body h (rest.map codec.sendRaw).flatten with hbad | ⟨f, k, hframe, hne⟩
  · rw [(deframer (some kMaxBodySize)).drain_bad hbad]
    exact Or.inl rfl
  · rw [(deframer (some kMaxBodySize)).drain_frame hframe]
    refine Or.inr fun hsame => hne ?_
    have htail := List.append_cancel_left hsame
    exact (List.cons.inj htail).1

/-- The peer does not get exactly the bodies when one of them is over the cap. -/
theorem oversize_not_delivered (n : Nat) (sender : Sender) {fits rest chunks : List Bytes}
    {body : Bytes} (hfits : ∀ f ∈ fits, f.length ≤ kMaxBodySize) (h : kMaxBodySize < body.length)
    (hcut : chunks.flatten = ((fits ++ body :: rest).map sender.frame).flatten) :
    (feed (Buffer.new n) chunks).1 ≠ (fits ++ body :: rest).map .message := by
  obtain ⟨hm, -, he⟩ := feed_drain (Buffer.peek_new n) chunks
  rw [sender.frame_eq] at hcut
  rw [ne_eq, feed_eq_messages, hm, he, hcut]
  rintro ⟨hframes, hno⟩
  rcases drain_oversize_body hfits h rest with herror | hother
  · exact hno herror
  · exact hother hframes

/-- Where some body is over the cap, there is a first one. -/
theorem exists_first_oversize {bodies : List Bytes}
    (h : ¬ ∀ body ∈ bodies, body.length ≤ kMaxBodySize) :
    ∃ fits body rest, bodies = fits ++ body :: rest ∧
      (∀ f ∈ fits, f.length ≤ kMaxBodySize) ∧ kMaxBodySize < body.length := by
  cases hfind : bodies.find? (fun body => decide (kMaxBodySize < body.length)) with
  | none =>
    refine absurd (fun body hbody => ?_) h
    have hno := List.find?_eq_none.mp hfind body hbody
    simpa using hno
  | some body =>
    obtain ⟨hlarge, fits, rest, hsplit, hfits⟩ := List.find?_eq_some_iff_append.mp hfind
    refine ⟨fits, body, rest, hsplit, fun f hf => ?_, by simpa using hlarge⟩
    have hno := hfits f hf
    simpa using hno

/-- The peer gets exactly the bodies that were framed, with no error, exactly when none of them
is over the cap. -/
theorem the_peer_gets_every_body_iff (n : Nat) (sender : Sender) (bodies chunks : List Bytes)
    (hcut : chunks.flatten = (bodies.map sender.frame).flatten) :
    (feed (Buffer.new n) chunks).1 = bodies.map .message ↔
      ∀ body ∈ bodies, body.length ≤ kMaxBodySize := by
  constructor
  · intro hgot
    by_contra hlarge
    obtain ⟨fits, body, rest, rfl, hfits, hbody⟩ := exists_first_oversize hlarge
    exact oversize_not_delivered n sender hfits hbody hcut hgot
  · intro hsize
    obtain ⟨hm, -, he⟩ := feed_drain (Buffer.peek_new n) chunks
    have hdrain := (deframer_code (some kMaxBodySize)).drain_encode bodies
      (fun body hbody => fits_of_le (hsize body hbody)) []
    rw [sender.frame_eq] at hcut
    rw [feed_eq_messages, hm, he, hcut, ← List.append_nil (List.flatten _), hdrain,
      (deframer (some kMaxBodySize)).drain_wait rfl]
    simp

/-- An empty body and one of two bytes, from `CallMethod`, cut inside the second header. -/
theorem the_peer_gets_two_small_bodies :
    (feed (Buffer.new 0) [[0xCA, 0xFE, 0xBA, 0xBE, 0, 0, 0, 0, 0xCA], [0xFE, 0xBA, 0xBE, 0, 0, 0,
      2, 7, 8]]).1 = [.message [], .message [7, 8]] :=
  (the_peer_gets_every_body_iff 0 .callMethod [[], [7, 8]] _ (by decide)).mpr (by decide)

/-- A body of 64 MB and one byte, and an empty one behind it. -/
theorem a_large_body_is_not_delivered :
    ¬ (feed (Buffer.new 0) [Sender.sendRaw.frame (List.replicate (kMaxBodySize + 1) 0),
        Sender.sendRaw.frame []]).1 =
      [.message (List.replicate (kMaxBodySize + 1) 0), .message []] := by
  apply @oversize_not_delivered 0 .sendRaw [] [[]] _ _ (by simp)
  · rw [List.length_replicate]
    exact Nat.lt_succ_self _
  · simp

end rpc
