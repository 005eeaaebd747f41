-- The frames on the wire: a magic number, the length of the body, the body. The
-- codec of the server and the reader thread of the client each decode them with
-- a loop of their own. Both loops drain a deframer over the readable bytes.
import Mathlib.Algebra.Group.Nat.Defs
import RpcFramework.Buffer

namespace rpc.codec

open net deframe

/-! ## The wire format -/

def kMagicNumber : UInt32 := 0xCAFEBABE

def kHeaderSize : Nat := 8

def kMaxBodySize : Nat := 64 * 1024 * 1024

/-- The four bytes of `htonl(x)` in memory: the highest byte comes first. -/
def htonl (x : UInt32) : Bytes :=
  [UInt8.ofNat (x.toNat / 2 ^ 24), UInt8.ofNat (x.toNat / 2 ^ 16),
    UInt8.ofNat (x.toNat / 2 ^ 8), UInt8.ofNat x.toNat]

/-- `ntohl` of the first four bytes. -/
def ntohl : Bytes → UInt32
  | a :: b :: c :: d :: _ =>
    UInt32.ofNat (a.toNat * 2 ^ 24 + b.toNat * 2 ^ 16 + c.toNat * 2 ^ 8 + d.toNat)
  | _ => 0

@[simp]
theorem htonl_length (x : UInt32) : (htonl x).length = 4 := rfl

theorem ntohl_htonl (x : UInt32) (t : Bytes) : ntohl (htonl x ++ t) = x := by
  have hx := x.toNat_lt
  apply UInt32.toNat_inj.mp
  simp only [htonl, List.cons_append, List.nil_append, ntohl, UInt32.toNat_ofNat',
    UInt8.toNat_ofNat']
  omega

theorem htonl_ntohl {s : Bytes} (h : 4 ≤ s.length) : htonl (ntohl s) = s.take 4 := by
  match s, h with
  | a :: b :: c :: d :: t, _ =>
    have ha := a.toNat_lt
    have hb := b.toNat_lt
    have hc := c.toNat_lt
    have hd := d.toNat_lt
    simp only [ntohl, htonl, UInt32.toNat_ofNat', List.take_succ_cons, List.take_zero,
      List.cons.injEq, and_true]
    refine ⟨?_, ?_, ?_, ?_⟩ <;>
      (apply UInt8.toNat_inj.mp; simp only [UInt8.toNat_ofNat']; omega)

theorem ntohl_append {s : Bytes} (h : 4 ≤ s.length) (t : Bytes) : ntohl (s ++ t) = ntohl s := by
  match s, h with
  | _ :: _ :: _ :: _ :: _, _ => rfl

/-- The buffer that `send_raw` fills for a body. -/
def sendRawBuffer (body : Bytes) : Buffer :=
  (((Buffer.new kInitialSize).append (htonl kMagicNumber)).append
    (htonl (UInt32.ofNat body.length))).append body

/-- The bytes that `send_raw` hands to the connection. -/
def sendRaw (body : Bytes) : Bytes := (sendRawBuffer body).retrieveAllAsString.1

theorem sendRaw_eq (body : Bytes) :
    sendRaw body = htonl kMagicNumber ++ htonl (UInt32.ofNat body.length) ++ body := by
  simp [sendRaw, sendRawBuffer, Buffer.retrieveAllAsString_fst]

theorem sendRaw_length (body : Bytes) : (sendRaw body).length = kHeaderSize + body.length := by
  simp [sendRaw_eq, kHeaderSize]
  omega

/-! ## The deframer of the format -/

/-- What the first unread bytes decide, with a cap on the length of a body or without one. -/
def look (cap : Option Nat) (s : Bytes) : Look Bytes String :=
  if s.length < kHeaderSize then .wait
  else if ntohl s ≠ kMagicNumber then .bad "bad magic number"
  else if cap.any (decide <| · < (ntohl (s.drop 4)).toNat) then .bad "body too large"
  else if s.length < kHeaderSize + (ntohl (s.drop 4)).toNat then .wait
  else .frame ((s.drop kHeaderSize).take (ntohl (s.drop 4)).toNat)
    (kHeaderSize + (ntohl (s.drop 4)).toNat)

/-- A full header reads the same whatever follows it. -/
theorem header_append {s : Bytes} (h : kHeaderSize ≤ s.length) (t : Bytes) :
    ntohl (s ++ t) = ntohl s ∧ ntohl ((s ++ t).drop 4) = ntohl (s.drop 4) := by
  unfold kHeaderSize at h
  refine ⟨ntohl_append (by omega) t, ?_⟩
  rw [List.drop_append_of_le_length (by omega), ntohl_append (by simp; omega)]

/-- What a look at a full header says in each case. -/
theorem look_full {cap : Option Nat} {s : Bytes} (h : kHeaderSize ≤ s.length) :
    look cap s =
      if ntohl s ≠ kMagicNumber then .bad "bad magic number"
      else if cap.any (decide <| · < (ntohl (s.drop 4)).toNat) then .bad "body too large"
      else if s.length < kHeaderSize + (ntohl (s.drop 4)).toNat then .wait
      else .frame ((s.drop kHeaderSize).take (ntohl (s.drop 4)).toNat)
        (kHeaderSize + (ntohl (s.drop 4)).toNat) := by
  unfold look
  rw [if_neg (by omega)]

theorem look_frame {cap : Option Nat} {s f : Bytes} {n : Nat} (h : look cap s = .frame f n) :
    n ≤ s.length ∧ n = kHeaderSize + f.length ∧ f = (s.drop kHeaderSize).take f.length ∧
      ntohl s = kMagicNumber ∧ (ntohl (s.drop 4)).toNat = f.length ∧ ∀ c ∈ cap, f.length ≤ c := by
  unfold look at h
  split at h
  · cases h
  split at h
  · cases h
  split at h
  · cases h
  split at h
  · cases h
  rename_i hmagic hcap hlen
  cases h
  have hf : ((s.drop kHeaderSize).take (ntohl (s.drop 4)).toNat).length =
      (ntohl (s.drop 4)).toNat := by
    simp only [List.length_take, List.length_drop]
    omega
  refine ⟨by omega, by rw [hf], by rw [hf], by simpa using hmagic, hf.symm, ?_⟩
  intro c hc
  rw [hf]
  cases hc
  simpa using hcap

theorem look_bad {cap : Option Nat} {s : Bytes} {e : String} (h : look cap s = .bad e) :
    kHeaderSize ≤ s.length ∧ (ntohl s ≠ kMagicNumber ∨
      ∃ c ∈ cap, c < (ntohl (s.drop 4)).toNat) := by
  unfold look at h
  split at h
  · cases h
  split at h
  · exact ⟨by omega, Or.inl ‹_›⟩
  split at h
  · rename_i hcap
    refine ⟨by omega, Or.inr ?_⟩
    cases cap with
    | none => simp at hcap
    | some c => exact ⟨c, rfl, by simpa using hcap⟩
  split at h
  · cases h
  · cases h

theorem look_wait {cap : Option Nat} {s : Bytes} (h : look cap s = .wait) :
    s.length < kHeaderSize ∨ (ntohl s = kMagicNumber ∧
      (∀ c ∈ cap, (ntohl (s.drop 4)).toNat ≤ c) ∧
      s.length < kHeaderSize + (ntohl (s.drop 4)).toNat) := by
  unfold look at h
  split at h
  · exact Or.inl ‹_›
  split at h
  · cases h
  split at h
  · cases h
  split at h
  · rename_i hmagic hcap hlen
    refine Or.inr ⟨by simpa using hmagic, ?_, hlen⟩
    intro c hc
    cases hc
    simpa using hcap
  · cases h

/-- The deframer of the wire format. -/
def deframer (cap : Option Nat) : Deframer UInt8 Bytes String where
  look := look cap
  nil_waits := rfl
  frame_fits := by
    intro s f n h
    obtain ⟨hle, hn, -⟩ := look_frame h
    unfold kHeaderSize at hn
    omega
  frame_stands := by
    intro s f n h t
    obtain ⟨hle, hn, hf, hmagic, hlen, hcap⟩ := look_frame h
    have hfull : kHeaderSize ≤ s.length := by omega
    obtain ⟨h1, h2⟩ := header_append hfull t
    rw [look_full (by simp; omega), h1, h2, hmagic, hlen, if_neg (by simp), if_neg, if_neg]
    · rw [List.drop_append_of_le_length hfull,
        List.take_append_of_le_length (by simp only [List.length_drop]; omega), ← hf, hn]
    · simp only [List.length_append]
      omega
    · cases cap with
      | none => simp
      | some c => simpa using hcap c rfl
  bad_stands := by
    intro s e h t
    obtain ⟨hfull, hbad⟩ := look_bad h
    obtain ⟨h1, h2⟩ := header_append hfull t
    rw [look_full hfull] at h
    rw [look_full (by simp; omega), h1, h2]
    split at h
    · rwa [if_pos ‹_›]
    · rw [if_neg ‹_›]
      split at h
      · rwa [if_pos ‹_›]
      · split at h <;> cases h

/-- The bodies that a decoder with this cap accepts. -/
def Fits (cap : Option Nat) (body : Bytes) : Prop :=
  body.length < 2 ^ 32 ∧ ∀ c ∈ cap, body.length ≤ c

theorem fits_of_le {body : Bytes} (h : body.length ≤ kMaxBodySize) :
    Fits (some kMaxBodySize) body := by
  refine ⟨Nat.lt_of_le_of_lt h (by decide), ?_⟩
  rintro c ⟨⟩
  exact h

/-- `send_raw` writes what the deframer reads. -/
theorem deframer_code (cap : Option Nat) : (deframer cap).Code sendRaw (Fits cap) where
  look_encode := by
    intro body hfit t
    have hfull : kHeaderSize ≤ (sendRaw body ++ t).length := by
      simp only [List.length_append, sendRaw_length]
      omega
    have hmagic : ntohl (sendRaw body ++ t) = kMagicNumber := by
      simp only [sendRaw_eq, List.append_assoc, ntohl_htonl]
    have hlen : (ntohl ((sendRaw body ++ t).drop 4)).toNat = body.length := by
      rw [sendRaw_eq, List.append_assoc, List.append_assoc, List.drop_left' (htonl_length _),
        ntohl_htonl, UInt32.toNat_ofNat', Nat.mod_eq_of_lt hfit.1]
    have hbody : ((sendRaw body ++ t).drop kHeaderSize).take body.length = body := by
      rw [sendRaw_eq, List.append_assoc, List.drop_left' (by simp [kHeaderSize]),
        List.take_left' rfl]
    change look cap (sendRaw body ++ t) = _
    rw [look_full hfull, hmagic, hlen, hbody, if_neg (by simp), if_neg, if_neg, sendRaw_length]
    · simp only [List.length_append, sendRaw_length]
      omega
    · cases cap with
      | none => simp
      | some c => simpa using hfit.2 c rfl
  encode_look := by
    intro s f n h
    obtain ⟨hle, hn, hf, hmagic, hlen, hcap⟩ := look_frame h
    have hlt := (ntohl (s.drop 4)).toNat_lt
    unfold kHeaderSize at hn hf
    refine ⟨⟨by omega, hcap⟩, ?_⟩
    have h4 : htonl kMagicNumber = s.take 4 := by
      rw [← hmagic, htonl_ntohl (by omega)]
    have h8 : htonl (UInt32.ofNat f.length) = (s.drop 4).take 4 := by
      rw [← hlen, UInt32.ofNat_toNat, htonl_ntohl (by simp; omega)]
    rw [sendRaw_eq, h4, h8, hn, Nat.add_comm 8, Nat.add_comm f.length]
    have hsplit : s.take (8 + f.length) = s.take 4 ++ ((s.drop 4).take 4) ++
        ((s.drop 8).take f.length) := by
      rw [List.take_add, show (8 : Nat) = 4 + 4 from rfl, List.take_add]
    rw [hsplit, ← hf]

/-! ## The codec of the server -/

/-- What one pass through the loop of `on_message` does: leave it to wait for more bytes,
take an error branch, or consume a frame. -/
inductive Pass
  | wait
  | error (reason : String)
  | frame (body : Bytes) (rest : Buffer)

/-- The buffer without its header has the room that the check for the body asked for. -/
theorem readable_retrieve (b : Buffer) (len : Nat) (h : len ≤ b.readable) :
    (b.retrieve len h).readable = b.readable - len := by
  rw [← Buffer.peek_length, Buffer.peek_retrieve, List.length_drop, Buffer.peek_length]

/-- The end of a pass of either loop: the header is dropped, and the body is taken. -/
def takeFrame (b : Buffer) (bodyLen : Nat) (h : kHeaderSize + bodyLen ≤ b.readable) :
    Bytes × Buffer :=
  (b.retrieve kHeaderSize (by omega)).retrieveAsString bodyLen
    (by rw [readable_retrieve]; omega)

theorem le_of_not_short {b : Buffer} {bodyLen : Nat} (h : ¬ b.readable < kHeaderSize + bodyLen) :
    kHeaderSize + bodyLen ≤ b.readable :=
  Nat.le_of_not_lt h

theorem takeFrame_spec (b : Buffer) (bodyLen : Nat) (h : kHeaderSize + bodyLen ≤ b.readable) :
    (takeFrame b bodyLen h).1 = (b.peek.drop kHeaderSize).take bodyLen ∧
      (takeFrame b bodyLen h).2.peek = b.peek.drop (kHeaderSize + bodyLen) := by
  simp [takeFrame, Buffer.retrieveAsString, List.drop_drop]

/-- One pass of the loop of `Codec::on_message`. -/
def pass (b : Buffer) : Pass :=
  if b.readable < kHeaderSize then .wait
  else if ntohl b.peek ≠ kMagicNumber then .error "bad magic number"
  else
    let bodyLen := (ntohl (b.peek.drop 4)).toNat
    if bodyLen > kMaxBodySize then .error "body too large"
    else if h : b.readable < kHeaderSize + bodyLen then .wait
    else
      let r := takeFrame b bodyLen (by omega)
      .frame r.1 r.2

/-- A pass decides as the deframer with the cap does. -/
theorem pass_spec (b : Buffer) :
    match pass b with
    | .wait => look (some kMaxBodySize) b.peek = .wait
    | .error e => look (some kMaxBodySize) b.peek = .bad e
    | .frame f rest => look (some kMaxBodySize) b.peek = .frame f (kHeaderSize + f.length) ∧
        rest.peek = b.peek.drop (kHeaderSize + f.length) := by
  have hlen := b.peek_length
  unfold pass look
  rw [hlen]
  by_cases h1 : b.readable < kHeaderSize
  · simp [h1]
  by_cases h2 : ntohl b.peek = kMagicNumber
  · by_cases h3 : (ntohl (b.peek.drop 4)).toNat > kMaxBodySize
    · simp [h1, h2, h3]
    · by_cases h4 : b.readable < kHeaderSize + (ntohl (b.peek.drop 4)).toNat
      · simp [h1, h2, h3, h4]
      · obtain ⟨hbody, hrest⟩ := takeFrame_spec b (ntohl (b.peek.drop 4)).toNat (by omega)
        have hf : ((b.peek.drop kHeaderSize).take (ntohl (b.peek.drop 4)).toNat).length =
            (ntohl (b.peek.drop 4)).toNat := by
          simp only [List.length_take, List.length_drop]
          omega
        simp only [h1, h2, h3, h4, if_false, ne_eq, not_true_eq_false, dite_false, hbody, hrest,
          hf, Option.any_some, decide_false, Bool.false_eq_true, and_self]
  · simp [h1, h2]

/-- A frame takes its header at least. -/
theorem readable_lt_of_look {cap : Option Nat} {b rest : Buffer} {f : Bytes}
    (hlook : look cap b.peek = .frame f (kHeaderSize + f.length))
    (hrest : rest.peek = b.peek.drop (kHeaderSize + f.length)) : rest.readable < b.readable := by
  have hle := (look_frame hlook).1
  have hr := congrArg List.length hrest
  unfold kHeaderSize at hle hr
  simp only [List.length_drop, Buffer.peek_length] at hr hle
  omega

theorem pass_readable {b rest : Buffer} {f : Bytes} (h : pass b = .frame f rest) :
    rest.readable < b.readable := by
  have hs := pass_spec b
  rw [h] at hs
  exact readable_lt_of_look hs.1 hs.2

/-- A callback of the codec: `msg_cb_` with a frame, or an error branch with its reason. -/
inductive Event
  | message (frame : Bytes)
  | error (reason : String)
  deriving DecidableEq

/-- `Codec::on_message`: the callbacks in order, and the buffer that the loop leaves. -/
def onMessage (b : Buffer) : List Event × Buffer :=
  match h : pass b with
  | .wait => ([], b)
  | .error reason => ([.error reason], b)
  | .frame f rest =>
    have := pass_readable h
    let r := onMessage rest
    (.message f :: r.1, r.2)
termination_by b.readable

/-- The callbacks for what a deframer gives. -/
def eventsOf (out : Out UInt8 Bytes String) : List Event :=
  out.frames.map .message ++ out.error.toList.map .error

/-- `on_message` drains the deframer over the readable bytes. -/
theorem onMessage_spec (b : Buffer) :
    (onMessage b).1 = eventsOf ((deframer (some kMaxBodySize)).drain b.peek) ∧
      (onMessage b).2.peek = ((deframer (some kMaxBodySize)).drain b.peek).rest := by
  induction b using onMessage.induct with
  | case1 b h =>
    have hs := pass_spec b
    rw [h] at hs
    rw [onMessage]
    split <;> simp_all [(deframer (some kMaxBodySize)).drain_wait hs, eventsOf]
  | case2 b e h =>
    have hs := pass_spec b
    rw [h] at hs
    rw [onMessage]
    split <;> simp_all [(deframer (some kMaxBodySize)).drain_bad hs, eventsOf]
  | case3 b f rest h _ ih =>
    have hs := pass_spec b
    rw [h] at hs
    have hd := (deframer (some kMaxBodySize)).drain_frame hs.1
    rw [← hs.2] at hd
    rw [onMessage]
    split <;> simp_all [eventsOf]

/-- The chunks appended one after the other, each followed by a call of `on_message`. -/
def feed (b : Buffer) : List Bytes → List Event × Buffer
  | [] => ([], b)
  | c :: cs =>
    let r := onMessage (b.append c)
    let later := feed r.2 cs
    (r.1 ++ later.1, later.2)

end rpc.codec
