-- The messages of `rpc.proto` and of `hello.proto` in the wire format of proto3.
-- This is the protobuf library as far as the runs of this development use it,
-- and it has the round trips that the laws ask of a library.
import RpcFramework.Messages
import RpcFramework.Proto3

namespace rpc

open net proto3

/-! ## Fields with defaults -/

/-- A text field. The default is not written. -/
def textField (number : Nat) (t : String) : List Field :=
  if t = "" then [] else [⟨number, .bytes (putText t)⟩]

def bytesField (number : Nat) (b : Bytes) : List Field :=
  if b = [] then [] else [⟨number, .bytes b⟩]

def numberField (number : Nat) (n : UInt32) : List Field :=
  if n = 0 then [] else [⟨number, .varint n.toNat⟩]

def boolField (number : Nat) (b : Bool) : List Field :=
  if b then [⟨number, .varint 1⟩] else []

/-- The text of a message. A message of 2 GiB or more is not written. -/
def writeFields (fs : List Field) : Option Bytes :=
  if (putFields fs).length < 2 ^ 31 then some (putFields fs) else none

/-- The message that the fields make, each one over what the fields before it left. -/
def readFields {α : Type} (set : α → Field → Option α) (start : α) (b : Bytes) : Option α :=
  (getFields b).bind fun fs => fs.foldlM set start

/-! ## The envelope -/

def requestFields (r : RpcRequest) : List Field :=
  textField 1 r.serviceName ++ textField 2 r.methodName ++ numberField 3 r.requestId ++
    bytesField 4 r.argsData

def setRequest (r : RpcRequest) : Field → Option RpcRequest
  | ⟨1, .bytes b⟩ => (getText b).map fun t => { r with serviceName := t }
  | ⟨2, .bytes b⟩ => (getText b).map fun t => { r with methodName := t }
  | ⟨3, .varint n⟩ => some { r with requestId := UInt32.ofNat n }
  | ⟨4, .bytes b⟩ => some { r with argsData := b }
  | _ => some r

def responseFields (r : RpcResponse) : List Field :=
  numberField 1 r.requestId ++ boolField 2 r.success ++ bytesField 3 r.resultData ++
    textField 4 r.errorMsg

def setResponse (r : RpcResponse) : Field → Option RpcResponse
  | ⟨1, .varint n⟩ => some { r with requestId := UInt32.ofNat n }
  | ⟨2, .varint n⟩ => some { r with success := n ≠ 0 }
  | ⟨3, .bytes b⟩ => some { r with resultData := b }
  | ⟨4, .bytes b⟩ => (getText b).map fun t => { r with errorMsg := t }
  | _ => some r

/-! ## The messages of the hello service -/

inductive Hello
  | helloRequest (name : String)
  | helloResponse (message : String)
  deriving DecidableEq

/-- The text that a message of either type carries in its only field. -/
def Hello.text : Hello → String
  | .helloRequest t | .helloResponse t => t

def Hello.typeName : Hello → String
  | .helloRequest _ => "example.HelloRequest"
  | .helloResponse _ => "example.HelloResponse"

def Hello.withText : Hello → String → Hello
  | .helloRequest _, t => .helloRequest t
  | .helloResponse _, t => .helloResponse t

def setText (_ : String) : Field → Option String
  | ⟨1, .bytes b⟩ => getText b
  | _ => some ""

/-- The protobuf library, for the messages of the hello service. -/
def helloProto : Protobuf Hello where
  serializeRequest r := writeFields (requestFields r)
  parseRequest b := readFields setRequest ⟨"", "", 0, []⟩ b
  serializeResponse r := writeFields (responseFields r)
  parseResponse b := readFields setResponse ⟨0, false, [], ""⟩ b
  serialize m := writeFields (textField 1 m.text)
  parse m b :=
    match readFields setText "" b with
    | some t => (m.withText t, true)
    | none => (m.withText "", false)

/-! ## The round trips -/

theorem readFields_write {α : Type} (set : α → Field → Option α) (start a : α) {fs : List Field}
    {b : Bytes} (hfs : ∀ f ∈ fs, f.Fits) (hset : fs.foldlM set start = some a)
    (hb : writeFields fs = some b) : readFields set start b = some a := by
  unfold writeFields at hb
  split at hb
  · cases hb
    rename_i hlen
    have hlen : (putFields fs).length < 2 ^ 64 := Nat.lt_trans hlen (by decide)
    simp [readFields, getFields_put fs hfs hlen, hset]
  · cases hb

theorem textField_fits {n : Nat} (h0 : 0 < n) (hn : n < 2 ^ 29) (t : String) :
    ∀ f ∈ textField n t, f.Fits := by
  intro f hf
  unfold textField at hf
  split at hf
  · cases hf
  · rw [List.mem_singleton.mp hf]
    exact ⟨h0, hn, trivial⟩

theorem bytesField_fits {n : Nat} (h0 : 0 < n) (hn : n < 2 ^ 29) (b : Bytes) :
    ∀ f ∈ bytesField n b, f.Fits := by
  intro f hf
  unfold bytesField at hf
  split at hf
  · cases hf
  · rw [List.mem_singleton.mp hf]
    exact ⟨h0, hn, trivial⟩

theorem numberField_fits {n : Nat} (h0 : 0 < n) (hn : n < 2 ^ 29) (i : UInt32) :
    ∀ f ∈ numberField n i, f.Fits := by
  intro f hf
  unfold numberField at hf
  split at hf
  · cases hf
  · rw [List.mem_singleton.mp hf]
    exact ⟨h0, hn, Nat.lt_trans i.toNat_lt (by decide)⟩

theorem boolField_fits {n : Nat} (h0 : 0 < n) (hn : n < 2 ^ 29) (b : Bool) :
    ∀ f ∈ boolField n b, f.Fits := by
  intro f hf
  unfold boolField at hf
  split at hf
  · rw [List.mem_singleton.mp hf]
    have hone : 1 < 2 ^ 64 := by decide
    exact ⟨h0, hn, hone⟩
  · cases hf

/-- A request is read back. -/
theorem helloProto_request (r : RpcRequest) (b : Bytes)
    (hb : helloProto.serializeRequest r = some b) : helloProto.parseRequest b = some r := by
  apply readFields_write _ _ _ _ _ hb
  · intro f hf
    simp only [requestFields, List.mem_append] at hf
    rcases hf with ((hf | hf) | hf) | hf
    · exact textField_fits (by decide) (by decide) _ f hf
    · exact textField_fits (by decide) (by decide) _ f hf
    · exact numberField_fits (by decide) (by decide) _ f hf
    · exact bytesField_fits (by decide) (by decide) _ f hf
  · obtain ⟨service, method, id, args⟩ := r
    unfold requestFields textField numberField bytesField
    split_ifs <;> simp_all [setRequest, getText_put]

/-- A response is read back. -/
theorem helloProto_response (r : RpcResponse) (b : Bytes)
    (hb : helloProto.serializeResponse r = some b) : helloProto.parseResponse b = some r := by
  apply readFields_write _ _ _ _ _ hb
  · intro f hf
    simp only [responseFields, List.mem_append] at hf
    rcases hf with ((hf | hf) | hf) | hf
    · exact numberField_fits (by decide) (by decide) _ f hf
    · exact boolField_fits (by decide) (by decide) _ f hf
    · exact bytesField_fits (by decide) (by decide) _ f hf
    · exact textField_fits (by decide) (by decide) _ f hf
  · obtain ⟨id, success, result, error⟩ := r
    unfold responseFields textField numberField bytesField boolField
    split_ifs <;> simp_all [setResponse, getText_put]

/-- A message is read back into any object of its type. -/
theorem helloProto_message (m m' : Hello) (b : Bytes) (ht : m'.typeName = m.typeName)
    (hb : helloProto.serialize m = some b) : helloProto.parse m' b = (m, true) := by
  have hread : readFields setText "" b = some m.text := by
    apply readFields_write _ _ _ (textField_fits (by decide) (by decide) _) _ hb
    unfold textField
    split_ifs <;> simp_all [setText, getText_put]
  have hsame : m'.withText m.text = m := by
    cases m <;> cases m' <;> simp_all [Hello.typeName, Hello.withText, Hello.text]
  simp [helloProto, hread, hsame]

theorem helloProto_roundTrips : helloProto.RoundTrips Hello.typeName :=
  ⟨helloProto_request, helloProto_response, helloProto_message⟩

/-! ## The sizes -/

theorem textField_size (n : Nat) (t : String) :
    (putFields (textField n t)).length ≤ 20 + (putText t).length := by
  unfold textField
  split
  · exact Nat.zero_le _
  · have hkey := putVarint_le 10 (n * 8 + Value.wireType (.bytes (putText t)))
    have hlen := putVarint_le 10 (putText t).length
    simp only [putFields, List.flatMap_cons, List.flatMap_nil, putField, putValue,
      List.length_append, List.length_nil]
    omega

theorem bytesField_size (n : Nat) (b : Bytes) :
    (putFields (bytesField n b)).length ≤ 20 + b.length := by
  unfold bytesField
  split
  · exact Nat.zero_le _
  · have hkey := putVarint_le 10 (n * 8 + Value.wireType (.bytes b))
    have hlen := putVarint_le 10 b.length
    simp only [putFields, List.flatMap_cons, List.flatMap_nil, putField, putValue,
      List.length_append, List.length_nil]
    omega

theorem numberField_size (n : Nat) (i : UInt32) : (putFields (numberField n i)).length ≤ 20 := by
  unfold numberField
  split
  · exact Nat.zero_le _
  · have hkey := putVarint_le 10 (n * 8 + Value.wireType (.varint i.toNat))
    have hvalue := putVarint_le 10 i.toNat
    simp only [putFields, List.flatMap_cons, List.flatMap_nil, putField, putValue,
      List.length_append, List.length_nil]
    omega

theorem boolField_size (n : Nat) (b : Bool) : (putFields (boolField n b)).length ≤ 20 := by
  unfold boolField
  split
  · have hkey := putVarint_le 10 (n * 8 + Value.wireType (.varint 1))
    have hvalue := putVarint_le 10 1
    simp only [putFields, List.flatMap_cons, List.flatMap_nil, putField, putValue,
      List.length_append, List.length_nil]
    omega
  · exact Nat.zero_le _

/-- A request with a little text is written, and is little more than its text. -/
theorem helloProto_request_size (r : RpcRequest) (h : (putText r.serviceName).length +
      (putText r.methodName).length + r.argsData.length ≤ 2 ^ 20) :
    ∃ b, b.length ≤ 2 ^ 21 ∧ helloProto.serializeRequest r = some b := by
  have hsize : (putFields (requestFields r)).length ≤ 80 + 2 ^ 20 := by
    have h1 := textField_size 1 r.serviceName
    have h2 := textField_size 2 r.methodName
    have h3 := numberField_size 3 r.requestId
    have h4 := bytesField_size 4 r.argsData
    simp only [putFields] at h1 h2 h3 h4
    simp only [requestFields, putFields, List.flatMap_append, List.length_append]
    omega
  exact ⟨_, by omega, if_pos (by omega)⟩

/-- So is a response. -/
theorem helloProto_response_size (r : RpcResponse)
    (h : r.resultData.length + (putText r.errorMsg).length ≤ 2 ^ 20) :
    ∃ b, b.length ≤ 2 ^ 21 ∧ helloProto.serializeResponse r = some b := by
  have hsize : (putFields (responseFields r)).length ≤ 80 + 2 ^ 20 := by
    have h1 := numberField_size 1 r.requestId
    have h2 := boolField_size 2 r.success
    have h3 := bytesField_size 3 r.resultData
    have h4 := textField_size 4 r.errorMsg
    simp only [putFields] at h1 h2 h3 h4
    simp only [responseFields, putFields, List.flatMap_append, List.length_append]
    omega
  exact ⟨_, by omega, if_pos (by omega)⟩

end rpc
