-- The wire format of proto3: numbers as varints, and a message as a list of
-- numbered fields. What was written is read back, whatever comes after it.
import Mathlib.Algebra.Group.Nat.Defs
import Mathlib.Data.List.Basic

namespace proto3

/-! ## Varints -/

/-- A number, seven bits to a byte with the lowest first, in at most `k` bytes. -/
def putVarint : Nat → Nat → List UInt8
  | 0, _ => []
  | k + 1, n =>
    if n < 128 then [UInt8.ofNat n]
    else UInt8.ofNat (n % 128 + 128) :: putVarint k (n / 128)

/-- The number at the start, of at most `k` bytes, and what comes after it. -/
def getVarint : Nat → List UInt8 → Option (Nat × List UInt8)
  | 0, _ => none
  | _ + 1, [] => none
  | k + 1, b :: bs =>
    if b.toNat < 128 then some (b.toNat, bs)
    else (getVarint k bs).map fun p => (b.toNat - 128 + 128 * p.1, p.2)

theorem getVarint_put (k n : Nat) (rest : List UInt8) (h : n < 128 ^ (k + 1)) :
    getVarint (k + 1) (putVarint (k + 1) n ++ rest) = some (n, rest) := by
  induction k generalizing n with
  | zero =>
    have hn : n < 128 := by simpa using h
    have hmod : n % 256 = n := Nat.mod_eq_of_lt (by omega)
    simp [putVarint, getVarint, hn, hmod]
  | succ k ih =>
    rw [putVarint]
    split
    · rename_i hn
      have hmod : n % 256 = n := Nat.mod_eq_of_lt (by omega)
      simp [getVarint, hn, hmod]
    · have hbyte : (UInt8.ofNat (n % 128 + 128)).toNat = n % 128 + 128 := by
        rw [UInt8.toNat_ofNat']
        omega
      have hrest := ih (n / 128) (Nat.div_lt_of_lt_mul (by rw [← Nat.pow_succ']; exact h))
      rw [List.cons_append, getVarint, hbyte, hrest]
      have hbig : ¬ n % 128 + 128 < 128 := by omega
      simp only [hbig, if_false, Option.map_some, Option.some.injEq, Prod.mk.injEq, and_true]
      omega

theorem putVarint_pos (k n : Nat) : 0 < (putVarint (k + 1) n).length := by
  rw [putVarint]
  split <;> simp

theorem putVarint_le (k n : Nat) : (putVarint k n).length ≤ k := by
  induction k generalizing n with
  | zero => exact Nat.le_refl 0
  | succ k ih =>
    rw [putVarint]
    split
    · simp
    · simpa using ih (n / 128)

/-! ## Fields -/

/-- The content of a field. The fixed widths are read only to be passed over. -/
inductive Value
  | varint (n : Nat)
  | fixed64 (bytes : List UInt8)
  | bytes (bytes : List UInt8)
  | fixed32 (bytes : List UInt8)
  deriving DecidableEq

structure Field where
  number : Nat
  value : Value
  deriving DecidableEq

def Value.wireType : Value → Nat
  | .varint _ => 0
  | .fixed64 _ => 1
  | .bytes _ => 2
  | .fixed32 _ => 5

def putValue : Value → List UInt8
  | .varint n => putVarint 10 n
  | .fixed64 b => b
  | .bytes b => putVarint 10 b.length ++ b
  | .fixed32 b => b

def putField (f : Field) : List UInt8 :=
  putVarint 10 (f.number * 8 + f.value.wireType) ++ putValue f.value

/-- The first `len` bytes, when there are so many. -/
def getBytes (len : Nat) (bs : List UInt8) : Option (List UInt8 × List UInt8) :=
  if len ≤ bs.length then some (bs.take len, bs.drop len) else none

/-- The content of a field, of which the wire type is known. Groups, which proto3 does not
have, are refused. -/
def getValue (wireType : Nat) (bs : List UInt8) : Option (Value × List UInt8) :=
  match wireType with
  | 0 => (getVarint 10 bs).map fun p => (.varint (p.1 % 2 ^ 64), p.2)
  | 1 => (getBytes 8 bs).map fun p => (.fixed64 p.1, p.2)
  | 2 => (getVarint 10 bs).bind fun p => (getBytes p.1 p.2).map fun q => (.bytes q.1, q.2)
  | 5 => (getBytes 4 bs).map fun p => (.fixed32 p.1, p.2)
  | _ => none

def getField (bs : List UInt8) : Option (Field × List UInt8) :=
  (getVarint 10 bs).bind fun key =>
    if key.1 / 8 = 0 then none
    else (getValue (key.1 % 8) key.2).map fun v => (⟨key.1 / 8, v.1⟩, v.2)

/-- The fields that a message may write: numbered from one on, and within the widths of the
format. -/
structure Field.Fits (f : Field) : Prop where
  positive : 0 < f.number
  small : f.number < 2 ^ 29
  value : match f.value with
    | .varint n => n < 2 ^ 64
    | .fixed64 b => b.length = 8
    | .bytes _ => True
    | .fixed32 b => b.length = 4

theorem getBytes_append (b rest : List UInt8) :
    getBytes b.length (b ++ rest) = some (b, rest) := by
  simp [getBytes]

theorem getValue_put (f : Field) (hf : f.Fits) (hlen : (putField f).length < 2 ^ 64)
    (rest : List UInt8) :
    getValue f.value.wireType (putValue f.value ++ rest) = some (f.value, rest) := by
  have hv := hf.value
  cases hval : f.value with
  | varint n =>
    have hv : n < 2 ^ 64 := by simpa [hval] using hv
    have hn : n < 128 ^ (9 + 1) := Nat.lt_of_lt_of_le hv (by decide)
    simpa [Value.wireType, putValue, getValue, getVarint_put 9 n rest hn] using hv
  | fixed64 b =>
    rw [hval] at hv
    have hb := getBytes_append b rest
    rw [hv] at hb
    simp [Value.wireType, putValue, getValue, hb]
  | bytes b =>
    have hn : b.length < 128 ^ (9 + 1) := by
      simp only [putField, putValue, hval, List.length_append] at hlen
      have : (128 : Nat) ^ (9 + 1) = 2 ^ 70 := by decide
      omega
    simp [Value.wireType, putValue, getValue, getVarint_put 9 b.length (b ++ rest) hn,
      getBytes_append]
  | fixed32 b =>
    rw [hval] at hv
    have hb := getBytes_append b rest
    rw [hv] at hb
    simp [Value.wireType, putValue, getValue, hb]

theorem getField_put (f : Field) (hf : f.Fits) (hlen : (putField f).length < 2 ^ 64)
    (rest : List UInt8) :
    getField (putField f ++ rest) = some (f, rest) := by
  have hw : f.value.wireType < 8 := by cases f.value <;> simp [Value.wireType]
  have hpos := hf.positive
  have hsmall := hf.small
  have hkey : f.number * 8 + f.value.wireType < 128 ^ (9 + 1) := by
    have : (128 : Nat) ^ (9 + 1) = 2 ^ 70 := by decide
    omega
  have hnum : (f.number * 8 + f.value.wireType) / 8 = f.number := by omega
  have htype : (f.number * 8 + f.value.wireType) % 8 = f.value.wireType := by omega
  unfold getField putField
  rw [List.append_assoc, getVarint_put 9 _ _ hkey]
  simp only [Option.bind_some, hnum, htype, getValue_put f hf hlen rest, Option.map_some]
  rw [if_neg (by omega)]

/-! ## Messages -/

def putFields (fs : List Field) : List UInt8 := fs.flatMap putField

/-- The fields of a message. Each takes at least one byte, so their number is bounded by the
length. -/
def getFieldsAux : Nat → List UInt8 → Option (List Field)
  | _, [] => some []
  | 0, _ => none
  | k + 1, bs => (getField bs).bind fun p => (getFieldsAux k p.2).map (p.1 :: ·)

def getFields (bs : List UInt8) : Option (List Field) := getFieldsAux bs.length bs

theorem putField_pos (f : Field) : 0 < (putField f).length := by
  have : 0 < (putVarint 10 (f.number * 8 + f.value.wireType)).length := putVarint_pos 9 _
  simp only [putField, List.length_append]
  omega

theorem getFieldsAux_put (fs : List Field) (hfs : ∀ f ∈ fs, f.Fits)
    (hlen : (putFields fs).length < 2 ^ 64) (k : Nat) (hk : (putFields fs).length ≤ k) :
    getFieldsAux k (putFields fs) = some fs := by
  induction fs generalizing k with
  | nil => cases k <;> rfl
  | cons f fs ih =>
    have hpos := putField_pos f
    have hcons : putFields (f :: fs) = putField f ++ putFields fs := rfl
    rw [hcons] at hk hlen ⊢
    rw [List.length_append] at hk hlen
    obtain ⟨j, rfl⟩ : ∃ j, k = j + 1 := ⟨k - 1, by omega⟩
    have hrest := ih (fun g hg => hfs g (List.mem_cons_of_mem _ hg)) (by omega) j (by omega)
    have hfirst := getField_put f (hfs f List.mem_cons_self) (by omega) (putFields fs)
    rw [getFieldsAux, hfirst]
    · simp [hrest]
    · intro hnil
      simp [List.append_eq_nil_iff] at hnil
      simp [hnil.1] at hpos

/-- The fields of a message are read back. -/
theorem getFields_put (fs : List Field) (hfs : ∀ f ∈ fs, f.Fits)
    (hlen : (putFields fs).length < 2 ^ 64) : getFields (putFields fs) = some fs :=
  getFieldsAux_put fs hfs hlen _ (Nat.le_refl _)

/-! ## Texts -/

def putText (t : String) : List UInt8 := t.toByteArray.data.toList

/-- The text of some bytes, when they are valid UTF-8. -/
def getText (b : List UInt8) : Option String := String.fromUTF8? ⟨b.toArray⟩

theorem getText_put (t : String) : getText (putText t) = some t := by
  have hvalid : t.toByteArray.IsValidUTF8 := t.isValidUTF8
  simp [getText, putText, String.fromUTF8?, String.fromUTF8, hvalid]

end proto3
