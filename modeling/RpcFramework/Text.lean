-- Byte strings and the numbers that are written in them: where a byte stands
-- last, decimal text as `std::to_string` writes it, and `std::stoi`, which skips
-- blanks, takes a sign and reads as many digits as there are.
import Mathlib.Algebra.Group.Int.Defs
import Mathlib.Algebra.Group.Nat.Defs
import Mathlib.Data.List.TakeWhile

namespace text

/-- A byte string. -/
abbrev Text := List UInt8

/-- The bytes of ASCII characters. -/
def ascii (cs : List Char) : Text := cs.map Char.toUInt8

/-! ## The last place of a byte -/

/-- The last position of `c`, as `std::string::rfind` gives it. -/
def rfind (c : UInt8) : Text → Option Nat
  | [] => none
  | b :: t =>
    match rfind c t with
    | some i => some (i + 1)
    | none => if b = c then some 0 else none

variable {c : UInt8} {s t : Text}

theorem rfind_none (h : c ∉ s) : rfind c s = none := by
  induction s with
  | nil => rfl
  | cons b s ih =>
    simp only [List.mem_cons, not_or] at h
    simp [rfind, ih h.2, Ne.symm h.1]

theorem rfind_lt {i : Nat} (h : rfind c s = some i) : i < s.length := by
  induction s generalizing i with
  | nil => cases h
  | cons b s ih =>
    unfold rfind at h
    split at h
    · cases h
      simpa using ih ‹_›
    · split at h
      · cases h
        simp
      · cases h

/-- The last `c` stands where none follows. -/
theorem rfind_last (h : c ∉ t) (s : Text) : rfind c (s ++ c :: t) = some s.length := by
  induction s with
  | nil => simp [rfind, rfind_none h]
  | cons b s ih => simp [rfind, ih]

/-- Behind a `c`, the last one stands there or later. -/
theorem rfind_from (s t : Text) : ∃ i, rfind c (s ++ c :: t) = some i ∧ s.length ≤ i := by
  induction s with
  | nil =>
    cases ht : rfind c t with
    | none => exact ⟨0, by simp [rfind, ht], Nat.le_refl _⟩
    | some i => exact ⟨i + 1, by simp [rfind, ht], Nat.zero_le _⟩
  | cons b s ih =>
    obtain ⟨i, hi, hle⟩ := ih
    exact ⟨i + 1, by simp [rfind, hi], by simpa using hle⟩

/-- A byte that stands in a text stands there last at some place. -/
theorem exists_last (h : c ∈ s) : ∃ a b, s = a ++ c :: b ∧ c ∉ b := by
  induction s with
  | nil => cases h
  | cons x s ih =>
    by_cases hs : c ∈ s
    · obtain ⟨a, b, rfl, hb⟩ := ih hs
      exact ⟨x :: a, b, rfl, hb⟩
    · rcases List.mem_cons.mp h with rfl | hmem
      · exact ⟨[], s, rfl, hs⟩
      · exact absurd hmem hs

/-! ## Decimal text -/

/-- `std::to_string` of a number that is not negative. -/
def decimal (n : Nat) : Text := (Nat.toDigits 10 n).map Char.toUInt8

/-- `std::to_string` of an `int`. -/
def decimalInt (w : Int32) : Text :=
  if w.toInt < 0 then '-'.toUInt8 :: decimal w.toInt.natAbs else decimal w.toInt.natAbs

def isDigit (b : UInt8) : Bool := 48 ≤ b.toNat && b.toNat ≤ 57

/-- `isspace` in the C locale. -/
def isSpace (b : UInt8) : Bool := b.toNat = 32 || (9 ≤ b.toNat && b.toNat ≤ 13)

/-- The number that digits write. -/
def magnitude (ds : Text) : Nat := ds.foldl (fun n b => 10 * n + (b.toNat - 48)) 0

/-- The exceptions of `std::stoi`. -/
inductive StoiError
  | invalidArgument
  | outOfRange
  deriving DecidableEq

/-- The sign in front of a number, and what follows it. -/
def sign : Text → Bool × Text
  | [] => (false, [])
  | b :: t =>
    if b = '-'.toUInt8 then (true, t)
    else if b = '+'.toUInt8 then (false, t)
    else (false, b :: t)

/-- `std::stoi`. What stands behind the digits is not looked at. -/
def stoi (s : Text) : Except StoiError Int32 :=
  let (negative, rest) := sign (s.dropWhile isSpace)
  let ds := rest.takeWhile isDigit
  if ds = [] then .error .invalidArgument
  else
    let v : Int := if negative then -(magnitude ds : Int) else magnitude ds
    if -2 ^ 31 ≤ v ∧ v < 2 ^ 31 then .ok (Int32.ofInt v) else .error .outOfRange

theorem isDigit_toUInt8 {d : Char} (h : d.isDigit = true) :
    d.toUInt8.toNat = d.toNat ∧ isDigit d.toUInt8 = true := by
  obtain ⟨hlo, hhi⟩ := Char.isDigit_iff_toNat.mp h
  have hval : d.toUInt8.toNat = d.toNat := by
    change d.toNat % 256 = d.toNat
    exact Nat.mod_eq_of_lt (Nat.lt_of_le_of_lt hhi (by decide))
  refine ⟨hval, ?_⟩
  unfold isDigit
  rw [hval, Bool.and_eq_true]
  exact ⟨decide_eq_true hlo, decide_eq_true hhi⟩

theorem isDigit_decimal (n : Nat) : ∀ b ∈ decimal n, isDigit b = true := by
  intro b hb
  obtain ⟨d, hd, rfl⟩ := List.mem_map.mp hb
  exact (isDigit_toUInt8 (Nat.isDigit_of_mem_toDigits (by decide) (by decide) hd)).2

theorem decimal_ne_nil (n : Nat) : decimal n ≠ [] := by
  simp [decimal, Nat.toDigits_ne_nil]

/-- A byte that is no digit does not stand in decimal text. -/
theorem not_mem_decimal (h : isDigit c = false) (n : Nat) : c ∉ decimal n := by
  intro hc
  rw [isDigit_decimal n c hc] at h
  cases h

theorem magnitude_decimal (n : Nat) : magnitude (decimal n) = n := by
  have hfold : ∀ (ds : List Char), (∀ d ∈ ds, d.isDigit = true) → ∀ k : Nat,
      (ds.map Char.toUInt8).foldl (fun n b => 10 * n + (b.toNat - 48)) k =
        Nat.ofDigitChars 10 ds k := by
    intro ds hds
    induction ds with
    | nil => simp
    | cons d ds ih =>
      intro k
      rw [List.map_cons, List.foldl_cons, Nat.ofDigitChars_cons,
        (isDigit_toUInt8 (hds d (by simp))).1, ih fun e he => hds e (by simp [he])]
      rfl
  unfold magnitude decimal
  rw [hfold _ (fun d hd => Nat.isDigit_of_mem_toDigits (by decide) (by decide) hd),
    Nat.ofDigitChars_ten_toDigits]

theorem decimal_inj {m n : Nat} (h : decimal m = decimal n) : m = n := by
  rw [← magnitude_decimal m, h, magnitude_decimal]

/-- Digits are neither blanks nor signs. -/
theorem sign_digits {ds : Text} (h : ∀ b ∈ ds, isDigit b = true) :
    sign (ds.dropWhile isSpace) = (false, ds) := by
  cases ds with
  | nil => rfl
  | cons b t =>
    have hb := h b (by simp)
    simp only [isDigit, Bool.and_eq_true, decide_eq_true_eq] at hb
    have hspace : isSpace b = false := by
      simp [isSpace]
      omega
    have hminus : b ≠ '-'.toUInt8 := by
      rintro rfl
      exact absurd hb.1 (by decide)
    have hplus : b ≠ '+'.toUInt8 := by
      rintro rfl
      exact absurd hb.1 (by decide)
    rw [List.dropWhile_cons_of_neg (by simp [hspace])]
    simp [sign, hminus, hplus]

/-- `std::stoi` reads a number that `std::to_string` wrote. -/
theorem stoi_decimal {n : Nat} (h : n < 2 ^ 31) : stoi (decimal n) = .ok (Int32.ofInt n) := by
  have hd := isDigit_decimal n
  unfold stoi
  rw [sign_digits hd]
  simp only [List.takeWhile_eq_self_iff.mpr hd, decimal_ne_nil, if_false, magnitude_decimal,
    Bool.false_eq_true]
  rw [if_pos (by omega)]

theorem stoi_decimalInt (w : Int32) : stoi (decimalInt w) = .ok w := by
  have hlo := w.le_toInt
  have hhi := w.toInt_lt
  have hd := isDigit_decimal w.toInt.natAbs
  unfold decimalInt
  split
  · rename_i hneg
    unfold stoi
    have hsign : sign (('-'.toUInt8 :: decimal w.toInt.natAbs).dropWhile isSpace) =
        (true, decimal w.toInt.natAbs) := rfl
    rw [hsign]
    simp only [List.takeWhile_eq_self_iff.mpr hd, decimal_ne_nil, if_false, magnitude_decimal,
      if_true]
    have hv : -(w.toInt.natAbs : Int) = w.toInt := by omega
    rw [hv, if_pos ⟨hlo, hhi⟩, Int32.ofInt_toInt]
  · rename_i hneg
    have hv : (w.toInt.natAbs : Int) = w.toInt := by omega
    rw [stoi_decimal (by omega), hv, Int32.ofInt_toInt]

theorem decimalInt_ne_nil (w : Int32) : decimalInt w ≠ [] := by
  unfold decimalInt
  split
  · simp
  · exact decimal_ne_nil _

end text
