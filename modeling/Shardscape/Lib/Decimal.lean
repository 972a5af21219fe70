/-
# Texts of integers

The integers a text stands for, as parsers of fixed-width integer types read them:
an optional sign, at least one digit, nothing else, and a value that fits.  The digits are
decimal or, with radix 16, hexadecimal.  The decimal text of an integer (`intText`) reads back
as it (`parseSigned_intText`).
-/

import Shardscape.Lib.Bytes
import Mathlib.Data.Nat.Digits.Lemmas

namespace Shardscape
namespace Lib

/-- The value of a decimal digit. -/
def decimalDigit (c : Byte) : Option ℕ :=
  if 48 ≤ c.val ∧ c.val ≤ 57 then some (c.val - 48) else none

/-- The value of the digits after a value read so far. -/
def decimalFrom : ℕ → Str → Option ℕ
  | acc, [] => some acc
  | acc, c :: cs =>
    match decimalDigit c with
    | some d => decimalFrom (10 * acc + d) cs
    | none => none

/-- The value of a text of digits, of which there is at least one. -/
def decimalValue : Str → Option ℕ
  | [] => none
  | c :: cs => decimalFrom 0 (c :: cs)

/-- A `w`-bit unsigned integer, with a plus sign or without. -/
def parseUnsigned (w : ℕ) (s : Str) : Option ℕ :=
  (decimalValue (match s with
    | 43 :: digits => digits
    | digits => digits)).filter (· < 2 ^ w)

/-- A `w`-bit signed integer, with a sign or without. -/
def parseSigned (w : ℕ) (s : Str) : Option ℤ :=
  match s with
  | 45 :: digits =>
    ((decimalValue digits).filter (· ≤ 2 ^ (w - 1))).map fun n => -(n : ℤ)
  | s => ((parseUnsigned w s).filter (· < 2 ^ (w - 1))).map Int.ofNat

/-- The value of the hexadecimal digits after a value read so far. -/
def hexFrom : ℕ → Str → Option ℕ
  | acc, [] => some acc
  | acc, c :: cs =>
    match hexValue c with
    | some d => hexFrom (16 * acc + d) cs
    | none => none

/-- The value of a text of hexadecimal digits, of which there is at least one. -/
def hexNumber : Str → Option ℕ
  | [] => none
  | c :: cs => hexFrom 0 (c :: cs)

/-- A `w`-bit unsigned integer in hexadecimal digits, with a plus sign or without
(`from_str_radix`). -/
def parseUnsignedHex (w : ℕ) (s : Str) : Option ℕ :=
  (hexNumber (if s.head? = some 43 then s.tail else s)).filter (· < 2 ^ w)

/-- A hexadecimal digit is below 16. -/
theorem hexValue_lt {c : Byte} {n : ℕ} (h : hexValue c = some n) : n < 16 := by
  unfold hexValue at h
  split_ifs at h <;> cases h <;> omega

/-- Two bytes are a number below 256: two digits, or a plus sign and one. -/
theorem parseUnsignedHex_pair (hi lo : Byte) :
    parseUnsignedHex 8 [hi, lo] =
      if hi = 43 then hexValue lo
      else (hexValue hi).bind fun h => (hexValue lo).map fun l => 16 * h + l := by
  simp only [parseUnsignedHex, List.head?_cons, List.tail_cons, Option.some.injEq]
  split_ifs with hplus
  · -- the sign is not a digit
    cases hlo : hexValue lo with
    | none => simp [hexNumber, hexFrom, hlo]
    | some l =>
      have hl := hexValue_lt hlo
      simp [hexNumber, hexFrom, hlo]
      omega
  · cases hhi : hexValue hi with
    | none => simp [hexNumber, hexFrom, hhi]
    | some h =>
      cases hlo : hexValue lo with
      | none => simp [hexNumber, hexFrom, hhi, hlo]
      | some l =>
        have hh := hexValue_lt hhi
        have hl := hexValue_lt hlo
        simp [hexNumber, hexFrom, hhi, hlo]
        omega

/-! ### Writing -/

/-- The byte of a decimal digit. -/
def decimalByte (d : ℕ) : Byte := Fin.ofNat 256 (48 + d)

/-- The decimal text of a number. -/
def decimalText (n : ℕ) : Str :=
  if n = 0 then [48] else (Nat.digits 10 n).reverse.map decimalByte

/-- The decimal text of an integer, with a minus sign if it is negative. -/
def intText (n : ℤ) : Str := if n < 0 then 45 :: decimalText n.natAbs else decimalText n.natAbs

/-- The bytes of the digits. -/
def isDecimalDigit (c : Byte) : Bool := 48 ≤ c.val && c.val ≤ 57

/-- A digit that was written is read. -/
theorem decimalDigit_decimalByte {d : ℕ} (h : d < 10) : decimalDigit (decimalByte d) = some d := by
  interval_cases d <;> rfl

/-- A digit that was written is a digit. -/
theorem isDecimalDigit_decimalByte {d : ℕ} (h : d < 10) :
    isDecimalDigit (decimalByte d) = true := by
  interval_cases d <;> rfl

/-- The text of some digits has the value of the digits. -/
theorem decimalFrom_map {l : List ℕ} (h : ∀ d ∈ l, d < 10) (acc : ℕ) :
    decimalFrom acc (l.map decimalByte) = some (l.foldl (fun a d => 10 * a + d) acc) := by
  induction l generalizing acc with
  | nil => rfl
  | cons d l ih =>
    rw [List.forall_mem_cons] at h
    simp only [List.map_cons, decimalFrom, decimalDigit_decimalByte h.1, List.foldl_cons]
    exact ih h.2 _

/-- The text of a positive number starts with a digit that is not zero. -/
theorem exists_decimalText {n : ℕ} (hn : n ≠ 0) :
    ∃ d l, decimalText n = (d :: l).map decimalByte ∧ d ≠ 0 ∧ (∀ x ∈ d :: l, x < 10) ∧
      (d :: l).foldl (fun a x => 10 * a + x) 0 = n := by
  have hlt : ∀ x ∈ (Nat.digits 10 n).reverse, x < 10 :=
    fun x hx => Nat.digits_lt_base (by omega) (List.mem_reverse.1 hx)
  have hvalue : (Nat.digits 10 n).reverse.foldl (fun a x => 10 * a + x) 0 = n := by
    rw [List.foldl_reverse]
    conv_rhs => rw [← Nat.ofDigits_digits 10 n, Nat.ofDigits_eq_foldr]
    simp only [Nat.cast_id, Nat.add_comm]
  have hlast := Nat.getLast_digit_ne_zero 10 hn
  rw [List.getLast_eq_head_reverse] at hlast
  rw [decimalText, if_neg hn]
  cases hl : (Nat.digits 10 n).reverse with
  | nil => exact absurd (List.reverse_eq_nil_iff.1 hl) (Nat.digits_ne_nil_iff_ne_zero.2 hn)
  | cons d l =>
    simp only [hl, List.head_cons] at hlast hlt hvalue
    exact ⟨d, l, rfl, hlast, hlt, hvalue⟩

/-- **The text of a number reads back as it.** -/
@[simp] theorem decimalValue_decimalText (n : ℕ) : decimalValue (decimalText n) = some n := by
  by_cases hn : n = 0
  · rw [hn]
    rfl
  · obtain ⟨d, l, htext, -, hlt, hvalue⟩ := exists_decimalText hn
    rw [htext]
    have h := decimalFrom_map hlt 0
    rw [hvalue] at h
    exact h

/-- The text of a number is digits, at least one. -/
theorem exists_cons_decimalText (n : ℕ) :
    ∃ c cs, decimalText n = c :: cs ∧ ∀ x ∈ c :: cs, isDecimalDigit x = true := by
  by_cases hn : n = 0
  · refine ⟨48, [], by rw [hn]; rfl, ?_⟩
    simp [isDecimalDigit]
  · obtain ⟨d, l, htext, -, hlt, -⟩ := exists_decimalText hn
    refine ⟨decimalByte d, l.map decimalByte, htext, ?_⟩
    rw [← List.map_cons, List.forall_mem_map]
    exact fun x hx => isDecimalDigit_decimalByte (hlt x hx)

/-- A digit is no sign. -/
theorem ne_sign_of_isDecimalDigit {c : Byte} (h : isDecimalDigit c = true) : c ≠ 43 ∧ c ≠ 45 := by
  constructor <;> rintro rfl <;> exact absurd h (by decide)

/-- The text of a number reads back as it, if it fits; it has no sign to skip. -/
theorem parseUnsigned_decimalText {w n : ℕ} (h : n < 2 ^ w) :
    parseUnsigned w (decimalText n) = some n := by
  obtain ⟨c, cs, htext, hdigits⟩ := exists_cons_decimalText n
  have hplus := (ne_sign_of_isDecimalDigit (hdigits c List.mem_cons_self)).1
  have hvalue := decimalValue_decimalText n
  rw [htext] at hvalue ⊢
  have hrest : ∀ digits, c :: cs = 43 :: digits → False :=
    fun digits heq => hplus (List.cons.inj heq).1
  simp [parseUnsigned, hvalue, h]

/-- **The text of a signed integer reads back as it.** -/
theorem parseSigned_intText {w : ℕ} (hw : 0 < w) {n : ℤ} (hlow : -(2 ^ (w - 1) : ℕ) ≤ n)
    (hhigh : n < (2 ^ (w - 1) : ℕ)) : parseSigned w (intText n) = some n := by
  have hhalf : 2 ^ (w - 1) ≤ 2 ^ w := Nat.pow_le_pow_right (by omega) (by omega)
  rw [intText]
  split_ifs with hneg
  · have hle : n.natAbs ≤ 2 ^ (w - 1) := by omega
    have hfilter : (some n.natAbs).filter (· ≤ 2 ^ (w - 1)) = some n.natAbs := by simp [hle]
    simp [parseSigned, hfilter, abs_of_neg hneg]
  · obtain ⟨c, cs, htext, hdigits⟩ := exists_cons_decimalText n.natAbs
    have hminus := (ne_sign_of_isDecimalDigit (hdigits c List.mem_cons_self)).2
    have hread : parseUnsigned w (decimalText n.natAbs) = some n.natAbs :=
      parseUnsigned_decimalText (by omega)
    have hlt : n.natAbs < 2 ^ (w - 1) := by omega
    have habs : Int.ofNat n.natAbs = n := by
      rw [Int.ofNat_eq_natCast]
      omega
    rw [htext] at hread ⊢
    have hrest : ∀ digits, c :: cs = 45 :: digits → False :=
      fun digits heq => hminus (List.cons.inj heq).1
    simp only [parseSigned, hread, Option.filter_some, hlt, decide_true, if_true, Option.map_some,
      habs]

example : intText (-120) = ascii "-120".toList := by decide

example : parseUnsigned 64 (ascii "+017".toList) = some 17 := rfl

example : parseUnsigned 8 (ascii "256".toList) = none := rfl

example : parseSigned 8 (ascii "-128".toList) = some (-128) := rfl

example : parseUnsignedHex 8 (ascii "+f".toList) = some 15 := rfl

end Lib
end Shardscape
