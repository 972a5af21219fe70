/-
# UTF-8

`String::from_utf8`: the byte strings that are UTF-8, by the table of well-formed
sequences (no overlong forms, no surrogates, nothing past U+10FFFF), with one equation per
length of the first sequence.  `Shardscape.Lib.Utf8Chars` reads a string by its characters.
-/

import Shardscape.Lib.Bytes

namespace Shardscape
namespace Lib

/-- A continuation byte. -/
def isContinuation (b : Byte) : Bool := 0x80 ≤ b.val && b.val ≤ 0xBF

/-- The second byte of a three-byte sequence that starts with `a`. -/
def isSecondOfThree (a b : Byte) : Bool :=
  if a.val = 0xE0 then 0xA0 ≤ b.val && b.val ≤ 0xBF
  else if a.val = 0xED then 0x80 ≤ b.val && b.val ≤ 0x9F
  else isContinuation b

/-- The second byte of a four-byte sequence that starts with `a`. -/
def isSecondOfFour (a b : Byte) : Bool :=
  if a.val = 0xF0 then 0x90 ≤ b.val && b.val ≤ 0xBF
  else if a.val = 0xF4 then 0x80 ≤ b.val && b.val ≤ 0x8F
  else isContinuation b

/-- Whether a byte string is UTF-8. -/
def validUtf8 : Bytes → Bool
  | [] => true
  | a :: rest =>
    if a.val < 0x80 then validUtf8 rest
    else match rest with
      | [] => false
      | b :: rest₁ =>
        if 0xC2 ≤ a.val ∧ a.val ≤ 0xDF then isContinuation b && validUtf8 rest₁
        else match rest₁ with
          | [] => false
          | c :: rest₂ =>
            if 0xE0 ≤ a.val ∧ a.val ≤ 0xEF then
              isSecondOfThree a b && isContinuation c && validUtf8 rest₂
            else match rest₂ with
              | [] => false
              | d :: rest₃ =>
                0xF0 ≤ a.val && a.val ≤ 0xF4 && isSecondOfFour a b && isContinuation c &&
                  isContinuation d && validUtf8 rest₃

/-- `String::from_utf8`. -/
def fromUtf8 (bytes : Bytes) : Option Str := if validUtf8 bytes then some bytes else none

/-! ### The first sequence -/

/-- An ASCII character in front. -/
theorem validUtf8_ascii {a : Byte} (ha : a.val < 0x80) (rest : Bytes) :
    validUtf8 (a :: rest) = validUtf8 rest := by
  rw [validUtf8.eq_def]
  simp only [if_pos ha]

/-- A sequence of two bytes in front. -/
theorem validUtf8_two {a : Byte} (ha : 0xC2 ≤ a.val ∧ a.val ≤ 0xDF) (b : Byte) (rest : Bytes) :
    validUtf8 (a :: b :: rest) = (isContinuation b && validUtf8 rest) := by
  have h1 : ¬ a.val < 0x80 := by omega
  rw [validUtf8.eq_def]
  simp only [if_neg h1, if_pos ha]

/-- A sequence of three bytes in front. -/
theorem validUtf8_three {a : Byte} (ha : 0xE0 ≤ a.val ∧ a.val ≤ 0xEF) (b c : Byte) (rest : Bytes) :
    validUtf8 (a :: b :: c :: rest) =
      (isSecondOfThree a b && isContinuation c && validUtf8 rest) := by
  have h1 : ¬ a.val < 0x80 := by omega
  have h2 : ¬ (0xC2 ≤ a.val ∧ a.val ≤ 0xDF) := by omega
  rw [validUtf8.eq_def]
  simp only [if_neg h1, if_neg h2, if_pos ha]

/-- A sequence of four bytes in front. -/
theorem validUtf8_four {a : Byte} (ha : 0xF0 ≤ a.val ∧ a.val ≤ 0xF4) (b c d : Byte) (rest : Bytes) :
    validUtf8 (a :: b :: c :: d :: rest) =
      (isSecondOfFour a b && isContinuation c && isContinuation d && validUtf8 rest) := by
  have h1 : ¬ a.val < 0x80 := by omega
  have h2 : ¬ (0xC2 ≤ a.val ∧ a.val ≤ 0xDF) := by omega
  have h3 : ¬ (0xE0 ≤ a.val ∧ a.val ≤ 0xEF) := by omega
  rw [validUtf8.eq_def]
  simp only [if_neg h1, if_neg h2, if_neg h3, ha.1, ha.2, decide_true, Bool.true_and]

/-- The first byte of a longer sequence says how many bytes follow it. -/
theorem exists_of_validUtf8 {a : Byte} {rest : Bytes} (ha : ¬ a.val < 0x80)
    (h : validUtf8 (a :: rest) = true) :
    ((0xC2 ≤ a.val ∧ a.val ≤ 0xDF) ∧ ∃ b rest', rest = b :: rest') ∨
      ((0xE0 ≤ a.val ∧ a.val ≤ 0xEF) ∧ ∃ b c rest', rest = b :: c :: rest') ∨
      ((0xF0 ≤ a.val ∧ a.val ≤ 0xF4) ∧ ∃ b c d rest', rest = b :: c :: d :: rest') := by
  rw [validUtf8.eq_def] at h
  simp only [if_neg ha] at h
  split at h
  · exact nomatch h
  · next b rest₁ =>
      split at h
      · next h2 => exact Or.inl ⟨h2, b, rest₁, rfl⟩
      · split at h
        · exact nomatch h
        · next c rest₂ =>
            split at h
            · next h3 => exact Or.inr (Or.inl ⟨h3, b, c, rest₂, rfl⟩)
            · split at h
              · exact nomatch h
              · next d rest₃ =>
                  simp only [Bool.and_eq_true, decide_eq_true_eq] at h
                  exact Or.inr (Or.inr ⟨h.1.1.1.1, b, c, d, rest₃, rfl⟩)

end Lib
end Shardscape
