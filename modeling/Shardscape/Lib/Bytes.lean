/-
# Byte strings

Bytes are numbers below 256, and byte strings and UTF-8 strings are lists of
them, ordered lexicographically: on valid UTF-8 that is the order of the code
points, and the order a database collates text keys in.

Two encodings are used by a store that keeps lists of fixed-width digests: the
hexadecimal text of a byte string (`hexEncode`, `hexDecode`, which accepts both
letter cases and nothing of odd length), and the plain concatenation of chunks of
one width, split back by `chunksExact`, which drops a tail shorter than the width.
Both round trip (`hexDecode_hexEncode`, `chunksExact_flatten`).
-/

import Mathlib.Data.List.Lex
import Mathlib.Data.Fin.Basic
import Mathlib.Order.Fin.Basic
import Mathlib.Tactic.IntervalCases

namespace Shardscape
namespace Lib

/-- A byte. -/
abbrev Byte := Fin 256

/-- Numerals are bytes: one instance for all of them.  So are the numbers of two or three. -/
instance (priority := 2000) neZero_256 : NeZero 256 := ⟨by decide⟩

instance (priority := 2000) neZero_two : NeZero 2 := ⟨by decide⟩

instance (priority := 2000) neZero_three : NeZero 3 := ⟨by decide⟩

/-- A byte string. -/
abbrev Bytes := List Byte

/-- Byte strings are compared as they are: one instance for all of them. -/
instance (priority := 2000) lawfulBEq_bytes : LawfulBEq Bytes := inferInstance

/-- A string, as its UTF-8 bytes. -/
abbrev Str := List Byte

/-- The string of a list of ASCII characters. -/
def ascii (cs : List Char) : Str := cs.map fun c => Fin.ofNat 256 c.toNat

/-! ### Hexadecimal -/

/-- The lower-case digit of `n < 16`. -/
def hexDigit (n : ℕ) : Byte := if n < 10 then Fin.ofNat 256 (48 + n) else Fin.ofNat 256 (87 + n)

/-- The value of a digit, in either letter case. -/
def hexValue (c : Byte) : Option ℕ :=
  if 48 ≤ c.val ∧ c.val ≤ 57 then some (c.val - 48)
  else if 97 ≤ c.val ∧ c.val ≤ 102 then some (c.val - 87)
  else if 65 ≤ c.val ∧ c.val ≤ 70 then some (c.val - 55)
  else none

/-- Two digits per byte, the high one first. -/
def hexEncode : Bytes → Str
  | [] => []
  | b :: bs => hexDigit (b.val / 16) :: hexDigit (b.val % 16) :: hexEncode bs

/-- The bytes of a hexadecimal text; `none` on an odd length or another
character. -/
def hexDecode : Str → Option Bytes
  | [] => some []
  | [_] => none
  | hi :: lo :: rest =>
    match hexValue hi, hexValue lo, hexDecode rest with
    | some h, some l, some bs => some (Fin.ofNat 256 (16 * h + l) :: bs)
    | _, _, _ => none

/-- A digit that was written is read. -/
theorem hexValue_hexDigit {n : ℕ} (h : n < 16) : hexValue (hexDigit n) = some n := by
  interval_cases n <;> rfl

/-- **The hexadecimal text of a byte string reads back as it.** -/
@[simp] theorem hexDecode_hexEncode (bs : Bytes) : hexDecode (hexEncode bs) = some bs := by
  induction bs with
  | nil => rfl
  | cons b bs ih =>
    have hhi : b.val / 16 < 16 := by omega
    have hlo : b.val % 16 < 16 := Nat.mod_lt _ (by omega)
    simp only [hexEncode, hexDecode, hexValue_hexDigit hhi, hexValue_hexDigit hlo, ih,
      Option.some.injEq, List.cons.injEq, and_true]
    refine Fin.ext ?_
    rw [Fin.val_ofNat, Nat.div_add_mod]
    exact Nat.mod_eq_of_lt b.isLt

/-- A hexadecimal text has no double quotes. -/
theorem ne_quote_of_mem_hexEncode (bs : Bytes) : ∀ c ∈ hexEncode bs, c ≠ 34 := by
  have hdigit : ∀ n, n < 16 → hexDigit n ≠ 34 := by
    intro n hn
    interval_cases n <;> decide
  induction bs with
  | nil => simp [hexEncode]
  | cons b bs ih =>
    rw [hexEncode, List.forall_mem_cons, List.forall_mem_cons]
    exact ⟨hdigit _ (by omega), hdigit _ (Nat.mod_lt _ (by omega)), ih⟩

/-- Decoding every text of a list; `none` if one of them is not hexadecimal. -/
def hexDecodeAll : List Str → Option (List Bytes)
  | [] => some []
  | h :: hs =>
    match hexDecode h, hexDecodeAll hs with
    | some b, some bs => some (b :: bs)
    | _, _ => none

/-- Texts of hashes decode to the hashes. -/
@[simp] theorem hexDecodeAll_map_hexEncode (bs : List Bytes) :
    hexDecodeAll (bs.map hexEncode) = some bs := by
  induction bs with
  | nil => rfl
  | cons b bs ih => simp only [List.map_cons, hexDecodeAll, hexDecode_hexEncode, ih]

/-! ### Chunks of one width -/

/-- The first `fuel` whole chunks of width `n`. -/
def chunksExactAux (n : ℕ) : ℕ → Bytes → List Bytes
  | 0, _ => []
  | fuel + 1, l => if n ≤ l.length then l.take n :: chunksExactAux n fuel (l.drop n) else []

/-- The whole chunks of width `n`, the shorter tail dropped; a list has no more
chunks than bytes. -/
def chunksExact (n : ℕ) (l : Bytes) : List Bytes := chunksExactAux n l.length l

/-- By induction on the blocks; each takes some of the fuel, as `n` is positive. -/
theorem chunksExactAux_flatten {n : ℕ} (hn : 0 < n) {bs : List Bytes}
    (h : ∀ b ∈ bs, b.length = n) {fuel : ℕ} (hf : bs.flatten.length ≤ fuel) :
    chunksExactAux n fuel bs.flatten = bs := by
  induction bs generalizing fuel with
  | nil =>
    cases fuel with
    | zero => rfl
    | succ fuel => simp [chunksExactAux, hn.ne']
  | cons b bs ih =>
    have hb : b.length = n := h b List.mem_cons_self
    rw [List.flatten_cons, List.length_append] at hf
    obtain ⟨fuel, rfl⟩ : ∃ f, fuel = f + 1 := ⟨fuel - 1, by omega⟩
    have hle : n ≤ (b ++ bs.flatten).length := by rw [List.length_append]; omega
    rw [List.flatten_cons, chunksExactAux, if_pos hle, List.take_left' hb, List.drop_left' hb,
      ih (fun c hc => h c (List.mem_cons_of_mem b hc)) (by omega)]

/-- **A concatenation of chunks of one width splits back into them.** -/
theorem chunksExact_flatten {n : ℕ} (hn : 0 < n) {bs : List Bytes}
    (h : ∀ b ∈ bs, b.length = n) : chunksExact n bs.flatten = bs :=
  chunksExactAux_flatten hn h le_rfl

/-- Every chunk has the length asked for. -/
theorem length_of_mem_chunksExactAux {n : ℕ} {fuel : ℕ} {l b : Bytes}
    (h : b ∈ chunksExactAux n fuel l) : b.length = n := by
  induction fuel generalizing l with
  | zero => exact nomatch h
  | succ fuel ih =>
    rw [chunksExactAux] at h
    split_ifs at h with hle
    · rcases List.mem_cons.1 h with rfl | h
      · exact List.length_take_of_le hle
      · exact ih h
    · exact nomatch h

/-- Whole chunks have the width. -/
theorem length_of_mem_chunksExact {n : ℕ} {l b : Bytes} (h : b ∈ chunksExact n l) :
    b.length = n :=
  length_of_mem_chunksExactAux h

/-- The hypotheses of `chunksExact_flatten` are satisfiable, and a stray tail is
dropped. -/
example : chunksExact 2 ([[1, 2], [3, 4]] : List Bytes).flatten = [[1, 2], [3, 4]] ∧
    chunksExact 2 [1, 2, 3] = [[1, 2]] := by decide

end Lib
end Shardscape
