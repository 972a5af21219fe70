/-
# The characters of a UTF-8 string

A string is read character by character, whatever their lengths: `validUtf8_induction` is
induction over its characters.  With it: the last byte of a string can be replaced by any byte of
its kind, and no other (`validUtf8_concat_iff`), a string cut at a character boundary leaves a
string (`validUtf8_of_append`), and `String::from_utf8_lossy` keeps a string as it is
(`fromUtf8Lossy_of_validUtf8`).  On any bytes it keeps those that are ASCII, in their order, and
adds none (`filter_isAscii_fromUtf8Lossy`).
-/

import Shardscape.Lib.Utf8

namespace Shardscape
namespace Lib

/-! ### Characters -/

/-- One character. -/
inductive Utf8Char : Bytes → Prop
  | one {a : Byte} (ha : a.val < 0x80) : Utf8Char [a]
  | two {a b : Byte} (ha : 0xC2 ≤ a.val ∧ a.val ≤ 0xDF) (hb : isContinuation b = true) :
      Utf8Char [a, b]
  | three {a b c : Byte} (ha : 0xE0 ≤ a.val ∧ a.val ≤ 0xEF) (hb : isSecondOfThree a b = true)
      (hc : isContinuation c = true) : Utf8Char [a, b, c]
  | four {a b c d : Byte} (ha : 0xF0 ≤ a.val ∧ a.val ≤ 0xF4) (hb : isSecondOfFour a b = true)
      (hc : isContinuation c = true) (hd : isContinuation d = true) : Utf8Char [a, b, c, d]

/-- A string is a character and a string, or empty. -/
theorem exists_utf8Char {a : Byte} {rest : Bytes} (h : validUtf8 (a :: rest) = true) :
    ∃ q tail, Utf8Char q ∧ a :: rest = q ++ tail ∧ validUtf8 tail = true := by
  by_cases ha : a.val < 0x80
  · rw [validUtf8_ascii ha] at h
    exact ⟨[a], rest, .one ha, rfl, h⟩
  rcases exists_of_validUtf8 ha h with ⟨h2, b, tail, rfl⟩ | ⟨h3, b, c, tail, rfl⟩ |
      ⟨h4, b, c, d, tail, rfl⟩
  · rw [validUtf8_two h2, Bool.and_eq_true] at h
    exact ⟨[a, b], tail, .two h2 h.1, rfl, h.2⟩
  · simp only [validUtf8_three h3, Bool.and_eq_true] at h
    exact ⟨[a, b, c], tail, .three h3 h.1.1 h.1.2, rfl, h.2⟩
  · simp only [validUtf8_four h4, Bool.and_eq_true] at h
    exact ⟨[a, b, c, d], tail, .four h4 h.1.1.1 h.1.1.2 h.1.2, rfl, h.2⟩

/-- A character has at least one byte. -/
theorem Utf8Char.ne_nil {q : Bytes} (h : Utf8Char q) : q ≠ [] := by
  cases h <;> exact List.cons_ne_nil _ _

/-- **Induction over the characters of a string.** -/
theorem validUtf8_induction {P : Bytes → Prop} (nil : P [])
    (char : ∀ {q tail : Bytes}, Utf8Char q → validUtf8 tail = true → P tail → P (q ++ tail)) :
    ∀ {s : Bytes}, validUtf8 s = true → P s := by
  intro s
  induction hn : s.length using Nat.strongRecOn generalizing s with
  | ind n ih =>
    intro h
    cases s with
    | nil => exact nil
    | cons a rest =>
      obtain ⟨q, tail, hq, hsplit, htail⟩ := exists_utf8Char h
      have hlen := congrArg List.length hsplit
      have hpos := List.length_pos_iff.2 hq.ne_nil
      rw [List.length_append] at hlen
      rw [hsplit]
      exact char hq htail (ih tail.length (by omega) rfl htail)

/-! ### Boundaries -/

/-- `is_char_boundary`, by the bytes from the position on. -/
def isCharBoundary : Bytes → Bool
  | [] => true
  | b :: _ => !isContinuation b

/-- The bytes that begin a character are the ASCII bytes and those from `0xC0` on. -/
theorem isContinuation_eq_false_iff {b : Byte} :
    isContinuation b = false ↔ b.val < 0x80 ∨ 0xC0 ≤ b.val := by
  simp only [isContinuation, Bool.and_eq_false_iff, decide_eq_false_iff_not]
  omega

/-- The second byte of a character is a continuation byte. -/
theorem isContinuation_of_second {a b : Byte}
    (h : isSecondOfThree a b = true ∨ isSecondOfFour a b = true) : isContinuation b = true := by
  simp only [isSecondOfThree, isSecondOfFour, isContinuation] at h ⊢
  split_ifs at h <;> simp only [Bool.and_eq_true, decide_eq_true_eq] at h ⊢ <;> omega

/-- A character starts at a boundary. -/
theorem Utf8Char.isCharBoundary_append {q : Bytes} (h : Utf8Char q) (tail : Bytes) :
    isCharBoundary (q ++ tail) = true := by
  have hfirst : ∀ {a : Byte} (rest : Bytes), a.val < 0x80 ∨ 0xC0 ≤ a.val →
      isCharBoundary (a :: rest) = true := by
    intro a rest ha
    rw [isCharBoundary, isContinuation_eq_false_iff.2 ha]
    rfl
  cases h with
  | one ha => exact hfirst _ (by omega)
  | two ha _ => exact hfirst _ (by omega)
  | three ha _ _ => exact hfirst _ (by omega)
  | four ha _ _ _ => exact hfirst _ (by omega)

/-- There is no other boundary in it. -/
theorem Utf8Char.isContinuation_of_mem {a : Byte} {q : Bytes} (h : Utf8Char (a :: q)) :
    ∀ b ∈ q, isContinuation b = true := by
  cases h with
  | one _ => simp
  | two _ hb => simpa using hb
  | three _ hb hc => simpa using ⟨isContinuation_of_second (Or.inl hb), hc⟩
  | four _ hb hc hd => simpa using ⟨isContinuation_of_second (Or.inr hb), hc, hd⟩

/-- A character in front. -/
theorem Utf8Char.validUtf8_append {q : Bytes} (h : Utf8Char q) (tail : Bytes) :
    validUtf8 (q ++ tail) = validUtf8 tail := by
  cases h with
  | one ha => exact validUtf8_ascii ha tail
  | two ha hb => exact (validUtf8_two ha _ tail).trans (by rw [hb, Bool.true_and])
  | three ha hb hc => exact (validUtf8_three ha _ _ tail).trans (by rw [hb, hc]; rfl)
  | four ha hb hc hd => exact (validUtf8_four ha _ _ _ tail).trans (by rw [hb, hc, hd]; rfl)

/-! ### The last byte -/

/-- The bytes that can stand for `b` at the end of a string: those of its kind. -/
def sameKind (b c : Byte) : Bool := if b.val < 0x80 then c.val < 0x80 else isContinuation c

/-- A byte of the kind of a continuation byte is one. -/
theorem sameKind_of_continuation {b : Byte} (hb : isContinuation b = true) (c : Byte) :
    sameKind b c = isContinuation c := by
  have : ¬ b.val < 0x80 := by
    simp only [isContinuation, Bool.and_eq_true, decide_eq_true_eq] at hb
    omega
  rw [sameKind, if_neg this]

/-- A character with another last byte. -/
theorem Utf8Char.validUtf8_concat {l : Bytes} {b : Byte} (h : Utf8Char (l ++ [b])) (c : Byte) :
    validUtf8 (l ++ [c]) = sameKind b c := by
  generalize hq : l ++ [b] = q at h
  have hlast : ∀ (l' : Bytes) {b' : Byte}, l ++ [b] = l' ++ [b'] → l = l' ∧ b = b' := by
    intro l' b' heq
    obtain ⟨hl, hb⟩ := List.append_inj' heq rfl
    exact ⟨hl, List.singleton_inj.1 hb⟩
  cases h with
  | @one a ha =>
    obtain ⟨rfl, rfl⟩ := hlast [] hq
    simp [validUtf8, sameKind, ha]
  | @two a b ha hb =>
    obtain ⟨rfl, rfl⟩ := hlast [a] hq
    rw [sameKind_of_continuation hb]
    exact (validUtf8_two ha c []).trans (Bool.and_true _)
  | @three a b d ha hb hd =>
    obtain ⟨rfl, rfl⟩ := hlast [a, b] hq
    rw [sameKind_of_continuation hd]
    exact (validUtf8_three ha b c []).trans (by rw [hb]; exact Bool.and_true _)
  | @four a b d e ha hb hd he =>
    obtain ⟨rfl, rfl⟩ := hlast [a, b, d] hq
    rw [sameKind_of_continuation he]
    exact (validUtf8_four ha b d c []).trans (by rw [hb, hd]; exact Bool.and_true _)

/-- **Another last byte.**  Where a string is UTF-8, it stays so with another last byte
exactly if that byte is of the same kind. -/
theorem validUtf8_concat_iff {b : Byte} (c : Byte) {l : Bytes} (h : validUtf8 (l ++ [b]) = true) :
    validUtf8 (l ++ [c]) = true ↔ sameKind b c = true := by
  refine validUtf8_induction (P := fun s => ∀ l, s = l ++ [b] →
    (validUtf8 (l ++ [c]) = true ↔ sameKind b c = true)) ?_ ?_ h l rfl
  · intro l hl
    exact absurd hl (by simp)
  · intro q tail hq _ ih l hsplit
    rcases List.eq_nil_or_concat' tail with rfl | ⟨tail, b', rfl⟩
    · rw [List.append_nil] at hsplit
      rw [hsplit] at hq
      rw [hq.validUtf8_concat]
    · -- the last byte is not in the first character
      rw [← List.append_assoc] at hsplit
      obtain ⟨rfl, hb⟩ := List.append_inj' hsplit rfl
      rw [List.append_assoc, hq.validUtf8_append]
      exact ih tail (by rw [hb])

/-! ### Cutting at a boundary -/

/-- **A string cut at a boundary** leaves a string. -/
theorem validUtf8_of_append {l r : Bytes} (h : validUtf8 (l ++ r) = true)
    (hr : isCharBoundary r = true) : validUtf8 r = true := by
  refine validUtf8_induction (P := fun s => ∀ l r, s = l ++ r → isCharBoundary r = true →
    validUtf8 r = true) ?_ ?_ h l r rfl hr
  · intro l r hsplit _
    rw [(List.append_eq_nil_iff.1 hsplit.symm).2]
    rfl
  · intro q tail hq htail ih l r hsplit hr
    rcases List.append_eq_append_iff.1 hsplit with ⟨l', rfl, rfl⟩ | ⟨q', rfl, rfl⟩
    · exact ih l' r rfl hr
    · cases l with
      | nil =>
        rw [List.nil_append] at hq
        rw [hq.validUtf8_append, htail]
      | cons a l =>
        cases q' with
        | nil => exact htail
        | cons b q' =>
          -- inside a character there is no boundary
          have hb := hq.isContinuation_of_mem b (by simp)
          rw [List.cons_append, isCharBoundary, hb] at hr
          exact absurd hr (by decide)

/-- After an ASCII character of a string comes a boundary. -/
theorem isCharBoundary_of_suffix {s rest : Bytes} {a : Byte} (h : validUtf8 s = true)
    (ha : a.val < 0x80) (hsuffix : a :: rest <:+ s) : isCharBoundary rest = true := by
  obtain ⟨before, rfl⟩ := hsuffix
  have hstart : isCharBoundary (a :: rest) = true := Utf8Char.isCharBoundary_append (.one ha) rest
  have hvalid := validUtf8_of_append h hstart
  rw [validUtf8_ascii ha] at hvalid
  cases rest with
  | nil => rfl
  | cons b rest =>
    obtain ⟨q, tail, hq, hsplit, -⟩ := exists_utf8Char hvalid
    rw [hsplit]
    exact hq.isCharBoundary_append tail

/-! ### Lossy conversion -/

/-- U+FFFD, the replacement character. -/
def replacement : Str := [0xEF, 0xBF, 0xBD]

/-- `String::from_utf8_lossy`: a part that starts a character without ending it, or no character
at all, is replaced. -/
def fromUtf8Lossy : Bytes → Str
  | [] => []
  | a :: rest =>
    if a.val < 0x80 then a :: fromUtf8Lossy rest
    else match rest with
      | [] => replacement
      | b :: rest₁ =>
        if 0xC2 ≤ a.val ∧ a.val ≤ 0xDF ∧ isContinuation b = true then
          a :: b :: fromUtf8Lossy rest₁
        else if (0xE0 ≤ a.val ∧ a.val ≤ 0xEF ∧ isSecondOfThree a b = true) ∨
            (0xF0 ≤ a.val ∧ a.val ≤ 0xF4 ∧ isSecondOfFour a b = true) then
          match rest₁ with
          | [] => replacement
          | c :: rest₂ =>
            if isContinuation c = false then replacement ++ fromUtf8Lossy (c :: rest₂)
            else if a.val ≤ 0xEF then a :: b :: c :: fromUtf8Lossy rest₂
            else match rest₂ with
              | [] => replacement
              | d :: rest₃ =>
                if isContinuation d = false then replacement ++ fromUtf8Lossy (d :: rest₃)
                else a :: b :: c :: d :: fromUtf8Lossy rest₃
        else replacement ++ fromUtf8Lossy (b :: rest₁)

/-- A character is kept. -/
theorem Utf8Char.fromUtf8Lossy_append {q : Bytes} (h : Utf8Char q) (tail : Bytes) :
    fromUtf8Lossy (q ++ tail) = q ++ fromUtf8Lossy tail := by
  cases h with
  | one ha =>
    rw [List.cons_append, fromUtf8Lossy.eq_def]
    simp only [List.nil_append, List.cons_append, if_pos ha]
  | @two a b ha hb =>
    have h1 : ¬ a.val < 0x80 := by omega
    rw [List.cons_append, fromUtf8Lossy.eq_def]
    simp [h1, ha, hb]
  | @three a b c ha hb hc =>
    have h1 : ¬ a.val < 0x80 := by omega
    have h2 : ¬ a.val ≤ 0xDF := by omega
    rw [List.cons_append, fromUtf8Lossy.eq_def]
    simp [h1, h2, ha, hb, hc]
  | @four a b c d ha hb hc hd =>
    have h1 : ¬ a.val < 0x80 := by omega
    have h2 : ¬ a.val ≤ 0xDF := by omega
    have h3 : ¬ a.val ≤ 0xEF := by omega
    rw [List.cons_append, fromUtf8Lossy.eq_def]
    simp [h1, h2, h3, ha, hb, hc, hd]

/-- **A string is kept as it is.** -/
theorem fromUtf8Lossy_of_validUtf8 {s : Bytes} (h : validUtf8 s = true) : fromUtf8Lossy s = s := by
  refine validUtf8_induction (P := fun s => fromUtf8Lossy s = s) rfl ?_ h
  intro q tail hq _ ih
  rw [hq.fromUtf8Lossy_append, ih]

/-- An ASCII byte. -/
def isAscii (b : Byte) : Bool := b.val < 0x80

/-- A continuation byte is not ASCII. -/
theorem isAscii_of_continuation {b : Byte} (h : isContinuation b = true) : isAscii b = false := by
  simp only [isContinuation, isAscii, Bool.and_eq_true, decide_eq_true_eq,
    decide_eq_false_iff_not] at h ⊢
  omega

/-- **ASCII bytes are neither lost nor added.** -/
theorem filter_isAscii_fromUtf8Lossy (s : Bytes) :
    (fromUtf8Lossy s).filter isAscii = s.filter isAscii := by
  have hreplaced : ∀ l : Bytes, (replacement ++ l).filter isAscii = l.filter isAscii := fun _ => rfl
  have hfirst : ∀ {a : Byte}, ¬ a.val < 0x80 → ∀ l : Bytes,
      (a :: l).filter isAscii = l.filter isAscii :=
    fun ha _ => List.filter_cons_of_neg (by simpa [isAscii] using ha)
  have hnext : ∀ {b : Byte}, isContinuation b = true → ∀ l : Bytes,
      (b :: l).filter isAscii = l.filter isAscii :=
    fun hb _ => List.filter_cons_of_neg (by simp [isAscii_of_continuation hb])
  have hsecond : ∀ {a b : Byte}, (0xE0 ≤ a.val ∧ a.val ≤ 0xEF ∧ isSecondOfThree a b = true) ∨
      (0xF0 ≤ a.val ∧ a.val ≤ 0xF4 ∧ isSecondOfFour a b = true) → isContinuation b = true :=
    fun h => isContinuation_of_second (h.imp (fun h => h.2.2) fun h => h.2.2)
  fun_induction fromUtf8Lossy s with
  | case1 => rfl
  | case2 a rest ha ih => simp only [List.filter_cons, ih]
  | case3 a ha => exact (hfirst ha []).symm
  | case4 a ha b rest hb ih => rw [hfirst ha, hnext hb.2.2, hfirst ha, hnext hb.2.2, ih]
  | case5 a ha b _ hb => rw [hfirst ha, hnext (hsecond hb)]; rfl
  | case6 a ha b _ hb c rest _ ih => rw [hreplaced, ih, hfirst ha, hnext (hsecond hb)]
  | case7 a ha b _ hb c rest hc _ ih =>
    rw [Bool.not_eq_false] at hc
    simp only [hfirst ha, hnext (hsecond hb), hnext hc, ih]
  | case8 a ha b _ hb c hc _ =>
    rw [Bool.not_eq_false] at hc
    rw [hfirst ha, hnext (hsecond hb), hnext hc]
    rfl
  | case9 a ha b _ hb c hc _ d rest hd ih =>
    rw [Bool.not_eq_false] at hc
    rw [hreplaced, ih, hfirst ha, hnext (hsecond hb), hnext hc]
  | case10 a ha b _ hb c hc _ d rest hd ih =>
    rw [Bool.not_eq_false] at hc hd
    simp only [hfirst ha, hnext (hsecond hb), hnext hc, hnext hd, ih]
  | case11 a ha b rest _ _ ih => rw [hreplaced, ih, hfirst ha]

end Lib
end Shardscape
