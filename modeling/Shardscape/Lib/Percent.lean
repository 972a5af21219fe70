/-
# Percent-encoding

A text in which `%` and two hexadecimal digits stand for a byte, and `+` for a space.
`percentScan` reads it from left to right; a `%` without two digits stands for itself.

`PercentEncodes t e` says that `e` is an encoding of `t`: each byte may be escaped, a space may be
a `+`, and every byte but `%` and `+` may stand for itself.  An encoding reads back as what it
encodes (`PercentEncodes.scan_eq`).
-/

import Shardscape.Lib.Bytes

namespace Shardscape
namespace Lib

/-- The byte of two hexadecimal digits. -/
def hexPair (hi lo : Byte) : Option Byte :=
  (hexValue hi).bind fun h => (hexValue lo).map fun l => Fin.ofNat 256 (16 * h + l)

/-- A byte that is not escaped. -/
def unplus (b : Byte) : Byte := if b = 43 then 32 else b

/-- The bytes a percent-encoded text stands for. -/
def percentScan : Bytes → Bytes
  | [] => []
  | b :: rest =>
    if b = 37 then
      match rest with
      | hi :: lo :: tail =>
        match hexPair hi lo with
        | some byte => byte :: percentScan tail
        | none => b :: percentScan (hi :: lo :: tail)
      | [c] => b :: percentScan [c]
      | [] => [b]
    else unplus b :: percentScan rest

example : percentScan (ascii "a+b%2Bc%".toList) = ascii "a b+c%".toList := by decide +kernel

/-- A byte other than `%` in front. -/
theorem percentScan_cons {b : Byte} (hb : b ≠ 37) (rest : Bytes) :
    percentScan (b :: rest) = unplus b :: percentScan rest := by
  rw [percentScan.eq_def]
  simp only [if_neg hb]

/-- A `%` with fewer than two bytes after it. -/
theorem percentScan_short {rest : Bytes} (h : rest.length < 2) :
    percentScan (37 :: rest) = 37 :: percentScan rest := by
  match rest with
  | [] => rfl
  | [c] => rfl

/-- A `%` with two more bytes. -/
theorem percentScan_percent (hi lo : Byte) (tail : Bytes) :
    percentScan (37 :: hi :: lo :: tail) = match hexPair hi lo with
      | some byte => byte :: percentScan tail
      | none => 37 :: percentScan (hi :: lo :: tail) := by
  rw [percentScan.eq_def]
  simp only [if_true]

/-! ### What follows a `%` -/

/-- At every `%` with two more bytes, these and what comes after them are as they should be. -/
def AtPercents (P : Byte → Byte → Bytes → Prop) (s : Bytes) : Prop :=
  ∀ hi lo tail, 37 :: hi :: lo :: tail <:+ s → P hi lo tail

section AtPercents

variable {P : Byte → Byte → Bytes → Prop}

/-- There is no `%` in the empty text. -/
theorem atPercents_nil : AtPercents P [] := fun _ _ _ h => absurd (List.suffix_nil.1 h) (by simp)

/-- A byte that is no `%` does not count. -/
theorem atPercents_cons {b : Byte} (hb : b ≠ 37) {rest : Bytes} :
    AtPercents P (b :: rest) ↔ AtPercents P rest := by
  unfold AtPercents
  simp only [List.suffix_cons_iff, List.cons.injEq, hb.symm, false_and, false_or]

/-- A `%` with less than two bytes after it does not pass. -/
theorem atPercents_short {rest : Bytes} (h : rest.length < 2) :
    AtPercents P (37 :: rest) ↔ AtPercents P rest := by
  have hno : ∀ hi lo tail, ¬ hi :: lo :: tail = rest := by
    rintro hi lo tail rfl
    simp only [List.length_cons] at h
    omega
  unfold AtPercents
  simp only [List.suffix_cons_iff, List.cons.injEq, hno, and_false, false_or]

/-- A `%` with two bytes after it passes if they do. -/
theorem atPercents_percent {hi lo : Byte} {tail : Bytes} :
    AtPercents P (37 :: hi :: lo :: tail) ↔ P hi lo tail ∧ AtPercents P (hi :: lo :: tail) := by
  constructor
  · intro h
    exact ⟨h hi lo tail List.suffix_rfl, fun _ _ _ hs => h _ _ _ (hs.trans (List.suffix_cons _ _))⟩
  · rintro ⟨hfirst, hrest⟩ hi' lo' tail' hs
    rcases List.suffix_cons_iff.1 hs with heq | hs
    · simp only [List.cons.injEq, true_and] at heq
      obtain ⟨rfl, rfl, rfl⟩ := heq
      exact hfirst
    · exact hrest _ _ _ hs

end AtPercents

/-- A weaker condition, on what really follows a `%` in the text. -/
theorem AtPercents.mono {P Q : Byte → Byte → Bytes → Prop} {s : Bytes} (h : AtPercents P s)
    (hPQ : ∀ hi lo tail, 37 :: hi :: lo :: tail <:+ s → P hi lo tail → Q hi lo tail) :
    AtPercents Q s :=
  fun hi lo tail hs => hPQ hi lo tail hs (h hi lo tail hs)

/-- A text without `+` and without escapes stands for itself. -/
theorem percentScan_eq_self : ∀ {s : Bytes}, 43 ∉ s →
    AtPercents (fun hi lo _ => hexPair hi lo = none) s → percentScan s = s
  | [], _, _ => rfl
  | b :: rest, hplus, h => by
    obtain ⟨hb, hrest⟩ := not_or.1 (List.mem_cons.not.1 hplus)
    by_cases hpercent : b = 37
    · subst hpercent
      match rest, h, hrest with
      | [], _, _ => rfl
      | [c], h, hrest =>
        rw [percentScan_short (by simp),
          percentScan_eq_self hrest ((atPercents_short (by simp)).1 h)]
      | hi :: lo :: tail, h, hrest =>
        obtain ⟨hpair, h⟩ := atPercents_percent.1 h
        rw [percentScan_percent, hpair]
        exact congrArg _ (percentScan_eq_self hrest h)
    · rw [percentScan_cons hpercent, unplus, if_neg (Ne.symm hb),
        percentScan_eq_self hrest ((atPercents_cons hpercent).1 h)]

/-- Digits are ASCII characters, and neither `%` nor `+`. -/
theorem hexValue_isSome_bounds {c : Byte} (h : (hexValue c).isSome = true) :
    c.val < 0x80 ∧ c ≠ 37 ∧ c ≠ 43 := by
  have hc : 48 ≤ c.val ∧ c.val ≤ 102 := by
    unfold hexValue at h
    split_ifs at h with h1 h2 h3
    · omega
    · omega
    · omega
    · exact absurd h (by decide)
  refine ⟨by omega, ?_, ?_⟩ <;>
    · rintro rfl
      exact absurd hc.1 (by decide)

/-- Only two digits are a pair. -/
theorem hexPair_eq_some {hi lo b : Byte} (h : hexPair hi lo = some b) :
    (hexValue hi).isSome = true ∧ (hexValue lo).isSome = true := by
  obtain ⟨h', hhi, hlo⟩ := Option.bind_eq_some_iff.1 h
  obtain ⟨l', hlo, -⟩ := Option.map_eq_some_iff.1 hlo
  rw [hhi, hlo]
  exact ⟨rfl, rfl⟩

/-- So none of the two is a `%`. -/
theorem ne_percent_of_hexPair {hi lo b : Byte} (h : hexPair hi lo = some b) : hi ≠ 37 ∧ lo ≠ 37 :=
  ⟨(hexValue_isSome_bounds (hexPair_eq_some h).1).2.1,
    (hexValue_isSome_bounds (hexPair_eq_some h).2).2.1⟩

/-! ### Encodings -/

/-- `e` is an encoding of `t`. -/
inductive PercentEncodes : Bytes → Bytes → Prop
  | nil : PercentEncodes [] []
  | plain {b : Byte} {t e : Bytes} (hpercent : b ≠ 37) (hplus : b ≠ 43) (h : PercentEncodes t e) :
      PercentEncodes (b :: t) (b :: e)
  | plus {t e : Bytes} (h : PercentEncodes t e) : PercentEncodes (32 :: t) (43 :: e)
  | escaped {b hi lo : Byte} {t e : Bytes} (hpair : hexPair hi lo = some b)
      (h : PercentEncodes t e) : PercentEncodes (b :: t) (37 :: hi :: lo :: e)

/-- **An encoding reads back** as what it encodes. -/
theorem PercentEncodes.scan_eq {t e : Bytes} (h : PercentEncodes t e) : percentScan e = t := by
  induction h with
  | nil => rfl
  | plain hpercent hplus _ ih => rw [percentScan_cons hpercent, ih, unplus, if_neg hplus]
  | plus _ ih => rw [percentScan_cons (by decide), ih]; rfl
  | escaped hpair _ ih =>
    rw [percentScan_percent, hpair]
    exact congrArg _ ih

/-- In an encoding a `%` is followed by two digits. -/
theorem PercentEncodes.atPercents {t e : Bytes} (h : PercentEncodes t e) :
    AtPercents (fun hi lo _ => ∃ b, hexPair hi lo = some b) e := by
  induction h with
  | nil => exact atPercents_nil
  | plain hpercent _ _ ih => exact (atPercents_cons hpercent).2 ih
  | plus _ ih => exact (atPercents_cons (by decide)).2 ih
  | escaped hpair _ ih =>
    obtain ⟨hhi, hlo⟩ := ne_percent_of_hexPair hpair
    exact atPercents_percent.2 ⟨⟨_, hpair⟩, (atPercents_cons hhi).2 ((atPercents_cons hlo).2 ih)⟩

end Lib
end Shardscape
