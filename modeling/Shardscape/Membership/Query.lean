/-
# Query strings

`src/main.rs`: `percent_decode`, `url_query_pairs`.

`percent_decode` looks at bytes and slices the string: at a `%` with two more bytes it takes
`&s[i + 1..i + 3]`, which panics where the slice ends inside a character, and hands it to
`u8::from_str_radix`, which takes a plus sign.  So `%€` is a panic, and `%+f` is read as the byte
15 (`percent_decode_misreads`).  Everywhere else it reads what `percentScan` does, and an encoding
reads back as what it encodes (`percent_decode_exact_iff`).
-/

import Shardscape.Lib.Decimal
import Shardscape.Lib.Percent
import Shardscape.Lib.Utf8Chars

namespace Shardscape

open Lib

/-- The loop of `percent_decode`, from the bytes that are left: the bytes pushed.  `none` is the
panic of a slice that starts or ends inside a character. -/
def percentDecodeBytes : Str → Option Bytes
  | [] => some []
  | b :: rest =>
    if b = 37 then
      match rest with
      | hi :: lo :: tail =>
        if isCharBoundary (hi :: lo :: tail) && isCharBoundary tail then
          match parseUnsignedHex 8 [hi, lo] with
          | some byte => (percentDecodeBytes tail).map (Fin.ofNat 256 byte :: ·)
          | none => (percentDecodeBytes (hi :: lo :: tail)).map (b :: ·)
        else none
      | [c] => (percentDecodeBytes [c]).map (b :: ·)
      | [] => some [b]
    else (percentDecodeBytes rest).map ((if b = 43 then 32 else b) :: ·)

/-- `percent_decode`. -/
def percentDecode (s : Str) : Option Str := (percentDecodeBytes s).map fromUtf8Lossy

/-! ### One step of the loop -/

/-- The byte that two bytes after a `%` are read as. -/
def readPair (hi lo : Byte) : Option Byte :=
  if hi = 43 then (hexValue lo).map (Fin.ofNat 256 ·) else hexPair hi lo

/-- The parse of two bytes by radix 16 is `readPair`. -/
theorem map_parseUnsignedHex (hi lo : Byte) :
    (parseUnsignedHex 8 [hi, lo]).map (Fin.ofNat 256 ·) = readPair hi lo := by
  rw [parseUnsignedHex_pair, readPair, hexPair]
  split_ifs
  · rfl
  · simp only [Option.map_bind, Option.map_map, Function.comp_def]

/-- A byte that is no `%` is kept, but for `+`. -/
theorem percentDecodeBytes_cons {b : Byte} (hb : b ≠ 37) (rest : Str) :
    percentDecodeBytes (b :: rest) = (percentDecodeBytes rest).map (unplus b :: ·) := by
  rw [percentDecodeBytes.eq_def]
  simp only [if_neg hb, unplus]

/-- A `%` near the end is kept. -/
theorem percentDecodeBytes_short {rest : Str} (h : rest.length < 2) :
    percentDecodeBytes (37 :: rest) = (percentDecodeBytes rest).map (37 :: ·) := by
  match rest with
  | [] => rfl
  | [c] => rfl

/-- Another `%` is read with two bytes, if they end a character. -/
theorem percentDecodeBytes_percent {hi lo : Byte} {tail : Str}
    (hstart : isCharBoundary (hi :: lo :: tail) = true) :
    percentDecodeBytes (37 :: hi :: lo :: tail) =
      if isCharBoundary tail = false then none
      else match readPair hi lo with
        | some byte => (percentDecodeBytes tail).map (byte :: ·)
        | none => (percentDecodeBytes (hi :: lo :: tail)).map (37 :: ·) := by
  rw [percentDecodeBytes.eq_def]
  simp only [if_true, hstart, Bool.true_and, ← map_parseUnsignedHex]
  cases isCharBoundary tail with
  | false => rfl
  | true => cases parseUnsignedHex 8 [hi, lo] <;> rfl

/-! ### Exactness -/

/-- Where the loop reads what it should: two bytes after a `%` end at a boundary, and they are not
a plus sign and a digit. -/
def ReadsWell (s : Str) : Prop :=
  AtPercents (fun hi lo tail =>
    isCharBoundary tail = true ∧ ¬ (hi = 43 ∧ (hexValue lo).isSome = true)) s

/-- Two results with the same first byte. -/
theorem map_cons_eq_some_iff {x : Option Bytes} {b : Byte} {l : Bytes} :
    x.map (b :: ·) = some (b :: l) ↔ x = some l := by
  cases x <;> simp

/-- A digit after a plus sign is read as a byte, and no scan does that. -/
theorem ne_percent_of_hexValue {c : Byte} {n : ℕ} (h : hexValue c = some n) :
    (Fin.ofNat 256 n : Byte) ≠ 37 := by
  have hn := hexValue_lt h
  intro heq
  have hval := congrArg Fin.val heq
  rw [Fin.val_ofNat, Nat.mod_eq_of_lt (by omega)] at hval
  have h37 : (37 : Byte).val = 37 := rfl
  omega

/-- One `%` with two more bytes. -/
theorem percentDecodeBytes_percent_iff {hi lo : Byte} {tail : Str}
    (hstart : isCharBoundary (hi :: lo :: tail) = true)
    (ih : percentDecodeBytes (hi :: lo :: tail) = some (percentScan (hi :: lo :: tail)) ↔
      ReadsWell (hi :: lo :: tail))
    (ihtail : percentDecodeBytes tail = some (percentScan tail) ↔ ReadsWell tail) :
    percentDecodeBytes (37 :: hi :: lo :: tail) =
        some (percentScan (37 :: hi :: lo :: tail)) ↔ ReadsWell (37 :: hi :: lo :: tail) := by
  rw [percentDecodeBytes_percent hstart, percentScan_percent, ReadsWell, atPercents_percent,
    ← ReadsWell]
  cases hboundary : isCharBoundary tail with
  | false => simp
  | true =>
    rw [if_neg (by decide)]
    by_cases hplus : hi = 43
    · have hnone : hexPair hi lo = none := by
        rw [hplus]
        simp [hexPair, hexValue]
      rw [hnone, readPair, if_pos hplus]
      cases hlo : hexValue lo with
      | some l =>
        refine iff_of_false ?_ fun h => h.1.2 ⟨hplus, rfl⟩
        intro h
        obtain ⟨out, -, hout⟩ := Option.map_eq_some_iff.1 h
        exact ne_percent_of_hexValue hlo (List.cons.inj hout).1
      | none =>
        simp only [Option.map_none, map_cons_eq_some_iff, ih]
        simp
    · rw [readPair, if_neg hplus]
      cases hpair : hexPair hi lo with
      | some byte =>
        obtain ⟨hhi, hlo⟩ := ne_percent_of_hexPair hpair
        have hdigits : ReadsWell (hi :: lo :: tail) ↔ ReadsWell tail :=
          (atPercents_cons hhi).trans (atPercents_cons hlo)
        simp only [map_cons_eq_some_iff, ihtail, hdigits]
        simp [hplus]
      | none =>
        simp only [map_cons_eq_some_iff, ih]
        simp [hplus]

/-- **What the loop reads**, where every slice starts at a boundary. -/
theorem percentDecodeBytes_eq_scan_iff : ∀ {s : Str},
    (∀ rest, 37 :: rest <:+ s → isCharBoundary rest = true) →
      (percentDecodeBytes s = some (percentScan s) ↔ ReadsWell s)
  | [], _ => iff_of_true rfl atPercents_nil
  | b :: rest, hstart => by
    have hrest : ∀ r, 37 :: r <:+ rest → isCharBoundary r = true :=
      fun r hr => hstart r (hr.trans (List.suffix_cons _ _))
    have ih := percentDecodeBytes_eq_scan_iff hrest
    by_cases hb : b = 37
    · subst hb
      match rest with
      | [] => exact iff_of_true rfl ((atPercents_short (by simp)).2 atPercents_nil)
      | [c] =>
        rw [percentDecodeBytes_short (by simp), percentScan_short (by simp),
          map_cons_eq_some_iff, ih]
        exact (atPercents_short (by simp)).symm
      | hi :: lo :: tail =>
        have ihtail := percentDecodeBytes_eq_scan_iff (s := tail) fun r hr =>
          hrest r (hr.trans ((List.suffix_cons _ _).trans (List.suffix_cons _ _)))
        exact percentDecodeBytes_percent_iff (hstart _ List.suffix_rfl) ih ihtail
    · rw [percentDecodeBytes_cons hb, percentScan_cons hb, map_cons_eq_some_iff, ih]
      exact (atPercents_cons hb).symm

/-- An encoding is read well. -/
theorem readsWell_of_encodes {t s : Str} (hs : validUtf8 s = true) (h : PercentEncodes t s) :
    ReadsWell s := by
  intro hi lo tail hsuffix
  obtain ⟨b, hpair⟩ := h.atPercents hi lo tail hsuffix
  obtain ⟨hhi, hlo⟩ := hexPair_eq_some hpair
  refine ⟨?_, fun hplus => (hexValue_isSome_bounds hhi).2.2 hplus.1⟩
  refine isCharBoundary_of_suffix hs (hexValue_isSome_bounds hlo).1 (a := lo) ?_
  exact ((List.suffix_cons _ _).trans (List.suffix_cons _ _)).trans hsuffix

/-- **What `percent_decode` reads.**  On a string it returns, and the bytes before the lossy
conversion are those of the scan, exactly if every `%` is read well; and an encoding of a string
reads back as the string. -/
theorem percent_decode_exact_iff {s : Str} (hs : validUtf8 s = true) :
    (percentDecodeBytes s = some (percentScan s) ↔ ReadsWell s) ∧
      ∀ t, validUtf8 t = true → PercentEncodes t s → percentDecode s = some t := by
  have hexact : percentDecodeBytes s = some (percentScan s) ↔ ReadsWell s :=
    percentDecodeBytes_eq_scan_iff fun rest => isCharBoundary_of_suffix hs (by decide)
  refine ⟨hexact, fun t ht hencodes => ?_⟩
  rw [percentDecode, hexact.2 (readsWell_of_encodes hs hencodes), hencodes.scan_eq, Option.map_some,
    fromUtf8Lossy_of_validUtf8 ht]

/-- An encoding of `a A` with a plus sign and an escape. -/
theorem percent_decode_exact_plus :
    validUtf8 (ascii "a+%41".toList) = true ∧
      percentDecode (ascii "a+%41".toList) = some (ascii "a A".toList) := by
  have hs : validUtf8 (ascii "a+%41".toList) = true := by decide +kernel
  have hencodes : PercentEncodes (ascii "a A".toList) (ascii "a+%41".toList) :=
    .plain (by decide) (by decide) (.plus (.escaped rfl .nil))
  exact ⟨hs, (percent_decode_exact_iff hs).2 _ (by decide +kernel) hencodes⟩

/-- **A string that is not read**, and one that is read as another: `%€` is cut inside a character,
and the digits of `%+f` are taken with their sign. -/
theorem percent_decode_misreads :
    (validUtf8 [37, 0xE2, 0x82, 0xAC] = true ∧ percentDecode [37, 0xE2, 0x82, 0xAC] = none) ∧
      percentDecodeBytes (ascii "%+f".toList) = some [15] ∧
      percentScan (ascii "%+f".toList) = ascii "% f".toList := by
  refine ⟨⟨?_, ?_⟩, ?_, ?_⟩ <;> decide +kernel

/-! ### Texts that read as themselves -/

/-- What a `%` with two more bytes comes to, if it is no panic. -/
theorem percentDecodeBytes_percent_some {hi lo : Byte} {tail out : Str}
    (h : percentDecodeBytes (37 :: hi :: lo :: tail) = some out) :
    isCharBoundary tail = true ∧
      ((∃ byte out', readPair hi lo = some byte ∧ percentDecodeBytes tail = some out' ∧
          out = byte :: out') ∨
        ∃ out', readPair hi lo = none ∧ percentDecodeBytes (hi :: lo :: tail) = some out' ∧
          out = 37 :: out') := by
  by_cases hstart : isCharBoundary (hi :: lo :: tail) = true
  · rw [percentDecodeBytes_percent hstart] at h
    split_ifs at h with htail
    refine ⟨by simpa using htail, ?_⟩
    cases hpair : readPair hi lo with
    | some byte =>
      rw [hpair] at h
      obtain ⟨out', hout, rfl⟩ := Option.map_eq_some_iff.1 h
      exact Or.inl ⟨byte, out', rfl, hout, rfl⟩
    | none =>
      rw [hpair] at h
      obtain ⟨out', hout, rfl⟩ := Option.map_eq_some_iff.1 h
      exact Or.inr ⟨out', rfl, hout, rfl⟩
  · rw [percentDecodeBytes.eq_def] at h
    simp [hstart] at h

/-- Only ASCII bytes make a pair. -/
theorem isAscii_of_readPair {hi lo byte : Byte} (h : readPair hi lo = some byte) :
    isAscii hi = true ∧ isAscii lo = true := by
  have hdigit : ∀ {c : Byte}, (hexValue c).isSome = true → isAscii c = true :=
    fun hc => decide_eq_true (hexValue_isSome_bounds hc).1
  unfold readPair at h
  split_ifs at h with hplus
  · obtain ⟨l, hlo, -⟩ := Option.map_eq_some_iff.1 h
    exact ⟨by rw [hplus]; rfl, hdigit (by rw [hlo]; rfl)⟩
  · obtain ⟨hhi, hlo⟩ := hexPair_eq_some h
    exact ⟨hdigit hhi, hdigit hlo⟩

/-- `+` and the blank are both ASCII. -/
theorem isAscii_unplus (b : Byte) : isAscii (unplus b) = isAscii b := by
  unfold unplus
  split_ifs with hb
  · rw [hb]
    rfl
  · rfl

/-- No escape is read, nor is there a panic. -/
def NoEscape (s : Str) : Prop :=
  AtPercents (fun hi lo tail => isCharBoundary tail = true ∧ readPair hi lo = none) s

/-- Decoding does not add ASCII bytes, and if it keeps their number it reads no escape. -/
structure KeepsAscii (s out : Str) : Prop where
  le : out.countP isAscii ≤ s.countP isAscii
  eq : out.countP isAscii = s.countP isAscii → out = s.map unplus ∧ NoEscape s

/-- A byte that is pushed as it is, or as a space. -/
theorem KeepsAscii.push {b : Byte} {rest out : Str} (h : KeepsAscii rest out)
    (hno : NoEscape rest → NoEscape (b :: rest)) : KeepsAscii (b :: rest) (unplus b :: out) := by
  have hle := h.le
  have hcount : ∀ l l' : Str, (unplus b :: l).countP isAscii = (b :: l').countP isAscii ↔
      l.countP isAscii = l'.countP isAscii := by
    intro l l'
    rw [List.countP_cons, List.countP_cons, isAscii_unplus]
    omega
  constructor
  · rw [List.countP_cons, List.countP_cons, isAscii_unplus]
    omega
  · intro hsame
    obtain ⟨rfl, hrest⟩ := h.eq ((hcount _ _).1 hsame)
    exact ⟨rfl, hno hrest⟩

/-- An escape: one byte for three that are ASCII. -/
theorem KeepsAscii.escape {hi lo byte : Byte} {tail out : Str} (h : KeepsAscii tail out)
    (hpair : readPair hi lo = some byte) : KeepsAscii (37 :: hi :: lo :: tail) (byte :: out) := by
  obtain ⟨hhi, hlo⟩ := isAscii_of_readPair hpair
  have hle := h.le
  have hthree : (37 :: hi :: lo :: tail).countP isAscii = tail.countP isAscii + 3 := by
    simp only [List.countP_cons, hhi, hlo, if_true]
    rfl
  have hone : (byte :: out).countP isAscii ≤ out.countP isAscii + 1 := by
    rw [List.countP_cons]
    split_ifs <;> omega
  exact ⟨by omega, fun hsame => by omega⟩

/-- To decode never adds ASCII bytes, by induction along the loop. -/
theorem keepsAscii_percentDecodeBytes : ∀ {s out : Str}, percentDecodeBytes s = some out →
    KeepsAscii s out
  | [], out, h => by
    cases h
    exact ⟨le_rfl, fun _ => ⟨rfl, atPercents_nil⟩⟩
  | b :: rest, out, h => by
    by_cases hb : b = 37
    · subst hb
      match rest, h with
      | [], h =>
        cases h
        exact (keepsAscii_percentDecodeBytes rfl).push (atPercents_short (by simp)).2
      | [c], h =>
        rw [percentDecodeBytes_short (by simp)] at h
        obtain ⟨out', hout, rfl⟩ := Option.map_eq_some_iff.1 h
        exact (keepsAscii_percentDecodeBytes hout).push (atPercents_short (by simp)).2
      | hi :: lo :: tail, h =>
        obtain ⟨htail, ⟨byte, out', hpair, hout, rfl⟩ | ⟨out', hpair, hout, rfl⟩⟩ :=
          percentDecodeBytes_percent_some h
        · exact (keepsAscii_percentDecodeBytes hout).escape hpair
        · exact (keepsAscii_percentDecodeBytes hout).push fun hrest =>
            atPercents_percent.2 ⟨⟨htail, hpair⟩, hrest⟩
    · rw [percentDecodeBytes_cons hb] at h
      obtain ⟨out', hout, rfl⟩ := Option.map_eq_some_iff.1 h
      exact (keepsAscii_percentDecodeBytes hout).push (atPercents_cons hb).2

/-- What is decoded has no more ASCII bytes than the text. -/
theorem countP_percentDecode {s t : Str} (h : percentDecode s = some t) :
    t.countP isAscii ≤ s.countP isAscii := by
  obtain ⟨out, hout, rfl⟩ := Option.map_eq_some_iff.1 h
  rw [List.countP_eq_length_filter, filter_isAscii_fromUtf8Lossy, ← List.countP_eq_length_filter]
  exact (keepsAscii_percentDecodeBytes hout).le

/-- A text that has nothing to decode: no `+`, and after a `%` no two digits, nor two bytes that
end inside a character. -/
def Untouched (s : Str) : Prop :=
  43 ∉ s ∧ AtPercents (fun hi lo tail => isCharBoundary tail = true ∧ hexPair hi lo = none) s

/-- **A text reads as itself** exactly if it has nothing to decode. -/
theorem percentDecode_eq_self_iff {s : Str} (hs : validUtf8 s = true) :
    percentDecode s = some s ↔ Untouched s := by
  constructor
  · intro h
    obtain ⟨out, hout, hlossy⟩ := Option.map_eq_some_iff.1 h
    have hfilter : s.filter isAscii = out.filter isAscii := by
      rw [← hlossy, filter_isAscii_fromUtf8Lossy]
    have hcount : out.countP isAscii = s.countP isAscii := by
      rw [List.countP_eq_length_filter, List.countP_eq_length_filter, hfilter]
    obtain ⟨rfl, hno⟩ := (keepsAscii_percentDecodeBytes hout).eq hcount
    have hplus : 43 ∉ s := by
      intro hmem
      have hascii : 43 ∈ s.filter isAscii := List.mem_filter.2 ⟨hmem, rfl⟩
      rw [hfilter] at hascii
      obtain ⟨b, -, hb⟩ := List.mem_map.1 (List.mem_filter.1 hascii).1
      unfold unplus at hb
      split_ifs at hb with hb'
      · exact absurd hb (by decide)
      · exact hb' hb
    refine ⟨hplus, hno.mono fun hi lo tail hsuffix hread => ⟨hread.1, ?_⟩⟩
    have hne : hi ≠ 43 := by
      rintro rfl
      exact hplus (hsuffix.subset (by simp))
    rw [← hread.2, readPair, if_neg hne]
  · rintro ⟨hplus, hat⟩
    have hwell : ReadsWell s := hat.mono fun hi lo tail hsuffix hpair => by
      refine ⟨hpair.1, fun hsign => hplus (hsuffix.subset ?_)⟩
      rw [hsign.1]
      simp
    have hscan := percentScan_eq_self hplus (hat.mono fun _ _ _ _ hpair => hpair.2)
    have hbytes := (percentDecodeBytes_eq_scan_iff fun rest =>
      isCharBoundary_of_suffix hs (by decide)).2 hwell
    rw [percentDecode, hbytes, hscan, Option.map_some, fromUtf8Lossy_of_validUtf8 hs]

end Shardscape
