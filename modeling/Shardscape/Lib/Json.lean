/-
# JSON texts

The trees of JSON, and what a development over JSON texts asks of the library that writes and reads
them (`JsonCodec`): a tree is read off its text, if its strings pass the check of the reader, its
integers fit and its nesting is within the bound (`Json.Readable`).

A reader of text that is known to be UTF-8 takes any strings, a reader of bytes from elsewhere only
those that are UTF-8; so the check (`ok`) is an argument of the reader.  A number with a fraction
or an exponent, or outside the 64 bits, is a floating point number to such a library, and there are
none in the trees here.

The codec at the end (`JsonCodec.compact`) is that of the common libraries.  A string is written
with the short escapes for the quote, the backslash, backspace, tab, line feed, form feed and
carriage return, with `\u00xx` for the other control characters, and every other byte as it is.
The reader takes white space between tokens, every escape of the standard with surrogates in
pairs, and integers of 64 bits, signed or not; it refuses floating point numbers.
-/

import Shardscape.Lib.Decimal

namespace Shardscape
namespace Lib

/-- A JSON value; the members of an object are in the order of the text, and may repeat. -/
inductive Json where
  | null
  | bool (b : Bool)
  | int (n : ℤ)
  | str (s : Str)
  | arr (vs : List Json)
  | obj (ms : List (Str × Json))

namespace Json

/-- How deep arrays and objects may be nested in a text that is read. -/
def recursionLimit : ℕ := 128

/-- Values whose text is read with a bound `depth` on the nesting. -/
inductive Readable (ok : Str → Bool) : ℕ → Json → Prop
  | null {depth : ℕ} : Readable ok (depth + 1) .null
  | bool {depth : ℕ} (b : Bool) : Readable ok (depth + 1) (.bool b)
  | int {depth : ℕ} {n : ℤ} (low : -2 ^ 63 ≤ n) (high : n < 2 ^ 64) :
      Readable ok (depth + 1) (.int n)
  | str {depth : ℕ} {s : Str} (valid : ok s = true) : Readable ok (depth + 1) (.str s)
  | arr {depth : ℕ} {vs : List Json} (elems : ∀ v ∈ vs, Readable ok (depth + 1) v) :
      Readable ok (depth + 2) (.arr vs)
  | obj {depth : ℕ} {ms : List (Str × Json)} (keys : ∀ m ∈ ms, ok m.1 = true)
      (members : ∀ m ∈ ms, Readable ok (depth + 1) m.2) : Readable ok (depth + 2) (.obj ms)

/-- A weaker check of the strings. -/
theorem Readable.imp {ok ok' : Str → Bool} (himp : ∀ s, ok s = true → ok' s = true) {depth : ℕ}
    {v : Json} (h : Readable ok depth v) : Readable ok' depth v := by
  induction h with
  | null => exact .null
  | bool b => exact .bool b
  | int low high => exact .int low high
  | str valid => exact .str (himp _ valid)
  | arr _ ih => exact .arr ih
  | obj keys _ ih => exact .obj (fun m hm => himp _ (keys m hm)) ih

/-- There is more room for the nesting. -/
theorem Readable.mono {ok : Str → Bool} {depth depth' : ℕ} {v : Json} (h : Readable ok depth v)
    (hle : depth ≤ depth') : Readable ok depth' v := by
  induction h generalizing depth' with
  | null | bool | int | str =>
    obtain ⟨d, rfl⟩ : ∃ d, depth' = d + 1 := ⟨depth' - 1, by omega⟩
    constructor <;> assumption
  | arr _ ih =>
    obtain ⟨d, rfl⟩ : ∃ d, depth' = d + 2 := ⟨depth' - 2, by omega⟩
    exact .arr fun v hv => ih v hv (by omega)
  | obj keys _ ih =>
    obtain ⟨d, rfl⟩ : ∃ d, depth' = d + 2 := ⟨depth' - 2, by omega⟩
    exact .obj keys fun m hm => ih m hm (by omega)

end Json

/-- A writer and a reader of JSON texts.  Of the library that has them one thing is asked: a tree
that is within the bounds of the reader is read off its text as it is. -/
structure JsonCodec where
  /-- The text of a tree. -/
  print : Json → Str
  /-- The tree of a text whose strings pass the check. -/
  parse : (Str → Bool) → Str → Option Json
  parse_print : ∀ {ok : Str → Bool} {v : Json},
    Json.Readable ok Json.recursionLimit v → parse ok (print v) = some v

/-! ### Writing -/

namespace Json

/-- A byte inside a string. -/
def escape (b : Byte) : Str :=
  if b = 34 then [92, 34]
  else if b = 92 then [92, 92]
  else if b = 8 then [92, 98]
  else if b = 9 then [92, 116]
  else if b = 10 then [92, 110]
  else if b = 12 then [92, 102]
  else if b = 13 then [92, 114]
  else if b.val < 32 then [92, 117, 48, 48, hexDigit (b.val / 16), hexDigit (b.val % 16)]
  else [b]

/-- A string between its quotes. -/
def quote (s : Str) : Str := 34 :: (s.flatMap escape ++ [34])

/-- `null`. -/
def nullWord : Str := [110, 117, 108, 108]

/-- `true`. -/
def trueWord : Str := [116, 114, 117, 101]

/-- `false`. -/
def falseWord : Str := [102, 97, 108, 115, 101]

/-- Texts after one, each behind a comma, and the byte that closes. -/
def more (close : Byte) : List Str → Str
  | [] => [close]
  | t :: ts => 44 :: (t ++ more close ts)

/-- Texts with commas between them, and the byte that closes. -/
def items (close : Byte) : List Str → Str
  | [] => [close]
  | t :: ts => t ++ more close ts

mutual

/-- The text of a value, without white space. -/
def print : Json → Str
  | .null => nullWord
  | .bool b => if b then trueWord else falseWord
  | .int n => intText n
  | .str s => quote s
  | .arr vs => 91 :: items 93 (printAll vs)
  | .obj ms => 123 :: items 125 (printMembers ms)

/-- The texts of the elements of an array. -/
def printAll : List Json → List Str
  | [] => []
  | v :: vs => print v :: printAll vs

/-- The texts of the members of an object. -/
def printMembers : List (Str × Json) → List Str
  | [] => []
  | m :: ms => printMember m :: printMembers ms

/-- A member of an object. -/
def printMember : Str × Json → Str
  | (k, v) => quote k ++ 58 :: print v

end

/-! ### Reading -/

/-- White space. -/
def isSpace (b : Byte) : Bool := b = 32 || b = 9 || b = 10 || b = 13

/-- What follows the white space. -/
def skip (s : Str) : Str := s.dropWhile isSpace

/-- What follows a fixed word. -/
def word : Str → Str → Option Str
  | [], s => some s
  | _ :: _, [] => none
  | c :: cs, b :: s => if b = c then word cs s else none

/-- The number of four hexadecimal digits. -/
def hexFour : Str → Option (ℕ × Str)
  | a :: b :: c :: d :: rest => (hexNumber [a, b, c, d]).map fun n => (n, rest)
  | _ => none

/-- The UTF-8 bytes of a code point. -/
def encodeUtf8 (n : ℕ) : Str :=
  if n < 0x80 then [Fin.ofNat 256 n]
  else if n < 0x800 then [Fin.ofNat 256 (0xC0 + n / 64), Fin.ofNat 256 (0x80 + n % 64)]
  else if n < 0x10000 then
    [Fin.ofNat 256 (0xE0 + n / 4096), Fin.ofNat 256 (0x80 + n / 64 % 64),
      Fin.ofNat 256 (0x80 + n % 64)]
  else
    [Fin.ofNat 256 (0xF0 + n / 262144), Fin.ofNat 256 (0x80 + n / 4096 % 64),
      Fin.ofNat 256 (0x80 + n / 64 % 64), Fin.ofNat 256 (0x80 + n % 64)]

/-- What follows a leading surrogate: a trailing one, and the two are one code point. -/
def trailing (high : ℕ) : Str → Option (Str × Str)
  | 92 :: 117 :: rest => do
    let (low, rest) ← hexFour rest
    if 0xDC00 ≤ low ∧ low ≤ 0xDFFF then
      some (encodeUtf8 (0x10000 + (high - 0xD800) * 0x400 + (low - 0xDC00)), rest)
    else none
  | _ => none

/-- What follows `\u`: the bytes it stands for, and the rest. -/
def unicodeEscape (s : Str) : Option (Str × Str) := do
  let (n, rest) ← hexFour s
  if 0xDC00 ≤ n ∧ n ≤ 0xDFFF then none
  else if 0xD800 ≤ n ∧ n ≤ 0xDBFF then trailing n rest
  else some (encodeUtf8 n, rest)

/-- What follows a backslash: the bytes it stands for, and the rest. -/
def readEscape : Str → Option (Str × Str)
  | [] => none
  | c :: rest =>
    if c = 34 ∨ c = 92 ∨ c = 47 then some ([c], rest)
    else if c = 98 then some ([8], rest)
    else if c = 102 then some ([12], rest)
    else if c = 110 then some ([10], rest)
    else if c = 114 then some ([13], rest)
    else if c = 116 then some ([9], rest)
    else if c = 117 then unicodeEscape rest
    else none

/-- The string after its opening quote, in at most `fuel` steps. -/
def scan : ℕ → Str → Option (Str × Str)
  | 0, _ => none
  | _ + 1, [] => none
  | fuel + 1, b :: rest =>
    if b = 34 then some ([], rest)
    else if b = 92 then do
      let (cs, rest) ← readEscape rest
      let (s, rest) ← scan fuel rest
      return (cs ++ s, rest)
    else if b.val < 32 then none
    else (scan fuel rest).map fun p => (b :: p.1, p.2)

/-- The string after its opening quote; every step takes a byte. -/
def readString (ok : Str → Bool) (s : Str) : Option (Str × Str) :=
  (scan s.length s).filter fun p => ok p.1

/-- The bytes of an integer. -/
def isIntByte (b : Byte) : Bool := b = 45 || isDecimalDigit b

/-- Whether a number goes on with a fraction or an exponent, and is a float. -/
def isFloatMark (b : Byte) : Bool := b = 46 || b = 69 || b = 101

/-- The integer at the beginning of a text, written as it is printed: no zero before another digit,
and no negative zero, which is a float. -/
def readInt (s : Str) : Option (ℤ × Str) := do
  let digits := s.takeWhile isIntByte
  let rest := s.dropWhile isIntByte
  let n ← parseSigned 65 digits
  if intText n = digits ∧ -2 ^ 63 ≤ n ∧ rest.head?.all (!isFloatMark ·) then some (n, rest)
  else none

/-- The items after one, at most `fuel` of them, and what follows the byte that closes. -/
def readMore {α : Type} (close : Byte) (item : Str → Option (α × Str)) :
    ℕ → Str → Option (List α × Str)
  | 0, _ => none
  | fuel + 1, s =>
    match skip s with
    | [] => none
    | c :: rest =>
      if c = close then some ([], rest)
      else if c = 44 then do
        let (a, rest) ← item rest
        let (l, rest) ← readMore close item fuel rest
        return (a :: l, rest)
      else none

/-- The items between commas, and what follows the byte that closes. -/
def readItems {α : Type} (close : Byte) (item : Str → Option (α × Str)) (s : Str) :
    Option (List α × Str) :=
  if (skip s).head? = some close then some ([], (skip s).tail)
  else do
    let (a, rest) ← item s
    let (l, rest) ← readMore close item rest.length rest
    return (a :: l, rest)

/-- A member of an object, its value by `value`. -/
def readMember (ok : Str → Bool) (value : Str → Option (Json × Str)) (s : Str) :
    Option ((Str × Json) × Str) := do
  let rest ← word [34] (skip s)
  let (k, rest) ← readString ok rest
  let rest ← word [58] (skip rest)
  let (v, rest) ← value rest
  return ((k, v), rest)

/-- A value, and what follows it.  `depth` is what is left of the bound on the nesting: an array
or an object takes one, and there has to be one left after it. -/
def readValue (ok : Str → Bool) : ℕ → Str → Option (Json × Str)
  | 0, _ => none
  | depth + 1, s =>
    match skip s with
    | [] => none
    | c :: rest =>
      if c = 110 then (word nullWord (c :: rest)).map fun r => (.null, r)
      else if c = 116 then (word trueWord (c :: rest)).map fun r => (.bool true, r)
      else if c = 102 then (word falseWord (c :: rest)).map fun r => (.bool false, r)
      else if c = 34 then (readString ok rest).map fun p => (.str p.1, p.2)
      else if c = 91 then
        if depth = 0 then none
        else (readItems 93 (readValue ok depth) rest).map fun p => (.arr p.1, p.2)
      else if c = 123 then
        if depth = 0 then none
        else (readItems 125 (readMember ok (readValue ok depth)) rest).map fun p => (.obj p.1, p.2)
      else (readInt (c :: rest)).map fun p => (.int p.1, p.2)

/-- The value of a text: one value, and nothing after it but white space. -/
def parse (ok : Str → Bool) (s : Str) : Option Json := do
  let (v, rest) ← readValue ok recursionLimit s
  if skip rest = [] then some v else none

/-! ### Strings read back -/

/-- The four digits of a control character. -/
theorem hexFour_control {n : ℕ} (hn : n < 256) (rest : Str) :
    hexFour (48 :: 48 :: hexDigit (n / 16) :: hexDigit (n % 16) :: rest) = some (n, rest) := by
  have hzero : hexValue 48 = some 0 := rfl
  have hhigh : hexValue (hexDigit (n / 16)) = some (n / 16) := hexValue_hexDigit (by omega)
  have hlow : hexValue (hexDigit (n % 16)) = some (n % 16) := hexValue_hexDigit (by omega)
  simp only [hexFour, hexNumber, hexFrom, hzero, hhigh, hlow, Option.map_some, Option.some.injEq,
    Prod.mk.injEq, and_true]
  omega

/-- One step over a byte that was written. -/
theorem scan_escape (b : Byte) (rest : Str) (fuel : ℕ) :
    scan (fuel + 1) (escape b ++ rest) = (scan fuel rest).map fun p => (b :: p.1, p.2) := by
  unfold escape
  split_ifs with hquote hbackslash hb ht hn hf hr hcontrol
  -- the short escapes
  iterate 7 subst b; simp [scan, readEscape, Option.map_eq_bind]
  · -- a control character is one byte in UTF-8
    have hread :
        unicodeEscape (48 :: 48 :: hexDigit (b.val / 16) :: hexDigit (b.val % 16) :: rest) =
          some ([b], rest) := by
      have hsmall : encodeUtf8 b.val = [b] := by
        rw [encodeUtf8, if_pos (by omega)]
        simp
      simp only [unicodeEscape, hexFour_control b.isLt, Option.bind_eq_bind, Option.bind_some,
        hsmall]
      rw [if_neg (by omega), if_neg (by omega)]
    simp [scan, readEscape, hread, Option.map_eq_bind]
  · simp [scan, hquote, hbackslash, hcontrol]

/-- **A quoted string reads back.**  It takes one step for each byte, and one for the quote. -/
theorem readString_quote {ok : Str → Bool} {s : Str} (h : ok s = true) (rest : Str) :
    readString ok (s.flatMap escape ++ 34 :: rest) = some (s, rest) := by
  have hscan : ∀ fuel, s.length < fuel →
      scan fuel (s.flatMap escape ++ 34 :: rest) = some (s, rest) := by
    clear h
    induction s with
    | nil =>
      intro fuel hfuel
      obtain ⟨fuel, rfl⟩ : ∃ n, fuel = n + 1 := ⟨fuel - 1, by omega⟩
      simp [scan]
    | cons b s ih =>
      intro fuel hfuel
      rw [List.length_cons] at hfuel
      obtain ⟨fuel, rfl⟩ : ∃ n, fuel = n + 1 := ⟨fuel - 1, by omega⟩
      rw [List.flatMap_cons, List.append_assoc, scan_escape, ih fuel (by omega), Option.map_some]
  have hlen : s.length ≤ (s.flatMap escape).length := by
    rw [List.length_flatMap]
    refine List.length_le_sum_of_one_le _ ?_ |>.trans' (List.length_map _).ge
    simp only [List.forall_mem_map]
    intro b _
    unfold escape
    split_ifs <;> simp
  rw [readString, hscan]
  · simp [h]
  · simp only [List.length_append, List.length_cons]
    omega

/-! ### Integers read back -/

/-- What may follow a value: nothing that would make a number longer. -/
def Ends (rest : Str) : Prop := ∀ c ∈ rest.head?, isIntByte c = false ∧ isFloatMark c = false

/-- An integer has its bytes. -/
theorem isIntByte_of_mem_intText {n : ℤ} {c : Byte} (h : c ∈ intText n) : isIntByte c = true := by
  obtain ⟨d, ds, htext, hdigits⟩ := exists_cons_decimalText n.natAbs
  rw [← htext] at hdigits
  rw [isIntByte, Bool.or_eq_true, decide_eq_true_eq]
  rw [intText] at h
  split_ifs at h
  · exact (List.mem_cons.1 h).imp_right (hdigits c)
  · exact Or.inr (hdigits c h)

/-- **The text of an integer of 64 bits reads back.** -/
theorem readInt_intText {n : ℤ} (hlow : -2 ^ 63 ≤ n) (hhigh : n < 2 ^ 64) {rest : Str}
    (h : Ends rest) : readInt (intText n ++ rest) = some (n, rest) := by
  have hbytes : ∀ c ∈ intText n, isIntByte c = true := fun c hc => isIntByte_of_mem_intText hc
  have hrest : rest.takeWhile isIntByte = [] ∧ rest.dropWhile isIntByte = rest := by
    cases rest with
    | nil => exact ⟨rfl, rfl⟩
    | cons c rest => simp [(h c rfl).1]
  have hmark : rest.head?.all (!isFloatMark ·) = true := by
    cases hr : rest.head? with
    | none => rfl
    | some c => simp [(h c hr).2]
  have hparse : parseSigned 65 (intText n) = some n :=
    parseSigned_intText (by decide) (by simp; omega) (by simp; omega)
  simp [readInt, List.takeWhile_append_of_pos hbytes, List.dropWhile_append_of_pos hbytes, hrest,
    hparse, hmark]
  omega

/-- An integer starts with a sign or a digit. -/
theorem exists_cons_intText (n : ℤ) :
    ∃ c cs, intText n = c :: cs ∧ 45 ≤ c.val ∧ c.val ≤ 57 := by
  have hne : intText n ≠ [] := by
    obtain ⟨d, ds, htext, -⟩ := exists_cons_decimalText n.natAbs
    rw [intText, htext]
    split_ifs <;> simp
  obtain ⟨c, cs, htext⟩ := List.exists_cons_of_ne_nil hne
  have hc : isIntByte c = true :=
    isIntByte_of_mem_intText (n := n) (by rw [htext]; exact List.mem_cons_self)
  simp only [isIntByte, isDecimalDigit, Bool.or_eq_true, Bool.and_eq_true, decide_eq_true_eq] at hc
  refine ⟨c, cs, htext, ?_⟩
  rcases hc with rfl | hc
  · decide
  · omega

/-! ### Values read back -/

/-- A byte that is no white space is where it was. -/
theorem skip_cons {c : Byte} (h : isSpace c = false) (rest : Str) :
    skip (c :: rest) = c :: rest := by
  simp [skip, h]

/-- A text that an item of a list may have: no white space and no closing byte comes first. -/
def Opens (s : Str) : Prop := ∀ rest, ∃ c cs, s ++ rest = c :: cs ∧
  isSpace c = false ∧ c ≠ 93 ∧ c ≠ 125

/-- A text by its first byte. -/
theorem opens_cons {c : Byte} (h : isSpace c = false ∧ c ≠ 93 ∧ c ≠ 125) (s : Str) :
    Opens (c :: s) := fun rest => ⟨c, s ++ rest, rfl, h⟩

section

variable {α : Type} {item : Str → Option (α × Str)} {write : α → Str} {close : Byte}

/-- The items of a list are closed by a byte that ends a number. -/
theorem ends_more (hclose : close = 93 ∨ close = 125) (ts : List Str) (rest : Str) :
    Ends (more close ts ++ rest) := by
  cases ts with
  | nil =>
    rcases hclose with rfl | rfl <;> simp [Ends, more, isIntByte, isDecimalDigit, isFloatMark]
  | cons t ts => simp [Ends, more, isIntByte, isDecimalDigit, isFloatMark]

/-- Items that read back do so behind one another. -/
theorem readMore_more (hclose : close = 93 ∨ close = 125) {l : List α}
    (h : ∀ a ∈ l, ∀ rest, Ends rest → item (write a ++ rest) = some (a, rest)) (rest : Str)
    {fuel : ℕ} (hfuel : l.length < fuel) :
    readMore close item fuel (more close (l.map write) ++ rest) = some (l, rest) := by
  induction l generalizing fuel with
  | nil =>
    obtain ⟨fuel, rfl⟩ : ∃ n, fuel = n + 1 := ⟨fuel - 1, by omega⟩
    have hspace : isSpace close = false := by rcases hclose with rfl | rfl <;> rfl
    simp [readMore, more, skip_cons hspace]
  | cons a l ih =>
    rw [List.forall_mem_cons] at h
    rw [List.length_cons] at hfuel
    obtain ⟨fuel, rfl⟩ : ∃ n, fuel = n + 1 := ⟨fuel - 1, by omega⟩
    have hcomma : (44 : Byte) ≠ close := by rcases hclose with rfl | rfl <;> decide
    have hspace : isSpace 44 = false := rfl
    simp [readMore, more, skip_cons hspace, hcomma, h.1 _ (ends_more hclose _ _), ih h.2
      (show l.length < fuel by omega)]

/-- **Items that read back do so between commas.** -/
theorem readItems_items (hclose : close = 93 ∨ close = 125) {l : List α}
    (h : ∀ a ∈ l, ∀ rest, Ends rest → item (write a ++ rest) = some (a, rest))
    (hopens : ∀ a ∈ l, Opens (write a)) (rest : Str) :
    readItems close item (items close (l.map write) ++ rest) = some (l, rest) := by
  cases l with
  | nil =>
    have hspace : isSpace close = false := by rcases hclose with rfl | rfl <;> rfl
    simp [readItems, items, skip_cons hspace]
  | cons a l =>
    rw [List.forall_mem_cons] at h
    have hhead : (skip (write a ++ (more close (l.map write) ++ rest))).head? ≠ some close := by
      obtain ⟨c, cs, htext, hspace, hne⟩ :=
        hopens a List.mem_cons_self (more close (l.map write) ++ rest)
      rw [htext, skip_cons hspace, List.head?_cons, Ne, Option.some.injEq]
      rcases hclose with rfl | rfl
      · exact hne.1
      · exact hne.2
    have hlen : ∀ ts : List Str, ts.length < (more close ts).length := by
      intro ts
      induction ts with
      | nil => simp [more]
      | cons t ts ih =>
        simp only [more, List.length_cons, List.length_append]
        omega
    have hmore := readMore_more hclose h.2 rest
      (show l.length < (more close (l.map write) ++ rest).length by
        have := hlen (l.map write)
        rw [List.length_map] at this
        rw [List.length_append]
        omega)
    simp only [items, List.map_cons, List.append_assoc, readItems, if_neg hhead,
      h.1 _ (ends_more hclose _ _), hmore, Option.bind_eq_bind, Option.bind_some]
    rfl

end

/-- No text starts with white space or closes a list. -/
theorem opens_print (v : Json) : Opens (print v) := by
  cases v with
  | null => exact opens_cons (by decide) _
  | bool b => cases b <;> exact opens_cons (by decide) _
  | int n =>
    obtain ⟨c, cs, htext, hc⟩ := exists_cons_intText n
    rw [print, htext]
    refine opens_cons ?_ cs
    simp [isSpace, Fin.ext_iff]
    omega
  | str s => exact opens_cons (by decide) _
  | arr vs => exact opens_cons (by decide) _
  | obj ms => exact opens_cons (by decide) _

/-- The elements are written one by one. -/
theorem printAll_eq_map (vs : List Json) : printAll vs = vs.map print := by
  induction vs with
  | nil => rfl
  | cons v vs ih => rw [printAll, ih, List.map_cons]

/-- The members are written one by one. -/
theorem printMembers_eq_map (ms : List (Str × Json)) : printMembers ms = ms.map printMember := by
  induction ms with
  | nil => rfl
  | cons m ms ih => rw [printMembers, ih, List.map_cons]

/-- An integer is read as one, since it starts with a sign or a digit. -/
theorem readValue_int {ok : Str → Bool} {depth : ℕ} {n : ℤ} (hlow : -2 ^ 63 ≤ n)
    (hhigh : n < 2 ^ 64) {rest : Str} (h : Ends rest) :
    readValue ok (depth + 1) (intText n ++ rest) = some (.int n, rest) := by
  have hread := readInt_intText hlow hhigh h
  obtain ⟨c, cs, htext, hc⟩ := exists_cons_intText n
  have hfirst : isSpace c = false ∧ c ≠ 110 ∧ c ≠ 116 ∧ c ≠ 102 ∧ c ≠ 34 ∧ c ≠ 91 ∧ c ≠ 123 := by
    simp [isSpace, Fin.ext_iff]
    omega
  rw [htext, List.cons_append] at hread ⊢
  simp [readValue, skip_cons hfirst.1, hfirst.2, hread]

/-- **What is written reads back**, by induction on the value. -/
theorem Readable.readValue_print {ok : Str → Bool} {depth : ℕ} {v : Json} (h : Readable ok depth v)
    (rest : Str) (hrest : Ends rest) : readValue ok depth (print v ++ rest) = some (v, rest) := by
  have hquote : isSpace 34 = false := rfl
  have hcolon : isSpace 58 = false := rfl
  have hbracket : isSpace 91 = false := rfl
  have hbrace : isSpace 123 = false := rfl
  induction h generalizing rest with
  | null => simp [print, readValue, nullWord, skip, isSpace, word]
  | bool b => cases b <;> simp [print, readValue, trueWord, falseWord, skip, isSpace, word]
  | int low high =>
    rw [print]
    exact readValue_int low high hrest
  | str valid => simp [print, quote, readValue, skip_cons hquote, readString_quote valid]
  | arr _ ih =>
    rw [print, printAll_eq_map, List.cons_append, readValue, skip_cons hbracket]
    simp [readItems_items (.inl rfl) ih fun v _ => opens_print v]
  | @obj depth ms keys _ ih =>
    have hmember : ∀ m ∈ ms, ∀ rest, Ends rest →
        readMember ok (readValue ok (depth + 1)) (printMember m ++ rest) = some (m, rest) := by
      rintro ⟨k, v⟩ hm rest hrest
      simp [readMember, printMember, quote, word, skip_cons hquote, skip_cons hcolon,
        readString_quote (keys _ hm), ih _ hm rest hrest]
    have hopens : ∀ m ∈ ms, Opens (printMember m) := by
      rintro ⟨k, v⟩ -
      exact opens_cons (by decide) _
    rw [print, printMembers_eq_map, List.cons_append, readValue, skip_cons hbrace]
    simp [readItems_items (.inr rfl) hmember hopens]

/-- **The text of a value is parsed as the value.** -/
theorem parse_print {ok : Str → Bool} {v : Json} (h : Readable ok recursionLimit v) :
    parse ok (print v) = some v := by
  have hread := h.readValue_print [] (by simp [Ends])
  rw [List.append_nil] at hread
  simp [parse, hread, skip]

end Json

/-- The compact texts are such a codec. -/
def JsonCodec.compact : JsonCodec := ⟨Json.print, Json.parse, Json.parse_print⟩

end Lib
end Shardscape
