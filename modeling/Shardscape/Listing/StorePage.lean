/-
# Prefix ranges and pages of the store

`src/hashing.rs`, `prefix_key_range`, and `src/store.rs`, `list_objects`, against what
they are for.

The range of a prefix is exact wherever there is one (`inListRange_none_iff`).  There is
none where the incremented string is not UTF-8, and as only the last byte changes, that
is where the last byte is the last of its kind: `0x7F`, or `0xBF` at the end of a longer
character (`prefixKeyRange_exact_iff`).

`list_objects` puts the marker in the place of the lower bound of the prefix.  A marker
before the prefix then lets the keys between the two into the page
(`listObjects_shows_between`), and nothing else is wrong with a page of a size that fits
an `i64` (`listObjects_exact_iff`).
-/

import Shardscape.Lib.Utf8Chars
import Shardscape.Listing.Traversal

namespace Shardscape

open Lib

/-! ### The range of a prefix -/

/-- `prefix_key_range` returns, and the keys of its range are those that start with the
prefix. -/
def RangeExact (pre : Str) : Prop :=
  ∃ lower upper, prefixKeyRange pre = some (lower, upper) ∧
    ∀ key, validUtf8 key = true → (pre <+: key ↔ lower ≤ key ∧ ∀ u ∈ upper, key < u)

/-- Where `prefix_key_range` returns, its range is exact. -/
theorem rangeExact_iff {pre : Str} : RangeExact pre ↔ prefixKeyRange pre ≠ none := by
  constructor
  · rintro ⟨lower, upper, hrange, -⟩
    simp [hrange]
  · intro h
    obtain ⟨⟨lower, upper⟩, hrange⟩ := Option.ne_none_iff_exists'.1 h
    refine ⟨lower, upper, hrange, fun key _ => ?_⟩
    have hlist : listRange (some pre) = some (some (lower, upper)) := by simp [listRange, hrange]
    have hspec := inListRange_none_iff hlist key
    rw [Option.getD_some] at hspec
    rw [← hspec]
    cases upper <;> simp [Store.inListRange]

/-- The last byte of a UTF-8 string is of a kind. -/
theorem sameKind_self {l : Bytes} {b : Byte} (h : validUtf8 (l ++ [b]) = true) :
    sameKind b b = true :=
  (validUtf8_concat_iff b h).1 h

/-- The next byte is of the same kind, unless a byte is the last of its kind. -/
theorem sameKind_succ_iff {b : Byte} (h : sameKind b b = true) :
    sameKind b (Fin.ofNat 256 (b.val + 1)) = true ↔ b.val ≠ 0x7F ∧ b.val ≠ 0xBF := by
  simp only [sameKind, isContinuation] at h ⊢
  by_cases hb : b.val < 0x80
  · have hval : (Fin.ofNat 256 (b.val + 1)).val = b.val + 1 := Nat.mod_eq_of_lt (by omega)
    simp only [if_pos hb, hval, decide_eq_true_eq]
    omega
  · simp only [if_neg hb, Bool.and_eq_true, decide_eq_true_eq] at h ⊢
    have hval : (Fin.ofNat 256 (b.val + 1)).val = b.val + 1 := Nat.mod_eq_of_lt (by omega)
    rw [hval]
    omega

/-- `prefix_key_range` returns where the incremented last byte ends a UTF-8 string. -/
theorem prefixKeyRange_concat {l : Bytes} {b : Byte} (hb : b.val < 0xFF) :
    prefixKeyRange (l ++ [b]) ≠ none ↔
      validUtf8 (l ++ [Fin.ofNat 256 (b.val + 1)]) = true := by
  simp [prefixKeyRange, incrementPrefix, incrementReversed, hb, fromUtf8]

/-- **Where a prefix has a range.**  For a UTF-8 prefix, `prefix_key_range` returns, with a
range that holds exactly the keys that start with the prefix, unless the last byte of the
prefix is `0x7F` or `0xBF`. -/
theorem prefixKeyRange_exact_iff {pre : Str} (hpre : validUtf8 pre = true) :
    RangeExact pre ↔ ∀ b ∈ pre.getLast?, b.val ≠ 0x7F ∧ b.val ≠ 0xBF := by
  rw [rangeExact_iff]
  rcases List.eq_nil_or_concat pre with rfl | ⟨l, b, rfl⟩
  · simp [prefixKeyRange, incrementPrefix, incrementReversed]
  · rw [List.concat_eq_append] at hpre ⊢
    have hkind := sameKind_self hpre
    have hb : b.val < 0xFF := by
      simp only [sameKind, isContinuation] at hkind
      split at hkind
      · omega
      · simp only [Bool.and_eq_true, decide_eq_true_eq] at hkind
        omega
    rw [prefixKeyRange_concat hb, validUtf8_concat_iff _ hpre, sameKind_succ_iff hkind,
      List.getLast?_concat]
    simp

/-- `prefixKeyRange_exact_iff` on a prefix of two characters, the second of two bytes
(`0xC3 0xA9`). -/
theorem prefixKeyRange_exact_twoBytes : validUtf8 [0x61, 0xC3, 0xA9] = true ∧
    RangeExact [0x61, 0xC3, 0xA9] :=
  ⟨by decide, (prefixKeyRange_exact_iff (by decide)).2 (by decide +kernel)⟩

/-- **A prefix without a range.**  The prefix U+00FF, `0xC3 0xBF`, is UTF-8, and
`0xC3 0xC0` is not: `prefix_key_range` panics. -/
theorem prefixKeyRange_panics : validUtf8 [0xC3, 0xBF] = true ∧
    prefixKeyRange [0xC3, 0xBF] = none ∧ ¬ RangeExact [0xC3, 0xBF] := by
  have hnone : prefixKeyRange [0xC3, 0xBF] = none := by decide +kernel
  exact ⟨by decide, hnone, fun h => rangeExact_iff.1 h hnone⟩

/-! ### A page of the store -/

namespace Store

/-- A `usize` as an `i64`. -/
def asI64 (n : UInt64) : ℤ := n.toBitVec.toInt

/-- `list_objects` with its page size as the machine has it: the `LIMIT` of the query is
`page_size as i64 + 1`, a negative `LIMIT` is none, and `is_truncated` compares as `i64`.
`listObjects64_eq` says that this is `listObjects` up to `i64::MAX`; every caller in the
program is below `i32::MAX`. -/
def listObjects64 (s : Store) (bucket : Str) (after pre : Option Str) (pageSize : UInt64) :
    Option (List ListedRow × Bool) :=
  (listRange pre).map fun range =>
    let limit := asI64 (pageSize + 1)
    let rows := s.rowsAfter bucket after range
    let rows := if limit < 0 then rows else rows.take limit.toNat
    (rows.take pageSize.toNat, decide (asI64 pageSize < rows.length))

/-- Below `2^63` the cast keeps the number. -/
theorem asI64_of_lt {n : UInt64} (h : n.toNat < 2 ^ 63) : asI64 n = n.toNat := by
  rw [asI64, BitVec.toInt_eq_toNat_of_lt]
  · rfl
  · have : n.toBitVec.toNat = n.toNat := rfl
    omega

/-- From `2^63` on the cast is negative. -/
theorem asI64_of_ge {n : UInt64} (h : 2 ^ 63 ≤ n.toNat) : asI64 n = n.toNat - 2 ^ 64 := by
  have : n.toBitVec.toNat = n.toNat := rfl
  rw [asI64, BitVec.toInt_eq_toNat_cond, if_neg (by omega), this]
  rfl

/-- Up to `i64::MAX` the page is the one of `list_objects` over natural numbers. -/
theorem listObjects64_eq (s : Store) (bucket : Str) (after pre : Option Str) {pageSize : UInt64}
    (hsize : pageSize.toNat < 2 ^ 63) :
    s.listObjects64 bucket after pre pageSize =
      s.listObjects bucket after pre pageSize.toNat := by
  rw [listObjects_eq, listObjects64]
  refine congrArg (Option.map · _) (funext fun range => ?_)
  generalize s.rowsAfter bucket after range = rows
  dsimp only
  have hsucc : (pageSize + 1).toNat = pageSize.toNat + 1 := by
    rw [UInt64.toNat_add]
    exact Nat.mod_eq_of_lt (by simp only [UInt64.toNat_one]; omega)
  rw [asI64_of_lt hsize]
  by_cases hmax : pageSize.toNat + 1 < 2 ^ 63
  · -- the query returns at most one row more than the page
    rw [asI64_of_lt (by rwa [hsucc]), hsucc, if_neg (by omega)]
    refine Prod.ext ?_ (decide_eq_decide.2 ?_)
    · simp [List.take_take]
    · simp only [Int.toNat_natCast, List.length_take]
      omega
  · -- the limit wraps around, and a negative one is none
    rw [asI64_of_ge (by omega), hsucc, if_pos (by omega)]
    exact Prod.ext rfl (decide_eq_decide.2 (by omega))

/-- A row `list_objects` is to return: of a live object of the bucket, with a key that
starts with the prefix and is past the marker. -/
def ToList (s : Store) (bucket : Str) (after pre : Option Str) (r : ListedRow) : Prop :=
  r ∈ s.bucketRows bucket ∧ pre.getD [] <+: r.1 ∧ ∀ a ∈ after, a < r.1

/-- What `list_objects` is to return: the first `pageSize` of those rows in ascending
order of their keys, and whether there are more. -/
def IsPage (s : Store) (bucket : Str) (after pre : Option Str) (pageSize : ℕ)
    (result : List ListedRow × Bool) : Prop :=
  ∃ rows, SortedBy Prod.fst rows ∧ (∀ r, r ∈ rows ↔ s.ToList bucket after pre r) ∧
    result = (rows.take pageSize, decide (pageSize < rows.length))

variable {s : Store} {bucket : Str} {after pre : Option Str} {range : Option (Str × Option Str)}

/-- The rows `list_objects` is to return, out of those it returns. -/
def rightRows (s : Store) (bucket : Str) (after pre : Option Str)
    (range : Option (Str × Option Str)) : List ListedRow :=
  (s.rowsAfter bucket after range).filter fun r => decide (pre.getD [] <+: r.1)

/-- What a range admits past a marker. -/
theorem inListRange_some_iff {a key : Str} (hrange : listRange pre = some range)
    (hkey : pre.getD [] <+: key) : inListRange (some a) range key = true ↔ a < key := by
  have hnone := (Bool.and_eq_true_iff.1 ((inListRange_none_iff hrange key).2 hkey)).2
  simp only [inListRange, Bool.and_eq_true, decide_eq_true_eq]
  exact ⟨fun h => h.1, fun h => ⟨h, hnone⟩⟩

/-- The rows of the right page are those that are to be listed. -/
theorem mem_rightRows (hrange : listRange pre = some range) {r : ListedRow} :
    r ∈ s.rightRows bucket after pre range ↔ s.ToList bucket after pre r := by
  rw [rightRows, List.mem_filter, rowsAfter, List.mem_filter, decide_eq_true_iff, ToList, and_assoc]
  refine and_congr_right fun _ => ?_
  rw [and_comm]
  refine and_congr_right fun hkey => ?_
  cases after with
  | none => simp [(inListRange_none_iff hrange r.1).2 hkey]
  | some a => simp [inListRange_some_iff hrange hkey]

/-- What the page is to be, in terms of the rows returned. -/
theorem isPage_iff (hrange : listRange pre = some range) {pageSize : ℕ}
    {result : List ListedRow × Bool} : s.IsPage bucket after pre pageSize result ↔
      result = ((s.rightRows bucket after pre range).take pageSize,
        decide (pageSize < (s.rightRows bucket after pre range).length)) := by
  have hsorted := (s.sortedBy_rowsAfter bucket after range).filter
    fun r => decide (pre.getD [] <+: r.1)
  constructor
  · rintro ⟨rows, hrows, hmem, rfl⟩
    rw [eq_of_mem_iff hrows hsorted fun r => (hmem r).trans (mem_rightRows hrange).symm]
    rfl
  · rintro rfl
    exact ⟨_, hsorted, fun r => mem_rightRows hrange, rfl⟩

/-- A row returned with a key that does not start with the prefix has a key between the
marker and the prefix. -/
theorem not_isPrefix_iff (hrange : listRange pre = some range) {r : ListedRow}
    (hr : r ∈ s.bucketRows bucket) :
    r ∈ s.rowsAfter bucket after range ∧ ¬ pre.getD [] <+: r.1 ↔
      ∃ a ∈ after, a < r.1 ∧ r.1 < pre.getD [] := by
  have hspec := inListRange_none_iff hrange
  cases after with
  | none =>
    simp only [rowsAfter, List.mem_filter, hr, true_and, hspec, Option.not_mem_none, false_and,
      exists_false, iff_false]
    tauto
  | some a =>
    simp only [rowsAfter, List.mem_filter, hr, true_and, Option.mem_some_iff, exists_eq_left']
    cases pre with
    | none => simp
    | some p =>
      simp only [listRange, prefixKeyRange, Option.map_map, Option.map_eq_some_iff] at hrange
      obtain ⟨upper, -, rfl⟩ := hrange
      have hp := hspec p
      have hkey := hspec r.1
      simp only [inListRange, Option.getD_some, Function.comp_apply, Bool.and_eq_true,
        decide_eq_true_eq, List.prefix_rfl, iff_true] at hp hkey ⊢
      constructor
      · rintro ⟨⟨ha, hu⟩, hno⟩
        refine ⟨ha, not_le.1 fun hle => hno (hkey.1 ⟨hle, hu⟩)⟩
      · rintro ⟨ha, hlt⟩
        refine ⟨⟨ha, ?_⟩, fun h => (le_of_isPrefix h).not_gt hlt⟩
        cases upper with
        | none => rfl
        | some u => exact decide_eq_true (hlt.trans (of_decide_eq_true hp.2))

/-- Rows cut to a page before and after the wrong ones are taken out, where those come
first: the same page, if there are none, or if the page is empty and a right one is left. -/
theorem page_filter_iff {rows : List ListedRow} (hrows : SortedBy Prod.fst rows)
    {p : ListedRow → Bool}
    (hp : ∀ a ∈ rows, ∀ b ∈ rows, a.1 < b.1 → p a = true → p b = true) (n : ℕ) :
    (rows.take n, decide (n < rows.length)) =
        ((rows.filter p).take n, decide (n < (rows.filter p).length)) ↔
      (∀ r ∈ rows, p r = true) ∨ n = 0 ∧ ∃ r ∈ rows, p r = true := by
  constructor
  · intro heq
    obtain ⟨htake, hlen⟩ := Prod.mk.inj heq
    rw [decide_eq_decide] at hlen
    cases rows with
    | nil => exact .inl (by simp)
    | cons a rest =>
      cases n with
      | zero =>
        obtain ⟨r, hr⟩ := List.exists_mem_of_length_pos (hlen.1 (Nat.zero_lt_succ _))
        exact .inr ⟨rfl, r, List.mem_filter.1 hr⟩
      | succ n =>
        -- the first row is right, and so are those after it
        have ha : a ∈ ((a :: rest).filter p).take (n + 1) := htake ▸ List.mem_cons_self
        have hpa := (List.mem_filter.1 (List.mem_of_mem_take ha)).2
        refine .inl fun r hr => ?_
        rcases List.mem_cons.1 hr with rfl | hrest
        · exact hpa
        · exact hp a List.mem_cons_self r hr ((List.pairwise_cons.1 hrows).1 r hrest) hpa
  · rintro (hall | ⟨rfl, r, hr, hpr⟩)
    · rw [List.filter_eq_self.2 hall]
    · have hpos : 0 < rows.length := List.length_pos_of_mem hr
      have hpos' : 0 < (rows.filter p).length :=
        List.length_pos_of_mem (List.mem_filter.2 ⟨hr, hpr⟩)
      simp [hpos, hpos']

/-- Past a row with the right prefix come rows with the right prefix. -/
theorem isPrefix_of_lt (hrange : listRange pre = some range) {a b : ListedRow}
    (hb : b ∈ s.rowsAfter bucket after range) (hlt : a.1 < b.1) (ha : pre.getD [] <+: a.1) :
    pre.getD [] <+: b.1 := by
  by_contra hno
  obtain ⟨-, -, -, hbefore⟩ := (not_isPrefix_iff hrange (List.mem_of_mem_filter hb)).1 ⟨hb, hno⟩
  exact (le_of_isPrefix ha).not_gt (hlt.trans hbefore)

/-- A page of `list_objects`, over natural numbers. -/
theorem isPage_listObjects_iff (hrange : listRange pre = some range) (n : ℕ) :
    s.IsPage bucket after pre n ((s.rowsAfter bucket after range).take n,
        decide (n < (s.rowsAfter bucket after range).length)) ↔
      (∀ a ∈ after, ∀ r ∈ s.bucketRows bucket, ¬ (a < r.1 ∧ r.1 < pre.getD [])) ∨
        n = 0 ∧ ∃ r, s.ToList bucket after pre r := by
  have hp : ∀ a ∈ s.rowsAfter bucket after range, ∀ b ∈ s.rowsAfter bucket after range,
      a.1 < b.1 → decide (pre.getD [] <+: a.1) = true → decide (pre.getD [] <+: b.1) = true :=
    fun a _ b hb hlt ha => decide_eq_true (isPrefix_of_lt hrange hb hlt (of_decide_eq_true ha))
  rw [isPage_iff hrange, rightRows,
    page_filter_iff (s.sortedBy_rowsAfter bucket after range) hp]
  simp only [decide_eq_true_eq]
  refine or_congr ⟨fun hall a ha r hr hbetween => ?_, fun hno r hr => ?_⟩
    (and_congr_right fun _ => exists_congr fun r => ?_)
  · obtain ⟨hmem, hwrong⟩ := (not_isPrefix_iff hrange hr).2 ⟨a, ha, hbetween⟩
    exact hwrong (hall r hmem)
  · by_contra hwrong
    have hmem := List.mem_of_mem_filter hr
    obtain ⟨a, ha, hbetween⟩ := (not_isPrefix_iff hrange hmem).1 ⟨hr, hwrong⟩
    exact hno a ha r hmem hbetween
  · rw [← mem_rightRows hrange, rightRows, List.mem_filter, decide_eq_true_iff]

/-- A page size past `i64::MAX` reads as a negative number, and every page of it claims to be
truncated. -/
theorem listObjects64_of_ge (hrange : listRange pre = some range) {pageSize : UInt64}
    (hsize : 2 ^ 63 ≤ pageSize.toNat) {result : List ListedRow × Bool}
    (hresult : s.listObjects64 bucket after pre pageSize = some result) : result.2 = true := by
  rw [listObjects64, hrange, Option.map_some, Option.some.injEq] at hresult
  subst hresult
  have hlt := pageSize.toNat_lt
  refine decide_eq_true ?_
  rw [asI64_of_ge hsize]
  omega

/-- **When a page of the store is right.**  Over a table of at most `i64::MAX` rows and a
prefix that has a range, `list_objects` returns the first `page_size` live keys with the
prefix past the marker, with `is_truncated` where there are more, exactly if the page size
is an `i64` and no live key of the bucket lies between the marker and the prefix (or the
page is empty and one to come is a right one). -/
theorem listObjects_exact_iff (s : Store) (bucket : Str) (after pre : Option Str)
    (pageSize : UInt64) (hrange : listRange pre ≠ none)
    (hfits : (s.bucketRows bucket).length < 2 ^ 63) :
    (∃ result, s.listObjects64 bucket after pre pageSize = some result ∧
        s.IsPage bucket after pre pageSize.toNat result) ↔
      pageSize.toNat < 2 ^ 63 ∧
        ((∀ a ∈ after, ∀ r ∈ s.bucketRows bucket, ¬ (a < r.1 ∧ r.1 < pre.getD [])) ∨
          pageSize.toNat = 0 ∧ ∃ r, s.ToList bucket after pre r) := by
  obtain ⟨range, hrange⟩ := Option.ne_none_iff_exists'.1 hrange
  by_cases hsize : pageSize.toNat < 2 ^ 63
  · rw [listObjects64_eq s bucket after pre hsize, listObjects_eq, hrange, Option.map_some]
    simp only [Option.some.injEq, exists_eq_left', hsize, true_and]
    exact isPage_listObjects_iff hrange pageSize.toNat
  · -- the page claims to be truncated, with fewer rows than the page size
    simp only [hsize, false_and, iff_false]
    rintro ⟨result, hresult, hpage⟩
    have htrunc := listObjects64_of_ge hrange (not_lt.1 hsize) hresult
    rw [isPage_iff hrange] at hpage
    rw [hpage, decide_eq_true_iff] at htrunc
    have hle : (s.rightRows bucket after pre range).length ≤ (s.bucketRows bucket).length :=
      (List.length_filter_le _ _).trans (List.length_filter_le _ _)
    omega

/-- `listObjects_exact_iff` on a bucket with keys on both sides of the prefix, and a marker
under the prefix. -/
theorem listObjects_exact_inside : listRange (some (text "b")) ≠ none ∧
    ((bucketOf [text "a", text "b1", text "b2", text "c"]).bucketRows (text "b")).length < 2 ^ 63 ∧
    ∃ result, (bucketOf [text "a", text "b1", text "b2", text "c"]).listObjects64 (text "b")
        (some (text "b1")) (some (text "b")) 1 = some result ∧
      (bucketOf [text "a", text "b1", text "b2", text "c"]).IsPage (text "b") (some (text "b1"))
        (some (text "b")) (1 : UInt64).toNat result := by
  have hrange : listRange (some (text "b")) ≠ none := by decide +kernel
  have hfits : ((bucketOf [text "a", text "b1", text "b2", text "c"]).bucketRows
      (text "b")).length < 2 ^ 63 := by decide +kernel
  refine ⟨hrange, hfits, (listObjects_exact_iff _ _ _ _ _ hrange hfits).2 ⟨by decide, .inl ?_⟩⟩
  decide +kernel

/-- **A key between the marker and the prefix is listed.**  In a bucket with the one key
`aa`, the page of the keys that start with `b` past the marker `a` shows `aa`. -/
theorem listObjects_shows_between : listRange (some (text "b")) ≠ none ∧
    (bucketOf [text "aa"]).listObjects64 (text "b") (some (text "a")) (some (text "b")) 10 =
      some ([(text "aa", 0, [])], false) ∧
    ¬ (bucketOf [text "aa"]).IsPage (text "b") (some (text "a")) (some (text "b"))
      (10 : UInt64).toNat ([(text "aa", 0, [])], false) := by
  refine ⟨by decide +kernel, by decide +kernel, ?_⟩
  rintro ⟨rows, -, hmem, heq⟩
  have hlisted : (text "aa", (0 : ℤ), ([] : Str)) ∈ rows :=
    List.mem_of_mem_take ((Prod.mk.inj heq).1 ▸ List.mem_singleton_self _)
  have hprefix : text "b" <+: text "aa" := ((hmem _).1 hlisted).2.1
  exact absurd hprefix (by decide)

end Store
end Shardscape
