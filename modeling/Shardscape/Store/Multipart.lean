/-
# Uploads in parts

`src/store.rs`: `insert_multipart`, `get_multipart_key`, `delete_multipart_upload`,
`insert_part`, `list_parts`, `list_multipart_uploads`.

An upload is a row that names its key, and its parts are rows of their own, keyed
by upload and part number: inserting an upload again changes its key and keeps the
parts, inserting a part again replaces it, and deleting the upload deletes both.
-/

import Shardscape.Lib.Sorted
import Shardscape.Store.Basic
import Mathlib.Data.Prod.Lex

namespace Shardscape
namespace Store

open Lib

/-- `insert_multipart`. -/
def insertMultipart (s : Store) (bucket : Str) (uploadId : Uuid) (key : Str) : Store :=
  { s with multipartUploads := s.multipartUploads.insert (bucket, uploadId) key }

/-- `get_multipart_key`. -/
def getMultipartKey (s : Store) (bucket : Str) (uploadId : Uuid) : Option Str :=
  s.multipartUploads.lookup (bucket, uploadId)

/-- `delete_multipart_upload`. -/
def deleteMultipartUpload (s : Store) (bucket : Str) (uploadId : Uuid) : Store :=
  { s with
    multipartUploads := s.multipartUploads.erase (bucket, uploadId)
    parts := s.parts.deleteWhere fun k => k.1 = bucket ∧ k.2.1 = uploadId }

/-- `insert_part`. -/
def insertPart (s : Store) (bucket : Str) (uploadId : Uuid) (partNumber : ℤ) (blocks : List Bytes)
    (size : ℤ) (etag : Str) : Store :=
  { s with
    parts := s.parts.insert (bucket, uploadId, partNumber) ⟨encodeBlocks blocks, size, etag⟩ }

/-- `list_parts`: part number, blocks, size and etag, in the order of the numbers. -/
def listParts (s : Store) (bucket : Str) (uploadId : Uuid) :
    List (ℤ × List Bytes × ℤ × Str) :=
  sortBy Prod.fst (s.parts.entries.filterMap fun e =>
    if e.1.1 = bucket ∧ e.1.2.1 = uploadId then
      some (e.1.2.2, decodeBlocks e.2.blocks, e.2.size, e.2.etag)
    else none)

/-- A letter in lower case; only ASCII letters have one. -/
def foldCase (c : Byte) : Byte := if 65 ≤ c.val ∧ c.val ≤ 90 then c + 32 else c

/-- A byte that continues a UTF-8 character. -/
def isContinuation (c : Byte) : Bool := decide (128 ≤ c.val ∧ c.val < 192)

/-- The operator `LIKE` of SQLite on UTF-8 texts: `%` stands for any text, `_` for any
character, and ASCII letters match in either case.  The fuel is the length of
pattern and text together. -/
def sqlLikeFrom : ℕ → Str → Str → Bool
  | _, [], value => value.isEmpty
  | 0, _ :: _, _ => false
  | fuel + 1, c :: pattern, value =>
    if c = 37 then
      sqlLikeFrom fuel pattern value ||
        match value with
        | [] => false
        | _ :: value => sqlLikeFrom fuel (c :: pattern) value
    else
      match value with
      | [] => false
      | d :: value =>
        if c = 95 then sqlLikeFrom fuel pattern (value.dropWhile isContinuation)
        else foldCase c = foldCase d && sqlLikeFrom fuel pattern value

/-- A text as a C string: it ends at the first zero byte. -/
def cText (t : Str) : Str := t.takeWhile (· ≠ 0)

/-- `LIKE` reads pattern and text as C strings. -/
def sqlLike (pattern value : Str) : Bool :=
  sqlLikeFrom ((cText pattern).length + (cText value).length) (cText pattern) (cText value)

/-- `list_multipart_uploads`: key and upload id, in their order, one more than asked
for.  The text of an upload id has a fixed width, so texts are in the order of the
ids. -/
def listMultipartUploads (s : Store) (bucket : Str) (pre keyMarker : Option Str)
    (maxUploads : ℕ) : List (Str × Uuid) :=
  (sortBy (fun u => toLex u) (s.multipartUploads.entries.filterMap fun e =>
    if e.1.1 = bucket ∧ (∀ p ∈ pre, sqlLike (p ++ [37]) e.2 = true) ∧ ∀ m ∈ keyMarker, m < e.2 then
      some (e.2, e.1.2)
    else none)).take (maxUploads + 1)

/-- The uploads of a bucket past a marker whose keys pass a test: key and upload id, in their
order. -/
def uploadsMatching (s : Store) (bucket : Str) (test : Str → Bool) (keyMarker : Option Str) :
    List (Str × Uuid) :=
  sortBy (fun u => toLex u) (s.multipartUploads.entries.filterMap fun e =>
    if e.1.1 = bucket ∧ test e.2 = true ∧ ∀ m ∈ keyMarker, m < e.2 then some (e.2, e.1.2) else none)

/-- The test of a key that the query makes. -/
def likePrefix (pre : Option Str) (key : Str) : Bool :=
  decide (∀ p ∈ pre, sqlLike (p ++ [37]) key = true)

/-- The query is one page, and one row more, of the uploads it matches. -/
theorem listMultipartUploads_eq (s : Store) (bucket : Str) (pre keyMarker : Option Str)
    (maxUploads : ℕ) :
    s.listMultipartUploads bucket pre keyMarker maxUploads =
      (s.uploadsMatching bucket (likePrefix pre) keyMarker).take (maxUploads + 1) := by
  simp only [listMultipartUploads, uploadsMatching, likePrefix, decide_eq_true_eq]

/-- The uploads matched are those of the bucket past the marker that pass the test. -/
theorem mem_uploadsMatching {s : Store} {bucket : Str} {test : Str → Bool} {keyMarker : Option Str}
    {u : Str × Uuid} :
    u ∈ s.uploadsMatching bucket test keyMarker ↔
      s.getMultipartKey bucket u.2 = some u.1 ∧ test u.1 = true ∧ ∀ m ∈ keyMarker, m < u.1 := by
  obtain ⟨key, id⟩ := u
  rw [uploadsMatching, mem_sortBy, List.mem_filterMap]
  constructor
  · rintro ⟨⟨⟨bucket', id'⟩, key'⟩, he, hs⟩
    simp only [Option.ite_none_right_eq_some, Option.some.injEq, Prod.mk.injEq] at hs
    obtain ⟨⟨rfl, htest, hmarker⟩, rfl, rfl⟩ := hs
    exact ⟨Table.lookup_eq_some_iff.2 he, htest, hmarker⟩
  · rintro ⟨hrow, htest, hmarker⟩
    refine ⟨⟨(bucket, id), key⟩, Table.lookup_eq_some_iff.1 hrow, ?_⟩
    rw [if_pos ⟨rfl, htest, hmarker⟩]

/-- They come by key and then by id, as the query says. -/
theorem sortedBy_uploadsMatching (s : Store) (bucket : Str) (test : Str → Bool)
    (keyMarker : Option Str) :
    SortedBy (fun u => toLex u) (s.uploadsMatching bucket test keyMarker) := by
  refine sortedBy_sortBy (Table.nodup_filterMap ?_)
  intro e e' u u' hu hu' heq
  simp only [Option.ite_none_right_eq_some, Option.some.injEq] at hu hu'
  obtain ⟨⟨hb, -⟩, rfl⟩ := hu
  obtain ⟨⟨hb', -⟩, rfl⟩ := hu'
  exact Prod.ext (hb.trans hb'.symm) (Prod.mk.inj (toLex_inj.1 heq)).2

/-- The listed parts are the part rows of the upload. -/
theorem mem_listParts {s : Store} {bucket : Str} {id : Uuid} {p : ℤ × List Bytes × ℤ × Str} :
    p ∈ s.listParts bucket id ↔ ∃ row, s.parts.lookup (bucket, id, p.1) = some row ∧
      p.2 = (decodeBlocks row.blocks, row.size, row.etag) := by
  obtain ⟨n, rest⟩ := p
  rw [listParts, mem_sortBy, List.mem_filterMap]
  constructor
  · rintro ⟨⟨⟨bucket', id', n'⟩, row⟩, he, hs⟩
    simp only [Option.ite_none_right_eq_some, Option.some.injEq, Prod.mk.injEq] at hs
    obtain ⟨⟨rfl, rfl⟩, rfl, rfl⟩ := hs
    exact ⟨row, Table.lookup_eq_some_iff.2 he, rfl⟩
  · rintro ⟨row, hrow, hp⟩
    refine ⟨⟨(bucket, id, n), row⟩, Table.lookup_eq_some_iff.1 hrow, ?_⟩
    rw [if_pos ⟨rfl, rfl⟩]
    exact congrArg some (Prod.ext rfl hp.symm)

/-- An upload has one part per number. -/
theorem nodup_numbers_listParts (s : Store) (bucket : Str) (id : Uuid) :
    ((s.listParts bucket id).map Prod.fst).Nodup := by
  refine ((List.perm_insertionSort _ _).map Prod.fst).nodup_iff.2 (Table.nodup_filterMap ?_)
  intro e e' p p' hp hp' heq
  simp only [Option.ite_none_right_eq_some, Option.some.injEq] at hp hp'
  obtain ⟨⟨hb, hid⟩, rfl⟩ := hp
  obtain ⟨⟨hb', hid'⟩, rfl⟩ := hp'
  exact Prod.ext (hb.trans hb'.symm) (Prod.ext (hid.trans hid'.symm) heq)

end Store
end Shardscape
