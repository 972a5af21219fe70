/-
# Listing a bucket

`src/store.rs`, `list_buckets` and `list_objects`, and `src/hashing.rs`,
`prefix_key_range`.  `list_objects` is one ordered scan of the live rows of a
bucket, after a marker or from a lower bound, below an upper bound made by
incrementing the last byte of the prefix, and one row more than the page to see
whether there are more.

The increment is made on the bytes and read back as a string with `expect`, which
panics where the result is not UTF-8: `none` here.

A page reads the live rows of a bucket and nothing else, so two stores with the
same live rows list the same pages (`listObjects_congr`).
-/

import Shardscape.Lib.Sorted
import Shardscape.Lib.Utf8
import Shardscape.Store.Objects

namespace Shardscape

open Lib

/-- The loop of `increment_prefix`, on the reversed bytes: bytes `0xFF` are popped
off the end, and the last byte left is incremented. -/
def incrementReversed : Bytes → Option Bytes
  | [] => none
  | b :: rest => if b.val < 0xFF then some (Fin.ofNat 256 (b.val + 1) :: rest)
      else incrementReversed rest

/-- `increment_prefix`; the outer `none` is the panic of its `expect`. -/
def incrementPrefix (pre : Str) : Option (Option Str) :=
  match incrementReversed pre.reverse with
  | none => some none
  | some bytes => (fromUtf8 bytes.reverse).map some

/-- `prefix_key_range`: the lower bound, and the upper bound if there is one. -/
def prefixKeyRange (pre : Str) : Option (Str × Option Str) :=
  (incrementPrefix pre).map fun upper => (pre, upper)

/-- The range of an optional prefix; the outer `none` is the panic. -/
def listRange : Option Str → Option (Option (Str × Option Str))
  | none => some none
  | some pre => (prefixKeyRange pre).map some

/-- A listed row: key, size, etag. -/
abbrev ListedRow := Str × ℤ × Str

namespace Store

/-- The conditions `list_objects` puts on a key: past the marker, or at least the
lower bound when there is no marker, and below the upper bound. -/
def inListRange (after : Option Str) (range : Option (Str × Option Str)) (key : Str) : Bool :=
  (match after, range with
    | some a, _ => decide (a < key)
    | none, some (lower, _) => decide (lower ≤ key)
    | none, none => true) &&
  (match range with
    | some (_, some upper) => decide (key < upper)
    | _ => true)

/-- The row of a live object of `bucket`, as a listing returns it. -/
def listedRow (bucket : Str) (e : Sigma fun _ : Str × Str => ObjectRow) : Option ListedRow :=
  if e.1.1 = bucket ∧ e.2.deleted = false then some (e.1.2, e.2.size, e.2.etag) else none

/-- The live rows of `objects`. -/
def liveRows (s : Store) : List (Sigma fun _ : Str × Str => ObjectRow) :=
  s.objects.entries.filter fun e => e.2.deleted = false

/-- `list_buckets`: the buckets that have a live object, each with its oldest stamp. -/
def listBuckets (s : Store) : List (Str × ℤ) :=
  sortBy Prod.fst (((s.liveRows.map fun e => e.1.1).dedup).map fun bucket =>
    (bucket,
      (((s.liveRows.filter fun e => e.1.1 = bucket).map fun e => e.2.updatedAt).min?).getD 0))

/-- `list_objects`; `none` is the panic of `prefix_key_range`. -/
def listObjects (s : Store) (bucket : Str) (after pre : Option Str) (pageSize : ℕ) :
    Option (List ListedRow × Bool) :=
  let query (range : Option (Str × Option Str)) :=
    let rows := sortBy Prod.fst
      ((s.objects.entries.filterMap (listedRow bucket)).filter fun r => inListRange after range r.1)
    let rows := rows.take (pageSize + 1)
    (rows.take pageSize, decide (pageSize < rows.length))
  match pre with
  | none => some (query none)
  | some p => (prefixKeyRange p).map fun range => query (some range)

/-- The live rows of a bucket, in key order. -/
def bucketRows (s : Store) (bucket : Str) : List ListedRow :=
  sortBy Prod.fst (s.objects.entries.filterMap (listedRow bucket))

/-- What is listed of an object. -/
theorem mem_listedRows {s : Store} {bucket : Str} {r : ListedRow} :
    r ∈ s.objects.entries.filterMap (listedRow bucket) ↔
      ∃ row, s.objects.lookup (bucket, r.1) = some row ∧ row.deleted = false ∧
        r.2 = (row.size, row.etag) := by
  obtain ⟨key, size, etag⟩ := r
  rw [List.mem_filterMap]
  constructor
  · rintro ⟨⟨⟨b, k⟩, row⟩, he, hr⟩
    simp only [listedRow, Option.ite_none_right_eq_some, Option.some.injEq, Prod.mk.injEq] at hr
    obtain ⟨⟨rfl, hd⟩, rfl, rfl, rfl⟩ := hr
    exact ⟨row, Table.lookup_eq_some_iff.2 he, hd, rfl⟩
  · rintro ⟨row, hrow, hd, hr⟩
    refine ⟨⟨(bucket, key), row⟩, Table.lookup_eq_some_iff.1 hrow, ?_⟩
    simp only [listedRow, hd, and_self, if_true, ← hr]

/-- A bucket has one row per key. -/
theorem nodup_listedKeys (s : Store) (bucket : Str) :
    ((s.objects.entries.filterMap (listedRow bucket)).map Prod.fst).Nodup := by
  refine Table.nodup_filterMap fun e e' r r' hr hr' heq => ?_
  simp only [listedRow, Option.ite_none_right_eq_some, Option.some.injEq] at hr hr'
  obtain ⟨⟨hb, -⟩, rfl⟩ := hr
  obtain ⟨⟨hb', -⟩, rfl⟩ := hr'
  exact Prod.ext (hb.trans hb'.symm) heq

/-- The rows of a bucket come in the order of their keys. -/
theorem sortedBy_bucketRows (s : Store) (bucket : Str) :
    SortedBy Prod.fst (s.bucketRows bucket) :=
  sortedBy_sortBy (s.nodup_listedKeys bucket)

/-- They are the live rows of the bucket. -/
theorem mem_bucketRows {s : Store} {bucket : Str} {r : ListedRow} :
    r ∈ s.bucketRows bucket ↔
      ∃ row, s.objects.lookup (bucket, r.1) = some row ∧ row.deleted = false ∧
        r.2 = (row.size, row.etag) := by
  rw [bucketRows, mem_sortBy, mem_listedRows]

/-- The live rows of a bucket past a marker, in the range of a prefix. -/
def rowsAfter (s : Store) (bucket : Str) (after : Option Str) (range : Option (Str × Option Str)) :
    List ListedRow :=
  (s.bucketRows bucket).filter fun r => inListRange after range r.1

/-- A page is cut from the live rows of the bucket, in key order. -/
theorem listObjects_eq (s : Store) (bucket : Str) (after pre : Option Str) (pageSize : ℕ) :
    s.listObjects bucket after pre pageSize = (listRange pre).map fun range =>
      ((s.rowsAfter bucket after range).take pageSize,
        decide (pageSize < (s.rowsAfter bucket after range).length)) := by
  have hsort : ∀ p : ListedRow → Bool,
      sortBy Prod.fst ((s.objects.entries.filterMap (listedRow bucket)).filter p) =
        (s.bucketRows bucket).filter p := by
    intro p
    refine eq_of_mem_iff (sortedBy_sortBy ?_)
      ((s.sortedBy_bucketRows bucket).filter p) fun r => ?_
    · exact (s.nodup_listedKeys bucket).sublist (List.filter_sublist.map _)
    · simp [bucketRows]
  have hlen : ∀ l : List ListedRow,
      decide (pageSize < (l.take (pageSize + 1)).length) = decide (pageSize < l.length) := by
    intro l
    rw [List.length_take]
    exact decide_eq_decide.2 ⟨fun h => by omega, fun h => by omega⟩
  have hquery : ∀ range, ((sortBy Prod.fst ((s.objects.entries.filterMap (listedRow bucket)).filter
        fun r => inListRange after range r.1)).take (pageSize + 1)).take pageSize =
      (s.rowsAfter bucket after range).take pageSize := by
    intro range
    rw [hsort, List.take_take, Nat.min_eq_left (Nat.le_succ pageSize), rowsAfter]
  cases pre with
  | none =>
    refine congrArg some (Prod.ext (hquery none) ?_)
    exact (hlen _).trans (by rw [hsort]; rfl)
  | some p =>
    rw [listRange, Option.map_map]
    refine congrArg (Option.map · _) (funext fun range => Prod.ext (hquery (some range)) ?_)
    exact (hlen _).trans (by rw [hsort]; rfl)

/-- The live rows of a bucket are what reads return. -/
theorem mem_bucketRows_iff_getObject {s : Store} {bucket : Str} {r : ListedRow} :
    r ∈ s.bucketRows bucket ↔ ∃ blocks, s.getObject bucket r.1 = some (blocks, r.2) := by
  obtain ⟨key, size, etag⟩ := r
  rw [mem_bucketRows]
  constructor
  · rintro ⟨row, hrow, hd, hr⟩
    cases hr
    exact ⟨_, getObject_eq_some_iff.2 ⟨row, hrow, hd, rfl, rfl, rfl⟩⟩
  · rintro ⟨blocks, hget⟩
    obtain ⟨row, hrow, hd, -, rfl, rfl⟩ := getObject_eq_some_iff.1 hget
    exact ⟨row, hrow, hd, rfl⟩

/-- The live rows of two stores that read alike. -/
theorem bucketRows_congr {s s' : Store}
    (h : ∀ bucket key, s.getObject bucket key = s'.getObject bucket key)
    (bucket : Str) : s.bucketRows bucket = s'.bucketRows bucket := by
  refine eq_of_mem_iff (s.sortedBy_bucketRows bucket) (s'.sortedBy_bucketRows bucket) fun r => ?_
  rw [mem_bucketRows_iff_getObject, mem_bucketRows_iff_getObject, h bucket r.1]

/-- **Stores that read alike list alike**: the same page for every bucket, marker,
prefix and page size. -/
theorem listObjects_congr {s s' : Store}
    (h : ∀ bucket key, s.getObject bucket key = s'.getObject bucket key)
    (bucket : Str) (after pre : Option Str) (pageSize : ℕ) :
    s.listObjects bucket after pre pageSize = s'.listObjects bucket after pre pageSize := by
  have hrows : ∀ range, s.rowsAfter bucket after range = s'.rowsAfter bucket after range :=
    fun range => by rw [rowsAfter, rowsAfter, bucketRows_congr h]
  rw [listObjects_eq, listObjects_eq]
  exact congrArg (Option.map · _) (funext fun range => by rw [hrows])

end Store
end Shardscape
