/-
# One page of a bucket listing

`src/storage.rs`: `list_page`, with `group_by_delimiter` and `merge_and_truncate`.
Without a delimiter a page is one page of the store.  With one, the rows past the
marker are gathered 1000 at a time, up to `SCAN_CAP`; the keys that share a part up
to the delimiter collapse into one common prefix; and contents and common prefixes
together are sorted and cut to `max_keys`.  The marker of the next page is the last
key or common prefix of this one.

`none` is the panic of `prefix_key_range`.  `list_objects` fails otherwise only with
an error of the database, which is not modelled.
-/

import Shardscape.Lib.Lex
import Shardscape.Store.Listing

namespace Shardscape

open Lib

/-- The result of `list_page`: objects, common prefixes, `is_truncated`, and
`next_marker`. -/
structure ListPage where
  contents : List ListedRow
  commonPrefixes : List Str
  isTruncated : Bool
  nextMarker : Option Str
  deriving DecidableEq

/-- `str::strip_prefix`. -/
def stripPrefix (pre key : Str) : Option Str :=
  if pre <+: key then some (key.drop pre.length) else none

/-- One turn of the loop of `group_by_delimiter`. -/
def groupRow (pre delimiter : Str) (acc : List ListedRow × List Str) (row : ListedRow) :
    List ListedRow × List Str :=
  match stripPrefix pre row.1 with
  | none => (acc.1 ++ [row], acc.2)
  | some rest =>
    match find delimiter rest with
    | some idx =>
      let cp := pre ++ rest.take idx ++ delimiter
      if acc.2.getLast? ≠ some cp ∧ cp ∉ acc.2 then (acc.1, acc.2 ++ [cp]) else acc
    | none => (acc.1 ++ [row], acc.2)

/-- `group_by_delimiter`: the contents kept, and the common prefixes. -/
def groupByDelimiter (objects : List ListedRow) (pre delimiter : Str) :
    List ListedRow × List Str :=
  objects.foldl (groupRow pre delimiter) ([], [])

/-- The `Item` of `merge_and_truncate`. -/
inductive Item where
  | obj (row : ListedRow)
  | pre (cp : Str)

/-- The object of an item. -/
def Item.obj? : Item → Option ListedRow
  | .obj row => some row
  | .pre _ => none

/-- The common prefix of an item. -/
def Item.pre? : Item → Option Str
  | .obj _ => none
  | .pre cp => some cp

/-- The items of `merge_and_truncate` under their keys, sorted. -/
def mergedItems (contents : List ListedRow) (common : List Str) : List (Str × Item) :=
  sortBy Prod.fst
    (contents.map (fun o => (o.1, Item.obj o)) ++ common.map fun p => (p, Item.pre p))

/-- `merge_and_truncate`. -/
def mergeAndTruncate (contents : List ListedRow) (common : List Str) (maxKeys : ℕ) : ListPage :=
  let merged := mergedItems contents common
  let isTruncated := decide (merged.length > maxKeys)
  let merged := merged.take maxKeys
  { contents := merged.filterMap fun e => e.2.obj?
    commonPrefixes := merged.filterMap fun e => e.2.pre?
    isTruncated := isTruncated
    nextMarker := if isTruncated then merged.getLast?.map Prod.fst else none }

/-- `SCAN_CAP`. -/
def scanCap : ℕ := 100000

/-- The rows `list_page` asks the store for at a time. -/
def scanPage : ℕ := 1000

/-- The loop of `list_page`.  The fuel is the number of turns left; `none` is the
panic of `list_objects`, or no fuel. -/
def gather (objects : Store) (bucket : Str) (pre : Option Str) :
    ℕ → Option Str → List ListedRow → Option (List ListedRow)
  | 0, _, _ => none
  | fuel + 1, cursor, gathered =>
    match objects.listObjects bucket cursor pre scanPage with
    | none => none
    | some (page, more) =>
      let gathered := gathered ++ page
      match page.getLast? with
      | some last =>
        if more = true ∧ gathered.length < scanCap then
          gather objects bucket pre fuel (some last.1) gathered
        else some gathered
      | none => some gathered

/-- `list_page`.  `SCAN_CAP` rows are a hundred pages of the store, so the loop makes
at most that many turns (`gather_eq`). -/
def listPage (objects : Store) (bucket : Str) (startAfter pre delimiter : Option Str)
    (maxKeys : ℕ) : Option ListPage :=
  match delimiter with
  | none =>
    (objects.listObjects bucket startAfter pre maxKeys).map fun (rows, isTruncated) =>
      { contents := rows
        commonPrefixes := []
        isTruncated := isTruncated
        nextMarker := if isTruncated then rows.getLast?.map Prod.fst else none }
  | some delim =>
    (gather objects bucket pre (scanCap / scanPage) startAfter []).map fun gathered =>
      let (contents, common) := groupByDelimiter gathered (pre.getD []) delim
      mergeAndTruncate contents common maxKeys

end Shardscape
