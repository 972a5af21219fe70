/-
# Listings of stores that differ in the bytes of one object

A listing of `src/storage.rs` shows the size and the etag of every object, so it can tell
two such stores apart; but it goes by the keys alone.  `list_objects`, `group_by_delimiter`
and `merge_and_truncate` commute with anything done to the rows that keeps their keys, so
both stores give pages with the same keys in them (`veiled_listPage`), and a clock read
once for every row of a page is read as often in both.
-/

import Shardscape.Access.Hidden

namespace Shardscape

open Lib

/-- A listed row without its size and etag. -/
def ListedRow.veiled (r : ListedRow) : ListedRow := (r.1, 0, [])

/-- The row of an item replaced. -/
def Item.mapRow (f : ListedRow → ListedRow) : Item → Item
  | .obj row => .obj (f row)
  | .pre cp => .pre cp

/-! ### Grouping and merging -/

section

variable {f : ListedRow → ListedRow} (hf : ∀ r, (f r).1 = r.1)

include hf

/-- To group a row looks at its key only. -/
theorem groupRow_map (pre delimiter : Str) (acc : List ListedRow × List Str) (row : ListedRow) :
    groupRow pre delimiter (acc.1.map f, acc.2) (f row) =
      ((groupRow pre delimiter acc row).1.map f, (groupRow pre delimiter acc row).2) := by
  unfold groupRow
  rw [hf row]
  cases stripPrefix pre row.1 with
  | none => simp
  | some rest =>
    dsimp only
    cases find delimiter rest with
    | none => simp
    | some idx =>
      dsimp only
      split <;> rfl

/-- The loop over the rows looks at their keys only. -/
theorem groupByDelimiter_map (rows : List ListedRow) (pre delimiter : Str) :
    groupByDelimiter (rows.map f) pre delimiter =
      ((groupByDelimiter rows pre delimiter).1.map f, (groupByDelimiter rows pre delimiter).2) := by
  have hfold : ∀ acc : List ListedRow × List Str,
      (rows.map f).foldl (groupRow pre delimiter) (acc.1.map f, acc.2) =
        ((rows.foldl (groupRow pre delimiter) acc).1.map f,
          (rows.foldl (groupRow pre delimiter) acc).2) := by
    induction rows with
    | nil => exact fun _ => rfl
    | cons row rows ih =>
      intro acc
      rw [List.map_cons, List.foldl_cons, List.foldl_cons, groupRow_map hf]
      exact ih _
  exact hfold ([], [])

/-- The merge looks at the keys only. -/
theorem mergedItems_map (contents : List ListedRow) (common : List Str) :
    mergedItems (contents.map f) common =
      (mergedItems contents common).map (Prod.map id (Item.mapRow f)) := by
  unfold mergedItems
  refine (congrArg (sortBy Prod.fst) ?_).trans (sortBy_map (fun _ => rfl) _)
  rw [List.map_append, List.map_map, List.map_map, List.map_map]
  simp only [Function.comp_def, Prod.map, id, Item.mapRow, hf]

/-- The cut looks at the keys only. -/
theorem contents_mergeAndTruncate_map (contents : List ListedRow) (common : List Str)
    (maxKeys : ℕ) : (mergeAndTruncate (contents.map f) common maxKeys).contents =
      (mergeAndTruncate contents common maxKeys).contents.map f := by
  have hobj : ∀ l : List (Str × Item),
      (l.map (Prod.map id (Item.mapRow f))).filterMap (fun e => e.2.obj?) =
        (l.filterMap fun e => e.2.obj?).map f := by
    intro l
    rw [List.filterMap_map, List.map_filterMap]
    refine congrArg (List.filterMap · l) (funext fun e => ?_)
    obtain ⟨k, item⟩ := e
    cases item <;> rfl
  simp only [mergeAndTruncate, mergedItems_map hf, ← List.map_take, hobj]

end

/-! ### Pages of two stores -/

namespace Store.AlikeBut

variable {x : Str × Str} {s t : Store}

/-- Both list the same keys. -/
theorem veiled_bucketRows (h : s.AlikeBut x t) (bucket : Str) :
    (t.bucketRows bucket).map ListedRow.veiled = (s.bucketRows bucket).map ListedRow.veiled := by
  have hsorted : ∀ s : Store, SortedBy Prod.fst ((s.bucketRows bucket).map ListedRow.veiled) :=
    fun s => List.pairwise_map.2 (s.sortedBy_bucketRows bucket)
  have hmem : ∀ (s : Store) (r : ListedRow), r ∈ (s.bucketRows bucket).map ListedRow.veiled ↔
      r.2 = (0, []) ∧ ∃ row, (s.objects.lookup (bucket, r.1)).map ObjectRow.veiled = some row ∧
        row.deleted = false := by
    intro s r
    rw [List.mem_map]
    constructor
    · rintro ⟨r, hr, rfl⟩
      obtain ⟨row, hrow, hd, -⟩ := mem_bucketRows.1 hr
      exact ⟨rfl, row.veiled, by rw [ListedRow.veiled, hrow]; rfl, hd⟩
    · rintro ⟨hr, row, hrow, hd⟩
      obtain ⟨row', hrow', rfl⟩ := Option.map_eq_some_iff.1 hrow
      exact ⟨(r.1, row'.size, row'.etag), mem_bucketRows.2 ⟨row', hrow', hd, rfl⟩,
        Prod.ext rfl hr.symm⟩
  refine eq_of_mem_iff (hsorted t) (hsorted s) fun r => ?_
  rw [hmem, hmem, h.veiled_lookup]

/-- A page of the store, veiled. -/
theorem veiled_listObjects (h : s.AlikeBut x t) (bucket : Str) (after pre : Option Str)
    (pageSize : ℕ) :
    (t.listObjects bucket after pre pageSize).map (Prod.map (List.map ListedRow.veiled) id) =
      (s.listObjects bucket after pre pageSize).map (Prod.map (List.map ListedRow.veiled) id) := by
  have hrows : ∀ range, (t.rowsAfter bucket after range).map ListedRow.veiled =
      (s.rowsAfter bucket after range).map ListedRow.veiled := by
    intro range
    have hfilter : ∀ s : Store, (s.rowsAfter bucket after range).map ListedRow.veiled =
        ((s.bucketRows bucket).map ListedRow.veiled).filter fun r => inListRange after range r.1 :=
      fun s => (List.filter_map (p := fun r : ListedRow => inListRange after range r.1)).symm
    rw [hfilter, hfilter, h.veiled_bucketRows]
  have hlen : ∀ range, (t.rowsAfter bucket after range).length =
      (s.rowsAfter bucket after range).length :=
    fun range => by simpa using congrArg List.length (hrows range)
  rw [listObjects_eq, listObjects_eq, Option.map_map, Option.map_map]
  refine congrArg (Option.map · _) (funext fun range => ?_)
  simp only [Function.comp, Prod.map, id, List.map_take, hrows range, hlen range]

/-- The rows gathered for a page, veiled. -/
theorem veiled_gather (h : s.AlikeBut x t) (bucket : Str) (pre : Option Str) (fuel : ℕ)
    (cursor : Option Str) {gathered gathered' : List ListedRow}
    (hg : gathered'.map ListedRow.veiled = gathered.map ListedRow.veiled) :
    (gather t bucket pre fuel cursor gathered').map (List.map ListedRow.veiled) =
      (gather s bucket pre fuel cursor gathered).map (List.map ListedRow.veiled) := by
  induction fuel generalizing cursor gathered gathered' with
  | zero => rfl
  | succ fuel ih =>
    have hpage := h.veiled_listObjects bucket cursor pre scanPage
    unfold gather
    cases hs : s.listObjects bucket cursor pre scanPage with
    | none =>
      rw [hs, Option.map_none, Option.map_eq_none_iff] at hpage
      rw [hpage]
    | some p =>
      rw [hs] at hpage
      obtain ⟨p', hp', hveil⟩ := Option.map_eq_some_iff.1 hpage
      obtain ⟨page, more⟩ := p
      obtain ⟨page', more'⟩ := p'
      obtain ⟨hrows, hmore⟩ := Prod.mk.inj hveil
      obtain rfl : more' = more := hmore
      rw [hp']
      have hall : (gathered' ++ page').map ListedRow.veiled =
          (gathered ++ page).map ListedRow.veiled := by
        rw [List.map_append, List.map_append, hg, hrows]
      have hlast :
          page'.getLast?.map ListedRow.veiled = page.getLast?.map ListedRow.veiled := by
        rw [← List.getLast?_map, ← List.getLast?_map, hrows]
      have hlen : (gathered' ++ page').length = (gathered ++ page).length := by
        simpa using congrArg List.length hall
      cases hl : page.getLast? with
      | none =>
        rw [hl, Option.map_none, Option.map_eq_none_iff] at hlast
        simpa only [hlast, hl, Option.map_some] using congrArg some hall
      | some last =>
        rw [hl] at hlast
        obtain ⟨last', hl', hveil⟩ := Option.map_eq_some_iff.1 hlast
        have hkey : last'.1 = last.1 := (Prod.mk.inj hveil).1
        simp only [hl', hl, hlen, hkey]
        split
        · exact ih _ hall
        · exact congrArg some hall

/-- **Pages with the same keys.** -/
theorem veiled_listPage (h : s.AlikeBut x t) (bucket : Str) (startAfter pre delimiter : Option Str)
    (maxKeys : ℕ) :
    (listPage t bucket startAfter pre delimiter maxKeys).map
        (fun page => page.contents.map ListedRow.veiled) =
      (listPage s bucket startAfter pre delimiter maxKeys).map
        fun page => page.contents.map ListedRow.veiled := by
  cases delimiter with
  | none =>
    have hpage := congrArg (Option.map Prod.fst)
      (h.veiled_listObjects bucket startAfter pre maxKeys)
    simpa only [listPage, Option.map_map, Function.comp_def, Prod.map] using hpage
  | some delim =>
    -- a page is a function of the veiled rows, up to what is veiled
    have hpage : ∀ rows : List ListedRow, (mergeAndTruncate (groupByDelimiter rows (pre.getD [])
          delim).1 (groupByDelimiter rows (pre.getD []) delim).2 maxKeys).contents.map
            ListedRow.veiled =
        (mergeAndTruncate (groupByDelimiter (rows.map ListedRow.veiled) (pre.getD []) delim).1
          (groupByDelimiter (rows.map ListedRow.veiled) (pre.getD []) delim).2
            maxKeys).contents := by
      intro rows
      rw [groupByDelimiter_map (f := ListedRow.veiled) (fun _ => rfl),
        contents_mergeAndTruncate_map (f := ListedRow.veiled) fun _ => rfl]
    have hgather := h.veiled_gather bucket pre (scanCap / scanPage) startAfter
      (rfl : ([] : List ListedRow).map ListedRow.veiled = _)
    simp only [listPage, Option.map_map, Function.comp_def, hpage]
    have := congrArg (Option.map fun rows =>
      (mergeAndTruncate (groupByDelimiter rows (pre.getD []) delim).1
        (groupByDelimiter rows (pre.getD []) delim).2 maxKeys).contents) hgather
    simpa only [Option.map_map, Function.comp_def] using this

end Store.AlikeBut
end Shardscape
