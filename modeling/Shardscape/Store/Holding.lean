/-
# Who holds a block, and who names it

The collector and the drainer turn on four questions about a block: does this
site hold it (`HoldsLocally`, a `block_locations` row of this site), does it know
another site that does (`KnownElsewhere`), is it queued for a pull to this site
(`Queued`), and does a live manifest or a part name it (`NamedByObject`,
`NamedByPart`).  The queries of `Shardscape.Store.Blocks` answer them
(`mem_listLocalBlockHashes`, `mem_computeLiveBlockSet`, …), and each operation has
a lemma saying how it changes the answers.
-/

import Shardscape.Store.Blocks

namespace Shardscape
namespace Store

open Lib

/-- This site has a location row for `h`. -/
def HoldsLocally (s : Store) (h : Bytes) : Prop :=
  ∃ row, s.blockLocations.lookup (h, s.localLocationId) = some row

/-- Another site has a location row for `h` here. -/
def KnownElsewhere (s : Store) (h : Bytes) : Prop :=
  ∃ loc row, loc ≠ s.localLocationId ∧ s.blockLocations.lookup (h, loc) = some row

/-- A pull of `h` to this site is queued. -/
def Queued (s : Store) (h : Bytes) : Prop :=
  ∃ row, s.replicationQueue.lookup (s.localLocationId, h) = some row

/-- A live object row names `h`. -/
def NamedByObject (s : Store) (h : Bytes) : Prop :=
  ∃ k row, s.objects.lookup k = some row ∧ row.deleted = false ∧ h ∈ decodeBlocks row.blocks

/-- A part row names `h`. -/
def NamedByPart (s : Store) (h : Bytes) : Prop :=
  ∃ k row, s.parts.lookup k = some row ∧ h ∈ decodeBlocks row.blocks

/-! ### What the queries answer -/

variable {s : Store} {h : Bytes}

/-- There is no file id exactly for the blocks that are not held. -/
theorem getLocalBlockFid_eq_none_iff :
    s.getLocalBlockFid h = none ↔ ¬ s.HoldsLocally h := by
  rw [getLocalBlockFid, Option.map_eq_none_iff, Option.eq_none_iff_forall_ne_some]
  simp [HoldsLocally]

/-- There is a file id exactly for the blocks that are held. -/
theorem getLocalBlockFid_isSome_iff :
    (s.getLocalBlockFid h).isSome ↔ s.HoldsLocally h := by
  rw [← not_iff_not, ← getLocalBlockFid_eq_none_iff, Option.not_isSome_iff_eq_none]

instance (s : Store) (h : Bytes) : Decidable (s.HoldsLocally h) :=
  decidable_of_iff _ getLocalBlockFid_isSome_iff

/-- The listed hashes are the blocks that are held. -/
theorem mem_listLocalBlockHashes :
    h ∈ s.listLocalBlockHashes ↔ s.HoldsLocally h := by
  rw [listLocalBlockHashes, List.mem_filterMap]
  constructor
  · rintro ⟨⟨⟨h', loc⟩, row⟩, he, hs⟩
    simp only [Option.ite_none_right_eq_some, Option.some.injEq] at hs
    obtain ⟨rfl, rfl⟩ := hs
    exact ⟨row, Table.lookup_eq_some_iff.2 he⟩
  · rintro ⟨row, hrow⟩
    exact ⟨⟨(h, s.localLocationId), row⟩, Table.lookup_eq_some_iff.1 hrow, by simp⟩

/-- A block has one row per site, so a site lists each block it holds once. -/
theorem nodup_listLocalBlockHashes (s : Store) : s.listLocalBlockHashes.Nodup := by
  rw [← List.map_id s.listLocalBlockHashes]
  refine Table.nodup_filterMap fun e e' h h' hh hh' heq => ?_
  simp only [Option.ite_none_right_eq_some, Option.some.injEq] at hh hh'
  obtain ⟨hl, rfl⟩ := hh
  obtain ⟨hl', rfl⟩ := hh'
  exact Prod.ext heq (hl.trans hl'.symm)

/-- The blocks of the object rows are those a live row names. -/
theorem mem_objectBlocks : h ∈ s.objectBlocks ↔ s.NamedByObject h := by
  rw [objectBlocks, List.mem_flatMap]
  constructor
  · rintro ⟨⟨k, row⟩, he, hh⟩
    cases hd : row.deleted with
    | true => simp [hd] at hh
    | false =>
      rw [hd, if_neg Bool.false_ne_true] at hh
      exact ⟨k, row, Table.lookup_eq_some_iff.2 he, hd, hh⟩
  · rintro ⟨k, row, hrow, hd, hh⟩
    exact ⟨⟨k, row⟩, Table.lookup_eq_some_iff.1 hrow, by simpa [hd] using hh⟩

/-- The blocks of the part rows are those a part names. -/
theorem mem_partBlocks : h ∈ s.partBlocks ↔ s.NamedByPart h := by
  rw [partBlocks, List.mem_flatMap]
  constructor
  · rintro ⟨⟨k, row⟩, he, hh⟩
    exact ⟨k, row, Table.lookup_eq_some_iff.2 he, hh⟩
  · rintro ⟨k, row, hrow, hh⟩
    exact ⟨⟨k, row⟩, Table.lookup_eq_some_iff.1 hrow, hh⟩

/-- The live set is what the live manifests and the parts name. -/
theorem mem_computeLiveBlockSet :
    h ∈ s.computeLiveBlockSet ↔ s.NamedByObject h ∨ s.NamedByPart h := by
  rw [computeLiveBlockSet, List.mem_append, mem_objectBlocks, mem_partBlocks]

/-- `get_block_fids` lists a site exactly when it has a location row. -/
theorem mem_getBlockFids {loc : Str} :
    (∃ fid, (loc, fid) ∈ (s.getBlockFids h).getD []) ↔
      ∃ row, s.blockLocations.lookup (h, loc) = some row := by
  have hget : (s.getBlockFids h).getD [] = s.blockLocations.entries.filterMap fun e =>
      if e.1.1 = h then some (e.1.2, e.2.fid) else none := by
    simp only [getBlockFids]
    split_ifs with hemp
    · exact (List.isEmpty_iff.1 hemp).symm
    · rfl
  rw [hget]
  constructor
  · rintro ⟨fid, hf⟩
    obtain ⟨⟨⟨h', loc'⟩, row⟩, he, hs⟩ := List.mem_filterMap.1 hf
    simp only [Option.ite_none_right_eq_some, Option.some.injEq, Prod.mk.injEq] at hs
    obtain ⟨rfl, rfl, -⟩ := hs
    exact ⟨row, Table.lookup_eq_some_iff.2 he⟩
  · rintro ⟨row, hrow⟩
    exact ⟨row.fid, List.mem_filterMap.2
      ⟨⟨(h, loc), row⟩, Table.lookup_eq_some_iff.1 hrow, by simp⟩⟩

/-- The drainer reads rows of the queue that are due, as they are. -/
theorem row_of_mem_getReplicationQueue {nowMs : ℤ} {entry : ReplicationEntry}
    (h : entry ∈ s.getReplicationQueue nowMs) :
    s.replicationQueue.lookup (s.localLocationId, entry.hash) =
        some ⟨entry.nextAttemptAt, entry.attempts, entry.enqueuedAt⟩ ∧
      entry.nextAttemptAt ≤ nowMs := by
  have hrows := (List.mem_insertionSort _).1 (List.mem_of_mem_take h)
  obtain ⟨⟨⟨target, hash⟩, row⟩, he, hs⟩ := List.mem_filterMap.1 hrows
  simp only [Option.ite_none_right_eq_some, Option.some.injEq] at hs
  obtain ⟨⟨rfl, hdue⟩, rfl⟩ := hs
  exact ⟨Table.lookup_eq_some_iff.2 he, hdue⟩

/-- What is handed out to be fetched is queued. -/
theorem queued_of_mem_getReplicationQueue {nowMs : ℤ} {entry : ReplicationEntry}
    (h : entry ∈ s.getReplicationQueue nowMs) : s.Queued entry.hash :=
  ⟨_, (row_of_mem_getReplicationQueue h).1⟩

/-- A block has one entry in a page. -/
theorem nodup_getReplicationQueue (s : Store) (nowMs : ℤ) :
    ((s.getReplicationQueue nowMs).map ReplicationEntry.hash).Nodup := by
  refine List.Nodup.sublist ((List.take_sublist _ _).map _) ?_
  refine ((List.perm_insertionSort _ _).map ReplicationEntry.hash).nodup_iff.2 ?_
  refine Table.nodup_filterMap fun e e' a a' ha ha' heq => ?_
  simp only [Option.ite_none_right_eq_some, Option.some.injEq] at ha ha'
  obtain ⟨⟨hid, -⟩, rfl⟩ := ha
  obtain ⟨⟨hid', -⟩, rfl⟩ := ha'
  exact Prod.ext (hid.trans hid'.symm) heq

/-- A peer that is listed for a block is another holder of it. -/
theorem knownElsewhere_of_mem_getBlockFids (loc : Str) (hne : loc ≠ s.localLocationId)
    (hmem : loc ∈ ((s.getBlockFids h).getD []).map Prod.fst) :
    s.KnownElsewhere h := by
  obtain ⟨⟨loc', fid⟩, hf, rfl⟩ := List.mem_map.1 hmem
  obtain ⟨row, hrow⟩ := mem_getBlockFids.1 ⟨fid, hf⟩
  exact ⟨loc', row, hne, hrow⟩

/-! ### What the operations change -/

/-- Recording a location: that site holds the block from then on. -/
theorem exists_location_upsertBlockLocation (s : Store) (hash : Bytes) (loc : Str) (fid : Bytes)
    (size ts : ℤ) (k : Bytes × Str) :
    (∃ row, (s.upsertBlockLocation hash loc fid size ts).blockLocations.lookup k = some row) ↔
      k = (hash, loc) ∨ ∃ row, s.blockLocations.lookup k = some row :=
  Table.exists_lookup_upsertNewer _ _ _ _

/-- A location row makes the block held if the location is this site. -/
theorem holdsLocally_upsertBlockLocation (s : Store) (hash : Bytes) (loc : Str) (fid : Bytes)
    (size ts : ℤ) (h : Bytes) :
    (s.upsertBlockLocation hash loc fid size ts).HoldsLocally h ↔
      (h = hash ∧ s.localLocationId = loc) ∨ s.HoldsLocally h := by
  rw [HoldsLocally, HoldsLocally]
  refine (exists_location_upsertBlockLocation s hash loc fid size ts
    (h, s.localLocationId)).trans ?_
  rw [Prod.mk.injEq]

/-- A location row makes the block known elsewhere if it is another. -/
theorem knownElsewhere_upsertBlockLocation (s : Store) (hash : Bytes) (loc : Str) (fid : Bytes)
    (size ts : ℤ) (h : Bytes) :
    (s.upsertBlockLocation hash loc fid size ts).KnownElsewhere h ↔
      (h = hash ∧ s.localLocationId ≠ loc) ∨ s.KnownElsewhere h := by
  have hrow := exists_location_upsertBlockLocation s hash loc fid size ts
  simp only [KnownElsewhere, exists_and_left, hrow]
  constructor
  · rintro ⟨loc', hne, he | hex⟩
    · rw [Prod.mk.injEq] at he
      exact .inl ⟨he.1, fun hme => hne (he.2.trans hme.symm)⟩
    · exact .inr ⟨loc', hne, hex⟩
  · rintro (⟨rfl, hne⟩ | ⟨loc', hne, hex⟩)
    · exact ⟨loc, hne.symm, .inl rfl⟩
    · exact ⟨loc', hne, .inr hex⟩

/-- `store_local_block` makes the site a holder, of that block only. -/
theorem holdsLocally_storeLocalBlock (s : Store) (ts : ℤ) (hash fid : Bytes) (size : ℤ)
    (h : Bytes) :
    (s.storeLocalBlock ts hash fid size).HoldsLocally h ↔ h = hash ∨ s.HoldsLocally h := by
  refine (holdsLocally_upsertBlockLocation s hash s.localLocationId fid size ts h).trans ?_
  simp

/-- `store_local_block` says nothing about other sites. -/
theorem knownElsewhere_storeLocalBlock (s : Store) (ts : ℤ) (hash fid : Bytes) (size : ℤ)
    (h : Bytes) :
    (s.storeLocalBlock ts hash fid size).KnownElsewhere h ↔ s.KnownElsewhere h := by
  refine (knownElsewhere_upsertBlockLocation s hash s.localLocationId fid size ts h).trans ?_
  simp

/-- `delete_local_block` ends this site's holding, of that block only. -/
theorem holdsLocally_deleteLocalBlock (s : Store) (hash h : Bytes) :
    (s.deleteLocalBlock hash).1.HoldsLocally h ↔ h ≠ hash ∧ s.HoldsLocally h := by
  simp only [HoldsLocally, deleteLocalBlock, Table.lookup_erase]
  split_ifs with hk
  · have hh : h = hash := (Prod.ext_iff.1 hk).1
    simp [hh]
  · have hh : h ≠ hash := fun he => hk (by rw [he])
    simp [hh]

/-- `delete_local_block` leaves the other sites' rows. -/
theorem knownElsewhere_deleteLocalBlock (s : Store) (hash h : Bytes) :
    (s.deleteLocalBlock hash).1.KnownElsewhere h ↔ s.KnownElsewhere h := by
  simp only [KnownElsewhere, deleteLocalBlock, Table.lookup_erase]
  refine exists_congr fun loc => ?_
  rw [exists_and_left, exists_and_left]
  refine and_congr_right fun hloc => ?_
  rw [if_neg fun he => hloc (Prod.ext_iff.1 he).2]

/-- The tables that say who holds a block and what is queued are the same. -/
structure SameHolding (s s' : Store) : Prop where
  localLocationId : s'.localLocationId = s.localLocationId
  blockLocations : s'.blockLocations = s.blockLocations
  replicationQueue : s'.replicationQueue = s.replicationQueue

/-- The same blocks are held. -/
theorem SameHolding.holdsLocally {s s' : Store} (h : SameHolding s s') (hash : Bytes) :
    s'.HoldsLocally hash ↔ s.HoldsLocally hash := by
  rw [HoldsLocally, HoldsLocally, h.blockLocations, h.localLocationId]

/-- The same blocks are known elsewhere. -/
theorem SameHolding.knownElsewhere {s s' : Store} (h : SameHolding s s') (hash : Bytes) :
    s'.KnownElsewhere hash ↔ s.KnownElsewhere hash := by
  rw [KnownElsewhere, KnownElsewhere, h.blockLocations, h.localLocationId]

/-- The same blocks are queued. -/
theorem SameHolding.queued {s s' : Store} (h : SameHolding s s') (hash : Bytes) :
    s'.Queued hash ↔ s.Queued hash := by
  rw [Queued, Queued, h.replicationQueue, h.localLocationId]

/-- A block named after a row was written is named by that row or was before. -/
theorem namedByObject_putObjectRow {bucket key : Str} {row : ObjectRow}
    (hn : (s.putObjectRow bucket key row).NamedByObject h) :
    s.NamedByObject h ∨ (row.deleted = false ∧ h ∈ decodeBlocks row.blocks) := by
  obtain ⟨k, row', hrow, hd, hh⟩ := hn
  rw [lookup_putObjectRow] at hrow
  split_ifs at hrow with hk
  · rcases Lww.merge_cases ObjectRow.updatedAt (s.objects.lookup (bucket, key)) row with
      ⟨hm, -⟩ | ⟨old, -, -, hm⟩
    · rw [hm, Option.some.injEq] at hrow
      exact .inr (hrow ▸ ⟨hd, hh⟩)
    · rw [hm] at hrow
      exact .inl ⟨_, row', hrow, hd, hh⟩
  · exact .inl ⟨k, row', hrow, hd, hh⟩

/-- Queueing a pull to this site. -/
theorem queued_enqueueReplication (s : Store) (nowMs : ℤ) (hash h : Bytes) :
    (s.enqueueReplication nowMs hash [s.localLocationId]).Queued h ↔ h = hash ∨ s.Queued h := by
  simp only [Queued, enqueueReplication, List.foldl_cons, List.foldl_nil,
    Table.lookup_insertIfAbsent]
  split_ifs with hk
  · have hh : h = hash := (Prod.ext_iff.1 hk).2
    simp [hh]
  · have hh : h ≠ hash := fun he => hk (by rw [he])
    simp [hh]

/-- Taking a pull to this site off the queue. -/
theorem queued_dequeueReplication (s : Store) (hash h : Bytes) :
    (s.dequeueReplication hash).Queued h ↔ h ≠ hash ∧ s.Queued h := by
  simp only [Queued, dequeueReplication, Table.lookup_erase]
  split_ifs with hk
  · have hh : h = hash := (Prod.ext_iff.1 hk).2
    simp [hh]
  · have hh : h ≠ hash := fun he => hk (by rw [he])
    simp [hh]

/-- Rescheduling keeps the queue's entries. -/
theorem queued_deferReplication (s : Store) (nowMs : ℤ) (entry : ReplicationEntry) (h : Bytes) :
    (s.deferReplication nowMs entry).Queued h ↔ s.Queued h := by
  simp only [Queued, deferReplication, Table.lookup_modify]
  split_ifs with hk
  · rw [hk]
    simp
  · rfl

end Store
end Shardscape
