/-
# Blocks that are what they are called

A block is named by the hash of its bytes.  `Intact` says of a site that every block it
holds has, under the token of its row, bytes of `D` that hash to its name, and that every
block it has heard of has the size of such bytes.

The blob backend is assumed to return what was written (`BlobStore.Lawful`, which the
local backend satisfies).
-/

import Shardscape.Backend.BlocksKept
import Mathlib.Data.Set.Function

namespace Shardscape

open Lib

/-- A blob backend that returns what was written: `Written` says that the bytes of
a block are there under a token.  Puts and deletions of one block leave the others
alone. -/
structure BlobStore.Lawful (Blob : BlobStore) where
  Written : Blob.State → (hash fid data : Bytes) → Prop
  get_of_written : ∀ {s h f d}, Written s h f d → Blob.get s h f = .ok d
  written_put : ∀ s h d, Written (Blob.put s h d).1 h (Blob.put s h d).2 d
  written_put_of_ne : ∀ {s h d h' f' d'}, h' ≠ h → Written s h' f' d' →
    Written (Blob.put s h d).1 h' f' d'
  written_delete_of_ne : ∀ {s h f d h' f' d'}, h' ≠ h → Written s h f d → Written s h' f' d' →
    Written (Blob.delete s h f) h' f' d'

/-- The local backend keeps a file per hash. -/
def localBlob.lawful : localBlob.Lawful where
  Written (files : Table Bytes Bytes) h _ d := files.lookup h = some d
  get_of_written h := by
    simp only [localBlob]
    rw [h]
  written_put files h d := AList.lookup_insert _
  written_put_of_ne hne h := (AList.lookup_insert_ne hne).trans h
  written_delete_of_ne hne _ h := (AList.lookup_erase_ne hne).trans h

/-- Every block is what it is called: its bytes, and the size on record. -/
structure Intact {Blob : BlobStore} (B : Blake3) (L : Blob.Lawful) (D : Set Bytes)
    (s : Site Blob) : Prop where
  bytes : ∀ h row, s.store.blockLocations.lookup (h, s.store.localLocationId) = some row →
    ∃ d ∈ D, h = B.hash d ∧ L.Written s.blobs h row.fid d
  sized : ∀ h, s.store.HoldsLocally h → ∃ row, s.store.blocks.lookup h = some row
  sizes : ∀ h row, s.store.blocks.lookup h = some row → ∃ d ∈ D, h = B.hash d ∧ row.size = d.length

namespace Intact

variable {Blob : BlobStore} {B : Blake3} {L : Blob.Lawful} {D : Set Bytes} {s s' : Site Blob}

/-- A step on other tables. -/
theorem frame (hs : Intact B L D s) (hloc : s'.store.localLocationId = s.store.localLocationId)
    (hlocations : s'.store.blockLocations = s.store.blockLocations)
    (hblocks : s'.store.blocks = s.store.blocks) (hblobs : s'.blobs = s.blobs) :
    Intact B L D s' where
  bytes h row hrow := by
    rw [hlocations, hloc] at hrow
    rw [hblobs]
    exact hs.bytes h row hrow
  sized h hh := by
    rw [Store.HoldsLocally, hlocations, hloc] at hh
    rw [hblocks]
    exact hs.sized h hh
  sizes h row hrow := hs.sizes h row (hblocks ▸ hrow)

/-- The size on record after it was told again. -/
theorem sizes_upsert (hs : Intact B L D s) {d : Bytes} (hd : d ∈ D) {ts : ℤ} {h : Bytes}
    {row : BlockRow}
    (hrow : (Table.upsertNewer BlockRow.updatedAt s.store.blocks (B.hash d)
      ⟨d.length, ts⟩).lookup h = some row) : ∃ d ∈ D, h = B.hash d ∧ row.size = d.length := by
  rw [Table.lookup_upsertNewer] at hrow
  split_ifs at hrow with hk
  · rcases Lww.merge_cases BlockRow.updatedAt (s.store.blocks.lookup (B.hash d)) ⟨d.length, ts⟩
      with ⟨hm, -⟩ | ⟨old, -, -, hm⟩
    · rw [hm, Option.some.injEq] at hrow
      exact ⟨d, hd, hk, by rw [← hrow]⟩
    · rw [hm] at hrow
      rw [hk]
      exact hs.sizes _ row hrow
  · exact hs.sizes h row hrow

/-- A new block, with its bytes in the blob store. -/
theorem stored (hs : Intact B L D s) {d : Bytes} (hd : d ∈ D)
    (hno : ¬ s.store.HoldsLocally (B.hash d)) (ts : ℤ) :
    Intact B L D
      { s with
        blobs := (Blob.put s.blobs (B.hash d) d).1
        store := s.store.storeLocalBlock ts (B.hash d) (Blob.put s.blobs (B.hash d) d).2
          d.length } where
  bytes h row hrow := by
    have hnone : s.store.blockLocations.lookup (B.hash d, s.store.localLocationId) = none :=
      Option.eq_none_iff_forall_ne_some.2 fun row hrow => hno ⟨row, hrow⟩
    rw [Store.storeLocalBlock, Store.appendFact, Store.upsertBlockLocation,
      Table.lookup_upsertNewer] at hrow
    split_ifs at hrow with hk
    · rw [hnone, Lww.merge_none, Option.some.injEq] at hrow
      have hh : h = B.hash d := (Prod.ext_iff.1 hk).1
      refine ⟨d, hd, hh, ?_⟩
      rw [← hrow, hh]
      exact L.written_put _ _ _
    · obtain ⟨d', hd', hh, hw⟩ := hs.bytes h row hrow
      refine ⟨d', hd', hh, L.written_put_of_ne (fun he => hk ?_) hw⟩
      rw [he]
  sized h hh := by
    rw [Store.storeLocalBlock, Store.appendFact, Store.upsertBlockLocation]
    rw [Table.exists_lookup_upsertNewer]
    exact ((Store.holdsLocally_storeLocalBlock _ _ _ _ _ h).1 hh).imp id (hs.sized h)
  sizes _ _ hrow := hs.sizes_upsert hd hrow

/-- A block goes, with its bytes. -/
theorem reaped (hs : Intact B L D s) {h : Bytes} {row : LocationRow}
    (hrow : s.store.blockLocations.lookup (h, s.store.localLocationId) = some row) :
    Intact B L D
      { s with
        store := (s.store.deleteLocalBlock h).1
        blobs := Blob.delete s.blobs h row.fid } where
  bytes h' row' hrow' := by
    obtain ⟨d, -, -, hwritten⟩ := hs.bytes h row hrow
    have hne : h' ≠ h := ((Store.holdsLocally_deleteLocalBlock s.store h h').1 ⟨row', hrow'⟩).1
    have hold : s.store.blockLocations.lookup (h', s.store.localLocationId) = some row' := by
      have hk : (h', s.store.localLocationId) ≠ (h, s.store.localLocationId) :=
        fun he => hne (Prod.ext_iff.1 he).1
      exact (AList.lookup_erase_ne hk).symm.trans hrow'
    obtain ⟨d', hd', hh', hw⟩ := hs.bytes h' row' hold
    exact ⟨d', hd', hh', L.written_delete_of_ne hne hwritten hw⟩
  sized h' hh' := by
    obtain ⟨hne, hh'⟩ := (Store.holdsLocally_deleteLocalBlock s.store h h').1 hh'
    obtain ⟨br, hbr⟩ := hs.sized h' hh'
    refine ⟨br, ?_⟩
    rw [Store.deleteLocalBlock]
    dsimp only
    split_ifs
    · exact (AList.lookup_erase_ne hne).trans hbr
    · exact hbr
  sizes h' row' hrow' := by
    rw [Store.deleteLocalBlock] at hrow'
    dsimp only at hrow'
    split_ifs at hrow'
    · rw [Table.lookup_erase] at hrow'
      split_ifs at hrow'
      exact hs.sizes h' row' hrow'
    · exact hs.sizes h' row' hrow'

/-- Bytes are good for a block if they hash to its name. -/
def Named (B : Blake3) (D : Set Bytes) (h d : Bytes) : Prop := d ∈ D ∧ h = B.hash d

instance (B : Blake3) (D : Set Bytes) [DecidablePred (· ∈ D)] (h d : Bytes) :
    Decidable (Named B D h d) :=
  inferInstanceAs (Decidable (d ∈ D ∧ h = B.hash d))

/-- **Writers and sweeps keep the blocks intact**, if they are given bytes that hash to
the name. -/
theorem blocksKept : Site.BlocksKept (Named B D) (Intact B L D : Site Blob → Prop) where
  ticked _ h := h.frame rfl rfl rfl rfl
  marked _ _ h := h.frame rfl rfl rfl rfl
  queued _ _ h := h.frame rfl rfl rfl rfl
  stored := by
    rintro s _ d ts ⟨hd, rfl⟩ hno h
    exact h.stored hd hno ts
  reaped _ _ _ hrow _ h := h.reaped hrow

end Intact
end Shardscape
