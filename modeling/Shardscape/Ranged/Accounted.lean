/-
# Sizes that are accounted for

A ranged GET (`src/storage.rs`: `get_object`) finds the blocks it needs from their sizes
alone, and `block_sizes` (`src/store.rs`) answers 0 for a block without a row.  It is
right where the sizes are: where every block that a live manifest names has a row, with
its true size, and every manifest the sum of them (`Accounted`).

The true bytes of a block are a parameter here, `data`: what is stored or fetched under a
hash is what `data` says.  Under that assumption every change of a site's tables keeps its
accounts but one.  Blocks are stored before a manifest names them, a sweep deletes none that
is named, and what is logged is true.  But the `ObjectPut` of a peer may name a block that
this site has not heard of; `Knows` says that it does not.
-/

import Shardscape.Backend.BlocksKept
import Shardscape.Collector.Locations

namespace Shardscape

open Lib

variable {data : Bytes → Bytes}

/-- The bytes of a manifest. -/
def assembled (data : Bytes → Bytes) (blocks : List Bytes) : Bytes := (blocks.map data).flatten

/-- The bytes of two lists of blocks follow each other. -/
@[simp] theorem assembled_append (blocks blocks' : List Bytes) :
    assembled data (blocks ++ blocks') = assembled data blocks ++ assembled data blocks' := by
  simp [assembled]

/-- The sizes a fact tells are true. -/
def TrueFact (data : Bytes → Bytes) : Fact → Prop
  | .objectPut _ _ blocks size _ => ∀ bs, hexDecodeAll blocks = some bs →
      (∀ b ∈ bs, b.length = 32) ∧ size = (assembled data bs).length
  | .blockAnnounce hash _ _ size => ∀ h, hexDecode hash = some h → size = (data h).length
  | _ => True

namespace Store

/-- Every block that is named has a row, and every size is true. -/
structure Accounted (data : Bytes → Bytes) (s : Store) : Prop where
  held : ∀ h, s.HoldsLocally h → s.Recorded h
  named : ∀ h, s.NamedByObject h ∨ s.NamedByPart h → s.Recorded h
  blocks : ∀ h row, s.blocks.lookup h = some row → row.size = (data h).length
  objects : ∀ k row, s.objects.lookup k = some row → row.deleted = false →
    row.size = (assembled data (decodeBlocks row.blocks)).length
  parts : ∀ k row, s.parts.lookup k = some row →
    row.size = (assembled data (decodeBlocks row.blocks)).length
  log : ∀ e ∈ s.factLog, TrueFact data e.2

variable {s s' : Store}

/-- A new database names no block. -/
theorem accounted_new (localId : Str) : (Store.new localId).Accounted data where
  held _ := nofun
  named _ := by rintro (⟨_, _, h, _⟩ | ⟨_, _, h, _⟩) <;> exact nomatch h
  blocks _ _ := nofun
  objects _ _ := nofun
  parts _ _ := nofun
  log _ := nofun

namespace Accounted

/-! ### One table at a time -/

variable (h : s.Accounted data)
include h

/-- A change of other tables. -/
theorem frame (hid : s'.localLocationId = s.localLocationId)
    (hlocations : s'.blockLocations = s.blockLocations) (hblocks : s'.blocks = s.blocks)
    (hobjects : s'.objects = s.objects) (hparts : s'.parts = s.parts)
    (hlog : s'.factLog = s.factLog) : s'.Accounted data where
  held x hx := by
    rw [HoldsLocally, hlocations, hid] at hx
    rw [Recorded, hblocks]
    exact h.held x hx
  named x hx := by
    rw [NamedByObject, NamedByPart, hobjects, hparts] at hx
    rw [Recorded, hblocks]
    exact h.named x hx
  blocks x row hrow := h.blocks x row (hblocks ▸ hrow)
  objects k row hrow := h.objects k row (hobjects ▸ hrow)
  parts k row hrow := h.parts k row (hparts ▸ hrow)
  log e he := h.log e (hlog ▸ he)

/-- A peer is no matter of blocks. -/
theorem recordPeer (nowMs : ℤ) (locationId apiUrl : Str) :
    (s.recordPeer nowMs locationId apiUrl).Accounted data := by
  unfold Store.recordPeer
  split_ifs
  · exact h
  · exact h.frame rfl rfl rfl rfl rfl rfl

/-- A fact is logged that tells the truth. -/
theorem appendFact (ts : ℤ) {fact : Fact} (hfact : TrueFact data fact) :
    (s.appendFact ts fact).Accounted data where
  held := h.held
  named := h.named
  blocks := h.blocks
  objects := h.objects
  parts := h.parts
  log e he := by
    rcases List.mem_append.1 he with he | he
    · exact h.log e he
    · rw [List.mem_singleton.1 he]
      exact hfact

/-- A location is recorded, with the true size. -/
theorem upsertBlockLocation (hash : Bytes) (loc : Str) (fid : Bytes) {size : ℤ}
    (hsize : size = (data hash).length) (ts : ℤ) :
    (s.upsertBlockLocation hash loc fid size ts).Accounted data where
  held x hx := by
    rw [recorded_upsertBlockLocation]
    rw [holdsLocally_upsertBlockLocation] at hx
    exact hx.imp And.left (h.held x)
  named x hx := by
    rw [recorded_upsertBlockLocation]
    exact .inr (h.named x hx)
  blocks x row hrow := by
    rcases lookup_blocks_upsertBlockLocation hrow with hold | ⟨rfl, hnew⟩
    · exact h.blocks x row hold
    · rw [hnew, hsize]
  objects := h.objects
  parts := h.parts
  log := h.log

/-- A block is stored, with its true bytes. -/
theorem storeLocalBlock (ts : ℤ) (hash fid : Bytes) {size : ℤ}
    (hsize : size = (data hash).length) : (s.storeLocalBlock ts hash fid size).Accounted data := by
  refine (h.upsertBlockLocation hash s.localLocationId fid hsize ts).appendFact ts ?_
  intro x hx
  rw [hexDecode_hexEncode, Option.some.injEq] at hx
  rw [hsize, hx]

/-- A block that nothing names goes. -/
theorem deleteLocalBlock {hash : Bytes} (hnot : ¬ (s.NamedByObject hash ∨ s.NamedByPart hash)) :
    (s.deleteLocalBlock hash).1.Accounted data := by
  -- only the row of this block may go
  have hrecorded : ∀ x, x ≠ hash → s.Recorded x → (s.deleteLocalBlock hash).1.Recorded x := by
    rintro x hx ⟨row, hrow⟩
    refine ⟨row, ?_⟩
    simp only [Store.deleteLocalBlock]
    split_ifs
    · rw [Table.lookup_erase, if_neg hx, hrow]
    · exact hrow
  refine ⟨fun x hx => ?_, fun x hx => ?_, fun x row hrow => ?_, h.objects, h.parts, h.log⟩
  · rw [holdsLocally_deleteLocalBlock] at hx
    exact hrecorded x hx.1 (h.held x hx.2)
  · exact hrecorded x (fun he => hnot (he ▸ hx)) (h.named x hx)
  · exact h.blocks x row (lookup_blocks_deleteLocalBlock hrow)

/-- A row is written: if it takes effect and is a manifest, its blocks are known and its size is
true. -/
theorem putObjectRow (bucket key : Str) {row : ObjectRow}
    (hrow : (∀ old ∈ s.objects.lookup (bucket, key), old.updatedAt < row.updatedAt) →
      row.deleted = false → (∀ b ∈ decodeBlocks row.blocks, s.Recorded b) ∧
        row.size = (assembled data (decodeBlocks row.blocks)).length) :
    (s.putObjectRow bucket key row).Accounted data := by
  have hlookup : ∀ k row', (s.putObjectRow bucket key row).objects.lookup k = some row' →
      row'.deleted = false → (∀ b ∈ decodeBlocks row'.blocks, s.Recorded b) ∧
        row'.size = (assembled data (decodeBlocks row'.blocks)).length := by
    intro k row' hrow' hlive
    have hold : s.objects.lookup k = some row' → _ := fun hold =>
      (⟨fun b hb => h.named b (.inl ⟨k, row', hold, hlive, hb⟩), h.objects k row' hold hlive⟩ :
        (∀ b ∈ decodeBlocks row'.blocks, s.Recorded b) ∧
          row'.size = (assembled data (decodeBlocks row'.blocks)).length)
    rw [lookup_putObjectRow] at hrow'
    split_ifs at hrow' with hk
    · rcases Lww.merge_cases ObjectRow.updatedAt (s.objects.lookup (bucket, key)) row with
        ⟨hm, hnewer⟩ | ⟨old, -, -, hm⟩
      · rw [hm, Option.some.injEq] at hrow'
        exact hrow' ▸ hrow hnewer (hrow' ▸ hlive)
      · rw [hm] at hrow'
        exact hold (hk ▸ hrow')
    · exact hold hrow'
  refine ⟨h.held, ?_, h.blocks, fun k row' hrow' hlive => (hlookup k row' hrow' hlive).2, h.parts,
    h.log⟩
  rintro x (⟨k, row', hrow', hlive, hx⟩ | hx)
  · exact (hlookup k row' hrow' hlive).1 x hx
  · exact h.named x (.inr hx)

/-- A manifest of known blocks is written and logged. -/
theorem insertObject (ts : ℤ) (bucket : Str) (shardId : ℤ) (key : Str)
    {blocks : List Bytes} (hlen : ∀ b ∈ blocks, b.length = 32) (hknown : ∀ b ∈ blocks, s.Recorded b)
    {size : ℤ} (hsize : size = (assembled data blocks).length) (etag : Str) :
    (s.insertObject ts bucket shardId key blocks size etag).Accounted data := by
  refine Accounted.appendFact (h.putObjectRow bucket key fun _ _ => ?_) ts ?_
  · show (∀ b ∈ decodeBlocks (encodeBlocks blocks), s.Recorded b) ∧
      size = (assembled data (decodeBlocks (encodeBlocks blocks))).length
    rw [decodeBlocks_encodeBlocks hlen]
    exact ⟨hknown, hsize⟩
  · intro bs hbs
    rw [hexDecodeAll_map_hexEncode, Option.some.injEq] at hbs
    exact hbs ▸ ⟨hlen, hsize⟩

/-- A tombstone is written and logged. -/
theorem deleteObject (B : Blake3) (ts : ℤ) (bucket key : Str) :
    (Store.deleteObject B s ts bucket key).Accounted data :=
  Accounted.appendFact
    (h.putObjectRow bucket key fun _ hlive => absurd (show true = false from hlive) nofun) ts
    trivial

/-- A part of known blocks is written. -/
theorem insertPart (bucket : Str) (id : Uuid) (number : ℤ)
    {blocks : List Bytes} (hlen : ∀ b ∈ blocks, b.length = 32) (hknown : ∀ b ∈ blocks, s.Recorded b)
    {size : ℤ} (hsize : size = (assembled data blocks).length) (etag : Str) :
    (s.insertPart bucket id number blocks size etag).Accounted data := by
  have hlookup : ∀ k row, (s.insertPart bucket id number blocks size etag).parts.lookup k =
      some row → (∀ b ∈ decodeBlocks row.blocks, s.Recorded b) ∧
        row.size = (assembled data (decodeBlocks row.blocks)).length := by
    intro k row hrow
    rw [Store.insertPart, Table.lookup_insert] at hrow
    split_ifs at hrow
    · rw [← Option.some.inj hrow]
      dsimp only
      rw [decodeBlocks_encodeBlocks hlen]
      exact ⟨hknown, hsize⟩
    · exact ⟨fun b hb => h.named b (.inr ⟨k, row, hrow, hb⟩), h.parts k row hrow⟩
  refine ⟨h.held, ?_, h.blocks, h.objects, fun k row hrow => (hlookup k row hrow).2, h.log⟩
  rintro x (hx | ⟨k, row, hrow, hx⟩)
  · exact h.named x (.inl hx)
  · exact (hlookup k row hrow).1 x hx

/-- An upload goes, with its parts. -/
theorem deleteMultipartUpload (bucket : Str) (id : Uuid) :
    (s.deleteMultipartUpload bucket id).Accounted data := by
  have hold : ∀ k row, (s.deleteMultipartUpload bucket id).parts.lookup k = some row →
      s.parts.lookup k = some row := by
    intro k row hrow
    rw [Store.deleteMultipartUpload, Table.lookup_deleteWhere] at hrow
    split_ifs at hrow
    exact hrow
  refine ⟨h.held, ?_, h.blocks, h.objects, fun k row hrow => h.parts k row (hold k row hrow), h.log⟩
  rintro x (hx | ⟨k, row, hrow, hx⟩)
  · exact h.named x (.inl hx)
  · exact h.named x (.inr ⟨k, row, hold k row hrow, hx⟩)

end Accounted

/-! ### Facts of peers -/

/-- A manifest of a peer that takes effect names blocks that have a row here. -/
def Knows (s : Store) (rec : FactRecord) : Prop :=
  match rec.fact with
  | .objectPut bucket key blocks _ _ =>
    (∀ old ∈ s.objects.lookup (bucket, key), old.updatedAt < rec.ts) →
      ∀ bs ∈ hexDecodeAll blocks, ∀ b ∈ bs, s.Recorded b
  | _ => True

instance (s : Store) (rec : FactRecord) : Decidable (s.Knows rec) := by
  unfold Knows
  split <;> infer_instance

namespace Accounted

/-- An announcement with the true size keeps the account. -/
theorem applyAnnounce (h : s.Accounted data) (nowMs : ℤ) (hash : Bytes) (loc : Str) (fid : Bytes)
    {size : ℤ} (hsize : size = (data hash).length) (ts : ℤ) :
    (s.applyAnnounce nowMs hash loc fid size ts).Accounted data := by
  have hrecorded := h.upsertBlockLocation hash loc fid hsize ts
  simp only [Store.applyAnnounce]
  split_ifs
  · exact hrecorded.frame rfl rfl rfl rfl rfl rfl
  · exact hrecorded

/-- **One fact of a peer** keeps the accounts, if it is true and its blocks are known. -/
theorem applyFactD (h : s.Accounted data) (B : Blake3) (nowMs : ℤ) {rec : FactRecord}
    (htrue : TrueFact data rec.fact) (hknows : s.Knows rec) :
    (s.applyFactD B nowMs rec).Accounted data := by
  obtain ⟨seq, ts, fact⟩ := rec
  unfold Store.applyFactD Store.applyFact
  cases fact with
  | objectPut bucket key blocks size etag =>
    dsimp only
    cases hdecoded : hexDecodeAll blocks with
    | none => exact h
    | some bs =>
      obtain ⟨hlen, hsize⟩ := htrue bs hdecoded
      refine h.putObjectRow bucket key fun hnewer _ => ?_
      show (∀ b ∈ decodeBlocks (encodeBlocks bs), s.Recorded b) ∧
        size = (assembled data (decodeBlocks (encodeBlocks bs))).length
      rw [decodeBlocks_encodeBlocks hlen]
      exact ⟨hknows hnewer bs hdecoded, hsize⟩
  | objectDelete bucket key => exact h.putObjectRow bucket key fun _ hlive => nomatch hlive
  | blockAnnounce hash locationId fid size =>
    dsimp only
    cases hhash : hexDecode hash with
    | none => exact h
    | some hashB =>
      cases hexDecode fid with
      | none => exact h
      | some fidB => exact h.applyAnnounce nowMs hashB locationId fidB (htrue hashB hhash) ts
  | userPut accessKey secretKey policy => exact h.frame rfl rfl rfl rfl rfl rfl

end Accounted

/-- Every manifest of a page names known blocks when its turn comes. -/
def KnowsPage (B : Blake3) (nowMs : ℤ) : List FactRecord → Store → Prop
  | [], _ => True
  | rec :: page, s => s.Knows rec ∧ KnowsPage B nowMs page (s.applyFactD B nowMs rec)

instance instDecidableKnowsPage (B : Blake3) (nowMs : ℤ) :
    ∀ (page : List FactRecord) (s : Store), Decidable (KnowsPage B nowMs page s)
  | [], _ => isTrue trivial
  | rec :: page, s =>
    have := instDecidableKnowsPage B nowMs page (s.applyFactD B nowMs rec)
    inferInstanceAs (Decidable (s.Knows rec ∧ KnowsPage B nowMs page (s.applyFactD B nowMs rec)))

/-- A page of such facts keeps the accounts. -/
theorem Accounted.applyFacts {B : Blake3} {nowMs : ℤ} {page : List FactRecord}
    (htrue : ∀ rec ∈ page, TrueFact data rec.fact) (h : s.Accounted data)
    (hknows : KnowsPage B nowMs page s) :
    (page.foldl (fun s rec => s.applyFactD B nowMs rec) s).Accounted data := by
  induction page generalizing s with
  | nil => exact h
  | cons rec page ih =>
    rw [List.forall_mem_cons] at htrue
    exact ih htrue.2 (h.applyFactD B nowMs htrue.1 hknows.1) hknows.2

end Store

/-! ### Blocks -/

/-- Bytes are good for a block if they are its true bytes. -/
def TrueBytes (data : Bytes → Bytes) (h d : Bytes) : Prop := d = data h

instance (data : Bytes → Bytes) (h d : Bytes) : Decidable (TrueBytes data h d) :=
  inferInstanceAs (Decidable (d = data h))

/-- **Writers, drains and sweeps keep the accounts**, if they are given true bytes. -/
theorem accounted_blocksKept {Blob : BlobStore} :
    Site.BlocksKept (TrueBytes data) fun s : Site Blob => s.store.Accounted data where
  ticked _ h := h
  marked _ _ h := h.frame rfl rfl rfl rfl rfl rfl
  queued _ _ h := h.frame rfl rfl rfl rfl rfl rfl
  stored _ h _ ts hgood _ hs :=
    hs.storeLocalBlock ts h _ (congrArg (fun d : Bytes => (d.length : ℤ)) hgood)
  reaped _ _ _ _ hnot hs := hs.deleteLocalBlock hnot

end Shardscape
