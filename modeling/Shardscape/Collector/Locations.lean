/-
# Where a site thinks a block is

`src/store.rs`: the rows of `block_locations` and `blocks` come from
`store_local_block` and from the announcements of peers, and go with
`delete_local_block`, which removes this site's row only.  `Listed` and `Recorded`
say which rows there are, `Fact.announced` what a fact says about the location of a
block, and `Announced` that this site has said so.

`Unmoved` is what every other call of the store leaves: the rows of blocks, the
cursors, and the announcements in the log.
-/

import Shardscape.Backend.Effects

namespace Shardscape

open Lib

/-- The block a fact announces, and where; `apply_fact` fails on a hash or a fid that
is not hexadecimal. -/
def Fact.announced : Fact → Option (Bytes × Str)
  | .blockAnnounce hash locationId fid _ =>
    match hexDecode hash, hexDecode fid with
    | some hashB, some _ => some (hashB, locationId)
    | _, _ => none
  | _ => none

namespace Store

/-- There is a location row for `h` at the site `loc`. -/
def Listed (s : Store) (h : Bytes) (loc : Str) : Prop :=
  ∃ row, s.blockLocations.lookup (h, loc) = some row

/-- There is a block row for `h`. -/
def Recorded (s : Store) (h : Bytes) : Prop := ∃ row, s.blocks.lookup h = some row

/-- This site has announced `h`: its log says so. -/
def Announced (s : Store) (h : Bytes) : Prop :=
  ∃ e ∈ s.factLog, ∃ loc, e.2.announced = some (h, loc)

/-- Every block row goes with a location row, and the other way round. -/
def Matched (s : Store) : Prop := ∀ h, s.Recorded h ↔ ∃ loc, s.Listed h loc

instance (s : Store) (h : Bytes) (loc : Str) : Decidable (s.Listed h loc) :=
  decidable_of_iff (s.blockLocations.lookup (h, loc)).isSome Option.isSome_iff_exists

instance (s : Store) (h : Bytes) : Decidable (s.Recorded h) :=
  decidable_of_iff (s.blocks.lookup h).isSome Option.isSome_iff_exists

instance (s : Store) (h : Bytes) : Decidable (s.Announced h) := by
  refine decidable_of_iff (∃ e ∈ s.factLog, e.2.announced.map Prod.fst = some h) ?_
  simp [Announced, Option.map_eq_some_iff]

variable {s : Store}

/-- What is listed decides who holds a block. -/
theorem holdsLocally_iff_listed {h : Bytes} :
    s.HoldsLocally h ↔ s.Listed h s.localLocationId := Iff.rfl

/-! ### Recording a location -/

/-- A location row lists one location. -/
theorem listed_upsertBlockLocation (s : Store) (hash : Bytes) (loc' : Str) (fid : Bytes)
    (size ts : ℤ) (h : Bytes) (loc : Str) :
    (s.upsertBlockLocation hash loc' fid size ts).Listed h loc ↔
      (h = hash ∧ loc = loc') ∨ s.Listed h loc := by
  rw [Listed, exists_location_upsertBlockLocation, Prod.mk.injEq]
  rfl

/-- It records one block. -/
theorem recorded_upsertBlockLocation (s : Store) (hash : Bytes) (loc' : Str) (fid : Bytes)
    (size ts : ℤ) (h : Bytes) :
    (s.upsertBlockLocation hash loc' fid size ts).Recorded h ↔ h = hash ∨ s.Recorded h :=
  Table.exists_lookup_upsertNewer _ _ _ _

/-- A block row after a location is recorded: the row of before, or one with this size. -/
theorem lookup_blocks_upsertBlockLocation {hash : Bytes} {loc : Str} {fid : Bytes} {size ts : ℤ}
    {h : Bytes} {row : BlockRow}
    (hrow : (s.upsertBlockLocation hash loc fid size ts).blocks.lookup h = some row) :
    s.blocks.lookup h = some row ∨ h = hash ∧ row.size = size := by
  rw [upsertBlockLocation, Table.lookup_upsertNewer] at hrow
  split_ifs at hrow with hh
  · rw [hh]
    rcases Lww.merge_cases BlockRow.updatedAt (s.blocks.lookup hash) ⟨size, ts⟩ with
      ⟨hmerge, -⟩ | ⟨old, -, -, hmerge⟩
    · rw [hmerge, Option.some.injEq] at hrow
      exact .inr ⟨rfl, hrow ▸ rfl⟩
    · exact .inl (hmerge ▸ hrow)
  · exact .inl hrow

/-- The two tables stay matched, as both are written. -/
theorem Matched.upsertBlockLocation (hs : s.Matched) (hash : Bytes) (loc : Str) (fid : Bytes)
    (size ts : ℤ) : (s.upsertBlockLocation hash loc fid size ts).Matched := by
  intro h
  rw [recorded_upsertBlockLocation, hs h]
  simp only [listed_upsertBlockLocation]
  constructor
  · rintro (rfl | ⟨loc', hl⟩)
    · exact ⟨loc, .inl ⟨rfl, rfl⟩⟩
    · exact ⟨loc', .inr hl⟩
  · rintro ⟨loc', ⟨rfl, -⟩ | hl⟩
    · exact .inl rfl
    · exact .inr ⟨loc', hl⟩

/-- A stored block is listed here. -/
theorem listed_storeLocalBlock (s : Store) (ts : ℤ) (hash fid : Bytes) (size : ℤ) (h : Bytes)
    (loc : Str) :
    (s.storeLocalBlock ts hash fid size).Listed h loc ↔
      (h = hash ∧ loc = s.localLocationId) ∨ s.Listed h loc :=
  listed_upsertBlockLocation s hash s.localLocationId fid size ts h loc

/-- The tables stay matched. -/
theorem Matched.storeLocalBlock (hs : s.Matched) (ts : ℤ) (hash fid : Bytes) (size : ℤ) :
    (s.storeLocalBlock ts hash fid size).Matched :=
  fun h => hs.upsertBlockLocation hash s.localLocationId fid size ts h

/-- The rows after an announcement are those of the location it records. -/
theorem blocks_applyAnnounce (s : Store) (nowMs : ℤ) (hash : Bytes) (loc : Str) (fid : Bytes)
    (size ts : ℤ) :
    (s.applyAnnounce nowMs hash loc fid size ts).blockLocations =
        (s.upsertBlockLocation hash loc fid size ts).blockLocations ∧
      (s.applyAnnounce nowMs hash loc fid size ts).blocks =
        (s.upsertBlockLocation hash loc fid size ts).blocks := by
  simp only [applyAnnounce]
  split_ifs <;> exact ⟨rfl, rfl⟩

/-- What a fact does to the rows of blocks: it records the location it announces. -/
theorem blocks_applyFactD (B : Blake3) (s : Store) (nowMs : ℤ) (rec : FactRecord) :
    (∃ hash loc fid size, rec.fact.announced = some (hash, loc) ∧
        (∃ hashHex fidHex, rec.fact = .blockAnnounce hashHex loc fidHex size) ∧
        (s.applyFactD B nowMs rec).blockLocations =
          (s.upsertBlockLocation hash loc fid size rec.ts).blockLocations ∧
        (s.applyFactD B nowMs rec).blocks =
          (s.upsertBlockLocation hash loc fid size rec.ts).blocks) ∨
      (rec.fact.announced = none ∧
        (s.applyFactD B nowMs rec).blockLocations = s.blockLocations ∧
        (s.applyFactD B nowMs rec).blocks = s.blocks) := by
  obtain ⟨seq, ts, fact⟩ := rec
  cases fact with
  | objectPut bucket key blocks size etag =>
    refine .inr ⟨rfl, ?_⟩
    simp only [applyFactD, applyFact]
    cases hexDecodeAll blocks <;> exact ⟨rfl, rfl⟩
  | objectDelete bucket key => exact .inr ⟨rfl, rfl, rfl⟩
  | userPut accessKey secretKey policy => exact .inr ⟨rfl, rfl, rfl⟩
  | blockAnnounce hash loc fid size =>
    simp only [applyFactD, applyFact, Fact.announced]
    cases hexDecode hash with
    | none => exact .inr ⟨rfl, rfl, rfl⟩
    | some hashB =>
      cases hexDecode fid with
      | none => exact .inr ⟨rfl, rfl, rfl⟩
      | some fidB =>
        exact .inl ⟨hashB, loc, fidB, size, rfl, ⟨hash, fid, rfl⟩, blocks_applyAnnounce ..⟩

/-- A fact lists what it announces. -/
theorem listed_applyFactD (B : Blake3) (s : Store) (nowMs : ℤ) (rec : FactRecord) (h : Bytes)
    (loc : Str) :
    (s.applyFactD B nowMs rec).Listed h loc ↔
      rec.fact.announced = some (h, loc) ∨ s.Listed h loc := by
  rcases blocks_applyFactD B s nowMs rec with ⟨hash, loc', fid, size, ha, -, hl, -⟩ |
    ⟨ha, hl, -⟩
  · have hrow := listed_upsertBlockLocation s hash loc' fid size rec.ts h loc
    rw [Listed, hl, ha, Option.some.injEq, Prod.mk.injEq, eq_comm, eq_comm (a := loc')]
    exact hrow
  · rw [Listed, hl, ha]
    exact (or_iff_right fun hno => nomatch hno).symm

/-- The tables stay matched. -/
theorem Matched.applyFactD (hs : s.Matched) (B : Blake3) (nowMs : ℤ) (rec : FactRecord) :
    (s.applyFactD B nowMs rec).Matched := by
  intro h
  rcases blocks_applyFactD B s nowMs rec with ⟨hash, loc, fid, size, -, -, hl, hb⟩ |
    ⟨-, hl, hb⟩
  · have hrow := hs.upsertBlockLocation hash loc fid size rec.ts h
    simp only [Recorded, Listed, hl, hb]
    exact hrow
  · simp only [Recorded, Listed, hl, hb]
    exact hs h

/-! ### Deleting this site's row -/

/-- A deleted block is no longer listed here; elsewhere it is. -/
theorem listed_deleteLocalBlock (s : Store) (hash h : Bytes) (loc : Str) :
    (s.deleteLocalBlock hash).1.Listed h loc ↔
      ¬ (h = hash ∧ loc = s.localLocationId) ∧ s.Listed h loc := by
  simp only [Listed, deleteLocalBlock, Table.lookup_erase, Prod.mk.injEq]
  split_ifs with hk <;> simp [hk]

/-- No block row appears. -/
theorem lookup_blocks_deleteLocalBlock {hash h : Bytes} {row : BlockRow}
    (hrow : (s.deleteLocalBlock hash).1.blocks.lookup h = some row) :
    s.blocks.lookup h = some row := by
  simp only [deleteLocalBlock] at hrow
  split_ifs at hrow
  · rw [Table.lookup_erase] at hrow
    split_ifs at hrow
    exact hrow
  · exact hrow

/-- The block row stays exactly while some location row does. -/
theorem Matched.deleteLocalBlock (hs : s.Matched) (hash : Bytes) :
    (s.deleteLocalBlock hash).1.Matched := by
  intro h
  have hremaining : ((s.blockLocations.erase (hash, s.localLocationId)).entries.filter
      fun e => e.1.1 = hash).length = 0 ↔ ¬ ∃ loc, (s.deleteLocalBlock hash).1.Listed hash loc := by
    rw [List.length_eq_zero_iff, List.filter_eq_nil_iff]
    constructor
    · rintro hno ⟨loc, row, hrow⟩
      exact hno _ (Table.lookup_eq_some_iff.1 hrow) (by simp)
    · rintro hno ⟨⟨h', loc⟩, row⟩ he hh
      have hh : h' = hash := by simpa using hh
      subst hh
      exact hno ⟨loc, row, Table.lookup_eq_some_iff.2 he⟩
  by_cases hh : h = hash
  · subst hh
    by_cases hleft : ∃ loc, (s.deleteLocalBlock h).1.Listed h loc
    · have hblocks : (s.deleteLocalBlock h).1.blocks = s.blocks :=
        if_neg fun hrem => hremaining.1 hrem hleft
      have hold : ∃ loc, s.Listed h loc :=
        hleft.imp fun loc hl => ((listed_deleteLocalBlock s h h loc).1 hl).2
      rw [Recorded, hblocks]
      exact iff_of_true ((hs h).2 hold) hleft
    · have hblocks : (s.deleteLocalBlock h).1.blocks = s.blocks.erase h :=
        if_pos (hremaining.2 hleft)
      rw [Recorded, hblocks, Table.lookup_erase, if_pos rfl]
      exact iff_of_false (fun ⟨_, hrow⟩ => nomatch hrow) hleft
  · have hrec : (s.deleteLocalBlock hash).1.Recorded h ↔ s.Recorded h := by
      simp only [Recorded, Store.deleteLocalBlock]
      split_ifs
      · rw [Table.lookup_erase, if_neg hh]
      · exact Iff.rfl
    rw [hrec, hs h]
    refine exists_congr fun loc => ?_
    rw [listed_deleteLocalBlock]
    exact (and_iff_right fun hno => hh hno.1).symm

/-! ### Everything else -/

/-- The rows of blocks, the cursors and the announcements are the same. -/
structure Unmoved (s s' : Store) : Prop where
  localLocationId : s'.localLocationId = s.localLocationId
  blocks : s'.blocks = s.blocks
  blockLocations : s'.blockLocations = s.blockLocations
  replicationCursors : s'.replicationCursors = s.replicationCursors
  factLog : ∃ new, s'.factLog = s.factLog ++ new ∧ ∀ e ∈ new, e.2.announced = none

/-- A call that logs nothing and leaves the rows of blocks. -/
theorem Unmoved.frame {s s' : Store} (hid : s'.localLocationId = s.localLocationId)
    (hb : s'.blocks = s.blocks) (hl : s'.blockLocations = s.blockLocations)
    (hc : s'.replicationCursors = s.replicationCursors) (hlog : s'.factLog = s.factLog) :
    Unmoved s s' :=
  ⟨hid, hb, hl, hc, [], by rw [hlog, List.append_nil], fun _ he => nomatch he⟩

/-- A call that logs a fact that is no announcement. -/
theorem Unmoved.logged {s s' : Store} {ts : ℤ} {fact : Fact}
    (hid : s'.localLocationId = s.localLocationId) (hb : s'.blocks = s.blocks)
    (hl : s'.blockLocations = s.blockLocations)
    (hc : s'.replicationCursors = s.replicationCursors)
    (hlog : s'.factLog = s.factLog ++ [(ts, fact)]) (hf : fact.announced = none) : Unmoved s s' :=
  ⟨hid, hb, hl, hc, [(ts, fact)], hlog, by simpa using hf⟩

/-- To record a peer changes no location. -/
theorem unmoved_recordPeer (s : Store) (nowMs : ℤ) (locationId apiUrl : Str) :
    Unmoved s (s.recordPeer nowMs locationId apiUrl) := by
  unfold recordPeer
  split_ifs
  · exact .frame rfl rfl rfl rfl rfl
  · exact .frame rfl rfl rfl rfl rfl

/-- **What a call can do to the rows of blocks**, unless it applies a fact: store a
block, delete one, or nothing. -/
theorem stores_cases {l : Call} {s s' : Store} (h : l.Stores s s')
    (hl : ∀ rec, l ≠ .applyFact rec) :
    (∃ hash ts fid size, l = .storeLocalBlock hash ∧ s' = s.storeLocalBlock ts hash fid size) ∨
      (∃ hash, l = .deleteLocalBlock hash ∧ s' = (s.deleteLocalBlock hash).1) ∨
      Unmoved s s' := by
  cases l with
  | storeLocalBlock hash =>
    obtain ⟨ts, fid, size, rfl⟩ := h
    exact .inl ⟨hash, ts, fid, size, rfl, rfl⟩
  | deleteLocalBlock hash => exact .inr (.inl ⟨hash, rfl, h⟩)
  | applyFact rec => exact absurd rfl (hl rec)
  | insertObject bucket key =>
    obtain ⟨ts, shardId, blocks, size, etag, rfl⟩ := h
    exact .inr (.inr (.logged rfl rfl rfl rfl rfl rfl))
  | deleteObject bucket key =>
    obtain ⟨B, ts, rfl⟩ := h
    exact .inr (.inr (.logged rfl rfl rfl rfl rfl rfl))
  | insertMultipart bucket id =>
    obtain ⟨key, rfl⟩ := h
    exact .inr (.inr (.frame rfl rfl rfl rfl rfl))
  | insertPart bucket id number =>
    obtain ⟨blocks, size, etag, rfl⟩ := h
    exact .inr (.inr (.frame rfl rfl rfl rfl rfl))
  | deleteMultipartUpload bucket id =>
    obtain rfl := h
    exact .inr (.inr (.frame rfl rfl rfl rfl rfl))
  | _ =>
    rw [h.frame rfl]
    exact .inr (.inr (.frame rfl rfl rfl rfl rfl))

end Store
end Shardscape
