/-
# The fact log

`src/store.rs`: `facts_since`, `get_cursor`, `set_cursor`, `apply_fact`.

A site serves the facts it originated in pages after a sequence number, remembers
per peer how far it has consumed that peer's log, and merges a peer's facts into
its own tables without logging them again.  On the tables of objects and of users
a fact is a write of at most one row (`objectWrite`, `userWrite`) into a
last-write-wins register, so a list of facts acts on them as a stream of upserts
(`objects_applyFacts`, `users_applyFacts`).
-/

import Shardscape.Store.Holding

namespace Shardscape

open Lib

/-- `FACT_SYNC_BATCH` of `main.rs`: the facts of one page. -/
def factSyncBatch : ℕ := 500

namespace Store

/-- The rows of a fact log, each under its sequence number. -/
def factRecords (log : List (ℤ × Fact)) : List FactRecord :=
  (log.zipIdx 1).map fun e => ⟨e.2, e.1.1, e.1.2⟩

/-- `facts_since`: the facts after `after`, in order, at most `limit`. -/
def factsSince (s : Store) (after limit : ℕ) : List FactRecord :=
  ((factRecords s.factLog).filter fun rec => after < rec.seq).take limit

/-- `get_cursor`. -/
def getCursor (s : Store) (peer : Str) : ℕ := (s.replicationCursors.lookup peer).getD 0

/-- `set_cursor`: never moves backward. -/
def setCursor (s : Store) (peer : Str) (lastSeq : ℕ) : Store :=
  { s with replicationCursors := Table.upsertNewer id s.replicationCursors peer lastSeq }

/-- `apply_fact` on a decoded `BlockAnnounce`: the location is recorded, and a
block that another site announces and this site does not hold is queued for a pull
to this site. -/
def applyAnnounce (s : Store) (nowMs : ℤ) (hash : Bytes) (locationId : Str) (fid : Bytes)
    (size ts : ℤ) : Store :=
  let s' := s.upsertBlockLocation hash locationId fid size ts
  if (s'.getLocalBlockFid hash).isNone ∧ locationId ≠ s.localLocationId then
    s'.enqueueReplication nowMs hash [s.localLocationId]
  else s'

/-- `apply_fact`. -/
def applyFact (B : Blake3) (s : Store) (nowMs : ℤ) (rec : FactRecord) : Except StoreError Store :=
  match rec.fact with
  | .objectPut bucket key blocks size etag =>
    match hexDecodeAll blocks with
    | some decoded => .ok (s.putObjectRow bucket key
        (objectRow (encodeBlocks decoded) size etag (computeShardId B key) false rec.ts))
    | none => .error .hex
  | .objectDelete bucket key => .ok (s.putObjectRow bucket key (tombstone B key rec.ts))
  | .blockAnnounce hash locationId fid size =>
    match hexDecode hash, hexDecode fid with
    | some hashB, some fidB => .ok (s.applyAnnounce nowMs hashB locationId fidB size rec.ts)
    | _, _ => .error .hex
  | .userPut accessKey secretKey policy =>
    .ok (s.putUserRow accessKey ⟨secretKey, policy, rec.ts⟩)

/-! ### Paging -/

/-- Each entry of the log is one record. -/
@[simp] theorem length_factRecords (log : List (ℤ × Fact)) :
    (factRecords log).length = log.length := by
  simp [factRecords]

/-- New entries are numbered on from the old ones. -/
theorem factRecords_append (log new : List (ℤ × Fact)) :
    factRecords (log ++ new) = factRecords log ++
      (new.zipIdx (1 + log.length)).map fun e => ⟨e.2, e.1.1, e.1.2⟩ := by
  simp [factRecords, List.zipIdx_append]

/-- The sequence number of a row is its position. -/
theorem getElem?_factRecords (log : List (ℤ × Fact)) (n : ℕ) :
    (factRecords log)[n]? = log[n]?.map fun e => ⟨n + 1, e.1, e.2⟩ := by
  simp only [factRecords, List.getElem?_map, List.getElem?_zipIdx, Option.map_map]
  congr 1
  funext e
  simp [Nat.add_comm]

variable {log : List (ℤ × Fact)} {rec : FactRecord}

/-- A record of the log is the entry at its number, counted from one. -/
theorem mem_factRecords :
    rec ∈ factRecords log ↔ 1 ≤ rec.seq ∧ log[rec.seq - 1]? = some (rec.ts, rec.fact) := by
  obtain ⟨seq, ts, fact⟩ := rec
  rw [List.mem_iff_getElem?]
  simp only [getElem?_factRecords, Option.map_eq_some_iff, FactRecord.mk.injEq]
  constructor
  · rintro ⟨n, e, he, rfl, rfl, rfl⟩
    exact ⟨by omega, he⟩
  · rintro ⟨hpos, he⟩
    exact ⟨seq - 1, _, he, by omega, rfl, rfl⟩

/-- The number of a row tells which one it is. -/
theorem eq_of_mem_factRecords {rec rec' : FactRecord} (h : rec ∈ factRecords log)
    (h' : rec' ∈ factRecords log) (hseq : rec.seq = rec'.seq) :
    rec = rec' := by
  obtain ⟨-, he⟩ := mem_factRecords.1 h
  obtain ⟨-, he'⟩ := mem_factRecords.1 h'
  rw [hseq, he', Option.some.injEq, Prod.mk.injEq] at he
  obtain ⟨seq, ts, fact⟩ := rec
  obtain ⟨seq', ts', fact'⟩ := rec'
  exact FactRecord.mk.injEq .. ▸ ⟨hseq, he.1.symm, he.2.symm⟩

/-- A log that grew holds what it held, and the new facts under the next numbers. -/
theorem mem_factRecords_append {log new : List (ℤ × Fact)} :
    rec ∈ factRecords (log ++ new) ↔ rec ∈ factRecords log ∨
      (log.length < rec.seq ∧ new[rec.seq - 1 - log.length]? = some (rec.ts, rec.fact)) := by
  rw [mem_factRecords, mem_factRecords]
  rcases Nat.lt_or_ge (rec.seq - 1) log.length with hlt | hge
  · rw [List.getElem?_append_left hlt]
    exact ⟨.inl, fun h => h.elim id fun h => absurd h.1 (by omega)⟩
  · rw [List.getElem?_append_right hge, List.getElem?_eq_none hge]
    constructor
    · exact fun h => .inr ⟨by omega, h.2⟩
    · rintro (h | h)
      · exact nomatch h.2
      · exact ⟨by omega, h.2⟩

/-- No number is past the length of the log. -/
theorem seq_le_of_mem_factRecords (h : rec ∈ factRecords log) : rec.seq ≤ log.length := by
  obtain ⟨hpos, he⟩ := mem_factRecords.1 h
  have hlt := (List.getElem?_eq_some_iff.1 he).1
  omega

/-- A page is a stretch of the log: the rows after the cursor. -/
theorem factsSince_eq (s : Store) (after limit : ℕ) :
    s.factsSince after limit = ((factRecords s.factLog).drop after).take limit := by
  have hfilter : ∀ (log : List (ℤ × Fact)),
      (factRecords log).filter (fun rec => after < rec.seq) = (factRecords log).drop after := by
    intro log
    induction log using List.reverseRecOn with
    | nil => simp [factRecords]
    | append_singleton log e ih =>
      rw [factRecords_append, List.filter_append, ih, List.drop_append, length_factRecords]
      simp only [List.zipIdx_cons, List.zipIdx_nil, List.map_cons, List.map_nil]
      rcases Nat.lt_or_ge log.length after with hlt | hge
      · obtain ⟨d, hd⟩ : ∃ d, after - log.length = d + 1 := ⟨after - log.length - 1, by omega⟩
        rw [List.filter_cons_of_neg (by simp; omega), hd, List.drop_succ_cons, List.drop_nil]
        rfl
      · rw [List.filter_cons_of_pos (by simp; omega), Nat.sub_eq_zero_of_le hge]
        rfl
  rw [factsSince, hfilter]

/-- A page is what comes next in the log. -/
theorem mem_factsSince {s : Store} {after limit : ℕ} :
    rec ∈ s.factsSince after limit ↔
      rec ∈ factRecords s.factLog ∧ after < rec.seq ∧ rec.seq ≤ after + limit := by
  rw [factsSince_eq, mem_factRecords, List.mem_iff_getElem?]
  simp only [List.getElem?_take, List.getElem?_drop, getElem?_factRecords]
  constructor
  · rintro ⟨n, hn⟩
    split_ifs at hn with hlt
    obtain ⟨e, he, rfl⟩ := Option.map_eq_some_iff.1 hn
    exact ⟨⟨by simp, he⟩, by simp only; omega, by simp only; omega⟩
  · rintro ⟨⟨hpos, he⟩, hafter, hle⟩
    refine ⟨rec.seq - 1 - after, ?_⟩
    rw [if_pos (by omega), show after + (rec.seq - 1 - after) = rec.seq - 1 by omega, he,
      Option.map_some, show rec.seq - 1 + 1 = rec.seq by omega]

/-- A cursor is only moved forward, and the others stay. -/
@[simp] theorem getCursor_setCursor (s : Store) (peer p : Str) (n : ℕ) :
    (s.setCursor peer n).getCursor p = if p = peer then max (s.getCursor peer) n
      else s.getCursor p := by
  simp only [getCursor, setCursor, Table.lookup_upsertNewer]
  split_ifs with hp
  · cases h : s.replicationCursors.lookup peer with
    | none => simp
    | some m =>
      rcases lt_or_ge m n with hlt | hle
      · simp [Lww.merge, hlt, max_eq_right hlt.le]
      · simp [Lww.merge, hle.not_gt, max_eq_left hle]
  · rfl

/-! ### Facts as writes -/

/-- The object row a fact writes, if it is about an object and decodes. -/
def objectWrite (B : Blake3) (rec : FactRecord) : Option ((Str × Str) × ObjectRow) :=
  match rec.fact with
  | .objectPut bucket key blocks size etag =>
    (hexDecodeAll blocks).map fun decoded => ((bucket, key),
      objectRow (encodeBlocks decoded) size etag (computeShardId B key) false rec.ts)
  | .objectDelete bucket key => some ((bucket, key), tombstone B key rec.ts)
  | _ => none

/-- The user row a fact writes, if it is about a user. -/
def userWrite (rec : FactRecord) : Option (Str × UserRow) :=
  match rec.fact with
  | .userPut accessKey secretKey policy => some (accessKey, ⟨secretKey, policy, rec.ts⟩)
  | _ => none

/-- The store after `apply_fact`, unchanged where it fails. -/
def applyFactD (B : Blake3) (s : Store) (nowMs : ℤ) (rec : FactRecord) : Store :=
  match s.applyFact B nowMs rec with
  | .ok s' => s'
  | .error _ => s

/-- What a fact can do to a store: write one object row, write one user row,
record an announcement, or fail and change nothing. -/
theorem applyFactD_cases (B : Blake3) (s : Store) (nowMs : ℤ) (rec : FactRecord) :
    (∃ bucket key row, objectWrite B rec = some ((bucket, key), row) ∧ userWrite rec = none ∧
        s.applyFactD B nowMs rec = s.putObjectRow bucket key row) ∨
      (∃ accessKey row, objectWrite B rec = none ∧ userWrite rec = some (accessKey, row) ∧
        s.applyFactD B nowMs rec = s.putUserRow accessKey row) ∨
      (∃ hash loc fid size, objectWrite B rec = none ∧ userWrite rec = none ∧
        s.applyFactD B nowMs rec = s.applyAnnounce nowMs hash loc fid size rec.ts) ∨
      (objectWrite B rec = none ∧ userWrite rec = none ∧ s.applyFactD B nowMs rec = s) := by
  obtain ⟨seq, ts, fact⟩ := rec
  cases fact with
  | objectPut bucket key blocks size etag =>
    cases h : hexDecodeAll blocks with
    | none => exact .inr (.inr (.inr (by simp [objectWrite, userWrite, applyFactD,
        applyFact, h])))
    | some decoded =>
      refine .inl ⟨bucket, key, objectRow (encodeBlocks decoded) size etag
        (computeShardId B key) false ts, ?_, rfl, ?_⟩
      · simp only [objectWrite, h, Option.map_some]
      · simp only [applyFactD, applyFact, h]
  | objectDelete bucket key => exact .inl ⟨bucket, key, _, rfl, rfl, rfl⟩
  | blockAnnounce hash locationId fid size =>
    cases hh : hexDecode hash with
    | none => exact .inr (.inr (.inr ⟨rfl, rfl, by simp only [applyFactD, applyFact, hh]⟩))
    | some hashB =>
      cases hf : hexDecode fid with
      | none => exact .inr (.inr (.inr ⟨rfl, rfl, by
          simp only [applyFactD, applyFact, hh, hf]⟩))
      | some fidB => exact .inr (.inr (.inl ⟨hashB, locationId, fidB, size, rfl, rfl, by
          simp only [applyFactD, applyFact, hh, hf]⟩))
  | userPut accessKey secretKey policy => exact .inr (.inl ⟨accessKey, _, rfl, rfl, rfl⟩)

/-- An announcement writes no object. -/
@[simp] theorem objects_applyAnnounce (s : Store) (nowMs : ℤ) (hash : Bytes) (loc : Str)
    (fid : Bytes) (size ts : ℤ) :
    (s.applyAnnounce nowMs hash loc fid size ts).objects = s.objects := by
  simp only [applyAnnounce]
  split_ifs <;> rfl

/-- An announcement writes no user. -/
@[simp] theorem users_applyAnnounce (s : Store) (nowMs : ℤ) (hash : Bytes) (loc : Str)
    (fid : Bytes) (size ts : ℤ) :
    (s.applyAnnounce nowMs hash loc fid size ts).users = s.users := by
  simp only [applyAnnounce]
  split_ifs <;> rfl

/-- An announcement by this site itself makes it a holder. -/
theorem holdsLocally_applyAnnounce (s : Store) (nowMs : ℤ) (hash : Bytes) (loc : Str)
    (fid : Bytes) (size ts : ℤ) (h : Bytes) :
    (s.applyAnnounce nowMs hash loc fid size ts).HoldsLocally h ↔
      (h = hash ∧ s.localLocationId = loc) ∨ s.HoldsLocally h := by
  rw [← holdsLocally_upsertBlockLocation s hash loc fid size ts]
  simp only [applyAnnounce]
  split_ifs <;> exact Iff.rfl

/-- An announcement by another site makes it a known holder. -/
theorem knownElsewhere_applyAnnounce (s : Store) (nowMs : ℤ) (hash : Bytes) (loc : Str)
    (fid : Bytes) (size ts : ℤ) (h : Bytes) :
    (s.applyAnnounce nowMs hash loc fid size ts).KnownElsewhere h ↔
      (h = hash ∧ s.localLocationId ≠ loc) ∨ s.KnownElsewhere h := by
  rw [← knownElsewhere_upsertBlockLocation s hash loc fid size ts]
  simp only [applyAnnounce]
  split_ifs <;> exact Iff.rfl

/-- An announcement by another site queues a pull, unless the block is held. -/
theorem queued_applyAnnounce (s : Store) (nowMs : ℤ) (hash : Bytes) (loc : Str)
    (fid : Bytes) (size ts : ℤ) (h : Bytes) :
    (s.applyAnnounce nowMs hash loc fid size ts).Queued h ↔
      (h = hash ∧ s.localLocationId ≠ loc ∧ ¬ s.HoldsLocally hash) ∨ s.Queued h := by
  have hheld : (((s.upsertBlockLocation hash loc fid size ts).getLocalBlockFid hash).isNone ∧
      loc ≠ s.localLocationId) ↔ (s.localLocationId ≠ loc ∧ ¬ s.HoldsLocally hash) := by
    rw [Option.isNone_iff_eq_none, getLocalBlockFid_eq_none_iff,
      holdsLocally_upsertBlockLocation, ne_comm]
    tauto
  simp only [applyAnnounce, hheld]
  split_ifs with hc
  · refine (queued_enqueueReplication (s.upsertBlockLocation hash loc fid size ts) nowMs hash
      h).trans (or_congr ?_ Iff.rfl)
    exact (and_iff_left hc).symm
  · exact (or_iff_right fun hno => hc hno.2).symm

/-- Of the objects, a fact writes the row it is about, if it is newer. -/
theorem objects_applyFactD (B : Blake3) (s : Store) (nowMs : ℤ) (rec : FactRecord) :
    (s.applyFactD B nowMs rec).objects =
      Table.upsertWrite ObjectRow.updatedAt s.objects (objectWrite B rec) := by
  rcases applyFactD_cases B s nowMs rec with ⟨bucket, key, row, hw, -, h⟩ |
    ⟨ak, row, hw, -, h⟩ | ⟨hash, loc, fid, size, hw, -, h⟩ | ⟨hw, -, h⟩ <;> rw [h, hw]
  · rfl
  · rfl
  · rw [objects_applyAnnounce]
    rfl
  · rfl

/-- The same of the users. -/
theorem users_applyFactD (B : Blake3) (s : Store) (nowMs : ℤ) (rec : FactRecord) :
    (s.applyFactD B nowMs rec).users =
      Table.upsertWrite UserRow.updatedAt s.users (userWrite rec) := by
  rcases applyFactD_cases B s nowMs rec with ⟨bucket, key, row, -, hw, h⟩ |
    ⟨ak, row, -, hw, h⟩ | ⟨hash, loc, fid, size, -, hw, h⟩ | ⟨-, hw, h⟩ <;> rw [h, hw]
  · rfl
  · rfl
  · rw [users_applyAnnounce]
    rfl
  · rfl

/-- A fact of a peer leaves the log and the cursors alone. -/
theorem frame_applyFactD (B : Blake3) (s : Store) (nowMs : ℤ) (rec : FactRecord) :
    (s.applyFactD B nowMs rec).factLog = s.factLog ∧
      (s.applyFactD B nowMs rec).replicationCursors = s.replicationCursors ∧
      (s.applyFactD B nowMs rec).localLocationId = s.localLocationId := by
  rcases applyFactD_cases B s nowMs rec with ⟨bucket, key, row, -, -, h⟩ | ⟨ak, row, -, -, h⟩ |
    ⟨hash, loc, fid, size, -, -, h⟩ | ⟨-, -, h⟩ <;> rw [h]
  · exact ⟨rfl, rfl, rfl⟩
  · exact ⟨rfl, rfl, rfl⟩
  · simp only [applyAnnounce]
    split_ifs <;> exact ⟨rfl, rfl, rfl⟩
  · exact ⟨rfl, rfl, rfl⟩

/-- A fact that is applied leaves what `apply_fact` returns. -/
theorem applyFactD_of_ok {B : Blake3} {s s' : Store} {nowMs : ℤ}
    (h : s.applyFact B nowMs rec = .ok s') : s.applyFactD B nowMs rec = s' := by
  simp only [applyFactD, h]

/-- A list of facts applied one after the other, each at its own clock reading;
one that fails is skipped, as `sync_facts_once` does. -/
def applyFacts (B : Blake3) (s : Store) (l : List (ℤ × FactRecord)) : Store :=
  l.foldl (fun s e => s.applyFactD B e.1 e.2) s

/-- On objects, a list of facts is a stream of upserts. -/
theorem objects_applyFacts (B : Blake3) (s : Store) (l : List (ℤ × FactRecord)) :
    (s.applyFacts B l).objects =
      Table.upsertAll ObjectRow.updatedAt (objectWrite B) s.objects (l.map Prod.snd) := by
  induction l generalizing s with
  | nil => rfl
  | cons e l ih =>
    rw [applyFacts, List.foldl_cons, ← applyFacts, ih, objects_applyFactD]
    rfl

/-- On users, a list of facts is a stream of upserts. -/
theorem users_applyFacts (B : Blake3) (s : Store) (l : List (ℤ × FactRecord)) :
    (s.applyFacts B l).users =
      Table.upsertAll UserRow.updatedAt userWrite s.users (l.map Prod.snd) := by
  induction l generalizing s with
  | nil => rfl
  | cons e l ih =>
    rw [applyFacts, List.foldl_cons, ← applyFacts, ih, users_applyFactD]
    rfl

end Store
end Shardscape
