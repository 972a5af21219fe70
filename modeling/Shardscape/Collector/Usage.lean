/-
# What a site uses

`src/store.rs`: `store_local_block`, `apply_fact`, `delete_local_block`,
`local_block_bytes`.

A block has one row in `blocks`, for its size, and one row in `block_locations` per site that
holds it, and the two tables are written by statements of their own: two upserts that each keep
the newer row, and a delete of the block row that looks at what other sites have.  Whatever the
order of stores, announcements and deletes, and however stale their times, neither table gets
ahead of the other (`Store.Matched`), and sizes that are told true are recorded true
(`TrueSizes`).  So the join behind `local_block_bytes` finds the size of every local block, once
(`usage_exact`).
-/

import Mathlib.Algebra.BigOperators.Group.Finset.Basic
import Shardscape.Collector.Locations
import Shardscape.Store.Samples

namespace Shardscape

open Lib

/-- What changes block metadata. -/
inductive MetaEvent where
  | storeLocalBlock (ts : ℤ) (hash fid : Bytes) (size : ℤ)
  | applyFact (nowMs : ℤ) (rec : FactRecord)
  | deleteLocalBlock (hash : Bytes)

namespace MetaEvent

/-- One event; a fact that cannot be applied changes nothing. -/
def step (B : Blake3) (s : Store) : MetaEvent → Store
  | .storeLocalBlock ts hash fid size => s.storeLocalBlock ts hash fid size
  | .applyFact nowMs rec => s.applyFactD B nowMs rec
  | .deleteLocalBlock hash => (s.deleteLocalBlock hash).1

/-- The size it tells is that of the block. -/
def TellsTrue (trueSize : Bytes → ℕ) : MetaEvent → Prop
  | .storeLocalBlock _ hash _ size => size = trueSize hash
  | .applyFact _ rec => ∀ hashHex loc fid size, rec.fact = .blockAnnounce hashHex loc fid size →
      ∀ hash, hexDecode hashHex = some hash → size = trueSize hash
  | .deleteLocalBlock _ => True

end MetaEvent

namespace Store

variable {trueSize : Bytes → ℕ} {s : Store}

/-- The recorded sizes are the true ones. -/
def TrueSizes (trueSize : Bytes → ℕ) (s : Store) : Prop :=
  ∀ h row, s.blocks.lookup h = some row → row.size = trueSize h

/-- The blocks this site holds. -/
def heldBlocks (s : Store) : Finset Bytes := s.listLocalBlockHashes.toFinset

/-- The blocks counted are those held. -/
theorem mem_heldBlocks {h : Bytes} : h ∈ s.heldBlocks ↔ s.HoldsLocally h := by
  rw [heldBlocks, List.mem_toFinset, mem_listLocalBlockHashes]

/-- **The tables agree and usage is exact.**  A block has a row iff it has a location, the size in
it is true, and `local_block_bytes` is the sum of the true sizes of the blocks this site has a
location row for, if that fits an `i64`, and otherwise an error. -/
structure UsageExact (trueSize : Bytes → ℕ) (s : Store) : Prop where
  matched : ∀ h, s.Recorded h ↔ ∃ loc, s.Listed h loc
  sizes : s.TrueSizes trueSize
  held : ∀ h, h ∈ s.heldBlocks ↔ s.Listed h s.localLocationId
  usage : s.localBlockBytes =
    if ∑ h ∈ s.heldBlocks, trueSize h < 2 ^ 63 then
      some ((∑ h ∈ s.heldBlocks, trueSize h : ℕ) : ℤ)
    else none

/-! ### The sum -/

/-- A sum of sizes, on from a sum so far. -/
theorem foldlM_sqlSum (l : List ℕ) (sum : ℕ) (hsum : sum < 2 ^ 63) :
    (l.map fun n : ℕ => (n : ℤ)).foldlM (fun sum n =>
      if -2 ^ 63 ≤ sum + n ∧ sum + n < 2 ^ 63 then some (sum + n) else none) (sum : ℤ) =
      if sum + l.sum < 2 ^ 63 then some ((sum + l.sum : ℕ) : ℤ) else none := by
  induction l generalizing sum with
  | nil =>
    rw [List.sum_nil, Nat.add_zero, if_pos hsum]
    rfl
  | cons n l ih =>
    rw [List.map_cons, List.foldlM_cons, List.sum_cons, ← Nat.add_assoc]
    by_cases hn : sum + n < 2 ^ 63
    · rw [if_pos (by omega)]
      exact ih (sum + n) hn
    · rw [if_neg (by omega), if_neg (by omega)]
      rfl

/-- The sum of sizes is there if it fits 64 bits; else SQLite fails. -/
theorem sqlSum_map (l : List ℕ) :
    sqlSum (l.map fun n : ℕ => (n : ℤ)) = if l.sum < 2 ^ 63 then some (l.sum : ℤ) else none := by
  have h := foldlM_sqlSum l 0 (by decide)
  rw [Nat.zero_add] at h
  exact h

/-- The join finds the true size of every local block. -/
theorem localBlockBytes_eq (hmatched : s.Matched) (hsizes : s.TrueSizes trueSize) :
    s.localBlockBytes =
      sqlSum ((s.listLocalBlockHashes.map trueSize).map fun n : ℕ => (n : ℤ)) := by
  rw [localBlockBytes, listLocalBlockHashes, List.map_map, List.map_filterMap]
  refine congrArg sqlSum (List.filterMap_congr fun e he => ?_)
  split_ifs with hloc
  · obtain ⟨row, hrow⟩ := (hmatched e.1.1).2 ⟨e.1.2, e.2, Table.lookup_eq_some_iff.2 he⟩
    rw [hrow, Option.map_some, hsizes _ row hrow]
    rfl
  · rfl

/-- Tables that agree give the usage. -/
theorem usageExact_of_matched (hmatched : s.Matched) (hsizes : s.TrueSizes trueSize) :
    s.UsageExact trueSize := by
  refine ⟨hmatched, hsizes, fun h => mem_heldBlocks, ?_⟩
  rw [localBlockBytes_eq hmatched hsizes, sqlSum_map, heldBlocks,
    List.sum_toFinset _ s.nodup_listLocalBlockHashes]

/-! ### Runs -/

/-- A row with the true size keeps the sizes true. -/
theorem TrueSizes.upsertBlockLocation (h : s.TrueSizes trueSize) (hash : Bytes) (loc : Str)
    (fid : Bytes) {size : ℤ} (hsize : size = trueSize hash) (ts : ℤ) :
    (s.upsertBlockLocation hash loc fid size ts).TrueSizes trueSize := by
  intro x row hrow
  rcases lookup_blocks_upsertBlockLocation hrow with hold | ⟨rfl, hnew⟩
  · exact h x row hold
  · rw [hnew, hsize]

/-- So does a fact that tells the true size. -/
theorem TrueSizes.applyFactD (h : s.TrueSizes trueSize) (B : Blake3) {nowMs : ℤ} {rec : FactRecord}
    (htrue : (MetaEvent.applyFact nowMs rec).TellsTrue trueSize) :
    (s.applyFactD B nowMs rec).TrueSizes trueSize := by
  rcases blocks_applyFactD B s nowMs rec with
    ⟨hash, loc, fid, size, hannounced, ⟨hashHex, fidHex, hfact⟩, -, hblocks⟩ | ⟨-, -, hblocks⟩
  · have hhash : hexDecode hashHex = some hash := by
      rw [hfact, Fact.announced] at hannounced
      split at hannounced
      · next hashB _ hdecode _ =>
          rw [hdecode]
          exact congrArg some (Prod.mk.inj (Option.some.inj hannounced)).1
      · cases hannounced
    have hsize := htrue hashHex loc fidHex size hfact hash hhash
    intro x row hrow
    rw [hblocks] at hrow
    exact h.upsertBlockLocation hash loc fid hsize rec.ts x row hrow
  · intro x row hrow
    rw [hblocks] at hrow
    exact h x row hrow

/-- One event keeps the tables in step. -/
theorem matched_step (B : Blake3) {e : MetaEvent} (htrue : e.TellsTrue trueSize)
    (h : s.Matched ∧ s.TrueSizes trueSize) :
    (e.step B s).Matched ∧ (e.step B s).TrueSizes trueSize := by
  obtain ⟨hmatched, hsizes⟩ := h
  cases e with
  | storeLocalBlock ts hash fid size =>
    exact ⟨hmatched.storeLocalBlock ts hash fid size,
      hsizes.upsertBlockLocation hash s.localLocationId fid htrue ts⟩
  | applyFact nowMs rec => exact ⟨hmatched.applyFactD B nowMs rec, hsizes.applyFactD B htrue⟩
  | deleteLocalBlock hash =>
    exact ⟨hmatched.deleteLocalBlock hash, fun x row hrow =>
      hsizes x row (lookup_blocks_deleteLocalBlock hrow)⟩

/-- In a new database the tables are matched. -/
theorem matched_new (localId : Str) : (Store.new localId).Matched := by
  intro h
  refine iff_of_false ?_ ?_
  · rintro ⟨row, ⟨⟩⟩
  · rintro ⟨loc, row, ⟨⟩⟩

/-- In a new database all sizes are true, as there are none. -/
theorem trueSizes_new (localId : Str) : (Store.new localId).TrueSizes trueSize := by
  rintro h row ⟨⟩

/-- **In every state of a run** of stores, announcements and deletes, in any order and with any
times, the tables agree and usage is exact, if the sizes that are told are true. -/
theorem usage_exact (B : Blake3) (trueSize : Bytes → ℕ) (localId : Str) (events : List MetaEvent)
    (htrue : ∀ e ∈ events, e.TellsTrue trueSize) :
    (events.foldl (MetaEvent.step B) (Store.new localId)).UsageExact trueSize := by
  have hstart : (Store.new localId).Matched ∧ (Store.new localId).TrueSizes trueSize :=
    ⟨matched_new localId, trueSizes_new localId⟩
  have hall : ∀ p ∈ trace (MetaEvent.step B) (Store.new localId) events,
      p.2.TellsTrue trueSize := fun p hp => htrue p.2 (mem_of_mem_trace hp)
  obtain ⟨hmatched, hsizes⟩ := invariant_at_end
    (P := fun s : Store => s.Matched ∧ s.TrueSizes trueSize)
    (C := fun _ (e : MetaEvent) => e.TellsTrue trueSize)
    (fun s e hs he => matched_step B he hs) hstart hall
  exact usageExact_of_matched hmatched hsizes

/-- `usage_exact` on a run in which two blocks are stored, a peer announces one of them with an
older time, and that one is deleted here. -/
theorem usage_exact_shared :
    ([.storeLocalBlock 5 [1] [] 1, .storeLocalBlock 6 [1, 1] [] 2,
        .applyFact 0 ⟨1, 2, .blockAnnounce (hexEncode [1]) (text "p") [] 1⟩,
        .deleteLocalBlock [1]].foldl (MetaEvent.step Blake3.sample)
      (Store.new (text "a"))).UsageExact List.length := by
  refine usage_exact Blake3.sample List.length (text "a") _ ?_
  simp only [List.forall_mem_cons]
  refine ⟨rfl, rfl, ?_, trivial, fun _ h => absurd h List.not_mem_nil⟩
  rintro hashHex loc fid size ⟨⟩ hash hhash
  rw [hexDecode_hexEncode, Option.some.injEq] at hhash
  rw [← hhash]
  rfl

end Store
end Shardscape
