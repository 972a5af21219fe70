/-
# A site rebuilt from its log

A site writes its rows and logs a fact for each mutation (`insert_object`,
`delete_object`, `create_user`, `src/store.rs`), also for one that loses the comparison
of stamps.  Another site that fetches the log with `facts_since`, page by page, and applies
every fact rebuilds the same objects and the same users, whatever the clock read and
whatever the sizes of the pages (`replay_reproduces`): row by row both are the same stream
of upserts.
-/

import Shardscape.Backend.Site
import Shardscape.Replication.Agreement
import Mathlib.Algebra.BigOperators.Group.List.Basic

namespace Shardscape
namespace Store

open Lib

/-- The log of `source` from `after` on, fetched in pages of the given sizes and applied,
each fact at some reading of the clock.  Returns the store and where the next page would
start. -/
def replay (B : Blake3) (nowMs : FactRecord → ℤ) (source : Store) :
    List ℕ → ℕ → Store → Except StoreError (Store × ℕ)
  | [], after, s => .ok (s, after)
  | limit :: limits, after, s => do
    let page := source.factsSince after limit
    let s' ← page.foldlM (fun s rec => s.applyFact B (nowMs rec) rec) s
    replay B nowMs source limits ((page.getLast?.map FactRecord.seq).getD after) s'

/-! ### Pages -/

/-- Facts that decode are applied one after the other. -/
theorem foldlM_applyFact {B : Blake3} {nowMs : FactRecord → ℤ} {page : List FactRecord}
    (h : ∀ rec ∈ page, rec.fact.Decodes) (s : Store) :
    page.foldlM (fun s rec => s.applyFact B (nowMs rec) rec) s =
      .ok (s.applyFacts B (page.map fun rec => (nowMs rec, rec))) := by
  induction page generalizing s with
  | nil => rfl
  | cons rec page ih =>
    rw [List.forall_mem_cons] at h
    obtain ⟨s', hs'⟩ := h.1 B s (nowMs rec) rec.ts rec.seq
    rw [List.foldlM_cons, hs', List.map_cons, applyFacts, List.foldl_cons,
      applyFactD_of_ok hs']
    exact ih h.2 s'

/-- A page ends where the next one starts. -/
theorem next_factsSince {source : Store} {after limit : ℕ}
    (hafter : after ≤ source.factLog.length) :
    (((source.factsSince after limit).getLast?.map FactRecord.seq).getD after) =
      min (after + limit) source.factLog.length := by
  have hlen : (source.factsSince after limit).length =
      min limit (source.factLog.length - after) := by
    rw [factsSince_eq, List.length_take, List.length_drop, length_factRecords]
  rw [List.getLast?_eq_getElem?, hlen, factsSince_eq, List.getElem?_take, List.getElem?_drop,
    getElem?_factRecords]
  rcases Nat.eq_zero_or_pos (min limit (source.factLog.length - after)) with hnone | hsome
  · rcases Nat.min_eq_zero_iff.1 hnone with rfl | hend
    · simp [hafter]
    · have hout : source.factLog[after + (min limit (source.factLog.length - after) - 1)]? = none :=
        List.getElem?_eq_none (by omega)
      rw [hout]
      split_ifs <;> simp only [Option.map_none, Option.getD_none] <;> omega
  · have hin : after + (min limit (source.factLog.length - after) - 1) < source.factLog.length := by
      omega
    rw [if_pos (by omega), List.getElem?_eq_getElem hin]
    simp only [Option.map_some, Option.getD_some]
    omega

/-- **Pages make up the log.** -/
theorem replay_eq (B : Blake3) (nowMs : FactRecord → ℤ) {source : Store}
    (hdec : ∀ e ∈ source.factLog, e.2.Decodes) (limits : List ℕ) {after : ℕ}
    (hafter : after ≤ source.factLog.length) (s : Store) :
    replay B nowMs source limits after s =
      .ok (s.applyFacts B ((((factRecords source.factLog).drop after).take limits.sum).map
          fun rec => (nowMs rec, rec)),
        min (after + limits.sum) source.factLog.length) := by
  induction limits generalizing after s with
  | nil => simp [replay, applyFacts, Nat.min_eq_left hafter]
  | cons limit limits ih =>
    have hpage : ∀ rec ∈ source.factsSince after limit, rec.fact.Decodes := by
      intro rec hrec
      have hmem := List.mem_of_mem_filter (List.mem_of_mem_take hrec)
      exact hdec _ (List.mem_of_getElem? (mem_factRecords.1 hmem).2)
    have hdrop : (factRecords source.factLog).drop
        (min (after + limit) source.factLog.length) =
          ((factRecords source.factLog).drop after).drop limit := by
      rw [List.drop_drop]
      rcases Nat.le_total (after + limit) source.factLog.length with hle | hge
      · rw [Nat.min_eq_left hle]
      · rw [Nat.min_eq_right hge, List.drop_eq_nil_of_le (by simp),
          List.drop_eq_nil_of_le (by simpa using hge)]
    rw [replay, foldlM_applyFact hpage]
    refine (ih (next_factsSince hafter ▸ Nat.min_le_right _ _) _).trans ?_
    rw [next_factsSince hafter, hdrop, applyFacts, applyFacts, ← List.foldl_append,
      ← List.map_append, factsSince_eq, ← List.take_add, List.sum_cons, ← applyFacts]
    congr 2
    omega

/-! ### The two sides -/

/-- A mutation whose shard is that of its key, as every caller of `insert_object` has it. -/
def Mutation.Sharded (B : Blake3) : Mutation → Prop
  | .insertObject _ _ shardId key _ _ _ => shardId = computeShardId B key
  | _ => True

/-- The row a mutation writes is the row its fact writes. -/
theorem objects_mutate {B : Blake3} {J : PolicyJson} {m : Mutation} (hm : m.Sharded B) (s : Store)
    (seq : ℕ) :
    (s.mutate B J m).objects = Table.upsertWrite ObjectRow.updatedAt s.objects
      (objectWrite B ⟨seq, (s.mutationFact J m).1, (s.mutationFact J m).2⟩) := by
  cases m with
  | insertObject ts bucket shardId key blocks size etag =>
    rw [show shardId = computeShardId B key from hm]
    simp [mutate, insertObject, mutationFact, objectWrite, Table.upsertWrite, putObjectRow,
      appendFact]
  | _ => rfl

/-- The rows of a store are those its own log stands for. -/
structure LogTells (B : Blake3) (J : PolicyJson) (s : Store) : Prop where
  decodes : ∀ e ∈ s.factLog, e.2.Decodes
  objects : s.objects = Table.upsertAll ObjectRow.updatedAt (objectWrite B) ∅
    (factRecords s.factLog)
  users : ∀ accessKey, (s.users.lookup accessKey).map (userView J) =
    ((Table.upsertAll UserRow.updatedAt userWrite ∅ (factRecords s.factLog)).lookup accessKey).map
      (userView J)

/-- A new database has nothing to tell. -/
theorem logTells_new (B : Blake3) (J : PolicyJson) (id : Str) : LogTells B J (new id) :=
  ⟨nofun, rfl, fun _ => rfl⟩

/-- One mutation keeps the log in step with the rows. -/
theorem LogTells.mutate {B : Blake3} {J : PolicyJson} {s : Store} (h : LogTells B J s)
    {m : Mutation} (hm : m.Sharded B) : LogTells B J (s.mutate B J m) := by
  have hlog := (frame_mutate B J s m).1
  have hrecords : factRecords (s.mutate B J m).factLog = factRecords s.factLog ++
      [⟨1 + s.factLog.length, (s.mutationFact J m).1, (s.mutationFact J m).2⟩] := by
    rw [hlog, factRecords_append]
    rfl
  refine ⟨fun e he => ?_, ?_, fun accessKey => ?_⟩
  · rw [hlog, List.mem_append, List.mem_singleton] at he
    rcases he with hold | rfl
    · exact h.decodes e hold
    · exact decodes_mutationFact J s m
  · rw [hrecords, Table.upsertAll_concat, ← h.objects]
    exact objects_mutate hm s _
  · rw [hrecords, Table.upsertAll_concat]
    cases m with
    | createUser ts key secretKey policy =>
      have hsame : userView J ⟨secretKey, J.toText policy, ts⟩ =
          userView J ⟨secretKey, J.toValueText policy, ts⟩ := by
        rw [userView, userView, J.parse_toText, J.parse_toValueText]
      refine (Table.map_lookup_upsertNewer (fun v => v.2.2) (userView J)
        (fun _ => rfl) s.users key
        accessKey _).trans ?_
      refine Eq.trans ?_ (Table.map_lookup_upsertNewer (fun v => v.2.2) (userView J)
        (fun _ => rfl) _ key accessKey _).symm
      rw [h.users, h.users, hsame]
      rfl
    | _ => exact h.users accessKey

/-- Two stores with the same objects and users, up to the texts of policies, and so with
the same answers to every read. -/
structure ReadsAlike (J : PolicyJson) (s t : Store) : Prop where
  objects : t.objects = s.objects
  users : ∀ accessKey, (t.users.lookup accessKey).map (userView J) =
    (s.users.lookup accessKey).map (userView J)
  getObject : ∀ bucket key, t.getObject bucket key = s.getObject bucket key
  listObjects : ∀ bucket after pre pageSize,
    t.listObjects bucket after pre pageSize = s.listObjects bucket after pre pageSize
  listBuckets : t.listBuckets = s.listBuckets
  getUser : ∀ accessKey, t.getUser J accessKey = s.getUser J accessKey
  objectBlocks : t.objectBlocks = s.objectBlocks

/-- Databases with the same rows, as they are shown, are read alike. -/
theorem readsAlike_of_rows {J : PolicyJson} {s t : Store} (hobj : t.objects = s.objects)
    (husers : ∀ accessKey, (t.users.lookup accessKey).map (userView J) =
      (s.users.lookup accessKey).map (userView J)) : ReadsAlike J s t where
  objects := hobj
  users := husers
  getObject bucket key := by rw [Store.getObject, Store.getObject, hobj]
  listObjects bucket after pre pageSize := by
    simp only [Store.listObjects, hobj]
  listBuckets := by simp only [Store.listBuckets, liveRows, hobj]
  getUser := getUser_congr husers
  objectBlocks := by rw [Store.objectBlocks, Store.objectBlocks, hobj]

/-- **A log replayed is the site.**  After any mutations of a site, at any clock readings,
another site that fetches the log in pages of any sizes, one page at least per fact, and
applies it to an empty store comes to its end and to the same objects and users, so that it
answers every read alike. -/
theorem replay_reproduces (B : Blake3) (J : PolicyJson) (id id' : Str) (ms : List Mutation)
    (hms : ∀ m ∈ ms, m.Sharded B) (nowMs : FactRecord → ℤ) (limits : List ℕ)
    (hlimits : ∀ limit ∈ limits, 1 ≤ limit)
    (hlong : (ms.foldl (mutate B J) (new id)).factLog.length ≤ limits.length) :
    ∃ t, replay B nowMs (ms.foldl (mutate B J) (new id)) limits 0 (new id') =
        .ok (t, (ms.foldl (mutate B J) (new id)).factLog.length) ∧
      ReadsAlike J (ms.foldl (mutate B J) (new id)) t := by
  have htells : LogTells B J (ms.foldl (mutate B J) (new id)) := by
    refine invariant_at_end (P := LogTells B J) (C := fun _ m => m.Sharded B)
      (fun s m hs hm => hs.mutate hm) (logTells_new B J id) fun p hp => ?_
    exact hms p.2 (mem_of_mem_trace hp)
  generalize ms.foldl (mutate B J) (new id) = s at htells hlong ⊢
  have hsum : s.factLog.length ≤ limits.sum :=
    hlong.trans (List.length_le_sum_of_one_le limits hlimits)
  have hall : ((((factRecords s.factLog).drop 0).take limits.sum).map
      fun rec => (nowMs rec, rec)).map Prod.snd = factRecords s.factLog := by
    rw [List.drop_zero, List.take_of_length_le (by simpa using hsum), List.map_map]
    exact List.map_id _
  have hreplay := replay_eq B nowMs htells.decodes limits (Nat.zero_le _) (new id')
  rw [Nat.zero_add, Nat.min_eq_right hsum] at hreplay
  refine ⟨_, hreplay, readsAlike_of_rows ?_ ?_⟩
  · rw [objects_applyFacts, hall, htells.objects]
    rfl
  · intro accessKey
    rw [users_applyFacts, hall, htells.users]
    rfl

/-- A put, a delete by a clock that has gone back, and a user. -/
def clockWentBack : List Mutation :=
  [.insertObject 5 (text "b") (computeShardId Blake3.sample (text "k")) (text "k") [] 0 [],
    .deleteObject 3 (text "b") (text "k"), .createUser 3 (text "u") (text "secret") ⟨[]⟩]

/-- Fetched in pages of one, two and one fact. -/
theorem replay_reproduces_clockWentBack :
    ∃ t, replay Blake3.sample (fun _ => 0)
        (clockWentBack.foldl (mutate Blake3.sample PolicyJson.sample) (new (text "a"))) [1, 2, 1] 0
          (new (text "b")) = .ok (t, 3) ∧
      ReadsAlike PolicyJson.sample
        (clockWentBack.foldl (mutate Blake3.sample PolicyJson.sample) (new (text "a"))) t := by
  refine replay_reproduces Blake3.sample PolicyJson.sample (text "a") (text "b") clockWentBack ?_
    (fun _ => 0) [1, 2, 1] (by decide) (by decide)
  simp [clockWentBack, Mutation.Sharded]

end Store
end Shardscape
