/-
# The mesh and its fact sync

`src/main.rs`, `sync_facts_once`: every site pulls every other site's fact log.
For one peer it reads its cursor, fetches a page of facts after it, applies them
one by one, skipping those whose `apply_fact` fails, and moves the cursor to the
greatest sequence number it applied.

A site is its store and the page it is working on (`SyncTask`), and the mesh is a
family of sites over any index type.  Local mutations may happen at any site
between any two store calls of a sync.  Which peer is pulled next, and whether the
loop goes on after a page, is left open: any idle site may pull from any peer.

Two ghosts that no code reads: `Node.applied` holds the facts whose `apply_fact`
returned `Ok`, and `SyncTask.failed` those of the current page for which it did
not.
-/

import Shardscape.Lib.Run
import Shardscape.Store.Facts

namespace Shardscape

open Lib Function

variable {ι : Type*}

/-- A page of a peer's facts, as far as the loop has come: the facts not yet
applied, and `max_seq`. -/
structure SyncTask (ι : Type*) where
  peer : ι
  pending : List FactRecord
  maxSeq : ℕ
  failed : List ℕ := []

/-- A site: its store, the page its sync task is working on, and the facts it has
applied, each with the peer it came from. -/
structure Node (ι : Type*) where
  store : Store
  task : Option (SyncTask ι) := none
  applied : List (ι × FactRecord) := []

/-- How far `apply_fact` got before it failed. -/
inductive ApplyStage where
  | nothing
  | blockRow
  | locationRow
  deriving DecidableEq

namespace Store

/-- What a failed `apply_fact` leaves behind.  Only an announcement has several
effects: the block row, the location row, and then the queue entry. -/
def applyFactFailed (s : Store) (rec : FactRecord) (stage : ApplyStage) : Store :=
  match rec.fact with
  | .blockAnnounce hash locationId fid size =>
    match hexDecode hash, hexDecode fid, stage with
    | some hashB, some _, .blockRow =>
      { s with blocks := Table.upsertNewer BlockRow.updatedAt s.blocks hashB ⟨size, rec.ts⟩ }
    | some hashB, some fidB, .locationRow =>
      s.upsertBlockLocation hashB locationId fidB size rec.ts
    | _, _, _ => s
  | _ => s

/-- A failed `apply_fact` leaves objects, users, log and cursors alone. -/
theorem frame_applyFactFailed (s : Store) (rec : FactRecord) (stage : ApplyStage) :
    (s.applyFactFailed rec stage).objects = s.objects ∧
      (s.applyFactFailed rec stage).users = s.users ∧
      (s.applyFactFailed rec stage).factLog = s.factLog ∧
      (s.applyFactFailed rec stage).replicationCursors = s.replicationCursors := by
  unfold applyFactFailed
  split
  · split <;> exact ⟨rfl, rfl, rfl, rfl⟩
  · exact ⟨rfl, rfl, rfl, rfl⟩

/-- A local mutation, at its clock reading. -/
inductive Mutation where
  | insertObject (ts : ℤ) (bucket : Str) (shardId : ℤ) (key : Str) (blocks : List Bytes) (size : ℤ)
      (etag : Str)
  | deleteObject (ts : ℤ) (bucket key : Str)
  | createUser (ts : ℤ) (accessKey secretKey : Str) (policy : Policy)
  | storeLocalBlock (ts : ℤ) (hash fid : Bytes) (size : ℤ)

/-- A local mutation of a store. -/
def mutate (B : Blake3) (J : PolicyJson) (s : Store) : Mutation → Store
  | .insertObject ts bucket shardId key blocks size etag =>
    s.insertObject ts bucket shardId key blocks size etag
  | .deleteObject ts bucket key => s.deleteObject B ts bucket key
  | .createUser ts accessKey secretKey policy => s.createUser J ts accessKey secretKey policy
  | .storeLocalBlock ts hash fid size => s.storeLocalBlock ts hash fid size

/-- The fact a mutation logs. -/
def mutationFact (J : PolicyJson) (s : Store) : Mutation → ℤ × Fact
  | .insertObject ts bucket _ key blocks size etag =>
    (ts, .objectPut bucket key (blocks.map hexEncode) size etag)
  | .deleteObject ts bucket key => (ts, .objectDelete bucket key)
  | .createUser ts accessKey secretKey policy =>
    (ts, .userPut accessKey secretKey (J.toValueText policy))
  | .storeLocalBlock ts hash fid size =>
    (ts, .blockAnnounce (hexEncode hash) s.localLocationId (hexEncode fid) size)

/-- A local mutation logs one fact and leaves the cursors alone. -/
theorem frame_mutate (B : Blake3) (J : PolicyJson) (s : Store) (m : Mutation) :
    (s.mutate B J m).factLog = s.factLog ++ [s.mutationFact J m] ∧
      (s.mutate B J m).replicationCursors = s.replicationCursors := by
  cases m <;> exact ⟨rfl, rfl⟩

end Store

namespace Node

/-- The page after the cursor, unless it is empty or a page is under way. -/
def pull (n : Node ι) (peer : ι) (peerId : Str) (peerStore : Store) : Node ι :=
  let after := n.store.getCursor peerId
  let facts := peerStore.factsSince after factSyncBatch
  if n.task.isSome ∨ facts = [] then n
  else { n with task := some { peer := peer, pending := facts, maxSeq := after } }

/-- `apply_fact` on the next fact of the page runs to its end, in success or in
error. -/
def applyNext (B : Blake3) (nowMs : ℤ) (n : Node ι) : Node ι :=
  match n.task with
  | some { peer, pending := rec :: rest, maxSeq, failed } =>
    match n.store.applyFact B nowMs rec with
    | .ok s =>
      { n with
        store := s
        task := some ⟨peer, rest, max maxSeq rec.seq, failed⟩
        applied := (peer, rec) :: n.applied }
    | .error _ => { n with task := some ⟨peer, rest, maxSeq, rec.seq :: failed⟩ }
  | _ => n

/-- `apply_fact` on the next fact of the page fails on an error of the database. -/
def failNext (stage : ApplyStage) (n : Node ι) : Node ι :=
  match n.task with
  | some { peer, pending := rec :: rest, maxSeq, failed } =>
    { n with
      store := n.store.applyFactFailed rec stage
      task := some ⟨peer, rest, maxSeq, rec.seq :: failed⟩ }
  | _ => n

/-- The page is through: `set_cursor`. -/
def finish (ids : ι → Str) (n : Node ι) : Node ι :=
  match n.task with
  | some { peer, pending := [], maxSeq, failed := _ } =>
    { n with store := n.store.setCursor (ids peer) maxSeq, task := none }
  | _ => n

/-- A crash, or a `set_cursor` that fails: the page is forgotten. -/
def abandon (n : Node ι) : Node ι := { n with task := none }

end Node

/-- A mesh of sites. -/
abbrev Mesh (ι : Type*) := ι → Node ι

/-- What happens in the mesh. -/
inductive MeshEvent (ι : Type*) where
  | mutate (i : ι) (m : Store.Mutation)
  | pull (i peer : ι)
  | applyNext (i : ι) (nowMs : ℤ)
  | failNext (i : ι) (stage : ApplyStage)
  | finish (i : ι)
  | abandon (i : ι)

namespace Mesh

variable [DecidableEq ι]

/-- The mesh before anything happened. -/
def init (ids : ι ↪ Str) : Mesh ι := fun i => { store := Store.new (ids i) }

/-- One event. -/
def step (B : Blake3) (J : PolicyJson) (ids : ι ↪ Str) (w : Mesh ι) : MeshEvent ι → Mesh ι
  | .mutate i m => update w i { w i with store := (w i).store.mutate B J m }
  | .pull i peer =>
    if peer = i then w
    else update w i ((w i).pull peer (ids peer) (w peer).store)
  | .applyNext i nowMs => update w i ((w i).applyNext B nowMs)
  | .failNext i stage => update w i ((w i).failNext stage)
  | .finish i => update w i ((w i).finish ids)
  | .abandon i => update w i (w i).abandon

/-- A run of the mesh. -/
def run (B : Blake3) (J : PolicyJson) (ids : ι ↪ Str) (es : List (MeshEvent ι)) : Mesh ι :=
  es.foldl (step B J ids) (init ids)

/-! ### What an event can do -/

/-- What an event can change: one site, in one of these ways. -/
inductive Change (B : Blake3) (J : PolicyJson) (ids : ι ↪ Str) (w : Mesh ι) :
    MeshEvent ι → ι → Node ι → Prop
  | mutate (i : ι) (m : Store.Mutation) :
      Change B J ids w (.mutate i m) i { w i with store := (w i).store.mutate B J m }
  | pull (i p : ι) (hp : p ≠ i) (ht : (w i).task = none) :
      Change B J ids w (.pull i p) i
        { w i with
          task := some ⟨p, (w p).store.factsSince ((w i).store.getCursor (ids p)) factSyncBatch,
            (w i).store.getCursor (ids p), []⟩ }
  | applied (i p : ι) (nowMs : ℤ) (rec : FactRecord) (rest : List FactRecord) (maxSeq : ℕ)
      (failed : List ℕ) (ht : (w i).task = some ⟨p, rec :: rest, maxSeq, failed⟩) (s : Store)
      (hs : (w i).store.applyFact B nowMs rec = .ok s) :
      Change B J ids w (.applyNext i nowMs) i
        ⟨s, some ⟨p, rest, max maxSeq rec.seq, failed⟩, (p, rec) :: (w i).applied⟩
  | undecodable (i p : ι) (nowMs : ℤ) (rec : FactRecord) (rest : List FactRecord) (maxSeq : ℕ)
      (failed : List ℕ) (ht : (w i).task = some ⟨p, rec :: rest, maxSeq, failed⟩) (err : StoreError)
      (hs : (w i).store.applyFact B nowMs rec = .error err) :
      Change B J ids w (.applyNext i nowMs) i
        { w i with task := some ⟨p, rest, maxSeq, rec.seq :: failed⟩ }
  | failed (i p : ι) (stage : ApplyStage) (rec : FactRecord) (rest : List FactRecord) (maxSeq : ℕ)
      (failed : List ℕ) (ht : (w i).task = some ⟨p, rec :: rest, maxSeq, failed⟩) :
      Change B J ids w (.failNext i stage) i
        { w i with
          store := (w i).store.applyFactFailed rec stage
          task := some ⟨p, rest, maxSeq, rec.seq :: failed⟩ }
  | finish (i p : ι) (maxSeq : ℕ) (failed : List ℕ)
      (ht : (w i).task = some ⟨p, [], maxSeq, failed⟩) :
      Change B J ids w (.finish i) i
        { w i with store := (w i).store.setCursor (ids p) maxSeq, task := none }
  | abandon (i : ι) : Change B J ids w (.abandon i) i (w i).abandon

/-- Every event changes nothing, or one site as `Change` says. -/
theorem step_cases (B : Blake3) (J : PolicyJson) (ids : ι ↪ Str) (w : Mesh ι) (e : MeshEvent ι) :
    w.step B J ids e = w ∨
      ∃ i n, w.step B J ids e = update w i n ∧ Change B J ids w e i n := by
  cases e with
  | mutate i m => exact .inr ⟨i, _, rfl, .mutate i m⟩
  | pull i p =>
    simp only [step, Node.pull]
    split_ifs with hp hidle
    · exact .inl rfl
    · exact .inl (update_eq_self i w)
    · rw [not_or, Option.not_isSome_iff_eq_none] at hidle
      exact .inr ⟨i, _, rfl, .pull i p hp hidle.1⟩
  | applyNext i nowMs =>
    simp only [step, Node.applyNext]
    split
    · rename_i p rec rest maxSeq failed ht
      split
      · rename_i s hs
        exact .inr ⟨i, _, rfl, .applied i p nowMs rec rest maxSeq failed ht s hs⟩
      · rename_i err hs
        exact .inr ⟨i, _, rfl, .undecodable i p nowMs rec rest maxSeq failed ht err hs⟩
    · exact .inl (update_eq_self i w)
  | failNext i stage =>
    simp only [step, Node.failNext]
    split
    · rename_i p rec rest maxSeq failed ht
      exact .inr ⟨i, _, rfl, .failed i p stage rec rest maxSeq failed ht⟩
    · exact .inl (update_eq_self i w)
  | finish i =>
    simp only [step, Node.finish]
    split
    · rename_i p maxSeq failed ht
      exact .inr ⟨i, _, rfl, .finish i p maxSeq failed ht⟩
    · exact .inl (update_eq_self i w)
  | abandon i => exact .inr ⟨i, _, rfl, .abandon i⟩

/-- What every site satisfies before an event, and the site it changes after it,
every site satisfies after it. -/
theorem forall_step {B : Blake3} {J : PolicyJson} {ids : ι ↪ Str} {w : Mesh ι} {e : MeshEvent ι}
    {P : Node ι → Prop} (h : ∀ j, P (w j)) (hc : ∀ i n, Change B J ids w e i n → P n) (j : ι) :
    P (w.step B J ids e j) := by
  rcases step_cases B J ids w e with hid | ⟨i, n, hstep, hchange⟩
  · rw [hid]
    exact h j
  · rw [hstep]
    by_cases hj : j = i
    · subst hj
      rw [update_self]
      exact hc j n hchange
    · rw [update_of_ne hj]
      exact h j

/-- An event that is no mutation keeps the logs. -/
theorem factLog_step {B : Blake3} {J : PolicyJson} {ids : ι ↪ Str} {w : Mesh ι} {e : MeshEvent ι}
    (he : ∀ i m, e ≠ .mutate i m) (j : ι) :
    (w.step B J ids e j).store.factLog = (w j).store.factLog := by
  rcases step_cases B J ids w e with hid | ⟨i, n, hstep, hchange⟩
  · rw [hid]
  · have hlog : n.store.factLog = (w i).store.factLog := by
      cases hchange with
      | mutate i m => exact absurd rfl (he i m)
      | applied i p nowMs rec rest maxSeq failed ht s hs =>
        rw [← Store.applyFactD_of_ok hs]
        exact (Store.frame_applyFactD B (w i).store nowMs rec).1
      | failed i p stage rec rest maxSeq failed ht =>
        exact (Store.frame_applyFactFailed (w i).store rec stage).2.2.1
      | pull | undecodable | finish | abandon => rfl
    rw [hstep]
    by_cases hj : j = i
    · subst hj
      rw [update_self, hlog]
    · rw [update_of_ne hj]

end Mesh
end Shardscape
