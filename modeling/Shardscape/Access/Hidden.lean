/-
# Two sites that differ in the bytes of one object

`Store.AlikeBut x` relates two stores that differ in the block list, the size and the etag
of the object `x`, and in their logs, which no request reads.  Whether `x` is deleted and
how old its row is are the same, so a write to `x` has the same effect in both.

The calls of `src/storage.rs` that do not read the row of `x` cannot tell two such sites
apart (`Prog.Blind`): blocks, parts, uploads, users and every other object are the same in
both, and so are the answers of clocks, disks and peers.
-/

import Shardscape.Backend.Requests
import Shardscape.Lib.Blind

namespace Shardscape

open Lib Prog

/-- A row without its block list, size and etag. -/
def ObjectRow.veiled (row : ObjectRow) : ObjectRow :=
  { row with blocks := [], size := 0, etag := [] }

/-- The stores differ only in the bytes of the object `x`, and in their logs. -/
structure Store.AlikeBut (x : Str × Str) (s t : Store) : Prop where
  rest : t = { s with objects := t.objects, factLog := t.factLog }
  others : ∀ y, y ≠ x → t.objects.lookup y = s.objects.lookup y
  veiled : (t.objects.lookup x).map ObjectRow.veiled = (s.objects.lookup x).map ObjectRow.veiled

/-- The sites differ only so, too. -/
structure Site.AlikeBut {Blob : BlobStore} (x : Str × Str) (s t : Site Blob) : Prop where
  rest : t = { s with store := t.store }
  store : s.store.AlikeBut x t.store

namespace Store.AlikeBut

variable {x : Str × Str} {s t : Store}

/-- What does not read the objects or the log is the same in both. -/
theorem eq_of_reads (h : s.AlikeBut x t) {α : Type} {f : Store → α}
    (hf : ∀ s o l, f { s with objects := o, factLog := l } = f s) : f s = f t := by
  rw [h.rest]
  exact (hf s _ _).symm

/-- What does not write the objects either leaves such stores. -/
theorem of_writes (h : s.AlikeBut x t) {f : Store → Store} (hobj : ∀ s, (f s).objects = s.objects)
    (hf : ∀ s o l, ∃ l', f { s with objects := o, factLog := l } =
      { f s with objects := o, factLog := l' }) : (f s).AlikeBut x (f t) := by
  obtain ⟨l', hl'⟩ := hf s t.objects t.factLog
  rw [← h.rest] at hl'
  refine ⟨?_, fun y hy => ?_, ?_⟩
  · rw [hl']
  · rw [hobj, hobj, h.others y hy]
  · rw [hobj, hobj, h.veiled]

/-- The rows of every object, veiled. -/
theorem veiled_lookup (h : s.AlikeBut x t) (y : Str × Str) :
    (t.objects.lookup y).map ObjectRow.veiled = (s.objects.lookup y).map ObjectRow.veiled := by
  by_cases hy : y = x
  · rw [hy, h.veiled]
  · rw [h.others y hy]

/-- A register whose stamp is the same in both takes a write in both or in neither. -/
theorem merge_veiled {o o' : Option ObjectRow} (row : ObjectRow)
    (h : o'.map ObjectRow.veiled = o.map ObjectRow.veiled) :
    (Lww.merge ObjectRow.updatedAt o' row).map ObjectRow.veiled =
      (Lww.merge ObjectRow.updatedAt o row).map ObjectRow.veiled := by
  cases o with
  | none =>
    cases o' with
    | none => rfl
    | some r' => exact nomatch h
  | some r =>
    cases o' with
    | none => exact nomatch h
    | some r' =>
      have hr : r'.veiled = r.veiled := Option.some.inj h
      have hts : r'.updatedAt = r.updatedAt := congrArg (fun row => row.updatedAt) hr
      simp only [Lww.merge, hts]
      split
      · rfl
      · exact h

/-- The same write to an object in both. -/
theorem putObjectRow (h : s.AlikeBut x t) (bucket key : Str) (row : ObjectRow) :
    (s.putObjectRow bucket key row).AlikeBut x (t.putObjectRow bucket key row) := by
  refine ⟨?_, fun y hy => ?_, ?_⟩
  · conv_lhs => rw [h.rest]
    rfl
  · rw [lookup_putObjectRow, lookup_putObjectRow]
    split
    · next hk => rw [h.others _ (hk ▸ hy)]
    · exact h.others y hy
  · rw [lookup_putObjectRow, lookup_putObjectRow]
    split
    · exact merge_veiled row (h.veiled_lookup _)
    · exact h.veiled

/-- Both sites log the same fact. -/
theorem appendFact (h : s.AlikeBut x t) (ts : ℤ) (fact : Fact) :
    (s.appendFact ts fact).AlikeBut x (t.appendFact ts fact) :=
  h.of_writes (f := fun s => s.appendFact ts fact) (fun _ => rfl) fun _ _ _ => ⟨_, rfl⟩

/-- Reading another object. -/
theorem getObject_eq (h : s.AlikeBut x t) {bucket key : Str} (hne : (bucket, key) ≠ x) :
    s.getObject bucket key = t.getObject bucket key := by
  rw [getObject, getObject, h.others _ hne]

/-- Whether an object is there. -/
theorem isSome_getObject (h : s.AlikeBut x t) (bucket key : Str) :
    (s.getObject bucket key).isSome = (t.getObject bucket key).isSome := by
  have hread : ∀ o : Option ObjectRow, (o.bind readRow).isSome =
      (o.map ObjectRow.veiled).any fun row => !row.deleted := by
    intro o
    cases o with
    | none => rfl
    | some row => cases hd : row.deleted <;> simp [readRow, ObjectRow.veiled, hd]
  rw [getObject, getObject, hread, hread, h.veiled_lookup]

end Store.AlikeBut

namespace Site

variable {Blob : BlobStore} {ε α : Type} {x : Str × Str}

/-! ### Single calls -/

/-- A query that answers alike. -/
theorem blind_db {l : Call} {f : Store → α} (hf : ∀ s t : Store, s.AlikeBut x t → f s = f t) :
    (db l f : SProg Blob ε α).Blind (AlikeBut x) :=
  blind_query fun _ _ h => hf _ _ h.store

/-- A query of tables other than the objects and the log. -/
theorem blind_reads {l : Call} {f : Store → α}
    (hf : ∀ s o l, f { s with objects := o, factLog := l } = f s) :
    (db l f : SProg Blob ε α).Blind (AlikeBut x) :=
  blind_db fun _ _ h => h.eq_of_reads hf

/-- A statement that keeps the sites alike. -/
theorem blind_exec {l : Call} {f : Store → Store}
    (hf : ∀ s t : Store, s.AlikeBut x t → (f s).AlikeBut x (f t)) :
    (exec l f : SProg Blob ε Unit).Blind (AlikeBut x) := by
  refine blind_modify fun s t h => ⟨?_, hf _ _ h.store⟩
  conv_lhs => rw [h.rest]

/-- A statement on other tables. -/
theorem blind_writes {l : Call} {f : Store → Store} (hobj : ∀ s, (f s).objects = s.objects)
    (hf : ∀ s o l, ∃ l', f { s with objects := o, factLog := l } =
      { f s with objects := o, factLog := l' }) :
    (exec l f : SProg Blob ε Unit).Blind (AlikeBut x) :=
  blind_exec fun _ _ h => h.of_writes hobj hf

/-- An answer of the world. -/
theorem blind_ask {l : Call} {f : Site Blob → ℕ → α}
    (hf : ∀ (s : Site Blob) store n, f { s with store := store } n = f s n) :
    (ask l f : SProg Blob ε α).Blind (AlikeBut x) := by
  refine blind_call fun s t h => ⟨⟨?_, h.store⟩, ?_⟩
  · conv_lhs => rw [h.rest]
  · rw [h.rest]
    exact (hf s t.store s.tick).symm

/-- The system time does not depend on the rows. -/
theorem blind_systemTime : (systemTime : SProg Blob ε ℕ).Blind (AlikeBut x) :=
  blind_ask fun _ _ _ => rfl

/-- The cluster time does not depend on the rows. -/
theorem blind_nowMicros : (nowMicros : SProg Blob ε ℤ).Blind (AlikeBut x) :=
  blind_ask fun _ _ _ => rfl

/-- The cluster time in milliseconds does not either. -/
theorem blind_nowMillis : (nowMillis : SProg Blob ε ℤ).Blind (AlikeBut x) :=
  blind_nowMicros.bind fun _ => blind_pure _

/-- The row of another object is the same on both sites. -/
theorem blind_getObject {bucket key : Str} (hne : (bucket, key) ≠ x) :
    (getObject bucket key : SProg Blob ε _).Blind (AlikeBut x) :=
  blind_db fun _ _ h => h.getObject_eq hne

/-- A row is written over whatever was there, if it is newer; the stamps are alike. -/
theorem blind_insertObject (bucket key etag : Str) (shardId size : ℤ) (blocks : List Bytes) :
    (insertObject bucket shardId key blocks size etag : SProg Blob ε Unit).Blind (AlikeBut x) :=
  blind_nowMicros.bind fun _ => blind_exec fun _ _ h => (h.putObjectRow _ _ _).appendFact _ _

/-- So is a tombstone. -/
theorem blind_deleteObject (B : Blake3) (bucket key : Str) :
    (deleteObject B bucket key : SProg Blob ε Unit).Blind (AlikeBut x) :=
  blind_nowMicros.bind fun _ => blind_exec fun _ _ h => (h.putObjectRow _ _ _).appendFact _ _

/-- An upload is dropped on both sites. -/
theorem blind_deleteMultipartUpload (bucket : Str) (id : Uuid) :
    (deleteMultipartUpload bucket id : SProg Blob ε Unit).Blind (AlikeBut x) :=
  blind_writes (fun _ => rfl) fun _ _ _ => ⟨_, rfl⟩

/-- A part is written on both sites. -/
theorem blind_insertPart (bucket etag : Str) (id : Uuid) (number size : ℤ) (blocks : List Bytes) :
    (insertPart bucket id number blocks size etag : SProg Blob ε Unit).Blind (AlikeBut x) :=
  blind_writes (fun _ => rfl) fun _ _ _ => ⟨_, rfl⟩

/-! ### Blocks -/

/-- A put fails on both sites or on none. -/
theorem blind_blobPut (hash data : Bytes) :
    (blobPut hash data : SProg Blob Str Bytes).Blind (AlikeBut x) := by
  refine Blind.bind (blind_call fun s t h => ?_) fun r => blind_ofExcept r
  have horacle : t.oracle = s.oracle := by rw [h.rest]
  have htick : t.tick = s.tick := by rw [h.rest]
  have hblobs : t.blobs = s.blobs := by rw [h.rest]
  rw [horacle, htick, hblobs]
  cases s.oracle.putFails s.tick with
  | some e => exact ⟨⟨by conv_lhs => rw [h.rest], h.store⟩, rfl⟩
  | none => exact ⟨⟨by conv_lhs => rw [h.rest], h.store⟩, rfl⟩

/-- The files are the same. -/
theorem blind_blobGet (hash fid : Bytes) :
    (blobGet hash fid : SProg Blob Str Bytes).Blind (AlikeBut x) :=
  Blind.bind (blind_query fun s t h => by rw [h.rest]) fun r => blind_ofExcept r

/-- So are the rows of blocks. -/
theorem blind_getLocalBlockFid (hash : Bytes) :
    (getLocalBlockFid hash : SProg Blob ε (Option Bytes)).Blind (AlikeBut x) :=
  blind_reads fun _ _ _ => rfl

/-- A block's row is written on both sites. -/
theorem blind_storeLocalBlock (hash fid : Bytes) (size : ℤ) :
    (storeLocalBlock hash fid size : SProg Blob ε Unit).Blind (AlikeBut x) :=
  blind_nowMicros.bind fun _ => blind_writes (fun _ => rfl) fun _ _ _ => ⟨_, rfl⟩

/-- A block is promoted on both sites. -/
theorem blind_promoteBlockLocally (hash data : Bytes) :
    (promoteBlockLocally hash data : SProg Blob Str Unit).Blind (AlikeBut x) := by
  refine (blind_getLocalBlockFid hash).bind fun fid => ?_
  cases fid with
  | some fid => exact blind_pure _
  | none => exact (blind_blobPut hash data).bind fun fid => blind_storeLocalBlock hash fid _

/-- A block is stored on both sites. -/
theorem blind_storeBlock (B : Blake3) (data : Bytes) (size : ℤ) :
    (storeBlock B data size : SProg Blob Str Bytes).Blind (AlikeBut x) := by
  refine (blind_getLocalBlockFid _).bind fun fid => ?_
  cases fid with
  | some fid => exact blind_pure _
  | none =>
    exact (blind_blobPut _ data).bind fun fid =>
      (blind_storeLocalBlock _ fid size).bind fun _ => blind_pure _

/-- An entry is queued on both sites. -/
theorem blind_enqueueReplication (hash : Bytes) :
    (enqueueReplication hash : SProg Blob ε Unit).Blind (AlikeBut x) :=
  blind_nowMillis.bind fun _ => blind_writes (fun _ => rfl) fun _ _ _ => ⟨_, rfl⟩

/-- Peers answer both sites alike. -/
theorem blind_fetchFromHolders (locations : List (Str × Bytes)) (hash : Bytes)
    (peers : List (Str × Str)) :
    (fetchFromHolders locations hash peers : SProg Blob Str Bytes).Blind (AlikeBut x) := by
  induction peers with
  | nil => exact blind_fail _
  | cons peer rest ih =>
    unfold fetchFromHolders
    split
    · refine Blind.bind (p := noiseFetchBlock peer.2 hash)
        (blind_ask fun _ _ _ => rfl) fun r => ?_
      cases r with
      | error e => exact ih
      | ok data =>
        refine (blind_promoteBlockLocally hash data).attempt.bind fun r => ?_
        cases r with
        | ok _ => exact blind_pure _
        | error _ => exact (blind_enqueueReplication hash).bind fun _ => blind_pure _
    · exact ih

/-- A block is read alike. -/
theorem blind_getBlock (hash : Bytes) :
    (getBlock hash : SProg Blob Str Bytes).Blind (AlikeBut x) := by
  refine (blind_getLocalBlockFid hash).bind fun fid => ?_
  cases fid with
  | some fid => exact blind_blobGet hash fid
  | none =>
    refine Blind.bind (p := getBlockFids hash) (blind_reads fun _ _ _ => rfl) fun locations => ?_
    cases locations with
    | none => exact blind_fail _
    | some locations =>
      exact Blind.bind (p := getPeersWithUrls) (blind_reads fun _ _ _ => rfl) fun peers =>
        blind_fetchFromHolders locations hash peers

end Site
end Shardscape
