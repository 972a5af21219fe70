/-
# Deleting many objects at once

`src/storage.rs`: `delete_object` is authorized for `s3:DeleteObject` on the object,
`delete_objects` for the same action on the bucket, once, and then deletes every key it is
given.

The two decisions are about different resources, `arn:ss:bucket:::b/k` and
`arn:ss:bucket:::b`.  A policy that allows the bucket and denies what is under `secret/` does
not keep the batch from deleting there (`batch_deletes_denied`), and one that allows what is
under `b/` only refuses the batch.  The batch does what the single deletes do, whatever the
clock says, exactly if the policy decides about every key as it does about the bucket
(`batch_delete_agrees_iff`).
-/

import Shardscape.Backend.Samples

namespace Shardscape

open Lib Lib.Prog

variable {Blob : BlobStore}

/-! ### Tombstones and their stamps -/

namespace Store

/-- The object has a row that is not older than `t`. -/
def WrittenSince (t : ℤ) (s : Store) (k : Str × Str) : Prop :=
  ∃ row, s.objects.lookup k = some row ∧ t ≤ row.updatedAt

/-- A tombstone is as new as the clock that it is written by. -/
theorem writtenSince_deleteObject (B : Blake3) (s : Store) {t ts : ℤ} (h : t ≤ ts)
    (bucket key : Str) : (s.deleteObject B ts bucket key).WrittenSince t (bucket, key) := by
  obtain ⟨row, hrow, hle, -⟩ := Lww.exists_merge_eq_some ObjectRow.updatedAt
    (s.objects.lookup (bucket, key)) (tombstone B key ts)
  refine ⟨row, ?_, h.trans hle⟩
  exact (lookup_putObjectRow s bucket key _ _).trans ((if_pos rfl).trans hrow)

/-- A row does not become older. -/
theorem WrittenSince.deleteObject {t : ℤ} {s : Store} {k : Str × Str} (h : s.WrittenSince t k)
    (B : Blake3) (ts : ℤ) (bucket key : Str) :
    (s.deleteObject B ts bucket key).WrittenSince t k := by
  obtain ⟨old, hold, hle⟩ := h
  have hlookup := lookup_putObjectRow s bucket key (tombstone B key ts) k
  split_ifs at hlookup with hk
  · obtain ⟨row, hrow, -, hmono⟩ := Lww.exists_merge_eq_some ObjectRow.updatedAt
      (s.objects.lookup (bucket, key)) (tombstone B key ts)
    exact ⟨row, hlookup.trans hrow, hle.trans (hmono old (hk ▸ hold))⟩
  · exact ⟨old, hlookup.trans hold, hle⟩

/-- There is a time later than that of a row. -/
theorem exists_not_writtenSince (s : Store) (k : Str × Str) (offset : ℤ) :
    ∃ micros : ℕ, ¬ s.WrittenSince (micros + offset) k := by
  cases hrow : s.objects.lookup k with
  | none =>
    refine ⟨0, ?_⟩
    rintro ⟨row, h, -⟩
    cases hrow.symm.trans h
  | some row =>
    refine ⟨(row.updatedAt - offset + 1).toNat, ?_⟩
    rintro ⟨row', h, hle⟩
    cases hrow.symm.trans h
    omega

end Store

/-! ### One delete, and many -/

namespace StorageBackend

variable (S : StorageBackend) (J : PolicyJson) (credentials : Option Str) (bucket : Str)

/-- A site after the delete of one object. -/
def deleted (s : Site Blob) (key : Str) : Site Blob :=
  { s with
    tick := s.tick + 1
    store := s.store.deleteObject S.blake3 s.stamp bucket key }

/-- A site after one request for each key. -/
def deleteEach (keys : List Str) (s : Site Blob) : Site Blob :=
  keys.foldl (fun s key => ((S.handle J credentials (.deleteObject bucket key)).exec s).1) s

/-- A site after one request for all keys. -/
def deleteBatch (keys : List Str) (s : Site Blob) : Site Blob :=
  ((S.handle J credentials (.deleteObjects bucket keys)).exec s).1

/-- The user may delete the object. -/
def MayDelete (s : Store) (key : Str) : Prop :=
  (S3Request.deleteObject bucket key).Allowed J credentials s

/-- The user may delete from the bucket. -/
def MayDeleteIn (s : Store) : Prop := (S3Request.deleteObjects bucket []).Allowed J credentials s

variable {S J credentials bucket} {s : Site Blob}

/-- One request deletes its object iff it is allowed. -/
theorem exec_handle_deleteObject (key : Str) :
    (MayDelete J credentials bucket s.store key →
        ((S.handle J credentials (.deleteObject bucket key)).exec s).1 = deleted S bucket s key) ∧
      (¬ MayDelete J credentials bucket s.store key →
        ((S.handle J credentials (.deleteObject bucket key)).exec s).1 = s) := by
  change wp (S.handle J credentials (.deleteObject bucket key)) (fun _ s' =>
    (MayDelete J credentials bucket s.store key → s' = deleted S bucket s key) ∧
      (¬ MayDelete J credentials bucket s.store key → s' = s)) s
  refine wp_handle (fun hallowed => ?_) fun hdenied e => ?_
  · exact ⟨fun _ => rfl, fun hnot => absurd hallowed hnot⟩
  · exact ⟨fun h => absurd h hdenied, fun _ => rfl⟩

/-- The loop of `delete_objects`. -/
theorem exec_forEach_deleteObject (keys : List Str) (s : Site Blob) :
    ((forEach (Site.deleteObject S.blake3 bucket) keys : Site.SProg Blob S3Error Unit).exec s) =
      (keys.foldl (deleted S bucket) s, .ok ()) := by
  induction keys generalizing s with
  | nil => rfl
  | cons key keys ih => exact ih (deleted S bucket s key)

/-- The batch deletes all of its objects iff it is allowed. -/
theorem deleteBatch_eq (keys : List Str) :
    (MayDeleteIn J credentials bucket s.store →
        deleteBatch S J credentials bucket keys s = keys.foldl (deleted S bucket) s) ∧
      (¬ MayDeleteIn J credentials bucket s.store →
        deleteBatch S J credentials bucket keys s = s) := by
  change wp (S.handle J credentials (.deleteObjects bucket keys)) (fun _ s' =>
    (MayDeleteIn J credentials bucket s.store → s' = keys.foldl (deleted S bucket) s) ∧
      (¬ MayDeleteIn J credentials bucket s.store → s' = s)) s
  refine wp_handle (fun hallowed => ?_) fun hdenied e => ?_
  · refine wp_bind.2 (wp_bind.2 ?_)
    unfold wp
    rw [exec_forEach_deleteObject]
    exact ⟨fun _ => rfl, fun hnot => absurd hallowed hnot⟩
  · exact ⟨fun h => absurd h hdenied, fun _ => rfl⟩

/-- The single requests delete the objects that may be deleted. -/
theorem deleteEach_eq_filter {may : Str → Bool}
    (hmay : ∀ key, may key = true ↔ MayDelete J credentials bucket s.store key) (keys : List Str) :
    deleteEach S J credentials bucket keys s = (keys.filter may).foldl (deleted S bucket) s := by
  induction keys generalizing s with
  | nil => rfl
  | cons key keys ih =>
    rw [deleteEach, List.foldl_cons]
    by_cases hkey : may key = true
    · rw [List.filter_cons_of_pos hkey, (exec_handle_deleteObject key).1 ((hmay key).1 hkey)]
      -- a delete changes no user
      exact ih (s := deleted S bucket s key) hmay
    · rw [List.filter_cons_of_neg hkey, (exec_handle_deleteObject key).2 (mt (hmay key).2 hkey)]
      exact ih hmay

/-! ### A clock that never stops -/

/-- Every reading of the clock is at least `t`. -/
def ReadsFrom (t : ℤ) (s : Site Blob) : Prop := ∀ n, t ≤ s.clock.nowMicros (s.oracle.micros n)

/-- The batch leaves a row as new as the clock for each of its keys. -/
theorem writtenSince_foldl_deleted (S : StorageBackend) (bucket : Str) {t : ℤ}
    (hclock : ReadsFrom t s) {keys : List Str} {key : Str}
    (h : key ∈ keys ∨ s.store.WrittenSince t (bucket, key)) :
    (keys.foldl (deleted S bucket) s).store.WrittenSince t (bucket, key) := by
  induction keys generalizing s with
  | nil => exact h.resolve_left List.not_mem_nil
  | cons key' keys ih =>
    refine ih (s := deleted S bucket s key') hclock ?_
    rcases h with h | h
    · rcases List.mem_cons.1 h with rfl | h
      · exact .inr (Store.writtenSince_deleteObject _ _ (hclock s.tick) _ _)
      · exact .inl h
    · exact .inr (h.deleteObject _ _ _ _)

/-! ### Agreement -/

variable (S J credentials bucket)

/-- The batch touches only objects that may be deleted, and does what single requests do. -/
structure BatchAgrees (keys : List Str) (s : Site Blob) : Prop where
  allowed : ∀ key ∈ keys, (deleteBatch S J credentials bucket keys s).store.objects.lookup
      (bucket, key) ≠ s.store.objects.lookup (bucket, key) →
    MayDelete J credentials bucket s.store key
  effect : ∀ k, (deleteBatch S J credentials bucket keys s).store.objects.lookup k =
    (deleteEach S J credentials bucket keys s).store.objects.lookup k

variable {S J credentials bucket}

/-- Where the decisions are alike, so are the effects. -/
theorem batchAgrees_of_decided_alike {keys : List Str}
    (h : ∀ key ∈ keys, (MayDelete J credentials bucket s.store key ↔
      MayDeleteIn J credentials bucket s.store)) :
    BatchAgrees S J credentials bucket keys s := by
  classical
  have heach := deleteEach_eq_filter (S := S) (s := s)
    (fun key => decide_eq_true_iff (p := MayDelete J credentials bucket s.store key)) keys
  by_cases hin : MayDeleteIn J credentials bucket s.store
  · have hall : keys.filter (fun key => decide (MayDelete J credentials bucket s.store key)) =
        keys :=
      List.filter_eq_self.2 fun key hkey => decide_eq_true ((h key hkey).2 hin)
    refine ⟨fun key hkey _ => (h key hkey).2 hin, fun k => ?_⟩
    rw [(deleteBatch_eq keys).1 hin, heach, hall]
  · have hnone : keys.filter (fun key => decide (MayDelete J credentials bucket s.store key)) =
        [] :=
      List.filter_eq_nil_iff.2 fun key hkey hmay => hin ((h key hkey).1 (of_decide_eq_true hmay))
    have hbatch : deleteBatch S J credentials bucket keys s = s := (deleteBatch_eq keys).2 hin
    refine ⟨fun key _ hne => absurd (by rw [hbatch]) hne, fun k => ?_⟩
    rw [hbatch, heach, hnone, List.foldl_nil]

/-- Where the effects are alike, so is the decision about a key whose row is older than the
clock. -/
theorem BatchAgrees.decided_alike {keys : List Str} (h : BatchAgrees S J credentials bucket keys s)
    {t : ℤ} (hclock : ReadsFrom t s) {key : Str} (hkey : key ∈ keys)
    (hold : ¬ s.store.WrittenSince t (bucket, key)) :
    MayDelete J credentials bucket s.store key ↔ MayDeleteIn J credentials bucket s.store := by
  constructor
  · -- refused, the batch would leave the old row
    classical
    intro hmay
    by_contra hin
    have hmem : key ∈ keys.filter fun key => decide (MayDelete J credentials bucket s.store key) :=
      List.mem_filter.2 ⟨hkey, decide_eq_true hmay⟩
    obtain ⟨row, hrow, hle⟩ := writtenSince_foldl_deleted S bucket hclock (.inl hmem)
    rw [← deleteEach_eq_filter fun _ => decide_eq_true_iff, ← h.effect,
      (deleteBatch_eq keys).2 hin] at hrow
    exact hold ⟨row, hrow, hle⟩
  · intro hin
    refine h.allowed key hkey fun hsame => ?_
    obtain ⟨row, hrow, hle⟩ := writtenSince_foldl_deleted S bucket hclock (.inl hkey)
    rw [← (deleteBatch_eq keys).1 hin, hsame] at hrow
    exact hold ⟨row, hrow, hle⟩

variable (S J credentials bucket)

/-- **When a batch is its single deletes.**  Whatever the clock says, exactly if the policy
decides about each of the keys as it does about the bucket. -/
theorem batch_delete_agrees_iff (keys : List Str) (s : Site Blob) :
    (∀ oracle, BatchAgrees S J credentials bucket keys { s with oracle := oracle }) ↔
      ∀ key ∈ keys, (MayDelete J credentials bucket s.store key ↔
        MayDeleteIn J credentials bucket s.store) := by
  constructor
  · intro h key hkey
    -- a clock that is later than the row of this key
    obtain ⟨micros, hold⟩ := s.store.exists_not_writtenSince (bucket, key) (s.clock.offsetMs * 1000)
    exact (h { s.oracle with micros := fun _ => micros }).decided_alike (fun _ => le_rfl) hkey hold
  · intro h oracle
    exact batchAgrees_of_decided_alike h

end StorageBackend

/-! ### A batch that deletes too much -/

open StorageBackend

/-- Everything is allowed but what is under `b/secret/`. -/
def butSecret : Policy :=
  ⟨[⟨text "Allow", [text "*"], [text "*"]⟩,
    ⟨text "Deny", [text "*"], [text "arn:ss:bucket:::b/secret/*"]⟩]⟩

/-- A site with a user of that policy, and an object that someone else has put there. -/
def withSecret : Site localBlob :=
  let s := freshSite.withUser butSecret
  { s with store := s.store.insertObject (-1) (text "b") 0 (text "secret/k") [] 0 [] }

/-- **A batch that deletes what it may not.**  The user is denied the deletion of the object,
and a batch of the user deletes it. -/
theorem batch_deletes_denied :
    (((StorageBackend.sample.handle (PolicyJson.withShort butSecret) (some (text "u"))
        (.deleteObject (text "b") (text "secret/k"))).exec withSecret).2 =
      .error ⟨.accessDenied, []⟩) ∧
    withSecret.store.getObject (text "b") (text "secret/k") = some ([], 0, []) ∧
    (deleteBatch StorageBackend.sample (PolicyJson.withShort butSecret) (some (text "u"))
      (text "b") [text "secret/k"] withSecret).store.getObject (text "b") (text "secret/k") = none ∧
    ¬ BatchAgrees StorageBackend.sample (PolicyJson.withShort butSecret) (some (text "u"))
      (text "b") [text "secret/k"] withSecret := by
  have hthere : withSecret.store.getObject (text "b") (text "secret/k") = some ([], 0, []) := rfl
  have hgone : (deleteBatch StorageBackend.sample (PolicyJson.withShort butSecret)
      (some (text "u")) (text "b") [text "secret/k"] withSecret).store.getObject (text "b")
      (text "secret/k") = none := rfl
  have hkept : (deleteEach StorageBackend.sample (PolicyJson.withShort butSecret)
      (some (text "u")) (text "b") [text "secret/k"] withSecret).store.getObject (text "b")
      (text "secret/k") = some ([], 0, []) := rfl
  refine ⟨rfl, hthere, hgone, fun h => ?_⟩
  have hsame := congrArg (Option.bind · Store.readRow) (h.effect (text "b", text "secret/k"))
  exact absurd (hgone.symm.trans (hsame.trans hkept)) (by decide)

end Shardscape
