/-
# Parts without an upload

`upload_part` and `upload_part_copy` (`src/storage.rs`) look the upload up first, and
write the part only after a whole body has been received or copied.
`complete_multipart_upload` and `abort_multipart_upload` delete the upload and its
parts in one step of the store, which may come in between, and `parts` has no foreign
key: the part is then stored without an upload (`part_outlives_upload`).

That is the only way.  In every run of requests, call by call, in which each part is
stored while its upload is there, every part has its upload at all times
(`parts_have_uploads`).
-/

import Shardscape.Backend.RequestEffects
import Shardscape.Backend.Samples

namespace Shardscape

open Lib

variable {Blob : BlobStore} {κ : Type} [DecidableEq κ]

/-- Every part has its upload. -/
def Store.PartsHaveUploads (s : Store) : Prop :=
  ∀ bucket id number, (s.parts.lookup (bucket, id, number)).isSome →
    (s.multipartUploads.lookup (bucket, id)).isSome

/-- What a call can do to uploads and parts. -/
theorem Call.Stores.uploads_cases {l : Call} {s s' : Store} (h : l.Stores s s') :
    (s'.parts = s.parts ∧ s'.multipartUploads = s.multipartUploads) ∨
      (∃ bucket id key, s' = s.insertMultipart bucket id key) ∨
      (∃ bucket id, s' = s.deleteMultipartUpload bucket id) ∨
      ∃ bucket id number blocks size etag, l = .insertPart bucket id number ∧
        s' = s.insertPart bucket id number blocks size etag := by
  cases l with
  | storeLocalBlock hash =>
    obtain ⟨ts, fid, size, rfl⟩ := h
    exact .inl ⟨rfl, rfl⟩
  | insertObject bucket key =>
    obtain ⟨ts, shardId, blocks, size, etag, rfl⟩ := h
    exact .inl ⟨rfl, rfl⟩
  | deleteObject bucket key =>
    obtain ⟨B, ts, rfl⟩ := h
    exact .inl ⟨rfl, rfl⟩
  | insertMultipart bucket id =>
    obtain ⟨key, rfl⟩ := h
    exact .inr (.inl ⟨bucket, id, key, rfl⟩)
  | deleteMultipartUpload bucket id => exact .inr (.inr (.inl ⟨bucket, id, h⟩))
  | insertPart bucket id number =>
    obtain ⟨blocks, size, etag, rfl⟩ := h
    exact .inr (.inr (.inr ⟨bucket, id, number, blocks, size, etag, rfl, rfl⟩))
  | applyFact rec =>
    obtain ⟨B, nowMs, rfl⟩ := h
    refine .inl ?_
    rcases Store.applyFactD_cases B s nowMs rec with ⟨bucket, key, row, -, -, h⟩ |
      ⟨ak, row, -, -, h⟩ | ⟨hash, loc, fid, size, -, -, h⟩ | ⟨-, -, h⟩ <;> rw [h]
    · exact ⟨rfl, rfl⟩
    · exact ⟨rfl, rfl⟩
    · simp only [Store.applyAnnounce]
      split_ifs <;> exact ⟨rfl, rfl⟩
    · exact ⟨rfl, rfl⟩
  | deleteLocalBlock hash =>
    obtain rfl := h
    exact .inl ⟨rfl, rfl⟩
  | _ =>
    rw [h.frame rfl]
    exact .inl ⟨rfl, rfl⟩

/-- **One call** keeps every part with its upload, if it stores no part of an upload
that is gone. -/
theorem Store.PartsHaveUploads.stores {l : Call} {s s' : Store} (hp : s.PartsHaveUploads)
    (h : l.Stores s s') (hl : ∀ bucket id number, l = .insertPart bucket id number →
      (s.multipartUploads.lookup (bucket, id)).isSome) : s'.PartsHaveUploads := by
  intro bucket id number hpart
  rcases h.uploads_cases with ⟨hparts, huploads⟩ | ⟨b, i, key, rfl⟩ | ⟨b, i, rfl⟩ |
    ⟨b, i, n, blocks, size, etag, rfl, rfl⟩
  · rw [hparts] at hpart
    rw [huploads]
    exact hp bucket id number hpart
  · rw [Store.insertMultipart, Table.lookup_insert]
    split_ifs
    · rfl
    · exact hp bucket id number hpart
  · -- the parts that are left belong to other uploads
    simp only [Store.deleteMultipartUpload, Table.lookup_deleteWhere, Table.lookup_erase] at hpart ⊢
    by_cases hsame : bucket = b ∧ id = i
    · simp [hsame] at hpart
    · rw [if_neg (by simpa using hsame)] at hpart
      rw [if_neg (by simpa using hsame)]
      exact hp bucket id number hpart
  · rw [Store.insertPart, Table.lookup_insert] at hpart
    by_cases hsame : (bucket, id, number) = (b, i, n)
    · obtain ⟨rfl, rfl, rfl⟩ : bucket = b ∧ id = i ∧ number = n := by simpa using hsame
      exact hl bucket id number rfl
    · rw [if_neg hsame] at hpart
      exact hp bucket id number hpart

namespace Uploads

/-- What the threads run: S3 requests of any users. -/
def requests (S : StorageBackend) (J : PolicyJson) (_ : κ) (p : Site.SProg Blob S3Error Unit) :
    Prop :=
  ∃ credentials r, p = (fun _ => ()) <$> S.handle J credentials r

/-- A part is stored only while its upload is there. -/
def Registered (c : Site.Threads κ Blob S3Error) : Move κ Call (Site Blob) S3Error → Prop
  | .step i =>
    match c.nextCall i with
    | some (.insertPart bucket id _) =>
      (c.world.1.store.multipartUploads.lookup (bucket, id)).isSome
    | _ => True
  | .spawn _ _ => True

instance (c : Site.Threads κ Blob S3Error) (m : Move κ Call (Site Blob) S3Error) :
    Decidable (Registered c m) := by
  unfold Registered
  split
  · split <;> infer_instance
  · infer_instance

/-- Where requests may make any call. -/
theorem entries_any (S : StorageBackend) :
    Site.Entries S (fun _ : Site Blob => True) fun _ => True :=
  ⟨fun _ _ => trivial, fun _ => .inr fun _ _ => trivial, .inr fun _ _ _ => trivial⟩

/-- Every call of a run of requests does what its label says. -/
theorem does_effect (S : StorageBackend) (J : PolicyJson) (s : Site Blob)
    (ms : List (Move κ Call (Site Blob) S3Error)) (hstart : ∀ m ∈ ms, m.Starts (requests S J)) :
    ∀ p ∈ trace Conf.advance (Conf.atRest s) ms,
      p.1.Does (fun _ (l : Call) s s' => True ∧ l.Effect s s') p.2 := by
  refine Conf.calls_run (I := fun _ => True) (requests S J) (fun _ _ _ _ _ _ => trivial) ?_
    ⟨trivial, fun _ => trivial⟩ hstart
  rintro i p ⟨credentials, r, rfl⟩
  exact (StorageBackend.makes_handle (entries_any S) J credentials r).map _

/-- **Parts have their uploads**, wherever a run of requests passes and where it ends,
if each part is stored while its upload is there. -/
theorem parts_have_uploads (S : StorageBackend) (J : PolicyJson) (s : Site Blob)
    (hs : s.store.PartsHaveUploads) (ms : List (Move κ Call (Site Blob) S3Error))
    (hstart : ∀ m ∈ ms, m.Starts (requests S J))
    (hreg : ∀ p ∈ trace Conf.advance (Conf.atRest s) ms, Registered p.1 p.2) :
    (∀ p ∈ trace Conf.advance (Conf.atRest s) ms, p.1.world.1.store.PartsHaveUploads) ∧
      (ms.foldl Conf.advance (Conf.atRest s)).world.1.store.PartsHaveUploads := by
  have hdoes := does_effect S J s ms hstart
  have hstep : ∀ (c : Site.Threads κ Blob S3Error) (m : Move κ Call (Site Blob) S3Error),
      c.world.1.store.PartsHaveUploads →
      (c.Does (fun _ (l : Call) s s' => True ∧ l.Effect s s') m ∧ Registered c m) →
      (c.advance m).world.1.store.PartsHaveUploads := by
    rintro c m hc ⟨hdo, hr⟩
    rcases c.advance_cases m with ⟨i, l, rfl, hl⟩ | hsame
    · refine hc.stores (hdo i l rfl hl).2.store ?_
      rintro b id n rfl
      simpa only [Registered, hl] using hr
    · rw [hsame]
      exact hc
  have hall : ∀ p ∈ trace Conf.advance (Conf.atRest s) ms,
      p.1.Does (fun _ (l : Call) s s' => True ∧ l.Effect s s') p.2 ∧ Registered p.1 p.2 :=
    fun p hp => ⟨hdoes p hp, hreg p hp⟩
  exact ⟨invariant_of_trace hstep hs hall, invariant_at_end hstep hs hall⟩

/-! ### Two runs -/

/-- One client creates an upload, sends a part of one byte and waits before the part
is stored; the other aborts the upload in `gap` steps; the part is stored. -/
def lateAbort (gap : ℕ) : List (Move Bool Call (Site localBlob) S3Error) :=
  .spawn false (StorageBackend.byUser allowAll
      (.createMultipartUpload (text "b") (text "k") 7)) ::
    List.replicate 2 (Move.step false) ++
    .spawn false (StorageBackend.byUser allowAll
      (.uploadPart (text "b") (text "k") (some 7) 1 (some [.ok [97]]))) ::
    List.replicate 7 (Move.step false) ++
    .spawn true (StorageBackend.byUser allowAll
      (.abortMultipartUpload (text "b") (text "k") (some 7))) ::
    List.replicate gap (Move.step true) ++ [Move.step false]

/-- The run starts requests. -/
theorem starts_lateAbort (gap : ℕ) : ∀ m ∈ lateAbort gap,
    m.Starts (requests StorageBackend.sample (PolicyJson.withShort allowAll)) := by
  intro m hm
  simp only [lateAbort, List.mem_cons, List.mem_append, List.mem_replicate, List.not_mem_nil,
    or_false] at hm
  rcases hm with (((rfl | ⟨-, rfl⟩) | rfl | ⟨-, rfl⟩) | rfl | ⟨-, rfl⟩) | rfl
  all_goals first | trivial | exact ⟨_, _, rfl⟩

/-- Where the run ends. -/
def afterLateAbort (gap : ℕ) : Site.Threads Bool localBlob S3Error :=
  (lateAbort gap).foldl Conf.advance (Conf.atRest (freshSite.withUser allowAll))

/-- There are no parts yet. -/
theorem withUser_parts (policy : Policy) :
    (freshSite.withUser policy).store.PartsHaveUploads :=
  fun _ _ _ h => nomatch h

/-- An abort that has only been authorized when the part is stored. -/
theorem parts_have_uploads_lateAbort : (afterLateAbort 1).world.1.store.PartsHaveUploads := by
  refine (parts_have_uploads StorageBackend.sample (PolicyJson.withShort allowAll)
    (freshSite.withUser allowAll) (withUser_parts allowAll) (lateAbort 1) (starts_lateAbort 1) ?_).2
  decide +kernel

/-- **A part that outlives its upload.**  The abort comes between the look-up of the
upload and the storing of the part; both requests succeed, and the part is there
without an upload. -/
theorem part_outlives_upload :
    (freshSite.withUser allowAll).store.PartsHaveUploads ∧
      (∀ m ∈ lateAbort 2,
        m.Starts (requests StorageBackend.sample (PolicyJson.withShort allowAll))) ∧
      (∀ i, ((afterLateAbort 2).threads i).result = some (.ok ())) ∧
      ¬ (afterLateAbort 2).world.1.store.PartsHaveUploads := by
  refine ⟨withUser_parts allowAll, starts_lateAbort 2, ?_, fun h => ?_⟩
  · intro i
    cases i <;> rfl
  · exact absurd (h (text "b") 7 1 (by decide +kernel)) (by decide +kernel)

end Uploads
end Shardscape
