/-
# Storing and reading blocks

`store_block`, `get_block` and what is built of them (`src/storage.rs`) write block
metadata, the queue and blobs.  They leave objects, uploads and parts alone and lose no block
(`Steady`), whether they succeed or fail; and they succeed where the blob backend does what it
is asked to and the blocks that are read are held (`Succeeds`).
-/

import Shardscape.Backend.PartCopy
import Shardscape.Backend.Receive

namespace Shardscape

open Lib Lib.Prog

variable {Blob : BlobStore} {ε α β : Type}

/-- What storing and reading blocks leaves alone. -/
structure Steady (s s' : Site Blob) : Prop where
  oracle : s'.oracle = s.oracle
  objects : s'.store.objects = s.store.objects
  uploads : s'.store.multipartUploads = s.store.multipartUploads
  parts : s'.store.parts = s.store.parts
  held : ∀ h, s.store.HoldsLocally h → s'.store.HoldsLocally h

/-- A site that does nothing is steady. -/
theorem Steady.refl (s : Site Blob) : Steady s s := ⟨rfl, rfl, rfl, rfl, fun _ h => h⟩

/-- Steadiness goes on. -/
theorem Steady.trans {s s' s'' : Site Blob} (h : Steady s s') (h' : Steady s' s'') :
    Steady s s'' where
  oracle := h'.oracle.trans h.oracle
  objects := h'.objects.trans h.objects
  uploads := h'.uploads.trans h.uploads
  parts := h'.parts.trans h.parts
  held x hx := h'.held x (h.held x hx)

/-- A steady change, and a success if `P` holds. -/
def Succeeds (P : Prop) (s : Site Blob) (r : Except ε α) (s' : Site Blob) : Prop :=
  Steady s s' ∧ (P → ∃ a, r = .ok a)

namespace Site

variable {P : Prop} {s : Site Blob}

/-- A program in two parts: the second succeeds wherever the first leaves it. -/
theorem succeeds_bind {p : SProg Blob ε β} {k : β → SProg Blob ε α} (hp : wp p (Succeeds P s) s)
    (hk : ∀ b s', Steady s s' → wp (k b) (Succeeds P s') s') : wp (p >>= k) (Succeeds P s) s := by
  refine wp_bind.2 (wp_mono hp fun r s' hr => ?_)
  obtain ⟨hsteady, hok⟩ := hr
  cases r with
  | error e => exact ⟨hsteady, fun hP => absurd (hok hP) (by rintro ⟨a, ⟨⟩⟩)⟩
  | ok b =>
    refine wp_mono (hk b s' hsteady) fun r' s'' hr' => ?_
    exact ⟨hsteady.trans hr'.1, hr'.2⟩

/-- To return succeeds. -/
theorem succeeds_pure (a : α) : wp (pure a : SProg Blob ε α) (Succeeds P s) s :=
  ⟨Steady.refl s, fun _ => ⟨a, rfl⟩⟩

/-- Another error is an error. -/
theorem succeeds_mapErr {ε' : Type} {f : ε' → ε} {p : SProg Blob ε' α}
    (hp : wp p (Succeeds P s) s) : wp (p.mapErr f) (Succeeds P s) s := by
  refine wp_mapErr.2 (wp_mono hp fun r s' hr => ⟨hr.1, fun hP => ?_⟩)
  obtain ⟨a, rfl⟩ := hr.2 hP
  exact ⟨a, rfl⟩

/-- With its errors caught, a program always succeeds. -/
theorem succeeds_attempt {ε' : Type} {p : SProg Blob ε' α} (hp : wp p (Succeeds P s) s) :
    wp (p.attempt : SProg Blob ε (Except ε' α)) (Succeeds True s) s :=
  wp_attempt.2 (wp_mono hp fun r _ hr => ⟨hr.1, fun _ => ⟨r, rfl⟩⟩)

/-- Less is promised. -/
theorem succeeds_mono {P' : Prop} {p : SProg Blob ε α} (hp : wp p (Succeeds P s) s) (h : P' → P) :
    wp p (Succeeds P' s) s :=
  wp_mono hp fun _ _ hr => ⟨hr.1, fun hP => hr.2 (h hP)⟩

/-! ### Single calls -/

/-- A call to the outside succeeds, whatever it answers. -/
theorem succeeds_ask (l : Call) (f : Site Blob → ℕ → α) :
    wp (ask l f : SProg Blob ε α) (Succeeds P s) s :=
  ⟨⟨rfl, rfl, rfl, rfl, fun _ h => h⟩, fun _ => ⟨_, rfl⟩⟩

/-- A query succeeds. -/
theorem succeeds_db (l : Call) (f : Store → α) :
    wp (db l f : SProg Blob ε α) (Succeeds P s) s :=
  ⟨Steady.refl s, fun _ => ⟨_, rfl⟩⟩

/-- A put succeeds if none fails. -/
theorem succeeds_blobPut (h d : Bytes) :
    wp (blobPut h d) (Succeeds (∀ n, s.oracle.putFails n = none) s) s := by
  refine wp_bind.2 ((wp_call _ _).2 ((wp_ofExcept _).2 ?_))
  cases hput : s.oracle.putFails s.tick with
  | some e => exact ⟨⟨rfl, rfl, rfl, rfl, fun _ h => h⟩, fun hP => nomatch (hP _).symm.trans hput⟩
  | none => exact ⟨⟨rfl, rfl, rfl, rfl, fun _ h => h⟩, fun _ => ⟨_, rfl⟩⟩

/-- The row of a block is always written. -/
theorem succeeds_storeLocalBlock (h fid : Bytes) (size : ℤ) :
    wp (storeLocalBlock h fid size : SProg Blob ε Unit) (Succeeds P s) s := by
  refine succeeds_bind (succeeds_ask _ _) fun ts s' _ => ?_
  refine ⟨⟨rfl, rfl, rfl, rfl, fun x hx => ?_⟩, fun _ => ⟨_, rfl⟩⟩
  exact (Store.holdsLocally_storeLocalBlock s'.store ts h fid size x).2 (.inr hx)

/-- An entry of the queue is always written. -/
theorem succeeds_enqueueReplication (h : Bytes) :
    wp (enqueueReplication h : SProg Blob ε Unit) (Succeeds P s) s :=
  ⟨⟨rfl, rfl, rfl, rfl, fun _ h => h⟩, fun _ => ⟨_, rfl⟩⟩

/-! ### Writers -/

/-- A block is promoted if no put fails. -/
theorem succeeds_promoteBlockLocally (h d : Bytes) :
    wp (promoteBlockLocally h d) (Succeeds (∀ n, s.oracle.putFails n = none) s) s := by
  refine succeeds_bind (succeeds_db _ _) fun fid s' hs' => ?_
  cases fid with
  | some fid => exact succeeds_pure ()
  | none =>
    rw [← hs'.oracle]
    exact succeeds_bind (succeeds_blobPut h d) fun fid s'' _ => succeeds_storeLocalBlock h fid _

/-- `store_block` succeeds if no put fails. -/
theorem succeeds_storeBlock (B : Blake3) (d : Bytes) (size : ℤ) :
    wp (storeBlock B d size) (Succeeds (∀ n, s.oracle.putFails n = none) s) s := by
  refine succeeds_bind (succeeds_db _ _) fun fid s' hs' => ?_
  cases fid with
  | some fid => exact succeeds_pure _
  | none =>
    rw [← hs'.oracle]
    refine succeeds_bind (succeeds_blobPut _ d) fun fid s'' _ => ?_
    exact succeeds_bind (succeeds_storeLocalBlock _ fid size) fun _ _ _ => succeeds_pure _

/-! ### Readers -/

/-- Asking the holders changes nothing but block metadata. -/
theorem succeeds_fetchFromHolders (locations : List (Str × Bytes)) (h : Bytes)
    (peers : List (Str × Str)) :
    wp (fetchFromHolders locations h peers) (Succeeds False s) s := by
  induction peers generalizing s with
  | nil => exact ⟨Steady.refl s, False.elim⟩
  | cons peer rest ih =>
    obtain ⟨id, url⟩ := peer
    unfold fetchFromHolders
    split
    · refine succeeds_bind (succeeds_ask _ _) fun r s' _ => ?_
      cases r with
      | error e => exact ih
      | ok d =>
        refine succeeds_bind (succeeds_mono
          (succeeds_attempt (succeeds_promoteBlockLocally h d))
          False.elim) fun r s'' _ => ?_
        cases r with
        | ok _ => exact succeeds_pure d
        | error _ =>
          exact succeeds_bind (succeeds_enqueueReplication h) fun _ _ _ => succeeds_pure d
    · exact ih

/-- Whatever is asked of the blob backend, it gives. -/
def Gives (Blob : BlobStore) : Prop := ∀ b h fid, ∃ d, Blob.get b h fid = .ok d

/-- `get_block` succeeds if the block is held and the backend gives it. -/
theorem succeeds_getBlock (h : Bytes) :
    wp (getBlock h) (Succeeds (Gives Blob ∧ s.store.HoldsLocally h) s) s := by
  refine wp_bind.2 ((wp_db _ _).2 ?_)
  cases hfid : s.store.getLocalBlockFid h with
  | some fid =>
    refine wp_bind.2 ((wp_query _ _).2 ((wp_ofExcept _).2 ⟨Steady.refl s, fun hP => ?_⟩))
    exact hP.1 s.blobs h fid
  | none =>
    have hnot := Store.getLocalBlockFid_eq_none_iff.1 hfid
    refine succeeds_mono (P := False) ?_ fun hP => hnot hP.2
    refine succeeds_bind (succeeds_db _ _) fun locations s' _ => ?_
    cases locations with
    | none => exact ⟨Steady.refl s', False.elim⟩
    | some locations =>
      exact succeeds_bind (succeeds_db _ _) fun peers s'' _ =>
        succeeds_fetchFromHolders _ h peers

end Site

/-! ### Bodies and copies -/

namespace StorageBackend

open Site

variable {S : StorageBackend} {s : Site Blob}

/-- Chunks are stored if no put fails. -/
theorem succeeds_storeAll (ds : List Bytes) :
    wp (S.storeAll ds) (Succeeds (∀ n, s.oracle.putFails n = none) s) s := by
  induction ds generalizing s with
  | nil => exact succeeds_pure []
  | cons d ds ih =>
    refine succeeds_bind (succeeds_mapErr (succeeds_storeBlock _ d _)) fun hash s' hs' => ?_
    rw [← hs'.oracle]
    exact succeeds_bind ih fun _ _ _ => succeeds_pure _

/-- A body is received if its frames come and no put fails. -/
theorem succeeds_receiveBody (body : List (Except Str Bytes)) :
    wp (S.receiveBody body) (Succeeds ((∀ n, s.oracle.putFails n = none) ∧
      ∃ d, ChunkingStrategy.bodyOf body = .ok d) s) s := by
  rw [receiveBody_eq]
  refine succeeds_bind (succeeds_mono (succeeds_storeAll _) And.left) fun hashes s' _ => ?_
  cases ChunkingStrategy.bodyOf body with
  | ok d => exact succeeds_pure _
  | error e =>
    refine ⟨Steady.refl s', ?_⟩
    rintro ⟨-, d, hd⟩
    cases hd

/-- Only a body whose frames all come is received. -/
theorem wp_receiveBody_ok (body : List (Except Str Bytes)) :
    wp (S.receiveBody body)
      (fun r _ => (∃ u, r = .ok u) → ∃ d, ChunkingStrategy.bodyOf body = .ok d) s := by
  rw [receiveBody_eq]
  refine wp_bind.2 (wp_mono (succeeds_storeAll _) fun r s' _ => ?_)
  cases r with
  | error e =>
    rintro ⟨u, ⟨⟩⟩
  | ok hashes =>
    cases ChunkingStrategy.bodyOf body with
    | ok d => exact fun _ => ⟨d, rfl⟩
    | error e =>
      rintro ⟨u, ⟨⟩⟩

/-- The last chunk is stored if no put fails. -/
theorem succeeds_finishBody (u : Upload) :
    wp (S.finishBody u) (Succeeds (∀ n, s.oracle.putFails n = none) s) s := by
  rw [finishBody_eq]
  exact succeeds_bind (succeeds_storeAll _) fun _ _ _ => succeeds_pure _

/-- A slice is copied if its block is held and can be read, and no put fails. -/
theorem succeeds_copySlice (blocks : List Bytes) (u : Upload) (slice : ℕ × ℕ × ℕ) :
    wp (S.copySlice blocks u slice) (Succeeds ((∀ n, s.oracle.putFails n = none) ∧
      Gives Blob ∧ s.store.HoldsLocally ((blocks[slice.1]?).getD [])) s) s := by
  refine succeeds_bind (succeeds_mono (succeeds_mapErr (succeeds_getBlock _)) And.right)
    fun d s' hs' => ?_
  rw [receiveFrame_ok, foldlM_storeChunk, ← hs'.oracle]
  exact succeeds_mono (succeeds_bind (succeeds_storeAll _) fun _ _ _ => succeeds_pure _) And.left

/-- So are many. -/
theorem succeeds_copySlices (blocks : List Bytes) (slices : List (ℕ × ℕ × ℕ)) (u : Upload) :
    wp (slices.foldlM (S.copySlice blocks) u) (Succeeds ((∀ n, s.oracle.putFails n = none) ∧
      ∀ p ∈ slices, Gives Blob ∧ s.store.HoldsLocally ((blocks[p.1]?).getD [])) s) s := by
  induction slices generalizing u s with
  | nil => exact succeeds_pure u
  | cons p slices ih =>
    rw [List.foldlM_cons]
    refine succeeds_bind (succeeds_mono (succeeds_copySlice blocks u p)
      fun hP => ⟨hP.1, hP.2 p List.mem_cons_self⟩) fun u' s' hs' => ?_
    rw [← hs'.oracle]
    refine succeeds_mono (ih u') fun hP => ⟨hP.1, fun q hq => ?_⟩
    obtain ⟨hgives, hheld⟩ := hP.2 q (List.mem_cons_of_mem p hq)
    exact ⟨hgives, hs'.held _ hheld⟩

end StorageBackend

/-! ### Uploads of parts -/

/-- The disk guard has not tripped and no put fails. -/
structure Site.Permits (s : Site Blob) : Prop where
  guardTrip : ∀ n, s.oracle.guardTrip n = none
  putFails : ∀ n, s.oracle.putFails n = none

namespace StorageBackend

open Site

variable {S : StorageBackend} {s : Site Blob}

/-- The guard lets a request through unless it has tripped. -/
theorem wp_checkWritable_bind {k : Unit → SProg Blob S3Error α}
    {Q : Except S3Error α → Site Blob → Prop}
    (hok : wp (k ()) Q { s with tick := s.tick + 1 })
    (hfail : ¬ s.Permits → ∀ e, Q (.error e) { s with tick := s.tick + 1 }) :
    wp (checkWritable >>= k) Q s := by
  refine wp_bind.2 (wp_checkWritable.2 ?_)
  cases htrip : s.oracle.guardTrip s.tick with
  | none => exact hok
  | some trip =>
    refine hfail (fun hpermits => ?_) _
    cases htrip.symm.trans (hpermits.guardTrip s.tick)

/-- What `upload_part_copy` finds: the upload, the blocks and the size of the source, and the
positions to copy. -/
structure CopyInputs (s : Store) (bucket : Str) (uploadId : Option Uuid) (source : CopySource)
    (range : Option Str) (blocks : List Bytes) (size : ℤ) (start stop : ℕ) : Prop where
  upload : ∃ storedKey id, uploadId = some id ∧ s.getMultipartKey bucket id = some storedKey
  source : ∃ srcBucket srcKey etag, source = .bucket srcBucket srcKey ∧
    s.getObject srcBucket srcKey = some (blocks, size, etag)
  range : copyRange size range = .ok (start, stop)

/-- The copying succeeds if the blocks can be read and written. -/
theorem wp_copyPart (S : StorageBackend) (s : Site Blob) (bucket : Str) (id : Uuid) (number : ℤ)
    (blocks : List Bytes) (start stop : ℕ) :
    wp (S.copyPart bucket id number blocks start stop) (fun r s' => (∃ out, r = .ok out) ∨
      (∃ e, r = .error e) ∧ Steady s s' ∧ ¬ (s.Permits ∧
        ∀ p ∈ copySlices (s.store.blockSizes blocks) start stop,
          Gives Blob ∧ s.store.HoldsLocally ((blocks[p.1]?).getD []))) s := by
  refine wp_bind.2 ((Site.wp_db _ _).2 (wp_bind.2
    (wp_mono (succeeds_copySlices blocks _ {}) fun r s₁ hcopied => ?_)))
  cases r with
  | error e =>
    refine .inr ⟨⟨e, rfl⟩, hcopied.1, ?_⟩
    rintro ⟨hpermits, hreads⟩
    obtain ⟨u, ⟨⟩⟩ := hcopied.2 ⟨hpermits.putFails, hreads⟩
  | ok u =>
    refine wp_bind.2 (wp_mono (succeeds_finishBody u) fun r s₂ hfinished => ?_)
    cases r with
    | error e =>
      refine .inr ⟨⟨e, rfl⟩, hcopied.1.trans hfinished.1, ?_⟩
      rintro ⟨hpermits, -⟩
      rw [hcopied.1.oracle] at hfinished
      obtain ⟨u, ⟨⟩⟩ := hfinished.2 hpermits.putFails
    | ok u => exact .inl ⟨_, rfl⟩

/-- **`upload_part_copy` succeeds** only if it finds these, and it does if the blocks of the range
can be read, too.  When it fails it leaves objects, uploads and parts alone. -/
theorem wp_uploadPartCopy (S : StorageBackend) (s : Site Blob) (bucket : Str)
    (uploadId : Option Uuid) (number : ℤ) (source : CopySource) (range : Option Str) :
    wp (S.uploadPartCopy bucket uploadId number source range) (fun r s' =>
      (∃ out, r = .ok out) ∧
          (∃ blocks size start stop,
            CopyInputs s.store bucket uploadId source range blocks size start stop) ∨
        (∃ e, r = .error e) ∧ Steady s s' ∧
          ¬ (s.Permits ∧ ∃ blocks size start stop,
            CopyInputs s.store bucket uploadId source range blocks size start stop ∧
            ∀ p ∈ copySlices (s.store.blockSizes blocks) start stop,
              Gives Blob ∧ s.store.HoldsLocally ((blocks[p.1]?).getD []))) s := by
  have hticked : Steady s { s with tick := s.tick + 1 } := ⟨rfl, rfl, rfl, rfl, fun _ h => h⟩
  refine wp_checkWritable_bind ?_ fun hguard e => .inr ⟨⟨e, rfl⟩, hticked, fun h => hguard h.1⟩
  refine wp_named_bind (fun id storedKey hid hstored => ?_) fun hnot e => ?_
  case refine_2 =>
    refine .inr ⟨⟨e, rfl⟩, hticked, ?_⟩
    rintro ⟨-, _, _, _, _, hinputs, -⟩
    exact hnot hinputs.upload
  cases source with
  | accessPoint =>
    refine .inr ⟨⟨_, rfl⟩, hticked, ?_⟩
    rintro ⟨-, _, _, _, _, ⟨-, ⟨_, _, _, ⟨⟩, -⟩, -⟩, -⟩
  | bucket srcBucket srcKey =>
    refine wp_bind.2 ((Site.wp_db _ _).2 ?_)
    cases hsource : s.store.getObject srcBucket srcKey with
    | none =>
      refine .inr ⟨⟨_, rfl⟩, hticked, ?_⟩
      rintro ⟨-, _, _, _, _, ⟨-, ⟨_, _, _, ⟨⟩, hget⟩, -⟩, -⟩
      cases hsource.symm.trans hget
    | some row =>
      obtain ⟨blocks, size, etag⟩ := row
      -- what is found is found once
      have hfound : ∀ {blocks' size' start stop}, CopyInputs s.store bucket uploadId
          (.bucket srcBucket srcKey) range blocks' size' start stop →
          blocks' = blocks ∧ copyRange size range = .ok (start, stop) := by
        rintro _ _ _ _ ⟨-, ⟨_, _, _, ⟨⟩, hget⟩, hrange⟩
        cases hsource.symm.trans hget
        exact ⟨rfl, hrange⟩
      refine wp_bind.2 ((wp_ofExcept _).2 ?_)
      cases hrange : copyRange size range with
      | error e =>
        refine .inr ⟨⟨e, rfl⟩, hticked, ?_⟩
        rintro ⟨-, _, _, _, _, hinputs, -⟩
        cases hrange.symm.trans (hfound hinputs).2
      | ok positions =>
        obtain ⟨start, stop⟩ := positions
        refine wp_mono (wp_copyPart S _ bucket id number blocks start stop) ?_
        rintro r s' (hok | ⟨hfailed, hsteady, hwhy⟩)
        · exact .inl ⟨hok, blocks, size, start, stop, ⟨storedKey, id, hid, hstored⟩,
            ⟨srcBucket, srcKey, etag, rfl, hsource⟩, hrange⟩
        · refine .inr ⟨hfailed, hticked.trans hsteady, ?_⟩
          rintro ⟨hpermits, _, _, _, _, hinputs, hreads⟩
          obtain ⟨rfl, hpositions⟩ := hfound hinputs
          cases hrange.symm.trans hpositions
          exact hwhy ⟨⟨hpermits.guardTrip, hpermits.putFails⟩, hreads⟩

end StorageBackend
end Shardscape
