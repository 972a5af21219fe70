/-
# Requests keep the accounts

`src/storage.rs`: `put_object` and `upload_part` store the blocks of a body before they
write its manifest, `copy_object` and `complete_multipart_upload` name blocks that a
manifest or a part named before, and what `get_object` promotes has been fetched.  So every
request leaves a site accounted for, if the chunks it stores are told apart by their hashes
and the fetches bring true bytes.
-/

import Shardscape.Collector.LastCopyQuiet
import Shardscape.Ranged.Accounted

namespace Shardscape

open Lib Lib.Prog StorageBackend

variable {Blob : BlobStore} {S : StorageBackend} {s : Site Blob}

/-! ### Receiving a body -/

namespace Site.BlocksStored

variable {Good : Bytes → Bytes → Prop} {P : Site Blob → Prop}

/-- Good chunks may be stored. -/
theorem wp_storeAll (hP : BlocksStored Good P) {ds : List Bytes}
    (hgood : ∀ d ∈ ds, Good (S.blake3.hash d) d) (hs : P s) :
    wp (S.storeAll ds) (fun _ s' => P s') s := by
  induction ds generalizing s with
  | nil => exact hs
  | cons d ds ih =>
    rw [List.forall_mem_cons] at hgood
    refine wp_bind.2 (wp_mapErr.2 (wp_mono (hP.wp_storeBlock hgood.1 hs) fun r s₁ hs₁ => ?_))
    cases r with
    | error e => exact hs₁
    | ok hash =>
      refine wp_bind.2 (wp_mono (ih hgood.2 hs₁) fun r s₂ hs₂ => ?_)
      cases r <;> exact hs₂

/-- Receiving a body keeps an invariant of the blocks; the upload has the size of the
chunks. -/
theorem wp_receiveBody (hP : BlocksStored Good P) (body : List (Except Str Bytes))
    (hgood : ∀ d ∈ S.chunker.chunks S.fastcdc body [], Good (S.blake3.hash d) d) (hs : P s) :
    wp (S.receiveBody body) (fun r s' => P s' ∧ ∀ u, r = .ok u →
      u.totalSize = ((S.chunker.chunks S.fastcdc body []).flatten.length : ℕ)) s := by
  rw [receiveBody_eq]
  refine wp_bind.2 (wp_mono (hP.wp_storeAll hgood hs) fun r s₁ hs₁ => ?_)
  cases r with
  | error e => exact ⟨hs₁, fun u hu => nomatch hu⟩
  | ok hashes =>
    cases ChunkingStrategy.bodyOf body with
    | error e => exact ⟨hs₁, fun u hu => nomatch hu⟩
    | ok received =>
      refine (wp_pure _).2 ⟨hs₁, fun u hu => ?_⟩
      rw [← Except.ok.inj hu]

end Site.BlocksStored

variable {data : Bytes → Bytes}

/-- The chunks of a list of blocks are told apart by their hashes. -/
theorem assembled_map_hash {ds : List Bytes} (h : ∀ d ∈ ds, d = data (S.blake3.hash d)) :
    assembled data (ds.map S.blake3.hash) = ds.flatten := by
  rw [assembled, List.map_map]
  congr 1
  exact (List.map_congr_left fun d hd => (h d hd).symm).trans (List.map_id ds)

/-- What a received body leaves: accounts, and blocks that are known and add up. -/
structure Received (S : StorageBackend) (data : Bytes → Bytes) (u : Upload) (s : Store) : Prop where
  length : ∀ b ∈ u.blockHashes, b.length = 32
  known : ∀ b ∈ u.blockHashes, s.Recorded b
  size : u.totalSize = (assembled data u.blockHashes).length

/-- What was received is accounted for. -/
theorem wp_receiveBody_accounted (hs : s.store.Accounted data) (body : List (Except Str Bytes))
    (hchunks : ∀ d ∈ S.chunker.chunks S.fastcdc body [], d = data (S.blake3.hash d)) :
    wp (S.receiveBody body) (fun r s' => s'.store.Accounted data ∧
      ∀ u, r = .ok u → Received S data u s'.store) s := by
  have hkept := accounted_blocksKept.wp_receiveBody (S := S) body hchunks hs
  have hquiet := Cluster.wp_receiveBody (s := s) S body
  refine ⟨hkept.1, fun u hu => ?_⟩
  obtain ⟨hhashes, hheld⟩ := hquiet.2 u hu
  refine ⟨?_, fun b hb => hkept.1.held b (hheld b hb), ?_⟩
  · rw [hhashes]
    exact fun b hb => S.blake3.length_of_mem_map_hash hb
  · rw [hhashes, assembled_map_hash hchunks, hkept.2 u hu]

/-! ### Requests -/

variable {bucket key : Str}

/-- What a live manifest is made of. -/
theorem Store.Accounted.getObject {st : Store} (h : st.Accounted data) {blocks : List Bytes}
    {size : ℤ} {etag : Str} (hget : st.getObject bucket key = some (blocks, size, etag)) :
    (∀ b ∈ blocks, b.length = 32) ∧ (∀ b ∈ blocks, st.Recorded b) ∧
      size = (assembled data blocks).length := by
  obtain ⟨row, hrow, hlive, rfl, rfl, rfl⟩ := Store.getObject_eq_some_iff.1 hget
  exact ⟨fun b hb => Store.length_of_mem_decodeBlocks hb,
    fun b hb => h.named b (Or.inl ⟨_, row, hrow, hlive, hb⟩), h.objects _ row hrow hlive⟩

/-- The sizes of known blocks are those of their bytes. -/
theorem Store.Accounted.blockSizes {st : Store} (h : st.Accounted data) {blocks : List Bytes}
    (hknown : ∀ b ∈ blocks, st.Recorded b) :
    st.blockSizes blocks = (blocks.map data).map fun b => (b.length : ℤ) := by
  rw [Store.blockSizes, List.map_map]
  refine List.map_congr_left fun b hb => ?_
  obtain ⟨row, hrow⟩ := hknown b hb
  rw [hrow, Option.map_some, Option.getD_some, Function.comp_apply]
  exact h.blocks b row hrow

/-- What the parts of an upload are made of. -/
theorem Store.Accounted.gatherParts {st : Store} (h : st.Accounted data) {bucket : Str} {id : Uuid}
    {l : List (ℤ × List Bytes × ℤ × Str)} (hl : ∀ p ∈ l, p ∈ st.listParts bucket id) :
    (∀ b ∈ l.flatMap fun p => p.2.1, b.length = 32) ∧
      (∀ b ∈ l.flatMap fun p => p.2.1, st.Recorded b) ∧
      (l.map fun p => p.2.2.1).sum = (assembled data (l.flatMap fun p => p.2.1)).length := by
  induction l with
  | nil => exact ⟨nofun, nofun, rfl⟩
  | cons p l ih =>
    rw [List.forall_mem_cons] at hl
    obtain ⟨hlen, hknown, hsum⟩ := ih hl.2
    obtain ⟨row, hrow, hp⟩ := Store.mem_listParts.1 hl.1
    have hsize := h.parts _ row hrow
    rw [List.flatMap_cons, List.map_cons, List.sum_cons, assembled_append, List.length_append,
      hsum, hp]
    refine ⟨List.forall_mem_append.2 ⟨fun b hb => Store.length_of_mem_decodeBlocks hb, hlen⟩,
      List.forall_mem_append.2 ⟨fun b hb => h.named b (Or.inr ⟨_, row, hrow, hb⟩), hknown⟩, ?_⟩
    rw [hsize, Nat.cast_add]

variable (hs : s.store.Accounted data)
include hs

/-- A PUT may name the body it has received. -/
theorem wp_putObject_accounted {body : Option (List (Except Str Bytes))}
    (hchunks : ∀ d ∈ (Request.putObject bucket key body).chunks S, d = data (S.blake3.hash d)) :
    wp (S.serve (.putObject bucket key body)) (fun _ s' => s'.store.Accounted data) s := by
  refine wp_bind.2 (wp_bind.2 (wp_checkWritable.2 ?_))
  cases s.oracle.guardTrip s.tick with
  | some trip => exact hs
  | none =>
    cases body with
    | none => exact hs
    | some body =>
      refine wp_bind.2 (wp_mono
        (wp_receiveBody_accounted (s := { s with tick := s.tick + 1 }) hs body hchunks) ?_)
      rintro r s₁ ⟨hs₁, hok⟩
      cases r with
      | error e => exact hs₁
      | ok u =>
        obtain ⟨hlen, hknown, hsize⟩ := hok u rfl
        exact hs₁.insertObject _ bucket _ key hlen hknown hsize _

/-- A copy names the blocks of its source. -/
theorem wp_copyObject_accounted {source : CopySource} :
    wp (S.serve (.copyObject source bucket key)) (fun _ s' => s'.store.Accounted data) s := by
  refine wp_bind.2 ?_
  cases source with
  | accessPoint => exact hs
  | bucket srcBucket srcKey =>
    refine wp_bind.2 ((Site.wp_db _ _).2 ?_)
    cases hget : s.store.getObject srcBucket srcKey with
    | none => exact hs
    | some m =>
      obtain ⟨blocks, size, etag⟩ := m
      obtain ⟨hlen, hknown, hsize⟩ := hs.getObject hget
      exact hs.insertObject _ bucket _ key hlen hknown hsize _

/-- A part may name the body it has received. -/
theorem wp_uploadPart_accounted {bucket : Str}
    {uploadId : Option Uuid} {partNumber : ℤ} {body : Option (List (Except Str Bytes))}
    (hchunks : ∀ d ∈ (Request.uploadPart bucket uploadId partNumber body).chunks S,
      d = data (S.blake3.hash d)) :
    wp (S.serve (.uploadPart bucket uploadId partNumber body))
      (fun _ s' => s'.store.Accounted data) s := by
  refine wp_bind.2 (wp_bind.2 (wp_checkWritable.2 ?_))
  cases s.oracle.guardTrip s.tick with
  | some trip => exact hs
  | none =>
    refine wp_named_bind (fun id key hid _ => ?_) fun _ e => hs
    cases body with
    | none => exact hs
    | some body =>
      refine wp_bind.2 (wp_mono (wp_receiveBody_accounted
        (s := { s with tick := s.tick + 1 }) hs body hchunks) ?_)
      rintro r s₁ ⟨hs₁, hok⟩
      cases r with
      | error e => exact hs₁
      | ok u =>
        obtain ⟨hlen, hknown, hsize⟩ := hok u rfl
        exact hs₁.insertPart bucket id partNumber hlen hknown hsize _

/-- A completed upload names the blocks of its parts. -/
theorem wp_completeMultipartUpload_accounted {uploadId : Option Uuid} :
    wp (S.serve (.completeMultipartUpload bucket key uploadId))
      (fun _ s' => s'.store.Accounted data) s := by
  refine wp_bind.2 (wp_named_bind (fun id storedKey _ _ => ?_) fun _ e => hs)
  dsimp only
  split_ifs
  · exact hs
  · refine wp_bind.2 ((Site.wp_db _ _).2 (wp_bind.2 ((wp_ofExcept _).2 ?_)))
    cases hgather : gatherParts (sortBy Prod.fst (s.store.listParts bucket id)) with
    | error e => exact hs
    | ok gathered =>
      obtain ⟨blocks, size, etags⟩ := gathered
      obtain ⟨rfl, rfl⟩ := gatherParts_ok hgather
      obtain ⟨hlen, hknown, hsize⟩ := hs.gatherParts
        (l := sortBy Prod.fst (s.store.listParts bucket id)) fun p hp => mem_sortBy.1 hp
      exact (hs.insertObject _ bucket _ key hlen hknown hsize _).deleteMultipartUpload bucket id

/-- **One request** keeps the accounts. -/
theorem wp_serve_accounted {r : Request} (hchunks : ∀ d ∈ r.chunks S, d = data (S.blake3.hash d)) :
    wp (S.serve r) (fun _ s' => s'.store.Accounted data) s := by
  cases r with
  | putObject bucket key body => exact wp_putObject_accounted hs hchunks
  | copyObject source bucket key => exact wp_copyObject_accounted hs
  | deleteObject bucket key => exact hs.deleteObject _ _ bucket key
  | createMultipartUpload bucket key uploadId => exact hs.frame rfl rfl rfl rfl rfl rfl
  | uploadPart bucket uploadId partNumber body => exact wp_uploadPart_accounted hs hchunks
  | completeMultipartUpload bucket key uploadId => exact wp_completeMultipartUpload_accounted hs
  | abortMultipartUpload bucket uploadId =>
    cases uploadId with
    | none => exact hs
    | some id => exact hs.deleteMultipartUpload bucket id

end Shardscape
