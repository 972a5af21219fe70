/-
# Requests on a site that represents bodies

Each request of `Shardscape.Backend.Handlers`, run to its end on a site that stands
for some bodies, answers as `Bodies.serve` does and leaves a site that stands for
the bodies it leaves (`wp_serve`).
-/

import Shardscape.Refinement.Receive

namespace Shardscape
namespace Represents

open Lib Lib.Prog StorageBackend

variable {Blob : BlobStore} {S : StorageBackend} {L : Blob.Lawful} {D : Set Bytes}
  {s : Site Blob} {b : Bodies}

/-- The digits of an etag are no quotes. -/
theorem trimQuotes_hexEncode (digest : Bytes) :
    trimQuotes (hexEncode digest) = hexEncode digest := by
  have hdrop : ∀ l : Str, (∀ c ∈ l, c ≠ 34) → l.dropWhile (· == 34) = l := by
    intro l hl
    cases l with
    | nil => rfl
    | cons c cs => exact List.dropWhile_cons_of_neg (by simpa using hl c List.mem_cons_self)
  have hne := ne_quote_of_mem_hexEncode digest
  rw [trimQuotes, hdrop _ hne, hdrop _ fun c hc => hne c (List.mem_reverse.1 hc),
    List.reverse_reverse]

/-- The parts one after the other are a manifest of their bodies one after the
other. -/
theorem gatherParts_ok {st : Store} (f : ℤ → Bytes) : ∀ {l : List (ℤ × List Bytes × ℤ × Str)},
    (∀ p ∈ l, Manifest S.blake3 D st (Store.encodeBlocks p.2.1) p.2.2.1 (f p.1) ∧
      ∃ digest, p.2.2.2 = hexEncode digest) →
    ∃ blocks size etags, gatherParts l = .ok (blocks, size, etags) ∧
      Manifest S.blake3 D st (Store.encodeBlocks blocks) size ((l.map Prod.fst).map f).flatten
  | [], _ => ⟨[], 0, [], rfl, manifest_nil⟩
  | (n, blocks, size, etag) :: l, h => by
    obtain ⟨hm, digest, hetag⟩ := h _ List.mem_cons_self
    obtain ⟨blocks', size', etags, hrest, hm'⟩ :=
      gatherParts_ok f fun p hp => h p (List.mem_cons_of_mem _ hp)
    have hdigest : hexDecode (trimQuotes etag) = some digest := by
      rw [show etag = hexEncode digest from hetag, trimQuotes_hexEncode, hexDecode_hexEncode]
    refine ⟨blocks ++ blocks', size + size', digest ++ etags, ?_, ?_⟩
    · simp only [gatherParts, hdigest, hrest]
    · have := hm.append hm'
      simpa [Store.encodeBlocks] using this

/-! ### Objects -/

variable (hr : Represents S L D s b)
include hr

/-- What a request finds of an object. -/
theorem getObject_cases (bucket key : Str) :
    (b.objects (bucket, key) = none ∧ s.store.getObject bucket key = none) ∨
      ∃ (ds : List Bytes) (etag : Str), b.objects (bucket, key) = some ds.flatten ∧
        s.store.getObject bucket key =
          some (ds.map S.blake3.hash, (ds.flatten.length : ℤ), etag) ∧
        ∀ d ∈ ds, d ∈ D ∧ s.store.HoldsLocally (S.blake3.hash d) := by
  have hobj := hr.objects (bucket, key)
  cases hbody : b.objects (bucket, key) with
  | none =>
    rw [hbody] at hobj
    refine Or.inl ⟨rfl, ?_⟩
    cases hrow : s.store.objects.lookup (bucket, key) with
    | none => simp [Store.getObject, hrow]
    | some row => simp [Store.getObject, hrow, Store.readRow, hobj row hrow]
  | some body =>
    rw [hbody] at hobj
    obtain ⟨row, hrow, hdel, ds, hraw, hds, rfl, hsize⟩ := hobj
    refine Or.inr ⟨ds, row.etag, rfl, ?_, hds⟩
    simp only [Store.getObject, hrow, Option.bind_some, Store.readRow, hdel, hraw,
      decodeBlocks_map_hash, hsize]
    rfl

/-- A manifest is written under a key. -/
theorem wp_insertObject (bucket key : Str) (shardId : ℤ)
    {blocks : List Bytes} {size : ℤ} {body : Bytes} (etag : Str)
    (hm : Manifest S.blake3 D s.store (Store.encodeBlocks blocks) size body) :
    wp (Site.insertObject bucket shardId key blocks size etag : Site.SProg Blob S3Error Unit)
      (fun r s' => r = .ok () ∧ Represents S L D s' (b.write (bucket, key) (some body))) s := by
  simp only [Site.insertObject, Site.nowMicros, wp_bind, Site.wp_ask, Site.wp_exec, true_and]
  have hrow : ObjectIs S.blake3 D s.store (some (Store.objectRow (Store.encodeBlocks blocks) size
      etag shardId false (s.clock.nowMicros (s.oracle.micros s.tick)))) (some body) :=
    ⟨_, rfl, rfl, hm⟩
  exact hr.wrote bucket key hrow rfl _

/-- **A PUT** answers as the specification does, and both stand for the same bodies. -/
theorem wp_putObject {bucket key : Str} {body : Option (List (Except Str Bytes))}
    (hd : ∀ d ∈ (Request.putObject bucket key body).chunks S, d ∈ D) :
    wp (S.serve (.putObject bucket key body)) (fun r s' =>
      r = (b.serve (s.oracle.guardTrip s.tick) (.putObject bucket key body)).2 ∧
      Represents S L D s' (b.serve (s.oracle.guardTrip s.tick) (.putObject bucket key body)).1)
        s := by
  refine wp_bind.2 (wp_bind.2 (wp_checkWritable.2 ?_))
  simp only [Bodies.serve]
  cases s.oracle.guardTrip s.tick with
  | some trip => exact ⟨rfl, hr.ticked⟩
  | none =>
    cases body with
    | none => exact ⟨rfl, hr.ticked⟩
    | some frames =>
      simp only [Bodies.received]
      refine wp_received_bind hr.ticked hd (fun e s₁ hbody hr₁ => ?_)
        fun data u s₁ hbody hr₁ hm => ?_
      · rw [hbody]
        exact ⟨rfl, hr₁⟩
      · rw [hbody]
        refine wp_bind.2 (wp_mono (wp_insertObject hr₁ bucket key _ _ hm) ?_)
        rintro r s₂ ⟨rfl, hr₂⟩
        exact ⟨rfl, hr₂⟩

/-- **A copy** does, whether the guard has tripped or not. -/
theorem wp_copyObject (source : CopySource) (bucket key : Str) (trip : Option GuardTrip) :
    wp (S.serve (.copyObject source bucket key)) (fun r s' =>
      r = (b.serve trip (.copyObject source bucket key)).2 ∧
      Represents S L D s' (b.serve trip (.copyObject source bucket key)).1) s := by
  refine wp_bind.2 ?_
  cases source with
  | accessPoint => exact ⟨rfl, hr⟩
  | bucket srcBucket srcKey =>
    refine wp_bind.2 ((Site.wp_db _ _).2 ?_)
    simp only [Bodies.serve]
    rcases hr.getObject_cases srcBucket srcKey with
      ⟨hbody, hget⟩ | ⟨ds, etag, hbody, hget, hds⟩
    · rw [hbody, hget]
      exact ⟨rfl, hr⟩
    · rw [hbody, hget]
      have hm : Manifest S.blake3 D s.store (Store.encodeBlocks (ds.map S.blake3.hash))
        ds.flatten.length ds.flatten := ⟨ds, rfl, hds, rfl, rfl⟩
      refine wp_bind.2 (wp_mono (wp_insertObject hr bucket key _ etag hm) ?_)
      rintro r s₁ ⟨rfl, hr₁⟩
      exact ⟨rfl, hr₁.ticked⟩

/-- **A DELETE** does. -/
theorem wp_deleteObject (bucket key : Str) (trip : Option GuardTrip) :
    wp (S.serve (.deleteObject bucket key)) (fun r s' =>
      r = (b.serve trip (.deleteObject bucket key)).2 ∧
      Represents S L D s' (b.serve trip (.deleteObject bucket key)).1) s := by
  refine wp_bind.2 ((Site.wp_ask _ _).2 ((Site.wp_exec _ _).2 ⟨rfl, ?_⟩))
  have hrow : ObjectIs S.blake3 D s.store (some (Store.tombstone S.blake3 key
      (s.clock.nowMicros (s.oracle.micros s.tick)))) none := by
    intro r hr
    rw [← Option.some.inj hr]
    rfl
  exact hr.wrote bucket key hrow rfl _

/-! ### Uploads in parts -/

/-- The upload of a request. -/
theorem wp_upload (bucket : Str) (uploadId : Option Uuid)
    {α : Type} {k : Uuid → Str → Site.SProg Blob S3Error α}
    {Q : Except S3Error α → Site Blob → Prop}
    (h : match b.upload bucket uploadId with
      | .error e => Q (.error e) s
      | .ok (id, key) => wp (k id key) Q s) :
    wp (do
      let id ← parsedUpload uploadId
      let key ← uploadKey bucket id
      k id key) Q s := by
  cases uploadId with
  | none => exact h
  | some id =>
    refine wp_bind.2 ((wp_pure _).2 (wp_bind.2 (wp_bind.2 ((Site.wp_db _ _).2 ?_))))
    simp only [Bodies.upload] at h
    rw [Store.getMultipartKey, hr.uploads]
    cases hkey : b.uploads (bucket, id) with
    | none =>
      rw [hkey] at h
      exact h
    | some key =>
      rw [hkey] at h
      exact h

/-- **An upload of a part** does. -/
theorem wp_uploadPart {bucket : Str} {uploadId : Option Uuid}
    {partNumber : ℤ} {body : Option (List (Except Str Bytes))}
    (hd : ∀ d ∈ (Request.uploadPart bucket uploadId partNumber body).chunks S, d ∈ D) :
    wp (S.serve (.uploadPart bucket uploadId partNumber body)) (fun r s' =>
      r = (b.serve (s.oracle.guardTrip s.tick) (.uploadPart bucket uploadId partNumber body)).2 ∧
      Represents S L D s'
        (b.serve (s.oracle.guardTrip s.tick) (.uploadPart bucket uploadId partNumber body)).1)
          s := by
  refine wp_bind.2 (wp_bind.2 (wp_checkWritable.2 ?_))
  simp only [Bodies.serve]
  cases s.oracle.guardTrip s.tick with
  | some trip => exact ⟨rfl, hr.ticked⟩
  | none =>
    refine wp_upload hr.ticked bucket uploadId ?_
    cases hup : b.upload bucket uploadId with
    | error e => exact ⟨rfl, hr.ticked⟩
    | ok p =>
      obtain ⟨id, key⟩ := p
      cases body with
      | none => exact ⟨rfl, hr.ticked⟩
      | some frames =>
        simp only [Bodies.received]
        refine wp_received_bind hr.ticked hd (fun e s₁ hbody hr₁ => ?_)
          fun data u s₁ hbody hr₁ hm => ?_
        · rw [hbody]
          exact ⟨rfl, hr₁⟩
        · rw [hbody]
          exact ⟨rfl, hr₁.added bucket id partNumber hm _⟩

/-- The numbers of the parts, in the order `complete_multipart_upload` takes
them. -/
theorem numbers_listParts (bucket : Str) (id : Uuid) :
    (sortBy Prod.fst (s.store.listParts bucket id)).map Prod.fst =
      sortBy (fun n => n) (b.parts (bucket, id)).keys := by
  have hsorted : SortedBy (fun n : ℤ => n)
      ((sortBy Prod.fst (s.store.listParts bucket id)).map Prod.fst) :=
    List.pairwise_map.2 (sortedBy_sortBy (s.store.nodup_numbers_listParts bucket id))
  have hkeys : SortedBy (fun n : ℤ => n) (sortBy (fun n => n) (b.parts (bucket, id)).keys) :=
    sortedBy_sortBy (by simpa using (b.parts (bucket, id)).keys_nodup)
  refine eq_of_mem_iff hsorted hkeys fun n => ?_
  rw [mem_sortBy, Table.mem_keys_iff]
  have hpart := hr.parts bucket id n
  constructor
  · intro hn
    obtain ⟨p, hp, rfl⟩ := List.mem_map.1 hn
    obtain ⟨row, hrow, -⟩ := Store.mem_listParts.1 (mem_sortBy.1 hp)
    cases hbody : (b.parts (bucket, id)).lookup p.1 with
    | none =>
      rw [hbody, hrow] at hpart
      exact nomatch hpart
    | some body => exact ⟨body, rfl⟩
  · rintro ⟨body, hbody⟩
    rw [hbody] at hpart
    obtain ⟨row, hrow, -⟩ := hpart
    exact List.mem_map.2 ⟨(n, Store.decodeBlocks row.blocks, row.size, row.etag),
      mem_sortBy.2 (Store.mem_listParts.2 ⟨row, hrow, rfl⟩), rfl⟩

/-- What `complete_multipart_upload` gathers is a manifest of the joined parts. -/
theorem gatherParts_listParts (bucket : Str) (id : Uuid) :
    ∃ blocks size etags,
      gatherParts (sortBy Prod.fst (s.store.listParts bucket id)) = .ok (blocks, size, etags) ∧
        Manifest S.blake3 D s.store (Store.encodeBlocks blocks) size
          (Bodies.joined (b.parts (bucket, id))) := by
  rw [Bodies.joined, ← numbers_listParts hr]
  refine gatherParts_ok _ fun p hp => ?_
  obtain ⟨row, hrow, hp⟩ := Store.mem_listParts.1 (mem_sortBy.1 hp)
  have hpart := hr.parts bucket id p.1
  cases hbody : (b.parts (bucket, id)).lookup p.1 with
  | none =>
    rw [hbody, hrow] at hpart
    exact nomatch hpart
  | some body =>
    rw [hbody, hrow] at hpart
    obtain ⟨r, hr', ⟨ds, hraw, hds⟩, digest, hetag⟩ := hpart
    obtain rfl := Option.some.inj hr'
    rw [hp]
    refine ⟨⟨ds, ?_, hds⟩, digest, hetag⟩
    rw [hraw, decodeBlocks_map_hash]

/-- **The completion of an upload** does. -/
theorem wp_completeMultipartUpload (bucket key : Str)
    (uploadId : Option Uuid) (trip : Option GuardTrip) :
    wp (S.serve (.completeMultipartUpload bucket key uploadId)) (fun r s' =>
      r = (b.serve trip (.completeMultipartUpload bucket key uploadId)).2 ∧
      Represents S L D s' (b.serve trip (.completeMultipartUpload bucket key uploadId)).1) s := by
  refine wp_bind.2 (wp_upload hr bucket uploadId ?_)
  simp only [Bodies.serve]
  cases hup : b.upload bucket uploadId with
  | error e => exact ⟨rfl, hr⟩
  | ok p =>
    obtain ⟨id, storedKey⟩ := p
    dsimp only
    split_ifs with hkey
    · exact ⟨rfl, hr⟩
    · obtain ⟨blocks, size, etags, hgather, hm⟩ := hr.gatherParts_listParts bucket id
      refine wp_bind.2 ((Site.wp_db _ _).2 (wp_bind.2 ((wp_ofExcept _).2 ?_)))
      rw [hgather]
      refine wp_bind.2 (wp_mono (wp_insertObject hr bucket key _ _ hm) ?_)
      rintro r s₁ ⟨rfl, hr₁⟩
      exact ⟨rfl, hr₁.forgot bucket id⟩

/-- **An aborted upload** does. -/
theorem wp_abortMultipartUpload (bucket : Str) (uploadId : Option Uuid) (trip : Option GuardTrip) :
    wp (S.serve (.abortMultipartUpload bucket uploadId)) (fun r s' =>
      r = (b.serve trip (.abortMultipartUpload bucket uploadId)).2 ∧
      Represents S L D s' (b.serve trip (.abortMultipartUpload bucket uploadId)).1) s := by
  cases uploadId with
  | none => exact ⟨rfl, hr⟩
  | some id => exact ⟨rfl, hr.forgot bucket id⟩

/-- **A request answers and acts as its specification says.** -/
theorem wp_serve {r : Request} (hd : ∀ d ∈ r.chunks S, d ∈ D) :
    wp (S.serve r) (fun res s' => res = (b.serve (s.oracle.guardTrip s.tick) r).2 ∧
      Represents S L D s' (b.serve (s.oracle.guardTrip s.tick) r).1) s := by
  cases r with
  | putObject bucket key body => exact hr.wp_putObject hd
  | copyObject source bucket key => exact hr.wp_copyObject source bucket key _
  | deleteObject bucket key => exact hr.wp_deleteObject bucket key _
  | createMultipartUpload bucket key uploadId => exact ⟨rfl, hr.created bucket key uploadId⟩
  | uploadPart bucket uploadId partNumber body => exact hr.wp_uploadPart hd
  | completeMultipartUpload bucket key uploadId =>
    exact hr.wp_completeMultipartUpload bucket key uploadId _
  | abortMultipartUpload bucket uploadId => exact hr.wp_abortMultipartUpload bucket uploadId _

end Represents
end Shardscape
