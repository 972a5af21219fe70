/-
# Where bytes come from

`src/storage.rs`, `src/store.rs`: a body is cut into blocks, its manifest names them by their
hashes, and the manifest travels to other sites as a fact.  `WrittenUnder` says which bodies can
have been put under a key, in terms of requests alone: the body of a PUT, what a copy found under
its source, the parts of an upload in the order of their numbers.  `Erased` says which keys can have
been deleted.

`Sourced` is the invariant of a site: every manifest, every part and every fact it logged spells a
body with such an origin, every tombstone is of a key that was deleted, its users are users that
were created, and the bytes it keeps under a name are those the name is the hash of.  Every call
keeps it (`Sourced.of_effect` and the lemmas before it), so nothing that happens between two calls
matters.
-/

import Shardscape.Backend.RequestEffects
import Shardscape.Lib.Keeps
import Shardscape.Refinement.Intact

namespace Shardscape

open Lib StorageBackend

variable {Blob : BlobStore}

/-! ### What is written -/

/-- The policy of some user that was created allows the request. -/
def Permits (users : Set (Str × Policy)) (credentials : Option Str) (r : S3Request) : Prop :=
  ∃ accessKey policy, credentials = some accessKey ∧ (accessKey, policy) ∈ users ∧
    policy.isAllowed r.asks.1 (resourceOf r.asks.2.1 r.asks.2.2) = true

/-- A part was uploaded. -/
def Uploaded (requests : Set S3Request) (bucket : Str) (uploadId : Uuid) (partNumber : ℤ)
    (body : Bytes) : Prop :=
  ∃ key frames, .uploadPart bucket key (some uploadId) partNumber (some frames) ∈ requests ∧
    ChunkingStrategy.bodyOf frames = .ok body

/-- A body was written under a key. -/
inductive WrittenUnder (requests : Set S3Request) : Str × Str → Bytes → Prop
  | put {bucket key : Str} {frames : List (Except Str Bytes)} {body : Bytes}
      (made : .putObject bucket key (some frames) ∈ requests)
      (received : ChunkingStrategy.bodyOf frames = .ok body) :
      WrittenUnder requests (bucket, key) body
  | copied {srcBucket srcKey bucket key : Str} {body : Bytes}
      (made : .copyObject (.bucket srcBucket srcKey) bucket key ∈ requests)
      (source : WrittenUnder requests (srcBucket, srcKey) body) :
      WrittenUnder requests (bucket, key) body
  | completed {bucket key : Str} {uploadId : Uuid}
      (made : .completeMultipartUpload bucket key (some uploadId) ∈ requests)
      (parts : List (ℤ × Bytes)) (ascending : SortedBy Prod.fst parts)
      (uploaded : ∀ p ∈ parts, Uploaded requests bucket uploadId p.1 p.2) :
      WrittenUnder requests (bucket, key) (parts.map Prod.snd).flatten

/-- The keys a request deletes. -/
def S3Request.erases : S3Request → List (Str × Str)
  | .deleteObject bucket key => [(bucket, key)]
  | .deleteObjects bucket keys => keys.map fun key => (bucket, key)
  | _ => []

/-- A key was deleted. -/
def Erased (requests : Set S3Request) (k : Str × Str) : Prop := ∃ r ∈ requests, k ∈ r.erases

/-- The chunks a request cuts its body into. -/
def S3Request.chunks (S : StorageBackend) : S3Request → List Bytes
  | .putObject _ _ (some body) => S.chunker.chunks S.fastcdc body []
  | .uploadPart _ _ _ _ (some body) => S.chunker.chunks S.fastcdc body []
  | _ => []

/-- Where all that sites have comes from: the blocks that were cut, the users that were created and
the requests that were permitted. -/
structure Origins where
  blocks : Set Bytes
  users : Set (Str × Policy)
  requests : Set S3Request

/-! ### What a site has -/

/-- Bytes are kept by name: a put adds what was put, a deletion adds nothing. -/
structure BlobStore.ByName (Blob : BlobStore) : Prop where
  get_put : ∀ {b h d h' f d'}, Blob.get (Blob.put b h d).1 h' f = .ok d' →
    h' = h ∧ d' = d ∨ Blob.get b h' f = .ok d'
  get_delete : ∀ {b h f h' f' d'}, Blob.get (Blob.delete b h f) h' f' = .ok d' →
    Blob.get b h' f' = .ok d'

/-- The local backend keeps a file per hash. -/
theorem localBlob.byName : localBlob.ByName where
  get_put {b h d h' f d'} hget := by
    by_cases hh : h' = h
    · subst hh
      simp only [localBlob] at hget
      rw [show AList.lookup h' (AList.insert h' d b) = some d from AList.lookup_insert _] at hget
      exact .inl ⟨rfl, (Except.ok.inj hget).symm⟩
    · simp only [localBlob] at hget ⊢
      rw [show AList.lookup h' (AList.insert h d b) = AList.lookup h' b from
        AList.lookup_insert_ne hh] at hget
      exact .inr hget
  get_delete {b h f h' f' d'} hget := by
    by_cases hh : h' = h
    · subst hh
      simp only [localBlob] at hget
      rw [show AList.lookup h' (AList.erase h' b) = none from AList.lookup_erase _ _] at hget
      cases hget
    · simp only [localBlob] at hget ⊢
      rwa [show AList.lookup h' (AList.erase h b) = AList.lookup h' b from
        AList.lookup_erase_ne hh] at hget

/-- Blocks of `D` spell a body. -/
def Spells (B : Blake3) (D : Set Bytes) (blocks : List Bytes) (size : ℤ) (body : Bytes) : Prop :=
  ∃ ds : List Bytes, blocks = ds.map B.hash ∧ (∀ d ∈ ds, d ∈ D) ∧ ds.flatten = body ∧
    size = body.length

variable {S : StorageBackend} {J : PolicyJson} {O : Origins} {D : Set Bytes}

/-- Two spellings one after the other. -/
theorem Spells.append {blocks blocks' : List Bytes} {size size' : ℤ} {body body' : Bytes}
    (h : Spells S.blake3 D blocks size body) (h' : Spells S.blake3 D blocks' size' body') :
    Spells S.blake3 D (blocks ++ blocks') (size + size') (body ++ body') := by
  obtain ⟨ds, rfl, hds, rfl, rfl⟩ := h
  obtain ⟨ds', rfl, hds', rfl, rfl⟩ := h'
  refine ⟨ds ++ ds', (List.map_append ..).symm, ?_, List.flatten_append .., ?_⟩
  · exact List.forall_mem_append.2 ⟨hds, hds'⟩
  · rw [List.length_append, Nat.cast_add]

/-- What is written to a row is read from it. -/
theorem Spells.decode {blocks : List Bytes} {size : ℤ} {body : Bytes}
    (h : Spells S.blake3 D blocks size body) :
    Spells S.blake3 D (Store.decodeBlocks (Store.encodeBlocks blocks)) size body := by
  obtain ⟨ds, rfl, hrest⟩ := h
  rw [Store.decodeBlocks_encodeBlocks fun b hb => S.blake3.length_of_mem_map_hash hb]
  exact ⟨ds, rfl, hrest⟩

/-- A manifest of a body that was written under its key. -/
def Manifested (S : StorageBackend) (O : Origins) (k : Str × Str) (blocks : List Bytes) (size : ℤ) :
    Prop :=
  ∃ body, Spells S.blake3 O.blocks blocks size body ∧ WrittenUnder O.requests k body

/-- A fact about an object is such a manifest, or that it was deleted, and a fact about a user is
about one of them. -/
def FactSourced (S : StorageBackend) (J : PolicyJson) (O : Origins) : Fact → Prop
  | .objectPut bucket key blocks size _ => ∀ bs, hexDecodeAll blocks = some bs →
      Manifested S O (bucket, key) bs size
  | .objectDelete bucket key => Erased O.requests (bucket, key)
  | .userPut accessKey _ policy => ∀ p, J.parse policy = some p → (accessKey, p) ∈ O.users
  | _ => True

/-- All that a site has comes from these. -/
structure Sourced (S : StorageBackend) (J : PolicyJson) (O : Origins) (s : Site Blob) : Prop where
  blobs : ∀ h fid d, Blob.get s.blobs h fid = .ok d → Intact.Named S.blake3 O.blocks h d
  objects : ∀ k row, s.store.objects.lookup k = some row → row.deleted = false →
    Manifested S O k (Store.decodeBlocks row.blocks) row.size
  erased : ∀ k row, s.store.objects.lookup k = some row → row.deleted = true → Erased O.requests k
  parts : ∀ bucket id n row, s.store.parts.lookup (bucket, id, n) = some row →
    ∃ body, Spells S.blake3 O.blocks (Store.decodeBlocks row.blocks) row.size body ∧
      Uploaded O.requests bucket id n body
  users : ∀ accessKey row p, s.store.users.lookup accessKey = some row →
    J.parse row.policy = some p → (accessKey, p) ∈ O.users
  log : ∀ e ∈ s.store.factLog, FactSourced S J O e.2

variable {s s' : Site Blob}

/-! ### One call -/

namespace Sourced

variable (h : Sourced S J O s)
include h

/-- A change that adds no manifest, no part, no user and no bytes. -/
theorem frame (hblobs : ∀ n fid d, Blob.get s'.blobs n fid = .ok d → Blob.get s.blobs n fid = .ok d)
    (hobjects : s'.store.objects = s.store.objects)
    (hparts : ∀ k row, s'.store.parts.lookup k = some row → s.store.parts.lookup k = some row)
    (husers : s'.store.users = s.store.users)
    (hlog : ∀ e ∈ s'.store.factLog, e ∈ s.store.factLog ∨ FactSourced S J O e.2) :
    Sourced S J O s' where
  blobs n fid d hget := h.blobs n fid d (hblobs n fid d hget)
  objects k row hrow := h.objects k row (hobjects ▸ hrow)
  erased k row hrow := h.erased k row (hobjects ▸ hrow)
  parts bucket id n row hrow := h.parts bucket id n row (hparts _ row hrow)
  users accessKey row p hrow := h.users accessKey row p (husers ▸ hrow)
  log e he := (hlog e he).elim (h.log e) id

/-- A store with the same objects, parts, users and log. -/
theorem frame_store {t : Store} (hs : s'.store = t)
    (hblobs : s'.blobs = s.blobs) (hobjects : t.objects = s.store.objects)
    (hparts : t.parts = s.store.parts) (husers : t.users = s.store.users)
    (hlog : t.factLog = s.store.factLog) : Sourced S J O s' :=
  h.frame (fun _ _ _ hget => hblobs ▸ hget) (hs ▸ hobjects) (fun _ _ hrow => hparts ▸ hs ▸ hrow)
    (hs ▸ husers) fun _ he => .inl (hlog ▸ hs ▸ he)

/-- A row of an object is written, and its fact may be logged. -/
theorem putRow (bucket key : Str) (row : ObjectRow)
    (hlive : row.deleted = false →
      Manifested S O (bucket, key) (Store.decodeBlocks row.blocks) row.size)
    (hdead : row.deleted = true → Erased O.requests (bucket, key))
    (hblobs : s'.blobs = s.blobs)
    (hobjects : s'.store.objects = (s.store.putObjectRow bucket key row).objects)
    (hparts : s'.store.parts = s.store.parts) (husers : s'.store.users = s.store.users)
    (hlog : ∀ e ∈ s'.store.factLog, e ∈ s.store.factLog ∨ FactSourced S J O e.2) :
    Sourced S J O s' := by
  -- a row is the one that is written, or was there
  have hcases : ∀ k r, s'.store.objects.lookup k = some r →
      k = (bucket, key) ∧ r = row ∨ s.store.objects.lookup k = some r := by
    intro k r hr
    rw [hobjects, Store.lookup_putObjectRow] at hr
    split_ifs at hr with hk
    · subst hk
      rcases Lww.merge_cases ObjectRow.updatedAt (s.store.objects.lookup (bucket, key)) row with
        ⟨hnew, -⟩ | ⟨old, hold, -, hkept⟩
      · rw [hnew, Option.some.injEq] at hr
        exact .inl ⟨rfl, hr.symm⟩
      · rw [hkept] at hr
        exact .inr hr
    · exact .inr hr
  refine ⟨fun n fid d hget => h.blobs n fid d (hblobs ▸ hget), fun k r hr => ?_, fun k r hr => ?_,
    fun bucket id n row hrow => h.parts bucket id n row (hparts ▸ hrow),
    fun accessKey row p hrow => h.users accessKey row p (husers ▸ hrow),
    fun e he => (hlog e he).elim (h.log e) id⟩
  · rcases hcases k r hr with ⟨rfl, rfl⟩ | hr
    · exact hlive
    · exact h.objects k r hr
  · rcases hcases k r hr with ⟨rfl, rfl⟩ | hr
    · exact hdead
    · exact h.erased k r hr

/-- A row of a user is written, and its fact may be logged. -/
theorem putUser (accessKey : Str) (row : UserRow)
    (hrow : ∀ p, J.parse row.policy = some p → (accessKey, p) ∈ O.users) {log : List (ℤ × Fact)}
    (hlog : ∀ e ∈ log, e ∈ s.store.factLog ∨ FactSourced S J O e.2) (tick : ℕ) :
    Sourced S J O { s with
      tick := tick
      store := { s.store.putUserRow accessKey row with factLog := log } } where
  blobs := h.blobs
  objects := h.objects
  erased := h.erased
  parts := h.parts
  users ak r p hr hp := by
    simp only [Store.putUserRow, Table.lookup_upsertNewer] at hr
    split_ifs at hr with hk
    · subst hk
      rcases Lww.merge_cases UserRow.updatedAt (s.store.users.lookup ak) row with
        ⟨hnew, -⟩ | ⟨old, hold, -, hkept⟩
      · rw [hnew, Option.some.injEq] at hr
        subst hr
        exact hrow p hp
      · rw [hkept] at hr
        exact h.users ak r p hr hp
    · exact h.users ak r p hr hp
  log e he := (hlog e he).elim (h.log e) id

/-- `create_user`. -/
theorem createUser {accessKey : Str} {policy : Policy}
    (huser : (accessKey, policy) ∈ O.users) (ts : ℤ) (secretKey : Str) :
    Sourced S J O { s with store := s.store.createUser J ts accessKey secretKey policy } := by
  refine h.putUser accessKey ⟨secretKey, J.toText policy, ts⟩
    (fun p hp => ?_) (fun e he => ?_) s.tick
  · rw [J.parse_toText, Option.some.injEq] at hp
    exact hp ▸ huser
  · rcases List.mem_append.1 he with he | he
    · exact .inl he
    · rw [List.mem_singleton.1 he]
      refine .inr fun p hp => ?_
      rw [J.parse_toValueText, Option.some.injEq] at hp
      exact hp ▸ huser

/-- `insert_object` of a manifest. -/
theorem insertObject {bucket key : Str} {blocks : List Bytes} {size : ℤ}
    (hm : Manifested S O (bucket, key) blocks size) (ts shardId : ℤ) (etag : Str) :
    Sourced S J O
      { s with store := s.store.insertObject ts bucket shardId key blocks size etag } := by
  obtain ⟨body, hspells, hwrote⟩ := hm
  refine h.putRow bucket key
    (Store.objectRow (Store.encodeBlocks blocks) size etag shardId false ts)
    (fun _ => ⟨body, hspells.decode, hwrote⟩) (fun hdead => by cases hdead) rfl rfl rfl rfl
    fun e he => ?_
  rcases List.mem_append.1 he with he | he
  · exact .inl he
  · rw [List.mem_singleton.1 he]
    refine .inr fun bs hbs => ?_
    rw [hexDecodeAll_map_hexEncode, Option.some.injEq] at hbs
    exact hbs ▸ ⟨body, hspells, hwrote⟩

/-- `delete_object`. -/
theorem deleteObject {bucket key : Str} (herased : Erased O.requests (bucket, key)) (ts : ℤ) :
    Sourced S J O { s with store := Store.deleteObject S.blake3 s.store ts bucket key } := by
  refine h.putRow bucket key (Store.tombstone S.blake3 key ts) (fun hlive => by cases hlive)
    (fun _ => herased) rfl rfl rfl rfl fun e he => ?_
  rcases List.mem_append.1 he with he | he
  · exact .inl he
  · rw [List.mem_singleton.1 he]
    exact .inr herased

/-- `insert_part` of an upload. -/
theorem insertPart {bucket : Str} {id : Uuid} {n : ℤ}
    {blocks : List Bytes} {size : ℤ} {body : Bytes}
    (hspells : Spells S.blake3 O.blocks blocks size body)
    (hup : Uploaded O.requests bucket id n body) (etag : Str) :
    Sourced S J O { s with store := s.store.insertPart bucket id n blocks size etag } where
  blobs := h.blobs
  objects := h.objects
  erased := h.erased
  parts bucket' id' n' row hrow := by
    simp only [Store.insertPart, Table.lookup_insert] at hrow
    split_ifs at hrow with hk
    · simp only [Prod.mk.injEq] at hk
      obtain ⟨rfl, rfl, rfl⟩ := hk
      obtain rfl := Option.some.inj hrow
      exact ⟨body, hspells.decode, hup⟩
    · exact h.parts bucket' id' n' row hrow
  users := h.users
  log := h.log

/-- Bytes are put under their name. -/
theorem put (hBlob : Blob.ByName) {n d : Bytes}
    (hnamed : Intact.Named S.blake3 O.blocks n d) (tick : ℕ) :
    Sourced S J O { s with tick := tick, blobs := (Blob.put s.blobs n d).1 } where
  blobs n' fid d' hget := by
    rcases hBlob.get_put hget with ⟨rfl, rfl⟩ | hold
    · exact hnamed
    · exact h.blobs n' fid d' hold
  objects := h.objects
  erased := h.erased
  parts := h.parts
  users := h.users
  log := h.log

/-- A fact with an origin is applied. -/
theorem applyFact {rec : FactRecord} (hfact : FactSourced S J O rec.fact) (nowMs : ℤ) (tick : ℕ) :
    Sourced S J O
      { s with tick := tick, store := s.store.applyFactD S.blake3 nowMs rec } := by
  obtain ⟨seq, ts, fact⟩ := rec
  cases fact with
  | objectPut bucket key blocks size etag =>
    simp only [Store.applyFactD, Store.applyFact]
    cases hbs : hexDecodeAll blocks with
    | none => exact h.frame_store rfl rfl rfl rfl rfl rfl
    | some bs =>
      obtain ⟨body, hspells, hwrote⟩ := hfact bs hbs
      exact h.putRow bucket key _ (fun _ => ⟨body, hspells.decode, hwrote⟩)
        (fun hdead => by cases hdead) rfl rfl rfl rfl fun e he => .inl he
  | objectDelete bucket key =>
    exact h.putRow bucket key (Store.tombstone S.blake3 key ts)
      (fun hlive => by cases hlive) (fun _ => hfact) rfl rfl rfl rfl fun e he => .inl he
  | blockAnnounce hash loc fid size =>
    simp only [Store.applyFactD, Store.applyFact]
    cases hexDecode hash with
    | none => exact h.frame_store rfl rfl rfl rfl rfl rfl
    | some hashB =>
      cases hexDecode fid with
      | none => exact h.frame_store rfl rfl rfl rfl rfl rfl
      | some fidB =>
        simp only [Store.applyAnnounce]
        split_ifs <;> exact h.frame_store rfl rfl rfl rfl rfl rfl
  | userPut accessKey secretKey policy =>
    exact h.putUser accessKey ⟨secretKey, policy, ts⟩ hfact
      (fun e he => .inl he) tick

/-- The calls that neither write a row of an object or a part nor bring bytes. -/
def plain : Call → Bool
  | .insertObject _ _ | .deleteObject _ _ | .insertPart _ _ _ | .applyFact _ | .blobPut _ => false
  | _ => true

/-- **A plain call** keeps what a site has. -/
theorem of_effect (hBlob : Blob.ByName) {l : Call} (hl : plain l = true)
    (heff : l.Effect s s') : Sourced S J O s' := by
  have hstore := heff.store
  have hblobs := heff.blobs
  cases l with
  | insertObject bucket key => simp [plain] at hl
  | deleteObject bucket key => simp [plain] at hl
  | insertPart bucket id n => simp [plain] at hl
  | applyFact rec => simp [plain] at hl
  | blobPut n => simp [plain] at hl
  | storeLocalBlock n =>
    obtain ⟨ts, fid, size, hs⟩ := hstore
    refine h.frame (fun _ _ _ hget => hblobs ▸ hget) (by rw [hs]; rfl)
      (fun k row hrow => by rw [hs] at hrow; exact hrow) (by rw [hs]; rfl) fun e he => ?_
    rw [hs] at he
    rcases List.mem_append.1 he with he | he
    · exact .inl he
    · rw [List.mem_singleton.1 he]
      exact .inr trivial
  | deleteMultipartUpload bucket id =>
    have hs : s'.store = s.store.deleteMultipartUpload bucket id := hstore
    refine h.frame (fun _ _ _ hget => hblobs ▸ hget) (by rw [hs]; rfl) (fun k row hrow => ?_)
      (by rw [hs]; rfl) fun e he => .inl (by rw [hs] at he; exact he)
    rw [hs, Store.deleteMultipartUpload] at hrow
    dsimp only at hrow
    rw [Table.lookup_deleteWhere] at hrow
    split_ifs at hrow
    exact hrow
  | blobDelete n =>
    obtain ⟨fid, hb⟩ := hblobs
    have hs : s'.store = s.store := hstore
    refine h.frame (fun n' fid' d hget => ?_) (by rw [hs]) (fun k row hrow => by rwa [hs] at hrow)
      (by rw [hs]) fun e he => .inl (by rwa [hs] at he)
    rw [hb] at hget
    exact hBlob.get_delete hget
  | insertMultipart bucket id =>
    obtain ⟨key, hs⟩ := hstore
    exact h.frame_store hs hblobs rfl rfl rfl rfl
  | deleteLocalBlock n => exact h.frame_store hstore hblobs rfl rfl rfl rfl
  | _ => exact h.frame_store (hstore.frame rfl) hblobs rfl rfl rfl rfl

end Sourced
end Shardscape
