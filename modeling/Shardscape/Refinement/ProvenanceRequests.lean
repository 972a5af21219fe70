/-
# Every program keeps to what was written

Call by call, the requests of clients and peers, the drainer and the collector keep `Sourced`
(`Sources`), provided that what a fetch brings hashes to the name it was asked for.  What they
answer is traced along the way: the bytes of a block are those of its name (`sources_getBlock`), the
facts a peer is told have an origin, and the frames of a GET are cut from a body that was written
under its key (`ReadFrom`, `sources_getObject`).
-/

import Shardscape.Refinement.Provenance
import Shardscape.Refinement.Reads

namespace Shardscape

open Lib Lib.Prog StorageBackend Site

variable {Blob : BlobStore} {S : StorageBackend} {J : PolicyJson} {O : Origins} {D : Set Bytes}
  {ε ε' α β : Type}

/-- A program keeps all that its site has to these origins, and its result is in `Q`. -/
def Sources (S : StorageBackend) (J : PolicyJson) (O : Origins) (p : SProg Blob ε α)
    (Q : Except ε α → Prop) : Prop :=
  p.Keeps (Truthful (Intact.Named S.blake3 O.blocks)) (Sourced S J O) Q

/-- Nothing is asked of the result. -/
def anything : Except ε α → Prop := onOk fun _ => True

/-! ### Streams -/

/-- The frames of a plan, up to the first that fails: each is cut from good bytes of its block. -/
inductive Streamed (Good : Bytes → Bytes → Prop) :
    List (Bytes × ℕ × Option ℕ) → List (Except S3Error Bytes) → Prop
  | done : Streamed Good [] []
  | broke (p : Bytes × ℕ × Option ℕ) (plan : List (Bytes × ℕ × Option ℕ)) (e : S3Error) :
      Streamed Good (p :: plan) [.error e]
  | frame {h : Bytes} {d : Bytes} {plan : List (Bytes × ℕ × Option ℕ)}
      {frames : List (Except S3Error Bytes)} (skip : ℕ) (take : Option ℕ) (good : Good h d)
      (rest : Streamed Good plan frames) :
      Streamed Good ((h, skip, take) :: plan) (.ok (sliceBlockBytes d skip take) :: frames)

/-- A slice of bytes is a stretch of them. -/
theorem isInfix_sliceBlockBytes (d : Bytes) (skip : ℕ) (take : Option ℕ) :
    sliceBlockBytes d skip take <:+: d := by
  unfold sliceBlockBytes
  cases take with
  | none => exact (List.drop_suffix _ _).isInfix
  | some n =>
    refine List.IsInfix.trans ?_ (List.drop_suffix (min skip d.length) d).isInfix
    exact List.IsPrefix.isInfix (List.take_prefix _ _)

/-- What a GET may answer when `body` is under its key: the length of what was asked for, and
frames that are stretches of the body.  Without a range what has come is always a beginning of the
body, and all of it once the stream has ended well. -/
structure ReadFrom (body : Bytes) (range : Option Range) (out : GetObjectOutput) : Prop where
  length : ∃ data, Bodies.selection body range = .ok data ∧ out.contentLength = data.length
  frames : ∀ d, .ok d ∈ out.body → d <:+: body
  so_far : range = none → ∀ (sofar : List Bytes) rest, out.body = sofar.map .ok ++ rest →
    sofar.flatten <+: body
  whole : range = none → ∀ data, ChunkingStrategy.bodyOf out.body = .ok data → data = body

variable {B : Blake3} {ds : List Bytes} {frames : List (Except S3Error Bytes)}

/-- Whatever the plan, a frame is a stretch of a block. -/
theorem Streamed.isInfix_of_mem (hinj : Set.InjOn B.hash D) (hds : ∀ d ∈ ds, d ∈ D)
    {plan : List (Bytes × ℕ × Option ℕ)} (hplan : ∀ p ∈ plan, p.1 ∈ ds.map B.hash)
    (h : Streamed (Intact.Named B D) plan frames) {d : Bytes} (hd : .ok d ∈ frames) :
    d <:+: ds.flatten := by
  induction h with
  | done => simp at hd
  | broke p plan e => simp at hd
  | frame skip take good rest ih =>
    rw [List.forall_mem_cons] at hplan
    rcases List.mem_cons.1 hd with hd | hd
    · obtain ⟨d', hd', hh⟩ := List.mem_map.1 hplan.1
      obtain rfl := hinj (hds d' hd') good.1 (hh.trans good.2)
      obtain rfl := Except.ok.inj hd
      exact (isInfix_sliceBlockBytes _ _ _).trans (List.infix_of_mem_flatten hd')
    · exact ih hplan.2 hd

/-- A plan of whole blocks streams a beginning of the body. -/
theorem Streamed.so_far (hinj : Set.InjOn B.hash D) (hds : ∀ d ∈ ds, d ∈ D)
    (h : Streamed (Intact.Named B D) (ds.map fun d => (B.hash d, 0, none)) frames)
    {sofar : List Bytes} {rest : List (Except S3Error Bytes)}
    (hframes : frames = sofar.map .ok ++ rest) : sofar.flatten <+: ds.flatten := by
  induction ds generalizing frames sofar with
  | nil =>
    cases h
    obtain ⟨rfl, -⟩ : sofar = [] ∧ rest = [] := by simpa using hframes.symm
    exact List.nil_prefix
  | cons d ds ih =>
    rw [List.forall_mem_cons] at hds
    cases sofar with
    | nil => exact List.nil_prefix
    | cons x sofar =>
      cases h with
      | broke => simp at hframes
      | frame skip take good htail =>
        simp only [List.map_cons, List.cons_append, List.cons.injEq, Except.ok.injEq]
          at hframes
        obtain ⟨rfl, hrest⟩ := hframes
        obtain rfl := hinj hds.1 good.1 good.2
        rw [List.flatten_cons, List.flatten_cons]
        exact List.prefix_append_right_inj _ |>.2 (ih hds.2 htail hrest)

/-- A plan of whole blocks that ends well streams the body. -/
theorem Streamed.whole (hinj : Set.InjOn B.hash D) (hds : ∀ d ∈ ds, d ∈ D)
    (h : Streamed (Intact.Named B D) (ds.map fun d => (B.hash d, 0, none)) frames)
    {data : Bytes} (hdata : ChunkingStrategy.bodyOf frames = .ok data) : data = ds.flatten := by
  induction ds generalizing frames data with
  | nil =>
    cases h
    exact (Except.ok.inj hdata).symm
  | cons d ds ih =>
    rw [List.forall_mem_cons] at hds
    cases h with
    | broke => cases hdata
    | frame skip take good htail =>
      obtain rfl := hinj hds.1 good.1 good.2
      rw [ChunkingStrategy.bodyOf] at hdata
      split at hdata
      · next rest hrest =>
          rw [← Except.ok.inj hdata, List.flatten_cons, ih hds.2 htail hrest]
          rfl
      · cases hdata

/-! ### Calls -/

/-- A page of facts is applied. -/
theorem sources_applyFacts {facts : List FactRecord}
    (hfacts : ∀ rec ∈ facts, FactSourced S J O rec.fact) :
    Sources S J O (Prog.forEach (applyFact S.blake3) facts : SProg Blob ε Unit)
      anything :=
  Keeps.forEach fun rec hrec _ hs _ => ⟨hs.applyFact (hfacts rec hrec) _ _, trivial⟩

variable (hBlob : Blob.ByName)
include hBlob

/-- Plain calls. -/
theorem sources_of_makes {p : SProg Blob ε α}
    (h : Makes (fun _ => True) (fun l => Sourced.plain l = true) p) :
    Sources S J O p anything :=
  Calls.keeps h fun _ _ _ hP hs => hs.of_effect hBlob hP.1 hP.2

/-- A query, with what is known of its answer. -/
theorem sources_db {l : Call} {f : Store → α} {Q : Except ε α → Prop}
    (hl : l.reads = true) (hplain : Sourced.plain l = true)
    (hQ : ∀ s : Site Blob, Sourced S J O s → Q (.ok (f s.store))) :
    Sources S J O (db l f : SProg Blob ε α) Q :=
  fun s hs _ => ⟨hs.of_effect hBlob hplain (Call.effect_of_reads hl s s.tick), hQ s hs⟩

/-- A query of whose answer nothing need be known. -/
theorem sources_query {l : Call} {f : Store → β} {k : β → SProg Blob ε α}
    {R : α → Prop} (hl : l.reads = true) (hplain : Sourced.plain l = true)
    (hk : ∀ b, Sources S J O (k b) (onOk R)) : Sources S J O (db l f >>= k) (onOk R) :=
  Keeps.andThen (R := fun _ => True) (sources_db hBlob hl hplain fun _ _ => trivial) fun b _ => hk b

/-! ### Blocks -/

/-- Bytes are put under their name. -/
theorem sources_blobPut {h d : Bytes} (hnamed : Intact.Named S.blake3 O.blocks h d) :
    Sources S J O (blobPut h d : SProg Blob Str Bytes) anything := by
  refine Keeps.andThen (R := fun _ => True) (fun s hs _ => ⟨?_, trivial⟩) fun r _ =>
    Keeps.ofExcept (by cases r <;> trivial)
  dsimp only
  cases s.oracle.putFails s.tick with
  | some e => exact hs.frame_store rfl rfl rfl rfl rfl rfl
  | none => exact hs.put hBlob hnamed (s.tick + 1)

/-- The row of a block is no manifest. -/
theorem sources_storeLocalBlock (h fid : Bytes) (size : ℤ) :
    Sources S J O (storeLocalBlock h fid size : SProg Blob ε Unit) anything :=
  sources_of_makes hBlob (makes_storeLocalBlock rfl rfl)

/-- A look-up changes nothing. -/
theorem sources_getLocalBlockFid (h : Bytes) :
    Sources S J O (getLocalBlockFid h : SProg Blob ε (Option Bytes)) anything :=
  sources_of_makes hBlob (makes_getLocalBlockFid rfl)

/-- A named block may be promoted. -/
theorem sources_promoteBlockLocally {h d : Bytes} (hnamed : Intact.Named S.blake3 O.blocks h d) :
    Sources S J O (promoteBlockLocally h d : SProg Blob Str Unit) anything := by
  refine Keeps.andThen (sources_getLocalBlockFid hBlob h) fun fid _ => ?_
  cases fid with
  | some fid => trivial
  | none =>
    exact Keeps.andThen (sources_blobPut hBlob hnamed) fun fid _ =>
      sources_storeLocalBlock hBlob h fid d.length

/-- `store_block` answers with the hash. -/
theorem sources_storeBlock {d : Bytes} (hd : d ∈ O.blocks) (size : ℤ) :
    Sources S J O (storeBlock S.blake3 d size : SProg Blob Str Bytes)
      (onOk fun h => h = S.blake3.hash d) := by
  refine Keeps.andThen (sources_getLocalBlockFid hBlob _) fun fid _ => ?_
  cases fid with
  | some fid => exact rfl
  | none =>
    refine Keeps.andThen (sources_blobPut hBlob ⟨hd, rfl⟩) fun fid _ => ?_
    exact Keeps.andThen (sources_storeLocalBlock hBlob _ fid size) fun _ _ => rfl

/-- A fetch brings the bytes of the block. -/
theorem sources_noiseFetchBlock (url : Str) (h : Bytes) :
    Sources S J O (noiseFetchBlock url h : SProg Blob ε (Except Str Bytes))
      (onOk (onOk fun d => Intact.Named S.blake3 O.blocks h d)) := by
  intro s hs htrue
  refine ⟨hs.of_effect hBlob (l := .fetch url h) rfl (Call.effect_of_reads rfl s (s.tick + 1)), ?_⟩
  show onOk _ (s.oracle.fetch s.tick)
  cases hfetch : s.oracle.fetch s.tick with
  | error e => trivial
  | ok d =>
    have hnamed : Intact.Named S.blake3 O.blocks h d := by
      simpa only [Truthful, hfetch] using htrue
    exact hnamed

/-- An entry of the queue is no manifest. -/
theorem sources_enqueueReplication (h : Bytes) :
    Sources S J O (enqueueReplication h : SProg Blob ε Unit) anything :=
  sources_of_makes hBlob (makes_enqueueReplication rfl rfl)

/-- What a holder answers is named by its hash. -/
theorem sources_fetchFromHolders (locations : List (Str × Bytes)) (h : Bytes)
    (peers : List (Str × Str)) :
    Sources S J O (fetchFromHolders locations h peers : SProg Blob Str Bytes)
      (onOk fun d => Intact.Named S.blake3 O.blocks h d) := by
  induction peers with
  | nil => trivial
  | cons peer rest ih =>
    obtain ⟨id, url⟩ := peer
    unfold fetchFromHolders
    split
    · refine Keeps.andThen (sources_noiseFetchBlock hBlob url h) fun r hr => ?_
      cases r with
      | error e => exact ih
      | ok d =>
        -- the bytes are answered whether or not they could be kept
        refine Keeps.andThen (R := fun _ => True) (Keeps.attempt ((sources_promoteBlockLocally hBlob
          hr).mono fun _ _ => trivial)) fun r _ => ?_
        cases r with
        | ok _ => exact hr
        | error _ =>
          exact Keeps.andThen (sources_enqueueReplication hBlob h) fun _ _ => hr
    · exact ih

/-- **The bytes of a block** are those of its name. -/
theorem sources_getBlock (h : Bytes) :
    Sources S J O (getBlock h : SProg Blob Str Bytes)
      (onOk fun d => Intact.Named S.blake3 O.blocks h d) := by
  refine Keeps.andThen (sources_getLocalBlockFid hBlob h) fun fid _ => ?_
  cases fid with
  | some fid =>
    refine Keeps.andThen (R := onOk fun d => Intact.Named S.blake3 O.blocks h d)
      (fun s hs _ => ⟨hs, ?_⟩) fun r hr => Keeps.ofExcept hr
    show onOk _ (Blob.get s.blobs h fid)
    cases hget : Blob.get s.blobs h fid with
    | error e => trivial
    | ok d => exact hs.blobs h fid d hget
  | none =>
    refine sources_query hBlob rfl rfl fun locations => ?_
    cases locations with
    | none => trivial
    | some locations =>
      exact sources_query hBlob rfl rfl fun peers =>
        sources_fetchFromHolders hBlob locations h peers

/-! ### The drainer and the collector -/

/-- A sweep only takes away. -/
theorem sources_sweepOrphanedBlocks (cfg : GcConfig) (force : Bool) :
    Sources S J O (sweepOrphanedBlocks cfg force : SProg Blob ε Unit) anything := by
  refine sources_of_makes hBlob (makes_sweep (A := fun l => Sourced.plain l = true) rfl
    (fun live l hl => ?_) cfg force)
  cases l <;> first | rfl | exact False.elim hl

/-- What the first peer answers is named by its hash. -/
theorem sources_fetchFirst (h : Bytes) (candidates : List (Str × Str)) :
    Sources S J O (fetchFirst h candidates : SProg Blob ε (Option Bytes))
      (onOk fun r => ∀ d, r = some d → Intact.Named S.blake3 O.blocks h d) := by
  induction candidates with
  | nil =>
    rintro d ⟨⟩
  | cons peer rest ih =>
    refine Keeps.andThen (sources_noiseFetchBlock hBlob peer.2 h) fun r hr => ?_
    cases r with
    | error e => exact ih
    | ok d =>
      rintro _ ⟨⟩
      exact hr

/-- So it may be kept. -/
theorem sources_drainEntry (localId : Str) (peers : List (Str × Str)) (entry : ReplicationEntry) :
    Sources S J O (drainEntry localId peers entry : SProg Blob ε Unit) anything := by
  have hdrop : Sources S J O (dequeueReplication entry.hash : SProg Blob ε Unit)
      anything := sources_of_makes hBlob (makes_exec rfl (fun _ => rfl) fun _ => rfl)
  have hdefer : Sources S J O (deferReplication entry : SProg Blob ε Unit) anything :=
    sources_of_makes hBlob (Makes.seq (p := nowMillis) (makes_nowMillis rfl)
      fun ms => makes_exec rfl (fun _ => ⟨ms, entry, rfl⟩) fun _ => rfl)
  refine sources_query hBlob rfl rfl fun locations => ?_
  cases planReplication (locations.getD []) localId peers with
  | drop => exact hdrop
  | defer => exact hdefer
  | fetchFrom candidates =>
    refine Keeps.andThen (sources_fetchFirst hBlob entry.hash candidates) fun r hr => ?_
    cases r with
    | none => exact hdefer
    | some d =>
      refine Keeps.andThen (R := fun _ => True) (Keeps.attempt ((sources_promoteBlockLocally hBlob
        (hr d rfl)).mono fun _ _ => trivial)) fun r _ => ?_
      cases r with
      | ok _ => exact hdrop
      | error _ => exact hdefer

/-- The drain goes entry by entry. -/
theorem sources_drainReplicationQueue (cfg : GcConfig) (localId : Str) :
    Sources S J O (drainReplicationQueue cfg localId : SProg Blob ε Unit)
      anything := by
  refine Keeps.andThen (p := diskGuard) (sources_of_makes hBlob (makes_ask rfl rfl
    fun _ _ => trivial)) fun trip _ => ?_
  cases trip with
  | some _ => exact sources_sweepOrphanedBlocks hBlob cfg true
  | none =>
    have hqueue : Sources S J O
        (getReplicationQueue : SProg Blob ε (List ReplicationEntry)) anything :=
      sources_of_makes hBlob (Makes.seq (p := nowMillis) (makes_nowMillis rfl)
        fun ms => makes_db rfl rfl)
    refine Keeps.andThen hqueue fun entries _ => ?_
    cases entries with
    | nil => trivial
    | cons entry rest =>
      refine sources_query hBlob rfl rfl fun peers => ?_
      exact Keeps.forEach fun e _ => sources_drainEntry hBlob localId peers e

/-! ### Writes -/

/-- Chunks of known bodies may be stored. -/
theorem sources_storeAll {ds : List Bytes} (hds : ∀ d ∈ ds, d ∈ O.blocks) :
    Sources S J O (S.storeAll ds : SProg Blob S3Error (List Bytes))
      (onOk fun hashes => hashes = ds.map S.blake3.hash) := by
  induction ds with
  | nil => exact rfl
  | cons d ds ih =>
    rw [List.forall_mem_cons] at hds
    refine Keeps.andThen (sources_storeBlock hBlob hds.1 _).mapErr fun h hh => ?_
    refine Keeps.andThen (ih hds.2) fun hashes hhashes => ?_
    exact hh ▸ hhashes ▸ rfl

/-- **A body that is received** is spelled by the blocks it was cut into. -/
theorem sources_receiveBody {frames : List (Except Str Bytes)}
    (hD : ∀ d ∈ S.chunker.chunks S.fastcdc frames [], d ∈ O.blocks) :
    Sources S J O (S.receiveBody frames : SProg Blob S3Error Upload)
      (onOk fun u => ∃ body, ChunkingStrategy.bodyOf frames = .ok body ∧
        Spells S.blake3 O.blocks u.blockHashes u.totalSize body) := by
  rw [receiveBody_eq]
  refine Keeps.andThen (sources_storeAll hBlob hD) fun hashes hhashes => ?_
  cases hbody : ChunkingStrategy.bodyOf frames with
  | error e => trivial
  | ok body =>
    have hflat : (S.chunker.chunks S.fastcdc frames []).flatten = body :=
      ChunkingStrategy.flatten_chunks S.fastcdc S.chunker hbody
    exact ⟨body, rfl, _, hhashes, hD, hflat, by rw [hflat]⟩

/-- The guard changes nothing. -/
theorem sources_checkWritable :
    Sources S J O (checkWritable : SProg Blob S3Error Unit) anything := by
  refine sources_of_makes hBlob (Makes.seq (p := diskGuard)
    (makes_ask rfl rfl fun _ _ => trivial) fun trip => ?_)
  cases trip with
  | some trip => exact makes_fail _
  | none => exact makes_pure _

/-- Nor does the clock. -/
theorem sources_nowMicros :
    Sources S J O (nowMicros : SProg Blob ε ℤ) anything :=
  sources_of_makes hBlob (makes_nowMicros rfl)

variable {bucket key : Str}

/-- A row may be written that lists a body written under its key. -/
theorem sources_insertObject {blocks : List Bytes} {size : ℤ}
    (hm : Manifested S O (bucket, key) blocks size) (shardId : ℤ) (etag : Str) :
    Sources S J O
      (insertObject bucket shardId key blocks size etag : SProg Blob ε Unit) anything :=
  Keeps.andThen (sources_nowMicros hBlob) fun ts _ _ hs _ =>
    ⟨hs.insertObject hm ts shardId etag, trivial⟩

/-- A PUT writes the row of its own body. -/
theorem sources_putObject {body : Option (List (Except Str Bytes))}
    (hmade : .putObject bucket key body ∈ O.requests)
    (hD : ∀ d ∈ (S3Request.putObject bucket key body).chunks S, d ∈ O.blocks) :
    Sources S J O (S.putObject bucket key body : SProg Blob S3Error Str) anything := by
  refine Keeps.andThen (sources_checkWritable hBlob) fun _ _ => ?_
  cases body with
  | none => trivial
  | some frames =>
    refine Keeps.andThen (sources_receiveBody hBlob hD) ?_
    rintro u ⟨data, hdata, hspells⟩
    exact Keeps.andThen (sources_insertObject hBlob ⟨data, hspells, .put hmade hdata⟩ _ _)
      fun _ _ => trivial

/-- What a site finds under a key was written there. -/
theorem sources_lookup (bucket key : Str) :
    Sources S J O (getObject bucket key : SProg Blob ε (Option (List Bytes × ℤ × Str)))
      (onOk fun r => ∀ blocks size etag, r = some (blocks, size, etag) →
        Manifested S O (bucket, key) blocks size) := by
  refine sources_db hBlob rfl rfl fun s hs blocks size etag hget => ?_
  obtain ⟨row, hrow, hlive, rfl, rfl, -⟩ := Store.getObject_eq_some_iff.1 hget
  exact hs.objects _ row hrow hlive

/-- A copy writes the row of its source, a body that was written there. -/
theorem sources_copyObject {source : CopySource}
    (hmade : .copyObject source bucket key ∈ O.requests) :
    Sources S J O (S.copyObject source bucket key : SProg Blob S3Error (Str × ℕ))
      anything := by
  cases source with
  | accessPoint => trivial
  | bucket srcBucket srcKey =>
    refine Keeps.andThen (sources_lookup hBlob srcBucket srcKey) fun r hr => ?_
    cases r with
    | none => trivial
    | some row =>
      obtain ⟨blocks, size, etag⟩ := row
      obtain ⟨body, hspells, hwrote⟩ := hr blocks size etag rfl
      refine Keeps.andThen (sources_insertObject hBlob ⟨body, hspells, .copied hmade hwrote⟩ _ _)
        fun _ _ => ?_
      exact Keeps.andThen (sources_of_makes hBlob (makes_systemTime rfl)) fun _ _ => trivial

/-! ### Uploads in parts -/

/-- The upload of a request, and its key. -/
theorem sources_named {k : Uuid → Str → SProg Blob S3Error α} {Q : Except S3Error α → Prop}
    (bucket : Str) {uploadId : Option Uuid} (hfail : ∀ e, Q (.error e))
    (hk : ∀ id storedKey, uploadId = some id → Sources S J O (k id storedKey) Q) :
    Sources S J O (parsedUpload uploadId >>= fun id => uploadKey bucket id >>= k id) Q := by
  cases uploadId with
  | none => exact hfail _
  | some id =>
    have hkey : Sources S J O (uploadKey bucket id : SProg Blob S3Error Str) anything := by
      refine sources_query hBlob rfl rfl fun key => ?_
      cases key <;> trivial
    exact Keeps.seq (p := uploadKey bucket id) hkey hfail fun storedKey _ => hk id storedKey rfl

/-- A part lists its own body. -/
theorem sources_uploadPart {uploadId : Option Uuid} {partNumber : ℤ}
    {body : Option (List (Except Str Bytes))}
    (hmade : .uploadPart bucket key uploadId partNumber body ∈ O.requests)
    (hD : ∀ d ∈ (S3Request.uploadPart bucket key uploadId partNumber body).chunks S, d ∈ O.blocks) :
    Sources S J O (S.uploadPart bucket uploadId partNumber body : SProg Blob S3Error Str)
      anything := by
  refine Keeps.andThen (sources_checkWritable hBlob) fun _ _ => ?_
  refine sources_named hBlob bucket (fun _ => trivial) fun id storedKey hid => ?_
  subst hid
  cases body with
  | none => trivial
  | some frames =>
    refine Keeps.andThen (sources_receiveBody hBlob hD) ?_
    rintro u ⟨data, hdata, hspells⟩
    exact Keeps.andThen (R := fun _ => True)
      (fun s hs _ => ⟨hs.insertPart hspells ⟨key, frames, hmade, hdata⟩ _, trivial⟩)
      fun _ _ => trivial

omit hBlob in
/-- Parts that are gathered spell their bodies one after the other. -/
theorem spells_gathered (bucket : Str) (id : Uuid) {l : List (ℤ × List Bytes × ℤ × Str)}
    (hl : ∀ p ∈ l, ∃ body, Spells S.blake3 O.blocks p.2.1 p.2.2.1 body ∧
      Uploaded O.requests bucket id p.1 body) :
    ∃ parts : List (ℤ × Bytes), parts.map Prod.fst = l.map Prod.fst ∧
      (∀ p ∈ parts, Uploaded O.requests bucket id p.1 p.2) ∧
      Spells S.blake3 O.blocks (l.flatMap fun p => p.2.1) (l.map fun p => p.2.2.1).sum
        (parts.map Prod.snd).flatten := by
  induction l with
  | nil => exact ⟨[], rfl, by simp, [], rfl, by simp, rfl, rfl⟩
  | cons p l ih =>
    rw [List.forall_mem_cons] at hl
    obtain ⟨⟨body, hspells, hup⟩, hl⟩ := hl
    obtain ⟨parts, hnumbers, hups, hrest⟩ := ih hl
    refine ⟨(p.1, body) :: parts, ?_, List.forall_mem_cons.2 ⟨hup, hups⟩, ?_⟩
    · rw [List.map_cons, List.map_cons, hnumbers]
    · rw [List.flatMap_cons, List.map_cons, List.sum_cons, List.map_cons, List.flatten_cons]
      exact hspells.append hrest

/-- A completed upload lists the bodies of its parts, one after the other. -/
theorem sources_completeMultipartUpload {uploadId : Option Uuid}
    (hmade : .completeMultipartUpload bucket key uploadId ∈ O.requests) :
    Sources S J O
      (S.completeMultipartUpload bucket key uploadId : SProg Blob S3Error (Str × Str × Str))
      anything := by
  refine sources_named hBlob bucket (fun _ => trivial) fun id storedKey hid => ?_
  subst hid
  split
  · trivial
  · -- the parts as they are found
    refine Keeps.andThen (R := fun parts => (parts.map Prod.fst).Nodup ∧ ∀ p ∈ parts,
      ∃ body, Spells S.blake3 O.blocks p.2.1 p.2.2.1 body ∧ Uploaded O.requests bucket id p.1 body)
      (sources_db hBlob rfl rfl fun s hs => ⟨Store.nodup_numbers_listParts s.store bucket id, ?_⟩)
      ?_
    · intro p hp
      obtain ⟨row, hrow, hp⟩ := Store.mem_listParts.1 hp
      obtain ⟨body, hspells, hup⟩ := hs.parts bucket id p.1 row hrow
      rw [hp]
      exact ⟨body, hspells, hup⟩
    · rintro parts ⟨hnodup, hparts⟩
      refine Keeps.bind (Keeps.ofExcept ?_)
      cases hgather : gatherParts (sortBy Prod.fst parts) with
      | error e => trivial
      | ok r =>
        obtain ⟨blocks, size, etags⟩ := r
        obtain ⟨rfl, rfl⟩ := StorageBackend.gatherParts_ok hgather
        obtain ⟨bodies, hnumbers, hups, hspells⟩ := spells_gathered bucket id
          (l := sortBy Prod.fst parts) fun p hp => hparts p (mem_sortBy.1 hp)
        have hsorted : SortedBy Prod.fst bodies := by
          have h := List.pairwise_map.2 (sortedBy_sortBy hnodup)
          rw [← hnumbers] at h
          exact List.pairwise_map.1 h
        refine Keeps.andThen (sources_insertObject hBlob ⟨_, hspells,
          .completed hmade bodies hsorted hups⟩ _ _) fun _ _ => ?_
        exact Keeps.andThen (p := deleteMultipartUpload bucket id) (sources_of_makes hBlob
          (makes_exec rfl (fun _ => rfl) fun _ => rfl)) fun _ _ => trivial

/-! ### Reads -/

/-- The frames are cut out of named blocks. -/
theorem sources_streamRest (plan : List (Bytes × ℕ × Option ℕ)) :
    Sources S J O (streamRest plan : SProg Blob S3Error (List (Except S3Error Bytes)))
      (onOk (Streamed (Intact.Named S.blake3 O.blocks) plan)) := by
  induction plan with
  | nil => exact .done
  | cons p plan ih =>
    obtain ⟨h, skip, take⟩ := p
    refine Keeps.andThen (R := onOk fun d => Intact.Named S.blake3 O.blocks h d)
      (Keeps.attempt (sources_getBlock hBlob h)) fun r hr => ?_
    cases r with
    | error e => exact .broke _ _ _
    | ok d =>
      exact Keeps.andThen ih fun frames hframes => .frame skip take hr hframes

/-- The first frame is sent, or nothing is. -/
theorem sources_firstFrame (plan : List (Bytes × ℕ × Option ℕ)) :
    Sources S J O (firstFrame plan : SProg Blob S3Error (List (Except S3Error Bytes)))
      (onOk fun first => ∀ frames, Streamed (Intact.Named S.blake3 O.blocks) plan.tail frames →
        Streamed (Intact.Named S.blake3 O.blocks) plan (first ++ frames)) := by
  cases plan with
  | nil => exact fun frames hframes => hframes
  | cons p plan =>
    obtain ⟨h, skip, take⟩ := p
    exact Keeps.andThen (sources_getBlock hBlob h).mapErr fun d hd frames hframes =>
      .frame skip take hd hframes

/-- The plan of a GET reads blocks of the manifest, all of them and whole if no range is given. -/
theorem sources_readPlan {ds : List Bytes} (range : Option Range) :
    Sources S J O (readPlan (ds.map S.blake3.hash) ds.flatten.length range :
      SProg Blob S3Error (List (Bytes × ℕ × Option ℕ) × ℤ × Option Str))
      (onOk fun r => (∀ p ∈ r.1, p.1 ∈ ds.map S.blake3.hash) ∧
        (range = none → r.1 = ds.map fun d => (S.blake3.hash d, 0, none)) ∧
        ∃ data, Bodies.selection ds.flatten range = .ok data ∧ r.2.1 = data.length) := by
  cases range with
  | none =>
    refine ⟨?_, fun _ => ?_, ds.flatten, rfl, rfl⟩
    · intro p hp
      obtain ⟨h, hh, rfl⟩ := List.mem_map.1 hp
      exact hh
    · rw [List.map_map]
      rfl
  | some range =>
    rw [readPlan, asU64_natCast]
    cases hres : resolveRange range ds.flatten.length with
    | none => trivial
    | some p =>
      obtain ⟨start, stop⟩ := p
      obtain ⟨hle, hlt, hsel⟩ := resolveRange_select hres
      have hsome : range.select ds.flatten ≠ [] := fun h => by
        rw [(resolveRange_eq_none_iff range _).2 h] at hres
        cases hres
      refine Keeps.andThen (R := fun sizes => sizes.length = ds.length)
        (sources_db hBlob rfl rfl fun s _ => ?_) fun sizes hsizes => ?_
      · show (s.store.blockSizes (ds.map S.blake3.hash)).length = ds.length
        rw [Store.blockSizes, List.length_map, List.length_map]
      · refine ⟨?_, fun h => (by cases h), range.select ds.flatten, if_neg hsome, ?_⟩
        · intro q hq
          obtain ⟨p, hp, rfl⟩ := List.mem_map.1 hq
          have hlt : p.1 < (ds.map S.blake3.hash).length := by
            rw [List.length_map, ← hsizes]
            exact lt_of_mem_sliceBlocksForRange hp
          rw [List.getElem?_eq_getElem hlt]
          exact List.getElem_mem hlt
        · rw [hsel, List.length_drop, List.length_take]
          dsimp only
          congr 1
          omega

/-- **What is read** comes from the body the blocks spell. -/
theorem sources_readBody (hinj : Set.InjOn S.blake3.hash O.blocks)
    {blocks : List Bytes} {size : ℤ} {body : Bytes} (h : Spells S.blake3 O.blocks blocks size body)
    (etag : Str) (range : Option Range) :
    Sources S J O (readBody blocks size etag range : SProg Blob S3Error GetObjectOutput)
      (onOk (ReadFrom body range)) := by
  obtain ⟨ds, rfl, hds, rfl, rfl⟩ := h
  refine Keeps.andThen (sources_readPlan hBlob range) ?_
  rintro ⟨plan, contentLength, contentRange⟩ ⟨hplan, hwhole, hlength⟩
  refine Keeps.andThen (sources_firstFrame hBlob plan) fun first hfirst => ?_
  refine Keeps.andThen (sources_of_makes hBlob (makes_systemTime rfl)) fun lastModified _ => ?_
  refine Keeps.andThen (sources_streamRest hBlob plan.tail) fun rest hrest => ?_
  have hstream := hfirst rest hrest
  refine ⟨hlength, fun d hd => ?_, fun hnone => ?_, fun hnone => ?_⟩
  · exact hstream.isInfix_of_mem hinj hds hplan hd
  · rw [show plan = _ from hwhole hnone] at hstream
    exact fun sofar rest hframes => hstream.so_far hinj hds hframes
  · rw [show plan = _ from hwhole hnone] at hstream
    exact fun data hdata => hstream.whole hinj hds hdata

/-- **A GET** answers from a body that was written under its key. -/
theorem sources_getObject (hinj : Set.InjOn S.blake3.hash O.blocks)
    (bucket key : Str) (range : Option Range) :
    Sources S J O (getObject bucket key range : SProg Blob S3Error GetObjectOutput)
      (onOk fun out => ∃ body, WrittenUnder O.requests (bucket, key) body ∧
        ReadFrom body range out) := by
  refine Keeps.andThen (sources_lookup hBlob bucket key) fun r hr => ?_
  cases r with
  | none => trivial
  | some row =>
    obtain ⟨blocks, size, etag⟩ := row
    obtain ⟨body, hspells, hwrote⟩ := hr blocks size etag rfl
    refine (sources_readBody hBlob hinj hspells etag range).mono fun result hresult => ?_
    cases result with
    | error e => trivial
    | ok out => exact ⟨body, hwrote, hresult⟩

/-! ### Every request of a client -/

/-- **An authorized request** is one that some user may make. -/
theorem sources_authorize (credentials : Option Str) (r : S3Request) :
    Sources S J O (authorize J credentials r.asks.1 r.asks.2.1 r.asks.2.2 :
      SProg Blob S3Error Unit) (onOk fun _ => Permits O.users credentials r) := by
  cases credentials with
  | none => trivial
  | some accessKey =>
    refine Keeps.andThen (p := getUser J accessKey)
      (R := fun user => ∀ secretKey policy, user = .ok (some (secretKey, policy)) →
        (accessKey, policy) ∈ O.users)
      (sources_db hBlob rfl rfl fun s hs secretKey policy huser => ?_) fun user huser => ?_
    · unfold Store.getUser at huser
      split at huser
      · cases huser
      · next row hrow =>
          split at huser
          · next p hp =>
              simp only [Except.ok.injEq, Option.some.injEq, Prod.mk.injEq] at huser
              exact huser.2 ▸ hs.users accessKey row p hrow hp
          · cases huser
    · match user, huser with
      | .error _, _ => trivial
      | .ok none, _ => trivial
      | .ok (some (secretKey, policy)), huser =>
        dsimp only
        split
        · next hallowed => exact ⟨accessKey, policy, rfl, huser secretKey policy rfl, hallowed⟩
        · trivial

/-- Requests that only read. -/
theorem sources_reads {p : SProg Blob ε α}
    (h : Makes (fun _ => True) (fun l => l.reads = true) p) : Sources S J O p anything := by
  refine sources_of_makes hBlob (h.mono (fun _ hs => hs) (fun l s s' hl => ⟨?_, hl.2⟩) fun _ h => h)
  obtain ⟨hreads, -⟩ := hl
  cases l <;> first | rfl | cases hreads

/-- What an answer says of what was written. -/
def S3Response.Sourced (requests : Set S3Request) (r : S3Request) (response : S3Response) : Prop :=
  match r with
  | .getObject bucket key range => ∀ out, response = .getObject out →
      ∃ body, WrittenUnder requests (bucket, key) body ∧ ReadFrom body range out
  | .headObject bucket key => ∀ out, response = .headObject out →
      ∃ body, WrittenUnder requests (bucket, key) body ∧ out.contentLength = body.length
  | _ => True

/-- `upload_part_copy`. -/
def S3Request.copiesPart : S3Request → Bool
  | .uploadPartCopy _ _ _ _ _ _ => true
  | _ => false

/-- A HEAD tells the length of a body that was written. -/
theorem sources_headObject (bucket key : Str) :
    Sources S J O (headObject bucket key : SProg Blob S3Error HeadObjectOutput)
      (onOk fun out => ∃ body, WrittenUnder O.requests (bucket, key) body ∧
        out.contentLength = body.length) := by
  refine Keeps.andThen (sources_lookup hBlob bucket key) fun r hr => ?_
  cases r with
  | none => trivial
  | some row =>
    obtain ⟨blocks, size, etag⟩ := row
    obtain ⟨body, ⟨ds, -, -, -, hsize⟩, hwrote⟩ := hr blocks size etag rfl
    exact Keeps.andThen (sources_of_makes hBlob (makes_systemTime rfl))
      fun _ _ => ⟨body, hwrote, hsize⟩

/-- A tombstone lists nothing. -/
theorem sources_deleteObject (herased : Erased O.requests (bucket, key)) :
    Sources S J O (deleteObject S.blake3 bucket key : SProg Blob ε Unit) anything :=
  Keeps.andThen (sources_nowMicros hBlob) fun ts _ _ hs _ =>
    ⟨hs.deleteObject herased ts, trivial⟩

/-- **Every request of a client** other than a part copy. -/
theorem sources_run (hinj : Set.InjOn S.blake3.hash O.blocks) {r : S3Request}
    (hr : r.copiesPart = false) (hmade : r ∈ O.requests) (hD : ∀ d ∈ r.chunks S, d ∈ O.blocks) :
    Sources S J O (S.run r : SProg Blob S3Error S3Response)
      (onOk (S3Response.Sourced O.requests r)) := by
  have hmap : ∀ {γ : Type} {p : SProg Blob S3Error γ} {f : γ → S3Response} {R : γ → Prop},
      Sources S J O p (onOk R) → (∀ a, R a → S3Response.Sourced O.requests r (f a)) →
      Sources S J O (f <$> p) (onOk (S3Response.Sourced O.requests r)) :=
    fun hp hf => Keeps.andThen hp hf
  have hreads : ∀ {γ : Type} {p : SProg Blob S3Error γ},
      Makes (fun _ => True) (fun l => l.reads = true) p → Sources S J O p anything :=
    fun hp => sources_reads hBlob hp
  cases r with
  | putObject bucket key body => exact hmap (sources_putObject hBlob hmade hD) fun _ _ => trivial
  | getObject bucket key range =>
    refine hmap (sources_getObject hBlob hinj bucket key range) fun out hout => ?_
    rintro _ ⟨⟩
    exact hout
  | headObject bucket key =>
    refine hmap (sources_headObject hBlob bucket key) fun out hout => ?_
    rintro _ ⟨⟩
    exact hout
  | deleteObject bucket key =>
    exact hmap (sources_deleteObject hBlob ⟨_, hmade, List.mem_singleton_self _⟩)
      fun _ _ => trivial
  | deleteObjects bucket keys =>
    refine hmap (R := fun _ => True) (Keeps.andThen (Keeps.forEach fun key hkey => ?_)
      fun _ _ => trivial) fun _ _ => trivial
    exact sources_deleteObject hBlob ⟨_, hmade, List.mem_map_of_mem hkey⟩
  | copyObject source bucket key => exact hmap (sources_copyObject hBlob hmade) fun _ _ => trivial
  | createMultipartUpload bucket key uploadId =>
    refine hmap (sources_of_makes hBlob (Makes.seq (makes_exec rfl (fun _ => ⟨key, rfl⟩)
      fun _ => rfl) fun _ => makes_pure _)) fun _ _ => trivial
  | uploadPart bucket key uploadId partNumber body =>
    exact hmap (sources_uploadPart hBlob hmade hD) fun _ _ => trivial
  | uploadPartCopy bucket key uploadId partNumber source range => cases hr
  | completeMultipartUpload bucket key uploadId =>
    exact hmap (sources_completeMultipartUpload hBlob hmade) fun _ _ => trivial
  | abortMultipartUpload bucket key uploadId =>
    exact hmap (sources_of_makes hBlob ((makes_parsedUpload uploadId).seq fun id =>
      makes_exec rfl (fun _ => rfl) fun _ => rfl)) fun _ _ => trivial
  | listParts bucket key uploadId marker maxParts =>
    exact hmap (hreads (makes_listParts (fun _ hl => hl) bucket key uploadId marker maxParts))
      fun _ _ => trivial
  | listMultipartUploads bucket pre keyMarker delimiter maxUploads =>
    exact hmap (hreads (makes_listMultipartUploads (fun _ hl => hl) bucket pre keyMarker delimiter
      maxUploads)) fun _ _ => trivial
  | listObjects input =>
    refine Keeps.andThen (hreads (makes_stampedPage (fun _ hl => hl) input)) fun page _ => ?_
    cases page <;> trivial
  | listObjectsV2 input =>
    refine Keeps.andThen (hreads (makes_stampedPage (fun _ hl => hl) input)) fun page _ => ?_
    cases page <;> trivial
  | listObjectVersions input =>
    refine Keeps.andThen (hreads (makes_stampedPage (fun _ hl => hl) input)) fun page _ => ?_
    cases page <;> trivial
  | listBuckets =>
    exact hmap (hreads (Makes.seq (p := Site.listBuckets) (makes_db rfl rfl)
      fun _ => makes_pure _)) fun _ _ => trivial
  | createBucket bucket => trivial
  | deleteBucket bucket => trivial
  | headBucket bucket => trivial

/-- **Every request, behind its authorization.** -/
theorem sources_handle (hinj : Set.InjOn S.blake3.hash O.blocks)
    {credentials : Option Str} {r : S3Request} (hr : r.copiesPart = false)
    (hmade : Permits O.users credentials r → r ∈ O.requests ∧ ∀ d ∈ r.chunks S, d ∈ O.blocks) :
    Sources S J O (S.handle J credentials r : SProg Blob S3Error S3Response)
      (onOk fun response => Permits O.users credentials r ∧ response.Sourced O.requests r) := by
  refine Keeps.andThen (sources_authorize hBlob credentials r) fun _ hpermits => ?_
  obtain ⟨hmem, hD⟩ := hmade hpermits
  refine (sources_run hBlob hinj hr hmem hD).mono fun result hresult => ?_
  cases result with
  | error e => trivial
  | ok response => exact ⟨hpermits, hresult⟩

/-! ### Peers -/

/-- What a peer may be told. -/
def InternalResponse.Sourced (S : StorageBackend) (J : PolicyJson) (O : Origins)
    (r : InternalRequest) : InternalResponse → Prop
  | .facts page => ∀ rec ∈ page, FactSourced S J O rec.fact
  | .block d => ∀ h, r = .blocks (hexEncode h) → Intact.Named S.blake3 O.blocks h d
  | _ => True

/-- **Every request of a peer**, with what it is told. -/
theorem sources_handleInternalRequest (cfg : SiteConfig)
    (secretMatches : Bool) (r : InternalRequest) :
    Sources S J O
      (handleInternalRequest cfg S.gc secretMatches r : SProg Blob ε InternalResponse)
      (onOk (InternalResponse.Sourced S J O r)) := by
  unfold handleInternalRequest
  split
  · trivial
  · cases r with
    | clusterConfig =>
      exact Keeps.andThen (sources_nowMicros hBlob) fun _ _ => trivial
    | nodes =>
      exact sources_query hBlob rfl rfl fun _ => trivial
    | join id addr =>
      dsimp only
      split
      · trivial
      · refine Keeps.andThen (p := recordPeer id addr) (sources_of_makes hBlob
          (Makes.seq (p := nowMillis) (makes_nowMillis rfl) fun ms =>
            makes_exec rfl (fun _ => ⟨ms, addr, rfl⟩) fun _ => rfl)) fun _ _ => trivial
    | facts after =>
      refine Keeps.andThen (p := factsSince after factSyncBatch)
        (R := fun page => ∀ rec ∈ page, FactSourced S J O rec.fact)
        (sources_db hBlob rfl rfl fun s hs rec hrec => ?_) fun page hpage => hpage
      have hmem : rec ∈ Store.factRecords s.store.factLog := by
        rw [Store.factsSince_eq] at hrec
        exact List.mem_of_mem_drop (List.mem_of_mem_take hrec)
      exact hs.log _ (List.mem_of_getElem? (Store.mem_factRecords.1 hmem).2)
    | gcForce =>
      exact Keeps.andThen (sources_sweepOrphanedBlocks hBlob S.gc true) fun _ _ => trivial
    | blocks hashHex =>
      dsimp only
      cases hhash : hexDecode hashHex with
      | none => trivial
      | some hash =>
        dsimp only
        split
        · trivial
        · refine Keeps.andThen (R := onOk fun d => Intact.Named S.blake3 O.blocks hash d)
            (Keeps.attempt (sources_getBlock hBlob hash)) fun r hr => ?_
          cases r with
          | error e => trivial
          | ok d =>
            intro h hreq
            obtain rfl := InternalRequest.blocks.inj hreq
            rw [hexDecode_hexEncode] at hhash
            exact Option.some.inj hhash ▸ hr
    | other => trivial

end Shardscape
