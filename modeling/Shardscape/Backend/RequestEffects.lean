/-
# What the calls of the requests do

Every S3 request, every request of a peer and every drain, described by their calls.
There are two ways for block bytes into a site: the body of a write, behind the disk
guard, and the read-repair of a block that is read.  Once both are accounted for
(`Entries`), every request is (`makes_handle`).
-/

import Shardscape.Backend.Effects

namespace Shardscape

open Lib

variable {Blob : BlobStore} {S : StorageBackend} {I : Site Blob → Prop} {A : Call → Prop}

/-- What brings block bytes into a site is accounted for: a write is refused or its
blocks may be put, and so is a read-repair. -/
structure Site.Entries (S : StorageBackend) (I : Site Blob → Prop) (A : Call → Prop) : Prop where
  quiet : ∀ l : Call, l.touches = false → A l
  repairs : ∀ h, Site.Repairs I A h
  writes : (∀ s, I s → ∃ trip, s.oracle.guardTrip s.tick = some trip) ∨
    ∀ d, ∀ l ∈ Site.putsBlock (S.blake3.hash d), A l

/-- Queries are among the calls. -/
theorem Site.Entries.reads (h : Site.Entries S I A) (l : Call) (hl : l.reads = true) : A l :=
  h.quiet l (Call.touches_of_reads hl)

/-- The calls of a stream are among the calls. -/
theorem Site.Entries.streams (h : Site.Entries S I A) (l : Call) (hl : l.streams = true) : A l :=
  h.quiet l (Call.touches_of_streams hl)

namespace StorageBackend

open Site

/-! ### Writes -/

section

variable (hput : ∀ d, ∀ l ∈ putsBlock (S.blake3.hash d), A l)
include hput

/-- A chunk is put as a block. -/
theorem makes_storeChunk (u : Upload)
    (d : Bytes) : Makes I A (S.storeChunk u d : SProg Blob S3Error Upload) :=
  (makes_storeBlock (hput d)).mapErr.seq fun _ => makes_pure _

/-- The chunks that a frame completes are put. -/
theorem makes_receiveFrame (u : Upload)
    (res : Except Str Bytes) : Makes I A (S.receiveFrame u res : SProg Blob S3Error Upload) :=
  Makes.seq (Prog.Calls.ofExcept trivial) fun _ =>
    Prog.Calls.foldlM fun u d _ => makes_storeChunk hput u d

/-- The last chunk is put. -/
theorem makes_finishBody (u : Upload) :
    Makes I A (S.finishBody u : SProg Blob S3Error Upload) := by
  unfold finishBody
  cases ChunkingStrategy.finalize u.currentChunk with
  | none => exact makes_pure _
  | some d => exact makes_storeChunk hput _ d

/-- A body puts its chunks. -/
theorem makes_receiveBody (body : List (Except Str Bytes)) :
    Makes I A (S.receiveBody body : SProg Blob S3Error Upload) :=
  Makes.seq (Prog.Calls.foldlM fun u res _ => makes_receiveFrame hput u res) fun u =>
    makes_finishBody hput u

end

/-- What follows `check_writable` is only reached where blocks may be put. -/
theorem makes_checkWritable {α : Type} (h : Entries S I A) {k : Unit → SProg Blob S3Error α}
    (hk : (∀ d, ∀ l ∈ putsBlock (S.blake3.hash d), A l) → Makes I A (k ())) :
    Makes I A (checkWritable >>= k) := by
  refine Prog.Calls.bind (Prog.Calls.bind ?_)
  refine makes_ask (h.quiet _ rfl) rfl fun s hs => ?_
  dsimp only
  rcases h.writes with htrip | hput
  · obtain ⟨trip, ht⟩ := htrip s hs
    rw [ht]
    exact trivial
  · cases s.oracle.guardTrip s.tick with
    | some trip => exact trivial
    | none => exact hk hput

/-- The row of an object is stamped and written. -/
theorem makes_insertObject {bucket key etag : Str} {shardId size : ℤ} {blocks : List Bytes}
    (hquiet : ∀ l : Call, l.touches = false → A l) :
    Makes I A (Site.insertObject bucket shardId key blocks size etag : SProg Blob S3Error Unit) :=
  (makes_nowMicros (hquiet _ rfl)).seq fun ts =>
    makes_exec (hquiet _ rfl) (fun _ => ⟨ts, shardId, blocks, size, etag, rfl⟩) fun _ => rfl

/-- The row of a part is written. -/
theorem makes_insertPart {bucket etag : Str} {id : Uuid} {number size : ℤ} {blocks : List Bytes}
    (hquiet : ∀ l : Call, l.touches = false → A l) :
    Makes I A (Site.insertPart bucket id number blocks size etag : SProg Blob S3Error Unit) :=
  makes_exec (hquiet _ rfl) (fun _ => ⟨blocks, size, etag, rfl⟩) fun _ => rfl

/-- A PUT puts its chunks and writes its row. -/
theorem makes_putObject (h : Entries S I A) (bucket key : Str)
    (body : Option (List (Except Str Bytes))) :
    Makes I A (S.putObject bucket key body : SProg Blob S3Error Str) := by
  refine makes_checkWritable h fun hput => ?_
  cases body with
  | none => exact makes_fail _
  | some body =>
    exact (makes_receiveBody hput body).seq fun u =>
      (makes_insertObject h.quiet).seq fun _ => makes_pure _

/-- The id of an upload is read off the request. -/
theorem makes_parsedUpload (uploadId : Option Uuid) :
    Makes I A (parsedUpload uploadId : SProg Blob S3Error Uuid) := by
  cases uploadId with
  | none => exact makes_fail _
  | some id => exact makes_pure _

/-- The key of an upload is one query. -/
theorem makes_uploadKey (hreads : ∀ l : Call, l.reads = true → A l) (bucket : Str) (id : Uuid) :
    Makes I A (uploadKey bucket id : SProg Blob S3Error Str) := by
  refine Makes.seq (p := Site.getMultipartKey bucket id) (makes_db (hreads _ rfl) rfl) fun key => ?_
  cases key with
  | none => exact makes_fail _
  | some key => exact makes_pure _

/-- `upload_part` looks up the upload, puts its chunks and writes the part. -/
theorem makes_uploadPart (h : Entries S I A) (bucket : Str) (uploadId : Option Uuid)
    (partNumber : ℤ) (body : Option (List (Except Str Bytes))) :
    Makes I A (S.uploadPart bucket uploadId partNumber body : SProg Blob S3Error Str) := by
  refine makes_checkWritable h fun hput => ?_
  refine (makes_parsedUpload uploadId).seq fun id => ?_
  refine (makes_uploadKey h.reads bucket id).seq fun _ => ?_
  cases body with
  | none => exact makes_fail _
  | some body =>
    exact (makes_receiveBody hput body).seq fun u =>
      (makes_insertPart h.quiet).seq fun _ => makes_pure _

/-- `upload_part_copy` reads the blocks of its source on the way, as a GET does. -/
theorem makes_uploadPartCopy (h : Entries S I A) (bucket : Str) (uploadId : Option Uuid)
    (partNumber : ℤ) (source : CopySource) (range : Option Str) :
    Makes I A (S.uploadPartCopy bucket uploadId partNumber source range :
      SProg Blob S3Error (Str × ℕ)) := by
  refine makes_checkWritable h fun hput => ?_
  refine (makes_parsedUpload uploadId).seq fun id => ?_
  refine (makes_uploadKey h.reads bucket id).seq fun _ => ?_
  cases source with
  | accessPoint => exact makes_fail _
  | bucket srcBucket srcKey =>
    refine Makes.seq (p := Site.getObject srcBucket srcKey) (makes_db (h.quiet _ rfl) rfl)
      fun row => ?_
    cases row with
    | none => exact makes_fail _
    | some row =>
      refine Makes.seq (Prog.Calls.ofExcept trivial) fun _ => ?_
      refine Makes.seq (p := Site.blockSizes row.1)
        (makes_db (h.quiet _ rfl) rfl) fun sizes => ?_
      refine Makes.seq (Prog.Calls.foldlM fun u slice _ => ?_) fun u => ?_
      · exact (makes_getBlock h.streams (h.repairs _)).mapErr.seq fun d =>
          makes_receiveFrame hput u _
      · exact (makes_finishBody hput u).seq fun u => (makes_insertPart h.quiet).seq fun _ =>
          (makes_systemTime (h.quiet _ rfl)).seq fun _ => makes_pure _

/-! ### Reads -/

section

variable (hstreams : ∀ l : Call, l.streams = true → A l)
include hstreams

/-- What a GET is to read takes the sizes of the blocks, and that only with a range. -/
theorem makes_readPlan (blocks : List Bytes) (size : ℤ) (range : Option Range) :
    Makes I A (readPlan blocks size range :
      SProg Blob S3Error (List (Bytes × ℕ × Option ℕ) × ℤ × Option Str)) := by
  cases range with
  | none => exact makes_pure _
  | some range =>
    rw [readPlan]
    cases resolveRange range (asU64 size) with
    | none => exact makes_fail _
    | some p =>
      exact Makes.seq (p := Site.blockSizes blocks) (makes_db (hstreams _ rfl) rfl)
        fun sizes => makes_pure _

/-- The stream reads block after block, until one fails. -/
theorem makes_streamRest (hrepairs : ∀ h, Repairs I A h) (plan : List (Bytes × ℕ × Option ℕ)) :
    Makes I A (streamRest plan : SProg Blob S3Error (List (Except S3Error Bytes))) := by
  induction plan with
  | nil => exact makes_pure _
  | cons p plan ih =>
    refine (makes_getBlock hstreams (hrepairs p.1)).attempt.seq fun r => ?_
    cases r with
    | ok d => exact ih.seq fun _ => makes_pure _
    | error e => exact makes_pure _

/-- Streaming a body, once its row is found: no other row is looked up. -/
theorem makes_readBody (hrepairs : ∀ h, Repairs I A h) (blocks : List Bytes) (size : ℤ) (etag : Str)
    (range : Option Range) :
    Makes I A (readBody blocks size etag range : SProg Blob S3Error GetObjectOutput) := by
  refine (makes_readPlan hstreams blocks size range).seq fun plan => ?_
  have hfirst : Makes I A (firstFrame plan.1 :
      SProg Blob S3Error (List (Except S3Error Bytes))) := by
    cases plan.1 with
    | nil => exact makes_pure _
    | cons p rest =>
      exact (makes_getBlock hstreams (hrepairs p.1)).mapErr.seq fun _ => makes_pure _
  exact hfirst.seq fun _ => (makes_systemTime (hstreams _ rfl)).seq fun _ =>
    (makes_streamRest hstreams hrepairs plan.1.tail).seq fun _ => makes_pure _

end

/-- A GET finds the row, plans and reads. -/
theorem makes_getObject (h : Entries S I A) (bucket key : Str) (range : Option Range) :
    Makes I A (getObject bucket key range : SProg Blob S3Error GetObjectOutput) := by
  refine Makes.seq (p := Site.getObject bucket key) (makes_db (h.quiet _ rfl) rfl) fun row => ?_
  cases row with
  | none => exact makes_fail _
  | some row => exact makes_readBody h.streams h.repairs row.1 row.2.1 row.2.2 range

section

variable (hreads : ∀ l : Call, l.reads = true → A l)
include hreads

/-- A listing with a delimiter queries page after page. -/
theorem makes_gatherRows (bucket : Str)
    (pre : Option Str) (fuel : ℕ) (cursor : Option Str) (gathered : List ListedRow) :
    Makes I A (gatherRows bucket pre fuel cursor gathered :
      SProg Blob S3Error (Option (List ListedRow))) := by
  induction fuel generalizing cursor gathered with
  | zero => exact makes_pure _
  | succ fuel ih =>
    refine Makes.seq (p := Site.listObjects bucket cursor pre scanPage)
      (makes_db (hreads _ rfl) rfl)
      fun r => ?_
    cases r with
    | none => exact makes_pure _
    | some r =>
      dsimp only
      cases r.1.getLast? with
      | none => exact makes_pure _
      | some last =>
        dsimp only
        split
        · exact ih _ _
        · exact makes_pure _

/-- A listing is queries, and the time for each row of the answer. -/
theorem makes_stampedPage (input : ListInput) :
    Makes I A (stampedPage input :
      SProg Blob S3Error (Option (ListPage × List ListedObject))) := by
  have hstamp : ∀ rows : List ListedRow,
      Makes I A (stampRows rows : SProg Blob S3Error (List ListedObject)) := by
    intro rows
    induction rows with
    | nil => exact makes_pure _
    | cons row rows ih =>
      exact (makes_systemTime (hreads _ rfl)).seq fun _ => ih.seq fun _ => makes_pure _
  have hpage : Makes I A (listPage input.bucket input.marker input.pre input.delimiter
      (pageLimit input.maxKeys) : SProg Blob S3Error (Option ListPage)) := by
    unfold listPage
    cases input.delimiter with
    | none =>
      exact Makes.seq (p := Site.listObjects input.bucket input.marker input.pre _)
        (makes_db (hreads _ rfl) rfl) fun _ => makes_pure _
    | some delim => exact (makes_gatherRows hreads _ _ _ _ _).seq fun _ => makes_pure _
  refine hpage.seq fun page => ?_
  cases page with
  | none => exact makes_pure _
  | some page => exact (hstamp page.contents).seq fun _ => makes_pure _

/-- `list_parts` is queries and times. -/
theorem makes_listParts (bucket key : Str)
    (uploadId : Option Uuid) (marker : Option Str) (maxParts : Option ℤ) :
    Makes I A (listParts bucket key uploadId marker maxParts :
      SProg Blob S3Error ListPartsOutput) := by
  have hstamp : ∀ parts : List (ℤ × List Bytes × ℤ × Str),
      Makes I A (stampParts parts : SProg Blob S3Error (List (ℤ × ℤ × Str × ℕ))) := by
    intro parts
    induction parts with
    | nil => exact makes_pure _
    | cons part parts ih =>
      exact (makes_systemTime (hreads _ rfl)).seq fun _ => ih.seq fun _ => makes_pure _
  refine (makes_parsedUpload uploadId).seq fun id =>
    (makes_uploadKey hreads bucket id).seq fun _ => ?_
  refine Makes.seq (p := Site.listParts bucket id) (makes_db (hreads _ rfl) rfl) fun parts => ?_
  exact (hstamp _).seq fun _ => makes_pure _

/-- So is `list_multipart_uploads`. -/
theorem makes_listMultipartUploads (bucket : Str)
    (pre keyMarker delimiter : Option Str) (maxUploads : Option ℤ) :
    Makes I A (listMultipartUploads bucket pre keyMarker delimiter maxUploads :
      SProg Blob S3Error ListMultipartUploadsOutput) := by
  have hstamp : ∀ uploads : List (Str × Uuid),
      Makes I A (stampUploads uploads : SProg Blob S3Error (List (Str × Uuid × ℕ))) := by
    intro uploads
    induction uploads with
    | nil => exact makes_pure _
    | cons upload uploads ih =>
      exact (makes_systemTime (hreads _ rfl)).seq fun _ => ih.seq fun _ => makes_pure _
  refine Makes.seq (p := Site.listMultipartUploads bucket pre keyMarker _)
    (makes_db (hreads _ rfl) rfl)
    fun rows => ?_
  exact (hstamp _).seq fun _ => makes_pure _

/-! ### Every request -/

/-- To authorize a request takes a query for the user. -/
theorem makes_authorize (J : PolicyJson)
    (credentials : Option Str) (action : Str) (bucket key : Option Str) :
    Makes I A (authorize J credentials action bucket key : SProg Blob S3Error Unit) := by
  cases credentials with
  | none => exact makes_fail _
  | some accessKey =>
    refine Makes.seq (p := Site.getUser J accessKey) (makes_db (hreads _ rfl) rfl) fun user => ?_
    match user with
    | .error _ => exact makes_fail _
    | .ok none => exact makes_fail _
    | .ok (some (_, policy)) =>
      dsimp only
      split
      · exact makes_pure _
      · exact makes_fail _

end

section

variable (hquiet : ∀ l : Call, l.touches = false → A l)
include hquiet

/-- A copy reads one row and writes another; it touches no block. -/
theorem makes_copyObject (source : CopySource)
    (bucket key : Str) : Makes I A (S.copyObject source bucket key :
      SProg Blob S3Error (Str × ℕ)) := by
  cases source with
  | accessPoint => exact makes_fail _
  | bucket srcBucket srcKey =>
    refine Makes.seq (p := Site.getObject srcBucket srcKey) (makes_db (hquiet _ rfl) rfl)
      fun row => ?_
    cases row with
    | none => exact makes_fail _
    | some row =>
      exact (makes_insertObject hquiet).seq fun _ =>
        (makes_systemTime (hquiet _ rfl)).seq fun _ => makes_pure _

/-- A DELETE stamps and writes a tombstone. -/
theorem makes_deleteObject (B : Blake3)
    (bucket key : Str) : Makes I A (Site.deleteObject B bucket key : SProg Blob S3Error Unit) :=
  (makes_nowMicros (hquiet _ rfl)).seq fun ts =>
    makes_exec (hquiet _ rfl) (fun _ => ⟨B, ts, rfl⟩) fun _ => rfl

/-- To complete an upload reads the parts, writes the row and drops the upload. -/
theorem makes_completeMultipartUpload (bucket key : Str) (uploadId : Option Uuid) :
    Makes I A (S.completeMultipartUpload bucket key uploadId :
      SProg Blob S3Error (Str × Str × Str)) := by
  refine (makes_parsedUpload uploadId).seq fun id => ?_
  refine (makes_uploadKey (fun l hl => hquiet l (Call.touches_of_reads hl)) bucket id).seq
    fun storedKey => ?_
  split
  · exact makes_fail _
  · refine Makes.seq (p := Site.listParts bucket id) (makes_db (hquiet _ rfl) rfl) fun parts => ?_
    refine Makes.seq (Prog.Calls.ofExcept trivial) fun r =>
      (makes_insertObject hquiet).seq fun _ => ?_
    exact Makes.seq (p := Site.deleteMultipartUpload bucket id)
      (makes_exec (hquiet _ rfl) (fun _ => rfl) fun _ => rfl) fun _ => makes_pure _

end

/-- What an authorized request runs. -/
theorem makes_run (h : Entries S I A) (r : S3Request) :
    Makes I A (S.run r : SProg Blob S3Error S3Response) := by
  cases r with
  | putObject bucket key body => exact (makes_putObject h bucket key body).map _
  | getObject bucket key range => exact (makes_getObject h bucket key range).map _
  | headObject bucket key =>
    refine Makes.map ?_ _
    refine Makes.seq (p := Site.getObject bucket key) (makes_db (h.quiet _ rfl) rfl) fun row => ?_
    cases row with
    | none => exact makes_fail _
    | some row => exact (makes_systemTime (h.quiet _ rfl)).seq fun _ => makes_pure _
  | deleteObject bucket key => exact (makes_deleteObject h.quiet _ bucket key).map _
  | deleteObjects bucket keys =>
    refine Makes.map (Makes.seq (Prog.Calls.forEach fun key _ => ?_) fun _ => makes_pure _) _
    exact makes_deleteObject h.quiet _ bucket key
  | copyObject source bucket key => exact (makes_copyObject h.quiet source bucket key).map _
  | createMultipartUpload bucket key uploadId =>
    refine Makes.map (Makes.seq (p := Site.insertMultipart bucket uploadId key) ?_
      fun _ => makes_pure _) _
    exact makes_exec (h.quiet _ rfl) (fun _ => ⟨key, rfl⟩) fun _ => rfl
  | uploadPart bucket key uploadId partNumber body =>
    exact (makes_uploadPart h bucket uploadId partNumber body).map _
  | uploadPartCopy bucket key uploadId partNumber source range =>
    exact (makes_uploadPartCopy h bucket uploadId partNumber source range).map _
  | completeMultipartUpload bucket key uploadId =>
    exact (makes_completeMultipartUpload h.quiet bucket key uploadId).map _
  | abortMultipartUpload bucket key uploadId =>
    refine Makes.map ((makes_parsedUpload uploadId).seq fun id => ?_) _
    exact makes_exec (h.quiet _ rfl) (fun _ => rfl) fun _ => rfl
  | listParts bucket key uploadId marker maxParts =>
    exact (makes_listParts h.reads bucket key uploadId marker maxParts).map _
  | listMultipartUploads bucket pre keyMarker delimiter maxUploads =>
    exact (makes_listMultipartUploads h.reads bucket pre keyMarker delimiter maxUploads).map _
  | listObjects input =>
    refine (makes_stampedPage h.reads input).seq fun page => ?_
    cases page <;> exact makes_pure _
  | listObjectsV2 input =>
    refine (makes_stampedPage h.reads input).seq fun page => ?_
    cases page <;> exact makes_pure _
  | listObjectVersions input =>
    refine (makes_stampedPage h.reads input).seq fun page => ?_
    cases page <;> exact makes_pure _
  | listBuckets =>
    refine Makes.map (Makes.seq (p := Site.listBuckets)
      (makes_db (h.quiet _ rfl) rfl) fun _ => ?_) _
    exact makes_pure _
  | createBucket bucket => exact makes_pure _
  | deleteBucket bucket => exact makes_pure _
  | headBucket bucket => exact makes_pure _

/-- **Every request makes only calls it may make**, once writes and read-repairs are
accounted for. -/
theorem makes_handle (h : Entries S I A) (J : PolicyJson) (credentials : Option Str)
    (r : S3Request) : Makes I A (S.handle J credentials r : SProg Blob S3Error S3Response) :=
  (makes_authorize h.reads J credentials _ _ _).seq fun _ => makes_run h r

end StorageBackend

/-- A request of a peer, other than for a sweep. -/
theorem Site.makes_handleInternalRequest {ε : Type} (h : Site.Entries S I A) (cfg : SiteConfig)
    (gc : GcConfig) (secretMatches : Bool) {r : InternalRequest} (hr : r ≠ .gcForce) :
    Makes I A (handleInternalRequest cfg gc secretMatches r : SProg Blob ε InternalResponse) := by
  unfold handleInternalRequest
  split
  · exact makes_pure _
  · cases r with
    | clusterConfig => exact (makes_nowMicros (h.quiet _ rfl)).seq fun _ => makes_pure _
    | nodes => exact Makes.map (p := allNodes) (makes_db (h.quiet _ rfl) rfl) _
    | join id addr =>
      dsimp only
      split
      · exact makes_pure _
      · refine Makes.seq (p := recordPeer id addr) ?_ fun _ => makes_pure _
        exact (makes_nowMillis (h.quiet _ rfl)).seq fun ms =>
          makes_exec (h.quiet _ rfl) (fun _ => ⟨ms, addr, rfl⟩) fun _ => rfl
    | facts after =>
      exact Makes.map (p := factsSince after factSyncBatch) (makes_db (h.quiet _ rfl) rfl) _
    | gcForce => exact absurd rfl hr
    | blocks hashHex =>
      dsimp only
      cases hexDecode hashHex with
      | none => exact makes_pure _
      | some hash =>
        dsimp only
        split
        · exact makes_pure _
        · refine (makes_getBlock h.streams (h.repairs hash)).attempt.seq fun r => ?_
          cases r <;> exact makes_pure _
    | other => exact makes_pure _

/-! ### The collector and the drainer -/

namespace Site

/-- A call that does not apply a fact: those of everything but a pull. -/
def OwnCall (l : Call) : Prop := ∀ rec, l ≠ .applyFact rec

/-- To put a block is a site's own call. -/
theorem ownCall_putsBlock {hash : Bytes} : ∀ l ∈ putsBlock hash, OwnCall l := by
  rintro l hl rec rfl
  simp [putsBlock] at hl

/-- Requests apply no facts. -/
theorem entries_ownCall : Entries S I OwnCall := by
  refine ⟨?_, fun hash => Or.inr ownCall_putsBlock, Or.inr fun d => ownCall_putsBlock⟩
  rintro l hl rec rfl
  exact nomatch hl

/-- The sweep makes a site's own calls. -/
theorem makes_sweepOrphanedBlocks {ε : Type} (cfg : GcConfig) (force : Bool) :
    Makes I OwnCall (sweepOrphanedBlocks cfg force : SProg Blob ε Unit) := by
  refine makes_sweep (fun _ => nofun) (fun live l hl => ?_) cfg force
  rintro rec rfl
  exact hl

/-- Peers are asked in turn. -/
theorem makes_fetchFirst {ε : Type} (hash : Bytes) (candidates : List (Str × Str)) :
    Makes I OwnCall (fetchFirst hash candidates : SProg Blob ε (Option Bytes)) := by
  induction candidates with
  | nil => exact makes_pure _
  | cons peer rest ih =>
    refine Makes.seq (p := noiseFetchBlock peer.2 hash)
      (makes_ask (fun _ => nofun) rfl fun _ _ => trivial) fun r => ?_
    cases r with
    | ok d => exact makes_pure _
    | error e => exact ih

/-- An entry of the queue is dropped, put off, or its block fetched and kept. -/
theorem makes_drainEntry {ε : Type} (localId : Str) (peers : List (Str × Str))
    (entry : ReplicationEntry) :
    Makes I OwnCall (drainEntry localId peers entry : SProg Blob ε Unit) := by
  have hdrop : Makes I OwnCall (dequeueReplication entry.hash : SProg Blob ε Unit) :=
    makes_exec (fun _ => nofun) (fun _ => rfl) fun _ => rfl
  have hdefer : Makes I OwnCall (deferReplication entry : SProg Blob ε Unit) :=
    (makes_nowMillis fun _ => nofun).seq fun ms =>
      makes_exec (fun _ => nofun) (fun _ => ⟨ms, entry, rfl⟩) fun _ => rfl
  refine Makes.seq (p := getBlockFids entry.hash) (makes_db (fun _ => nofun) rfl)
    fun locations => ?_
  cases planReplication (locations.getD []) localId peers with
  | drop => exact hdrop
  | defer => exact hdefer
  | fetchFrom candidates =>
    refine (makes_fetchFirst entry.hash candidates).seq fun r => ?_
    cases r with
    | none => exact hdefer
    | some d =>
      refine (makes_promoteBlockLocally ownCall_putsBlock).attempt.seq fun r => ?_
      cases r with
      | ok _ => exact hdrop
      | error _ => exact hdefer

/-- The drain goes through the entries that are due. -/
theorem makes_drainReplicationQueue {ε : Type} (cfg : GcConfig) (localId : Str) :
    Makes I OwnCall (drainReplicationQueue cfg localId : SProg Blob ε Unit) := by
  refine Makes.seq (p := diskGuard)
    (makes_ask (fun _ => nofun) rfl fun _ _ => trivial) fun trip => ?_
  cases trip with
  | some _ => exact makes_sweepOrphanedBlocks cfg true
  | none =>
    refine Makes.seq (p := getReplicationQueue) ?_ fun entries => ?_
    · exact (makes_nowMillis fun _ => nofun).seq fun ms => makes_db (fun _ => nofun) rfl
    · cases entries with
      | nil => exact makes_pure _
      | cons entry rest =>
        refine Makes.seq (p := getPeersWithUrls) (makes_db (fun _ => nofun) rfl) fun peers => ?_
        exact Prog.Calls.forEach fun e _ => makes_drainEntry localId peers e

end Site

end Shardscape
