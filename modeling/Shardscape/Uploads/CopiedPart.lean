/-
# A part that is copied

`src/storage.rs`: `upload_part_copy`, `slice_blocks_for_range`.

A GET resolves its range against the size of the object; a part copy parses the two numbers
and hands them to `slice_blocks_for_range` as they come.  With numbers in order and inside the
source the part is what was asked for: the slices of the blocks are the bytes of the range
(`flatten_sliceBlocksForRange`) and cutting them into blocks anew loses none (`Upload.Holds`).
With others the request succeeds, too, and stores something else (`copies_past_end`).

The true bytes of a block are a parameter, `data`, as in `Shardscape.Ranged.Accounted`.
-/

import Shardscape.Backend.RequestEffects
import Shardscape.Backend.Samples
import Shardscape.Backend.Steady
import Shardscape.Ranged.Requests

namespace Shardscape

open Lib Lib.Prog StorageBackend

/-! ### What is asked for -/

/-- What a block is read as are its true bytes. -/
def ReadsTrue {Blob : BlobStore} (data : Bytes → Bytes) : Call → Site Blob → Prop
  | .fetch _ h, s => ∀ d, s.oracle.fetch s.tick = .ok d → d = data h
  | .blobGet h, s => ∀ fid d, Blob.get s.blobs h fid = .ok d → d = data h
  | _, _ => True

/-- A source object with these blocks, whose recorded sizes are true. -/
structure TrueSource (data : Bytes → Bytes) (s : Store) (bucket key : Str) (blocks : List Bytes) :
    Prop where
  object : ∃ etag,
    s.getObject bucket key = some (blocks, ((assembled data blocks).length : ℤ), etag)
  sizes : s.blockSizes blocks = (blocks.map data).map fun b => (b.length : ℤ)

/-- **The part is exact**: its blocks and its size are those of the bytes of the range, which lie
in the source, and no subtraction underflows on the way; without a range it is all of the
source. -/
def ExactPart (data : Bytes → Bytes) (source : List Bytes) (range : Option Str) (row : PartRow) :
    Prop :=
  match range with
  | none => assembled data (Store.decodeBlocks row.blocks) = assembled data source ∧
      row.size = (assembled data source).length
  | some range => ∃ start stop, parseCopyRange range = .ok (start, stop) ∧
      start ≤ stop ∧ stop < (assembled data source).length ∧
      (sliceBlocksChecked ((source.map data).map fun b => (b.length : ℤ)) start stop).isSome ∧
      assembled data (Store.decodeBlocks row.blocks) =
        ((assembled data source).take (stop + 1)).drop start ∧
      row.size = (stop - start + 1 : ℕ)

/-- Every part that is copied from such a source is exact, at every site. -/
def CopiesExactly (S : StorageBackend) (data : Bytes → Bytes) (source : List Bytes)
    (range : Option Str) : Prop :=
  ∀ (Blob : BlobStore) (s : Site Blob) (bucket : Str) (uploadId : Option Uuid) (number : ℤ)
    (srcBucket srcKey : Str), TrueSource data s.store srcBucket srcKey source →
    (S.uploadPartCopy bucket uploadId number (.bucket srcBucket srcKey) range).Along
      (ReadsTrue data) s →
    ∀ out, ((S.uploadPartCopy bucket uploadId number (.bucket srcBucket srcKey) range).exec s).2 =
        .ok out →
      ∃ id row, uploadId = some id ∧
        ((S.uploadPartCopy bucket uploadId number (.bucket srcBucket srcKey) range).exec
          s).1.store.parts.lookup (bucket, id, number) = some row ∧
        ExactPart data source range row

/-! ### Reading -/

variable {Blob : BlobStore} {S : StorageBackend} {data : Bytes → Bytes} {s : Site Blob}

/-- A peer answers with the true bytes. -/
theorem ensures_noiseFetchBlock_true {ε : Type} (url : Str) (h : Bytes) :
    Ensures (ReadsTrue data) (Site.noiseFetchBlock url h : Site.SProg Blob ε (Except Str Bytes))
      (fun r _ => ∀ d, r = .ok (.ok d) → d = data h) s :=
  fun htrue d hd => htrue d (Except.ok.inj hd)

/-- So does the blob store. -/
theorem ensures_blobGet_true (h fid : Bytes) :
    Ensures (ReadsTrue data) (Site.blobGet h fid) (fun r _ => ∀ d, r = .ok d → d = data h) s :=
  fun htrue => ensures_of_wp ((wp_ofExcept _).2 fun d hd => htrue fid d hd)

/-- What the holders send is the block. -/
theorem ensures_fetchFromHolders_true (locations : List (Str × Bytes)) (h : Bytes)
    (peers : List (Str × Str)) :
    Ensures (ReadsTrue data) (Site.fetchFromHolders locations h peers)
      (fun r _ => ∀ d, r = .ok d → d = data h) s := by
  induction peers generalizing s with
  | nil =>
    rintro d ⟨⟩
  | cons peer rest ih =>
    obtain ⟨id, url⟩ := peer
    unfold Site.fetchFromHolders
    split
    · refine Ensures.bind ((ensures_noiseFetchBlock_true url h).mono fun r s' htrue => ?_)
      cases r with
      | error e => rintro d ⟨⟩
      | ok r =>
        cases r with
        | error e => exact ih
        | ok d =>
          -- promoting or queueing it leaves the bytes as they are
          have hd : d = data h := htrue d rfl
          refine ensures_of_wp (wp_bind.2 (wp_mono (Q := fun _ _ => True) trivial ?_))
          rintro (e | (e | _)) s' -
          · rintro d' ⟨⟩
          · refine wp_bind.2 (wp_mono (Q := fun _ _ => True) trivial ?_)
            rintro (e | _) s'' -
            · rintro d' ⟨⟩
            · rintro d' ⟨⟩
              exact hd
          · rintro d' ⟨⟩
            exact hd
    · exact ih

/-- What `get_block` returns is the block. -/
theorem ensures_getBlock_true (h : Bytes) :
    Ensures (ReadsTrue data) (Site.getBlock h) (fun r _ => ∀ d, r = .ok d → d = data h) s := by
  refine Ensures.bind (ensures_of_wp ((Site.wp_db _ _).2 ?_))
  cases s.store.getLocalBlockFid h with
  | some fid => exact ensures_blobGet_true h fid
  | none =>
    refine Ensures.bind (ensures_of_wp ((Site.wp_db _ _).2 ?_))
    cases s.store.getBlockFids h with
    | none => rintro d ⟨⟩
    | some locations =>
      refine Ensures.bind (ensures_of_wp ((Site.wp_db _ _).2 ?_))
      exact ensures_fetchFromHolders_true locations h _

/-! ### Cutting anew -/

/-- Every piece of the bytes is told by its hash. -/
def ToldByHash (S : StorageBackend) (data : Bytes → Bytes) (bytes : Bytes) : Prop :=
  ∀ d, d <:+: bytes → data (S.blake3.hash d) = d

/-- A piece of bytes that are told by their hashes is. -/
theorem ToldByHash.piece {bytes bytes' : Bytes} (h : ToldByHash S data bytes)
    (hsub : bytes' <:+: bytes) : ToldByHash S data bytes' :=
  fun d hd => h d (hd.trans hsub)

/-- The bytes received so far are those of the blocks and the buffer. -/
structure Upload.Holds (data : Bytes → Bytes) (u : Upload) (bytes : Bytes) : Prop where
  bytes : assembled data u.blockHashes ++ u.currentChunk = bytes
  size : u.totalSize = (assembled data u.blockHashes).length
  length : ∀ b ∈ u.blockHashes, b.length = 32

/-- An upload starts empty. -/
theorem upload_holds_nil (data : Bytes → Bytes) : ({} : Upload).Holds data [] :=
  ⟨rfl, rfl, fun _ hb => absurd hb List.not_mem_nil⟩

/-- Some chunks are stored and the rest is kept in the buffer. -/
theorem Upload.Holds.addChunks {u : Upload} {bytes frame rest : Bytes} {ds : List Bytes}
    (hu : u.Holds data bytes) (hashed : Bytes) (hds : ds.flatten ++ rest = u.currentChunk ++ frame)
    (htold : ToldByHash S data (bytes ++ frame)) :
    (addChunks { u with currentChunk := rest, hashed := hashed } ds
      (ds.map S.blake3.hash)).Holds data (bytes ++ frame) := by
  have hall : assembled data u.blockHashes ++ ds.flatten ++ rest = bytes ++ frame := by
    rw [List.append_assoc, hds, ← List.append_assoc, hu.bytes]
  -- a chunk is a piece of the bytes, so it is what its hash stands for
  have hchunk : ∀ d ∈ ds, d = data (S.blake3.hash d) := by
    intro d hd
    refine (htold d ?_).symm
    rw [← hall]
    exact ((List.infix_of_mem_flatten hd).trans (List.suffix_append _ _).isInfix).trans
      (List.prefix_append _ _).isInfix
  have hassembled : assembled data (u.blockHashes ++ ds.map S.blake3.hash) =
      assembled data u.blockHashes ++ ds.flatten := by
    rw [assembled_append, assembled_map_hash hchunk]
  refine ⟨?_, ?_, ?_⟩
  · show assembled data (u.blockHashes ++ ds.map S.blake3.hash) ++ rest = _
    rw [hassembled, hall]
  · show u.totalSize + (ds.flatten.length : ℕ) =
      (assembled data (u.blockHashes ++ ds.map S.blake3.hash)).length
    rw [hassembled, List.length_append, hu.size, Nat.cast_add]
  · exact List.forall_mem_append.2 ⟨hu.length, fun b hb => S.blake3.length_of_mem_map_hash hb⟩

namespace StorageBackend

/-- What `store_block` returns is the hash. -/
theorem wp_storeAll_bind {ds : List Bytes} {f : List Bytes → Upload}
    {Q : Except S3Error Upload → Site Blob → Prop}
    (hok : ∀ s', Q (.ok (f (ds.map S.blake3.hash))) s') (hfail : ∀ e s', Q (.error e) s') :
    wp (S.storeAll ds >>= fun hashes => pure (f hashes)) Q s := by
  refine wp_bind.2 (wp_mono (Cluster.wp_storeAll S ds) fun r s' hr => ?_)
  cases r with
  | error e => exact hfail e s'
  | ok hashes =>
    rw [(hr.2 hashes rfl).1]
    exact hok s'

/-- A frame is received. -/
theorem wp_receiveFrame_holds {u : Upload} {bytes frame : Bytes} (hu : u.Holds data bytes)
    (htold : ToldByHash S data (bytes ++ frame)) :
    wp (S.receiveFrame u (.ok frame))
      (fun r _ => ∀ u', r = .ok u' → u'.Holds data (bytes ++ frame)) s := by
  rw [receiveFrame_ok, foldlM_storeChunk]
  refine wp_storeAll_bind (fun s' u' hu' => ?_) fun e s' u' hu' => ?_
  · rw [← Except.ok.inj hu']
    exact hu.addChunks _ (ChunkingStrategy.flatten_processed _ _ _) htold
  · cases hu'

/-- The rest is stored. -/
theorem wp_finishBody_holds {u : Upload} {bytes : Bytes} (hu : u.Holds data bytes)
    (htold : ToldByHash S data bytes) :
    wp (S.finishBody u) (fun r _ => ∀ u', r = .ok u' → u'.currentChunk = [] ∧ u'.Holds data bytes)
      s := by
  rw [finishBody_eq]
  refine wp_storeAll_bind (fun s' u' hu' => ?_) fun e s' u' hu' => ?_
  · rw [← Except.ok.inj hu']
    refine ⟨rfl, ?_⟩
    have hrest : (ChunkingStrategy.finalize u.currentChunk).toList.flatten ++ [] =
        u.currentChunk ++ [] := by
      rw [ChunkingStrategy.finalize]
      cases u.currentChunk <;> simp
    have h := hu.addChunks (S := S) u.hashed hrest (by rwa [List.append_nil])
    rwa [List.append_nil] at h
  · cases hu'

/-- The bytes of a slice. -/
def sliceBytes (data : Bytes → Bytes) (blocks : List Bytes) (p : ℕ × ℕ × ℕ) : Bytes :=
  sliceBlockBytes (data ((blocks[p.1]?).getD [])) p.2.1 (some p.2.2)

/-- **The slices are copied**, one after the other. -/
theorem ensures_copySlices_holds (blocks : List Bytes) (slices : List (ℕ × ℕ × ℕ)) {u : Upload}
    {bytes : Bytes} (hu : u.Holds data bytes)
    (htold : ToldByHash S data (bytes ++ (slices.map (sliceBytes data blocks)).flatten)) :
    Ensures (ReadsTrue data) (slices.foldlM (S.copySlice blocks) u) (fun r _ => ∀ u', r = .ok u' →
      u'.Holds data (bytes ++ (slices.map (sliceBytes data blocks)).flatten)) s := by
  induction slices generalizing u bytes s with
  | nil =>
    rintro u' ⟨⟩
    rwa [List.map_nil, List.flatten_nil, List.append_nil]
  | cons p slices ih =>
    rw [List.map_cons, List.flatten_cons, ← List.append_assoc] at htold ⊢
    rw [List.foldlM_cons]
    refine Ensures.bind (Ensures.bind (Ensures.mapErr
      ((ensures_getBlock_true _).mono fun r s₁ htrue => ?_)))
    cases r with
    | error e => rintro u' ⟨⟩
    | ok d =>
      rw [htrue d rfl]
      have hframe : wp (S.receiveFrame u (.ok (sliceBytes data blocks p))) _ s₁ :=
        wp_receiveFrame_holds hu (htold.piece (List.prefix_append _ _).isInfix)
      refine ensures_of_wp (wp_mono hframe fun r s₂ hholds => ?_)
      cases r with
      | error e => rintro u' ⟨⟩
      | ok u₁ => exact ih (hholds u₁ rfl) htold

/-- The slices of a range that runs forwards are its bytes. -/
theorem flatten_copySlices (data : Bytes → Bytes) {start stop : ℕ} (hle : start ≤ stop)
    (source : List Bytes) :
    ((copySlices ((source.map data).map fun b => (b.length : ℤ)) start stop).map
      (sliceBytes data source)).flatten = ((assembled data source).take (stop + 1)).drop start := by
  have hslices : copySlices ((source.map data).map fun b => (b.length : ℤ)) start stop =
      sliceBlocksForRange ((source.map data).map fun b => (b.length : ℤ)) start stop := by
    simp only [copySlices, copyTake, if_pos hle, Prod.mk.eta, List.map_id']
  rw [hslices]
  refine flatten_sliceBlocksForRange hle (source.map data)
    (fun j => data ((source[j]?).getD [])) fun j hj => ?_
  rw [List.length_map] at hj
  rw [List.getElem?_eq_getElem hj, Option.getD_some, List.getElem_map]

end StorageBackend

/-! ### Ranges in the source -/

/-- The range, if one is given and can be parsed, lies in the source. -/
def InSource (data : Bytes → Bytes) (source : List Bytes) (range : Option Str) : Prop :=
  ∀ r, range = some r → ∀ start stop, parseCopyRange r = .ok (start, stop) →
    start ≤ stop ∧ stop < (assembled data source).length

open StorageBackend

variable {source : List Bytes} {range : Option Str} {start stop : ℕ}

/-- A part that has the bytes of the range is exact. -/
theorem exactPart_of_holds {u : Upload} (hin : InSource data source range)
    (hrange : copyRange (assembled data source).length range = .ok (start, stop))
    (hdone : u.currentChunk = [])
    (hu : u.Holds data (((assembled data source).take (stop + 1)).drop start)) (etag : Str) :
    ExactPart data source range ⟨Store.encodeBlocks u.blockHashes, u.totalSize, etag⟩ := by
  have hbytes := hu.bytes
  rw [hdone, List.append_nil] at hbytes
  have hsize := hu.size
  rw [hbytes] at hsize
  rw [← Store.decodeBlocks_encodeBlocks hu.length] at hbytes
  cases range with
  | none =>
    -- the positions run from the first byte to the last, or there is none
    cases hrange
    have hall : ((assembled data source).take
        (asU64 ((assembled data source).length : ℤ) - 1 + 1)).drop 0 = assembled data source := by
      rw [List.drop_zero, asU64_natCast, List.take_of_length_le]
      omega
    rw [hall] at hbytes hsize
    exact ⟨hbytes, hsize⟩
  | some r =>
    obtain ⟨hle, hlt⟩ := hin r rfl start stop hrange
    refine ⟨start, stop, hrange, hle, hlt, ?_, hbytes, hsize.trans ?_⟩
    · rw [sliceBlocksChecked_eq hle]
      rfl
    · rw [List.length_drop, List.length_take]
      omega

/-- The positions of a range in the source run forwards. -/
theorem copyRange_le (hin : InSource data source range) {size : ℤ}
    (hrange : copyRange size range = .ok (start, stop)) : start ≤ stop := by
  cases range with
  | none =>
    cases hrange
    exact Nat.zero_le _
  | some r => exact (hin r rfl start stop hrange).1

/-- What is copied from positions in the source is exact. -/
theorem ensures_copyPart_exact (htold : ToldByHash S data (assembled data source))
    (hin : InSource data source range)
    (hsizes : s.store.blockSizes source = (source.map data).map fun b => (b.length : ℤ))
    (hrange : copyRange (assembled data source).length range = .ok (start, stop)) (bucket : Str)
    (id : Uuid) (number : ℤ) :
    Ensures (ReadsTrue data) (S.copyPart bucket id number source start stop)
      (fun r s' => ∀ out, r = .ok out → ∃ row,
        s'.store.parts.lookup (bucket, id, number) = some row ∧ ExactPart data source range row)
      s := by
  refine Ensures.bind (ensures_of_wp ((Site.wp_db _ _).2 ?_))
  dsimp only
  rw [hsizes]
  have hbytes := flatten_copySlices data (copyRange_le hin hrange) source
  have hpiece : ((assembled data source).take (stop + 1)).drop start <:+: assembled data source :=
    (List.drop_suffix _ _).isInfix.trans (List.take_prefix _ _).isInfix
  have hcopied := ensures_copySlices_holds (S := S) (s := s) source
    (copySlices ((source.map data).map fun b => (b.length : ℤ)) start stop) (u := {})
    (upload_holds_nil data) (by rw [hbytes]; exact htold.piece hpiece)
  rw [List.nil_append, hbytes] at hcopied
  refine Ensures.bind (hcopied.mono fun r s₁ hu => ?_)
  cases r with
  | error e => rintro out ⟨⟩
  | ok u =>
    refine ensures_of_wp (wp_bind.2 (wp_mono
      (wp_finishBody_holds (hu u rfl) (htold.piece hpiece)) fun r s₂ hu' => ?_))
    cases r with
    | error e => rintro out ⟨⟩
    | ok u' =>
      obtain ⟨hdone, hholds⟩ := hu' u' rfl
      rintro out ⟨⟩
      exact ⟨_, (Table.lookup_insert _ _ _ _).trans (if_pos rfl),
        exactPart_of_holds hin hrange hdone hholds _⟩

/-- **A part is exact if its range lies in the source.** -/
theorem ensures_uploadPartCopy_exact (htold : ToldByHash S data (assembled data source))
    (hin : InSource data source range) {srcBucket srcKey : Str}
    (hsource : TrueSource data s.store srcBucket srcKey source) (bucket : Str)
    (uploadId : Option Uuid) (number : ℤ) :
    Ensures (ReadsTrue data)
      (S.uploadPartCopy bucket uploadId number (.bucket srcBucket srcKey) range)
      (fun r s' => ∀ out, r = .ok out → ∃ id row, uploadId = some id ∧
        s'.store.parts.lookup (bucket, id, number) = some row ∧ ExactPart data source range row)
      s := by
  refine Ensures.bind (ensures_of_wp (wp_checkWritable.2 ?_))
  cases s.oracle.guardTrip s.tick with
  | some trip => rintro out ⟨⟩
  | none =>
    cases uploadId with
    | none => rintro out ⟨⟩
    | some id =>
      refine Ensures.bind (Ensures.bind (ensures_of_wp (wp_bind.2 ((Site.wp_db _ _).2 ?_))))
      cases s.store.getMultipartKey bucket id with
      | none => rintro out ⟨⟩
      | some storedKey =>
        obtain ⟨etag, hget⟩ := hsource.object
        refine (wp_pure _).2 (Ensures.bind (ensures_of_wp ((Site.wp_db _ _).2 ?_)))
        dsimp only
        rw [hget]
        refine Ensures.bind (ensures_of_wp ((wp_ofExcept _).2 ?_))
        cases hrange : copyRange (assembled data source).length range with
        | error e => rintro out ⟨⟩
        | ok positions =>
          obtain ⟨start, stop⟩ := positions
          refine Ensures.mono (ensures_copyPart_exact (s := { s with tick := s.tick + 1 })
            htold hin hsource.sizes hrange bucket id number) ?_
          intro r s' hexact out hout
          obtain ⟨row, hrow, hpart⟩ := hexact out hout
          exact ⟨id, row, rfl, hrow, hpart⟩

/-! ### A site that has the source -/

/-- A blob backend that has every block. -/
def givingBlob (data : Bytes → Bytes) : BlobStore where
  State := Unit
  put _ _ _ := ((), [])
  get _ h _ := .ok (data h)
  delete _ _ _ := ()

/-- A store that holds the blocks of the source. -/
def stocked (data : Bytes → Bytes) (source : List Bytes) : Store :=
  source.foldl (fun s b => s.storeLocalBlock 0 b [] (data b).length) (Store.new (text "a"))

/-- A site with the source as an object, and an upload in progress. -/
def sourceSite (data : Bytes → Bytes) (source : List Bytes) : Site (givingBlob data) where
  store := ((stocked data source).insertObject 0 (text "b") 0 (text "k") source
    (assembled data source).length []).insertMultipart (text "b") 7 (text "k")
  blobs := ()
  clock := freshSite.clock
  oracle := freshSite.oracle

/-- Storing blocks one after the other keeps the accounts, and no object appears. -/
theorem accounted_foldl_storeLocalBlock (source : List Bytes) {st : Store} (h : st.Accounted data) :
    let st' := source.foldl (fun s b => s.storeLocalBlock 0 b [] (data b).length) st
    st'.Accounted data ∧ st'.objects = st.objects ∧
      ∀ b, b ∈ source ∨ st.HoldsLocally b → st'.HoldsLocally b := by
  induction source generalizing st with
  | nil => exact ⟨h, rfl, fun b hb => hb.resolve_left List.not_mem_nil⟩
  | cons b source ih =>
    obtain ⟨haccounted, hobjects, hheld⟩ := ih (h.storeLocalBlock 0 b [] rfl)
    refine ⟨haccounted, hobjects, fun b' hb' => hheld b' ?_⟩
    rw [Store.holdsLocally_storeLocalBlock]
    rcases hb' with hb' | hb'
    · rcases List.mem_cons.1 hb' with rfl | hb'
      · exact .inr (.inl rfl)
      · exact .inl hb'
    · exact .inr (.inr hb')

/-- The blocks of the source are held. -/
theorem holdsLocally_sourceSite {b : Bytes} (hb : b ∈ source) :
    (sourceSite data source).store.HoldsLocally b :=
  (accounted_foldl_storeLocalBlock source (Store.accounted_new _)).2.2 b (.inl hb)

/-- The source is what its row says. -/
theorem trueSource_sourceSite (data : Bytes → Bytes) (hlen : ∀ b ∈ source, b.length = 32) :
    TrueSource data (sourceSite data source).store (text "b") (text "k") source := by
  obtain ⟨haccounted, hobjects, hheld⟩ :=
    accounted_foldl_storeLocalBlock source ((Store.accounted_new _ :
      (Store.new (text "a")).Accounted data))
  refine ⟨⟨[], ?_⟩, ?_⟩
  · have hrow : (sourceSite data source).store.objects.lookup (text "b", text "k") =
        some (Store.objectRow (Store.encodeBlocks source) (assembled data source).length [] 0 false
          0) := by
      refine (Store.lookup_putObjectRow _ _ _ _ _).trans ((if_pos rfl).trans ?_)
      rw [stocked, hobjects]
      rfl
    rw [Store.getObject, hrow, Option.bind_some, Store.readRow_live hlen]
  · exact haccounted.blockSizes fun b hb => haccounted.held b (hheld b (.inl hb))

/-- Whatever the range, the copy from this source succeeds if the range can be parsed. -/
theorem uploadPartCopy_sourceSite (data : Bytes → Bytes) (S : StorageBackend)
    (hlen : ∀ b ∈ source, b.length = 32) {range : Str}
    (hrange : parseCopyRange range = .ok (start, stop)) :
    ∃ out, ((S.uploadPartCopy (text "b") (some 7) 1 (.bucket (text "b") (text "k"))
      (some range)).exec (sourceSite data source)).2 = .ok out := by
  have hsource := trueSource_sourceSite data hlen
  obtain ⟨etag, hget⟩ := hsource.object
  have hspec := wp_uploadPartCopy S (sourceSite data source) (text "b") (some 7) 1
    (.bucket (text "b") (text "k")) (some range)
  rcases hspec with ⟨hok, -⟩ | ⟨-, -, hwhy⟩
  · exact hok
  · refine absurd ⟨⟨fun _ => rfl, fun _ => rfl⟩, source, _, start, stop,
      ⟨⟨text "k", 7, rfl, ?_⟩, ⟨_, _, etag, rfl, hget⟩, hrange⟩, fun p hp => ?_⟩ hwhy
    · exact (Table.lookup_insert _ _ _ _).trans (if_pos rfl)
    · obtain ⟨q, hq, rfl⟩ := List.mem_map.1 hp
      have hlt : q.1 < source.length := by
        have := lt_of_mem_sliceBlocksForRange hq
        rwa [Store.blockSizes, List.length_map] at this
      refine ⟨fun _ h _ => ⟨data h, rfl⟩, holdsLocally_sourceSite ?_⟩
      rw [List.getElem?_eq_getElem hlt, Option.getD_some]
      exact List.getElem_mem hlt

/-- What that backend gives is true, and nothing is fetched. -/
theorem along_sourceSite (S : StorageBackend) (source : List Bytes) (range : Option Str) :
    (S.uploadPartCopy (text "b") (some 7) 1 (.bucket (text "b") (text "k")) range).Along
      (ReadsTrue data) (sourceSite data source) := by
  have hmakes := makes_uploadPartCopy (S := S)
    (I := fun s : Site (givingBlob data) => s.oracle = freshSite.oracle) (A := fun _ => True)
    ⟨fun _ _ => trivial, fun _ => .inr fun _ _ => trivial, .inr fun _ _ _ => trivial⟩
    (text "b") (some 7) 1 (.bucket (text "b") (text "k")) range
  refine hmakes.along (fun l s s' hs hl => hl.2.oracle.trans hs) (fun l s hs => ?_) rfl
  cases l with
  | fetch url h =>
    intro d hd
    rw [hs] at hd
    cases hd
  | blobGet h =>
    intro fid d hd
    exact (Except.ok.inj hd).symm
  | _ => trivial

/-- **When a copied part is exact.**  At every site with such a source, it is iff the range lies
in the source; blocks are told by hashes of 32 bytes. -/
theorem part_copy_exact_iff (S : StorageBackend) (data : Bytes → Bytes) (source : List Bytes)
    (range : Option Str) (hlen : ∀ b ∈ source, b.length = 32)
    (htold : ToldByHash S data (assembled data source)) :
    CopiesExactly S data source range ↔ InSource data source range := by
  constructor
  · rintro h r rfl start stop hrange
    obtain ⟨out, hout⟩ := uploadPartCopy_sourceSite data S hlen hrange
    obtain ⟨id, row, -, -, start', stop', hrange', hle, hlt, -⟩ :=
      h (givingBlob data) (sourceSite data source) (text "b") (some 7) 1 (text "b") (text "k")
        (trueSource_sourceSite data hlen) (along_sourceSite S source (some r)) out hout
    cases hrange.symm.trans hrange'
    exact ⟨hle, hlt⟩
  · intro hin Blob s bucket uploadId number srcBucket srcKey hsource halong out hout
    exact (ensures_uploadPartCopy_exact htold hin hsource bucket uploadId number).wp halong out hout

/-- The bytes of a block, read off its digest under `Blake3.sample`, which pads them with zeros. -/
def bytesOf (h : Bytes) : Bytes := if h = blockOfA then [97] else h.filter (· ≠ 0)

/-- The blocks `wx` and `yz`. -/
def twoBlocks : List Bytes := [Blake3.sample.hash (text "wx"), Blake3.sample.hash (text "yz")]

/-- The stretches of `wxyz` are told apart by their digests. -/
theorem toldByHash_twoBlocks :
    ToldByHash sample bytesOf (assembled bytesOf twoBlocks) := by
  have hbody : assembled bytesOf twoBlocks = text "wxyz" := by decide +kernel
  have hall : ∀ i < 5, ∀ n < 5, bytesOf (Blake3.sample.hash (((text "wxyz").drop i).take n)) =
      ((text "wxyz").drop i).take n := by
    decide +kernel
  rw [hbody]
  rintro d ⟨before, after, hd⟩
  have hlen := congrArg List.length hd
  rw [List.length_append, List.length_append, show (text "wxyz").length = 4 from rfl] at hlen
  have hcut : ((text "wxyz").drop before.length).take d.length = d := by
    rw [← hd, List.append_assoc, List.drop_left, List.take_left]
  have hd := hall before.length (by omega) d.length (by omega)
  rwa [hcut] at hd

/-- The last byte of the first block and the first of the second. -/
theorem part_copy_exact_across :
    (∃ out, ((sample.uploadPartCopy (text "b") (some 7) 1
        (.bucket (text "b") (text "k")) (some (text "1-2"))).exec
        (sourceSite bytesOf twoBlocks)).2 = .ok out) ∧
      CopiesExactly sample bytesOf twoBlocks (some (text "1-2")) := by
  refine ⟨⟨_, rfl⟩, (part_copy_exact_iff _ _ _ _ (by decide +kernel) toldByHash_twoBlocks).2 ?_⟩
  rintro r ⟨⟩ start stop hrange
  cases hrange
  decide +kernel

/-- A copy of six bytes of it. -/
def afterPastEnd : Site (givingBlob bytesOf) × Except S3Error (Str × ℕ) :=
  (sample.uploadPartCopy (text "b") (some 7) 1 (.bucket (text "b") (text "k"))
    (some (text "0-5"))).exec (sourceSite bytesOf [blockOfA])

/-- **A range past the end.**  Six bytes of an object of one byte are asked for; the request
succeeds and the part has one byte. -/
theorem copies_past_end :
    (∃ out, afterPastEnd.2 = .ok out) ∧
      (afterPastEnd.1.store.parts.lookup (text "b", 7, 1)).map PartRow.size = some 1 ∧
      ¬ CopiesExactly sample bytesOf [blockOfA] (some (text "0-5")) := by
  refine ⟨⟨_, rfl⟩, by decide +kernel, fun h => ?_⟩
  obtain ⟨id, row, -, -, start, stop, hrange, -, hlt, -⟩ :=
    h _ _ (text "b") (some 7) 1 (text "b") (text "k") (trueSource_sourceSite _ (by decide +kernel))
      (along_sourceSite _ _ _) _ (show afterPastEnd.2 = .ok _ from rfl)
  cases hrange
  exact absurd hlt (by decide +kernel)

end Shardscape
