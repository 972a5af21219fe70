/-
# What a block is called and what it is

Bytes come into the block store of a site in three ways (`src/storage.rs`): `store_block`
hashes them itself, and `get_block` and the drainer promote what a peer has sent
(`promote_block_locally`) under the name they asked for.  Nothing checks what a peer has
sent: wrong bytes are stored, announced and served under a name that is not theirs
(`wrong_bytes_stored`).

If every fetch that is answered is answered with the bytes of the block it asks for, and
announcements tell true sizes, every block a site holds has the bytes and the size it is
called by, through every run (`blocks_intact`).
-/

import Shardscape.Collector.Locations
import Shardscape.Refinement.Runs

namespace Shardscape

open Lib Lib.Prog

/-- What happens to the blocks of a site, operation by operation. -/
inductive BlockOp where
  | storeBlock (data : Bytes)
  | getBlock (hash : Bytes)
  | drain
  | sweep (force : Bool)
  | applyFact (rec : FactRecord)
  | recordPeer (locationId apiUrl : Str)

/-- An operation, with the answers the world gives it. -/
structure BlockEvent where
  op : BlockOp
  oracle : Oracle

variable {Blob : BlobStore}

/-- The program of an operation; callers of `store_block` pass the length as the size. -/
def BlockOp.program (S : StorageBackend) (localId : Str) : BlockOp → Site.SProg Blob Str Unit
  | .storeBlock data => (fun _ => ()) <$> Site.storeBlock S.blake3 data data.length
  | .getBlock hash => (fun _ => ()) <$> Site.getBlock hash
  | .drain => Site.drainReplicationQueue S.gc localId
  | .sweep force => Site.sweepOrphanedBlocks S.gc force
  | .applyFact rec => Site.applyFact S.blake3 rec
  | .recordPeer locationId apiUrl => Site.recordPeer locationId apiUrl

/-- The site an operation begins at. -/
def BlockEvent.before (s : Site Blob) (e : BlockEvent) : Site Blob :=
  { s with oracle := e.oracle, tick := 0 }

/-- One operation, run to its end. -/
def BlockEvent.step (S : StorageBackend) (s : Site Blob) (e : BlockEvent) : Site Blob :=
  ((e.op.program S s.store.localLocationId).exec (e.before s)).1

/-- Every block held has, where its row points, bytes that hash to its name, and their
length is the size on record. -/
def TrueToName (B : Blake3) (s : Site Blob) : Prop :=
  ∀ h, s.store.HoldsLocally h → ∃ row d block,
    s.store.blockLocations.lookup (h, s.store.localLocationId) = some row ∧
      Blob.get s.blobs h row.fid = .ok d ∧ B.hash d = h ∧
      s.store.blocks.lookup h = some block ∧ block.size = d.length

/-- An announcement is of another site's copy, with its true size. -/
def HonestFact (B : Blake3) (D : Set Bytes) (localId : Str) (fact : Fact) : Prop :=
  match fact with
  | .blockAnnounce hash locationId _ size =>
    locationId ≠ localId ∧ ∀ h ∈ hexDecode hash, ∃ d ∈ D, h = B.hash d ∧ size = d.length
  | _ => True

/-- What the peers tell during an operation is true: the bytes they send, and the sizes
they announce.  The bytes in play are among `D`. -/
def BlockEvent.Honest (S : StorageBackend) (D : Set Bytes) (s : Site Blob) (e : BlockEvent) :
    Prop :=
  (e.op.program S s.store.localLocationId).Along (Site.Truthful (Intact.Named S.blake3 D))
      (e.before s) ∧
    match e.op with
    | .storeBlock data => data ∈ D
    | .applyFact rec => HonestFact S.blake3 D s.store.localLocationId rec.fact
    | _ => True

variable {S : StorageBackend} {L : Blob.Lawful} {D : Set Bytes} {s : Site Blob}

/-- Blocks that are intact are true to their names. -/
theorem Intact.trueToName (hD : Set.InjOn S.blake3.hash D) (hs : Intact S.blake3 L D s) :
    TrueToName S.blake3 s := by
  rintro h ⟨row, hrow⟩
  obtain ⟨d, hd, hh, hwritten⟩ := hs.bytes h row hrow
  obtain ⟨block, hblock⟩ := hs.sized h ⟨row, hrow⟩
  obtain ⟨d', hd', hh', hsize⟩ := hs.sizes h block hblock
  obtain rfl := hD hd' hd (hh'.symm.trans hh)
  exact ⟨row, d', block, hrow, L.get_of_written hwritten, hh.symm, hblock, hsize⟩

/-- What an announcement is of. -/
theorem HonestFact.announced {B : Blake3} {localId : Str} {fact : Fact} {hash : Bytes} {loc : Str}
    {size : ℤ} (hfact : HonestFact B D localId fact) (ha : fact.announced = some (hash, loc))
    (hsize : ∃ hashHex fidHex, fact = .blockAnnounce hashHex loc fidHex size) :
    loc ≠ localId ∧ ∃ d ∈ D, hash = B.hash d ∧ size = d.length := by
  obtain ⟨hashHex, fidHex, rfl⟩ := hsize
  refine ⟨hfact.1, hfact.2 hash ?_⟩
  simp only [Fact.announced] at ha
  cases hdec : hexDecode hashHex with
  | none => simp [hdec] at ha
  | some hashB =>
    cases hfid : hexDecode fidHex with
    | none => simp [hdec, hfid] at ha
    | some fidB =>
      simp only [hdec, hfid, Option.some.injEq, Prod.mk.injEq] at ha
      rw [ha.1]
      rfl

/-- An honest fact leaves the blocks intact. -/
theorem Intact.applyFact (hs : Intact S.blake3 L D s) {rec : FactRecord} (nowMs : ℤ)
    (hfact : HonestFact S.blake3 D s.store.localLocationId rec.fact) :
    Intact S.blake3 L D { s with store := s.store.applyFactD S.blake3 nowMs rec } := by
  have hid := (Store.frame_applyFactD S.blake3 s.store nowMs rec).2.2
  rcases Store.blocks_applyFactD S.blake3 s.store nowMs rec with
    ⟨hash, loc, fid, size, ha, hsize, hlocations, hblocks⟩ | ⟨-, hlocations, hblocks⟩
  · obtain ⟨hne, d, hd, rfl, rfl⟩ := hfact.announced ha hsize
    -- this site's own rows are as they were
    have hown : ∀ h, (s.store.applyFactD S.blake3 nowMs rec).blockLocations.lookup
        (h, (s.store.applyFactD S.blake3 nowMs rec).localLocationId) =
          s.store.blockLocations.lookup (h, s.store.localLocationId) := by
      intro h
      rw [hid, hlocations, Store.upsertBlockLocation, Table.lookup_upsertNewer, if_neg]
      exact fun he => hne (Prod.ext_iff.1 he).2.symm
    refine ⟨fun h row hrow => hs.bytes h row ((hown h).symm.trans hrow), fun h hh => ?_,
      fun h row hrow => ?_⟩
    · rw [hblocks, Store.upsertBlockLocation, Table.exists_lookup_upsertNewer]
      refine Or.inr (hs.sized h (hh.imp fun row hrow => ?_))
      exact (hown h).symm.trans hrow
    · rw [hblocks] at hrow
      exact hs.sizes_upsert hd hrow
  · exact hs.frame hid hlocations hblocks rfl

/-- **One operation** among honest peers leaves the blocks intact. -/
theorem Intact.step (hs : Intact S.blake3 L D s) {e : BlockEvent} (he : e.Honest S D s) :
    Intact S.blake3 L D (e.step S s) := by
  have hs₀ : Intact S.blake3 L D (e.before s) := hs.frame rfl rfl rfl rfl
  have hkept : Site.BlocksKept (Intact.Named S.blake3 D) (Intact S.blake3 L D : Site Blob → Prop) :=
    Intact.blocksKept
  obtain ⟨op, oracle⟩ := e
  obtain ⟨htrue, hop⟩ := he
  have hdiscard : ∀ {α : Type} {p : Site.SProg Blob Str α} {t : Site Blob},
      Ensures (Site.Truthful (Intact.Named S.blake3 D)) p (fun _ t' => Intact S.blake3 L D t') t →
      Ensures (Site.Truthful (Intact.Named S.blake3 D)) ((fun _ => ()) <$> p)
        (fun _ t' => Intact S.blake3 L D t') t := fun hp =>
    Ensures.bind (hp.mono fun r t' ht' => by cases r <;> exact ht')
  cases op with
  | storeBlock data =>
    exact (hdiscard (ensures_of_wp (hkept.wp_storeBlock ⟨hop, rfl⟩ hs₀))).wp htrue
  | getBlock hash => exact (hdiscard (hkept.ensures_getBlock hash hs₀)).wp htrue
  | drain => exact (hkept.ensures_drainReplicationQueue S.gc _ hs₀).wp htrue
  | sweep force => exact (hkept.wp_sweepOrphanedBlocks S.gc force hs₀).2
  | applyFact rec => exact (hs₀.applyFact _ hop).frame rfl rfl rfl rfl
  | recordPeer locationId apiUrl =>
    have hun := Store.unmoved_recordPeer s.store
      ((s.clock.nowMicros (oracle.micros 0)).tdiv 1000) locationId apiUrl
    exact hs₀.frame hun.localLocationId hun.blockLocations hun.blocks rfl

/-- **Blocks are true to their names.**  From any site whose blocks are intact, a fresh
one among them, through every run of storing, reading, draining, sweeping and hearing of
facts in which peers are honest, in every state between two operations and at the end. -/
theorem blocks_intact (hD : Set.InjOn S.blake3.hash D) (hs : Intact S.blake3 L D s)
    (es : List BlockEvent)
    (hhonest : ∀ p ∈ trace (BlockEvent.step S) s es, p.2.Honest S D p.1) :
    (∀ p ∈ trace (BlockEvent.step S) s es, TrueToName S.blake3 p.1) ∧
      TrueToName S.blake3 (es.foldl (BlockEvent.step S) s) := by
  have hstep : ∀ (t : Site Blob) (e : BlockEvent), Intact S.blake3 L D t → e.Honest S D t →
      Intact S.blake3 L D (e.step S t) := fun t e ht he => ht.step he
  exact ⟨fun p hp => (invariant_of_trace hstep hs hhonest p hp).trueToName hD,
    (invariant_at_end hstep hs hhonest).trueToName hD⟩

/-! ### Two runs -/

/-- The site hears of the block and of the peer, and reads the block; the peer answers
with `data`. -/
def readFromPeer (data : Bytes) : List BlockEvent :=
  [⟨.applyFact ⟨1, 1, .blockAnnounce (hexEncode blockOfA) (text "p") (hexEncode (text "local")) 1⟩,
      freshSite.oracle⟩,
    ⟨.recordPeer (text "p") (text "http://p"), freshSite.oracle⟩,
    ⟨.getBlock blockOfA, { freshSite.oracle with fetch := fun _ => .ok data }⟩]

/-- The site after it has read. -/
def afterPeerRead (data : Bytes) : Site localBlob :=
  (readFromPeer data).foldl (BlockEvent.step StorageBackend.sample) freshSite

/-- The peer sends the block. -/
theorem blocks_intact_honestRead :
    (afterPeerRead [97]).store.HoldsLocally blockOfA ∧
      TrueToName StorageBackend.sample.blake3 (afterPeerRead [97]) := by
  have hfresh : Intact StorageBackend.sample.blake3 localBlob.lawful {[97]} freshSite := by
    constructor <;> exact nofun
  refine ⟨by decide +kernel,
    (blocks_intact (Set.injOn_singleton _ _) hfresh (readFromPeer [97]) ?_).2⟩
  simp only [readFromPeer, trace_cons, trace_nil, List.forall_mem_cons]
  refine ⟨⟨by decide +kernel, by decide, fun h hh => ⟨[97], rfl, ?_, rfl⟩⟩, ⟨?_, trivial⟩,
    ⟨?_, trivial⟩, nofun⟩
  · rw [hexDecode_hexEncode] at hh
    exact (Option.some.inj hh).symm
  · decide +kernel
  · decide +kernel

/-- **Wrong bytes are stored.**  The peer sends `b` for the block of `a`: the site holds
the block, and its bytes are those of another. -/
theorem wrong_bytes_stored :
    (afterPeerRead [98]).store.HoldsLocally blockOfA ∧
      ((afterPeerRead [98]).store.getLocalBlockFid blockOfA).map
        (localBlob.get (afterPeerRead [98]).blobs blockOfA) = some (.ok [98]) ∧
      StorageBackend.sample.blake3.hash [98] ≠ blockOfA ∧
      ¬ TrueToName StorageBackend.sample.blake3 (afterPeerRead [98]) := by
  have hheld : (afterPeerRead [98]).store.HoldsLocally blockOfA := by decide +kernel
  have hbytes : ((afterPeerRead [98]).store.getLocalBlockFid blockOfA).map
      (localBlob.get (afterPeerRead [98]).blobs blockOfA) = some (.ok [98]) := by rfl
  have hne : StorageBackend.sample.blake3.hash [98] ≠ blockOfA := by decide +kernel
  refine ⟨hheld, hbytes, hne, fun htrue => ?_⟩
  obtain ⟨row, d, -, hrow, hget, hhash, -⟩ := htrue blockOfA hheld
  rw [Store.getLocalBlockFid, hrow, Option.map_some, Option.map_some, hget, Option.some.injEq,
    Except.ok.injEq] at hbytes
  exact hne (hbytes ▸ hhash)

end Shardscape
