/-
# The write guard

`check_writable` (`src/storage.rs`) refuses S3 writes while the disk guard has
tripped, and `drain_replication_queue` sweeps instead of draining.  Reads are not
guarded: `get_block` promotes a block it had to fetch, in a GET and in a request of a
peer alike (`read_fills_disk`).

That is the only gap.  In every run during which the guard has tripped and no fetch
succeeds, no request changes which blocks the site holds or their bytes, and sweeps
and drains only remove (`guard_holds`).
-/

import Shardscape.Backend.RequestEffects
import Shardscape.Backend.Samples

namespace Shardscape

open Lib

variable {Blob : BlobStore} {κ : Type}

/-- A call that does not touch the blocks. -/
theorem Call.Effect.quiet {l : Call} {s s' : Site Blob} (h : l.Effect s s')
    (hl : l.touches = false) :
    s'.blobs = s.blobs ∧ ∀ b, s'.store.HoldsLocally b ↔ s.store.HoldsLocally b := by
  have hstore := h.store
  have hblobs := h.blobs
  have hheld : ∀ {t : Store}, s'.store = t → t.blockLocations = s.store.blockLocations →
      t.localLocationId = s.store.localLocationId →
      ∀ b, s'.store.HoldsLocally b ↔ s.store.HoldsLocally b := by
    intro t ht hl hid b
    rw [ht, Store.HoldsLocally, Store.HoldsLocally, hl, hid]
  cases l with
  | storeLocalBlock hash => exact Bool.noConfusion hl
  | deleteLocalBlock hash => exact Bool.noConfusion hl
  | applyFact rec => exact Bool.noConfusion hl
  | blobPut hash => exact Bool.noConfusion hl
  | blobDelete hash => exact Bool.noConfusion hl
  | insertObject bucket key =>
    obtain ⟨ts, shardId, blocks, size, etag, hs⟩ := hstore
    exact ⟨hblobs, hheld hs rfl rfl⟩
  | deleteObject bucket key =>
    obtain ⟨B, ts, hs⟩ := hstore
    exact ⟨hblobs, hheld hs rfl rfl⟩
  | insertMultipart bucket id =>
    obtain ⟨key, hs⟩ := hstore
    exact ⟨hblobs, hheld hs rfl rfl⟩
  | insertPart bucket id number =>
    obtain ⟨blocks, size, etag, hs⟩ := hstore
    exact ⟨hblobs, hheld hs rfl rfl⟩
  | deleteMultipartUpload bucket id => exact ⟨hblobs, hheld hstore rfl rfl⟩
  | _ => exact ⟨hblobs, hheld (hstore.frame rfl) rfl rfl⟩

/-- A call that removes a block, or does not touch any. -/
def Call.onlyRemoves : Call → Bool
  | .deleteLocalBlock _ => true
  | .blobDelete _ => true
  | l => !l.touches

/-- A call that only removes adds neither a file nor a block that is held. -/
theorem Call.Effect.removes {l : Call} {s s' : Site Blob} (h : l.Effect s s')
    (hl : l.onlyRemoves = true) :
    (s'.blobs = s.blobs ∨ ∃ hash fid, s'.blobs = Blob.delete s.blobs hash fid) ∧
      ∀ b, s'.store.HoldsLocally b → s.store.HoldsLocally b := by
  by_cases htouch : l.touches = false
  · obtain ⟨hblobs, hheld⟩ := h.quiet htouch
    exact ⟨.inl hblobs, fun b => (hheld b).1⟩
  · have hstore := h.store
    have hblobs := h.blobs
    cases l with
    | deleteLocalBlock hash =>
      refine ⟨.inl hblobs, fun b hb => ?_⟩
      rw [show s'.store = (s.store.deleteLocalBlock hash).1 from hstore] at hb
      exact ((Store.holdsLocally_deleteLocalBlock _ _ _).1 hb).2
    | blobDelete hash =>
      obtain ⟨fid, hb⟩ := hblobs
      exact ⟨.inr ⟨hash, fid, hb⟩,
        fun b hb => by rwa [show s'.store = s.store from hstore] at hb⟩
    | storeLocalBlock hash => exact nomatch hl
    | applyFact rec => exact nomatch hl
    | blobPut hash => exact nomatch hl
    | _ => exact absurd rfl htouch

namespace Guard

/-- What runs at a site: requests of clients and peers; sweeps, also those a peer asks
for, and drains; and whatever else. -/
inductive Role where
  | request
  | maintenance
  | other
  deriving DecidableEq

/-- What a thread may run, by its role.  Of the others only that they do not change
what the world answers. -/
def starts (S : StorageBackend) (J : PolicyJson) (cfg : SiteConfig) (role : κ → Role) (i : κ)
    (p : Site.SProg Blob S3Error Unit) : Prop :=
  match role i with
  | .request =>
    (∃ credentials r, p = (fun _ => ()) <$> S.handle J credentials r) ∨
      ∃ secretMatches r, r ≠ .gcForce ∧
        p = (fun _ => ()) <$> Site.handleInternalRequest cfg S.gc secretMatches r
  | .maintenance =>
    (∃ force, p = Site.sweepOrphanedBlocks S.gc force) ∨
      p = Site.drainReplicationQueue S.gc cfg.localLocationId ∨
      ∃ secretMatches, p = (fun _ => ()) <$>
        Site.handleInternalRequest cfg S.gc secretMatches .gcForce
  | .other => p.Calls (fun _ => True) (fun _ s s' => s'.oracle = s.oracle) Prog.anyResult

/-- The guard has tripped, and no peer answers a fetch with a block. -/
structure Tripped (s : Site Blob) : Prop where
  guard : ∀ n, ∃ trip, s.oracle.guardTrip n = some trip
  unreachable : ∀ n, ∃ e, s.oracle.fetch n = .error e

/-- What a call may do: of a request, nothing to the blocks; of a sweep or a drain,
remove them. -/
def Keeps (role : Role) (s s' : Site Blob) : Prop :=
  match role with
  | .request => s'.blobs = s.blobs ∧ ∀ h, s'.store.HoldsLocally h ↔ s.store.HoldsLocally h
  | .maintenance =>
    (s'.blobs = s.blobs ∨ ∃ hash fid, s'.blobs = Blob.delete s.blobs hash fid) ∧
      ∀ h, s'.store.HoldsLocally h → s.store.HoldsLocally h
  | .other => True

/-- Under the guard, no write gets past `check_writable` and no fetch brings a block. -/
theorem entries_tripped (S : StorageBackend) :
    Site.Entries S (Tripped : Site Blob → Prop) fun l => l.touches = false :=
  ⟨fun _ hl => hl, fun _ => .inl fun s hs => hs.unreachable s.tick,
    .inl fun s hs => hs.guard s.tick⟩

/-- A sweep only removes. -/
theorem sweep_onlyRemoves {I : Site Blob → Prop} (cfg : GcConfig) (force : Bool) :
    Site.Makes I (fun l => l.onlyRemoves = true)
      (Site.sweepOrphanedBlocks cfg force : Site.SProg Blob S3Error Unit) := by
  refine Site.makes_sweep ?_ (fun live l hl => ?_) cfg force
  · rfl
  cases l <;> first | rfl | exact hl.elim

/-- Under the guard, a drain is a sweep. -/
theorem makes_drain (cfg : GcConfig) (localId : Str) :
    Site.Makes (Tripped : Site Blob → Prop) (fun l => l.onlyRemoves = true)
      (Site.drainReplicationQueue cfg localId : Site.SProg Blob S3Error Unit) := by
  refine Prog.Calls.bind (Site.makes_ask rfl rfl fun s hs => ?_)
  obtain ⟨trip, htrip⟩ := hs.guard s.tick
  rw [htrip]
  exact sweep_onlyRemoves cfg true

/-- What a thread runs does what its role may. -/
theorem calls_starts {S : StorageBackend} {J : PolicyJson} {cfg : SiteConfig} {role : κ → Role}
    {i : κ} {p : Site.SProg Blob S3Error Unit} (h : starts S J cfg role i p) :
    p.Calls Tripped (fun _ s s' => s'.oracle = s.oracle ∧ Keeps (role i) s s')
      Prog.anyResult := by
  unfold starts at h
  unfold Keeps
  have hquiet : ∀ {q : Site.SProg Blob S3Error Unit},
      Site.Makes Tripped (fun l => l.touches = false) q →
      q.Calls Tripped (fun _ s s' => s'.oracle = s.oracle ∧ s'.blobs = s.blobs ∧
        ∀ h, s'.store.HoldsLocally h ↔ s.store.HoldsLocally h) Prog.anyResult := fun hq =>
    hq.mono (fun _ hs => hs) (fun l s s' hl => ⟨hl.2.oracle, hl.2.quiet hl.1⟩) fun _ hr => hr
  have hremoves : ∀ {q : Site.SProg Blob S3Error Unit},
      Site.Makes Tripped (fun l => l.onlyRemoves = true) q →
      q.Calls Tripped (fun _ s s' => s'.oracle = s.oracle ∧
        (s'.blobs = s.blobs ∨ ∃ hash fid, s'.blobs = Blob.delete s.blobs hash fid) ∧
        ∀ h, s'.store.HoldsLocally h → s.store.HoldsLocally h) Prog.anyResult := fun hq =>
    hq.mono (fun _ hs => hs) (fun l s s' hl => ⟨hl.2.oracle, hl.2.removes hl.1⟩) fun _ hr => hr
  cases hrole : role i with
  | request =>
    rw [hrole] at h
    rcases h with ⟨credentials, r, rfl⟩ | ⟨secretMatches, r, hr, rfl⟩
    · exact hquiet ((StorageBackend.makes_handle (entries_tripped S) J credentials r).map _)
    · exact hquiet ((Site.makes_handleInternalRequest (entries_tripped S) cfg S.gc
        secretMatches hr).map _)
  | maintenance =>
    rw [hrole] at h
    rcases h with ⟨force, rfl⟩ | rfl | ⟨secretMatches, rfl⟩
    · exact hremoves (sweep_onlyRemoves S.gc force)
    · exact hremoves (makes_drain S.gc cfg.localLocationId)
    · refine hremoves (Site.Makes.map ?_ _)
      unfold Site.handleInternalRequest
      split
      · exact Site.makes_pure _
      · exact (sweep_onlyRemoves S.gc true).seq fun _ => Site.makes_pure _
  | other =>
    rw [hrole] at h
    exact h.mono (fun _ _ => trivial) (fun _ _ _ ho => ⟨ho, trivial⟩) fun _ hr => hr

variable [DecidableEq κ]

/-- **The guard holds**, on every path, as long as no fetch succeeds: in every run
during which it has tripped, no call of a request changes which blocks are held or
their bytes, and no call of a sweep or a drain adds one. -/
theorem guard_holds (S : StorageBackend) (J : PolicyJson) (cfg : SiteConfig) (role : κ → Role)
    (s : Site Blob) (hs : Tripped s) (ms : List (Move κ Call (Site Blob) S3Error))
    (hstart : ∀ m ∈ ms, m.Starts (starts S J cfg role)) :
    ∀ p ∈ trace Conf.advance (Conf.atRest s) ms,
      p.1.Does (fun i _ s s' => Keeps (role i) s s') p.2 := by
  have hrun := Conf.calls_run (I := Tripped)
    (P := fun i _ s s' => s'.oracle = s.oracle ∧ Keeps (role i) s s') (starts S J cfg role)
    (fun i l s s' hs hP => ⟨hP.1 ▸ hs.guard, hP.1 ▸ hs.unreachable⟩)
    (fun i p hp => calls_starts hp) (c := Conf.atRest s) ⟨hs, fun _ => trivial⟩ hstart
  exact fun p hp i l hm hl => (hrun p hp i l hm hl).2

/-! ### Two runs -/

/-- A full site that knows an object and its block from the peer `p`, who answers a
fetch with `answer`. -/
def fullSite (answer : Except Str Bytes) : Site localBlob :=
  { freshSite.withUser allowAll with
    store := ([⟨1, 1, .blockAnnounce (hexEncode blockOfA) (text "p") (hexEncode (text "local")) 1⟩,
        ⟨2, 2, .objectPut (text "b") (text "k") [hexEncode blockOfA] 1 []⟩].foldl
          (fun s rec => s.applyFactD StorageBackend.sample.blake3 0 rec)
          (freshSite.withUser allowAll).store).recordPeer 0 (text "p") (text "http://p")
    oracle := { freshSite.oracle with
      guardTrip := fun _ => some (.overQuota [] [])
      fetch := fun _ => answer } }

/-- A GET of the object. -/
def readRemote : List (Move Unit Call (Site localBlob) S3Error) :=
  .spawn () (StorageBackend.byUser allowAll (.getObject (text "b") (text "k") none)) ::
    List.replicate 11 (.step ())

/-- The run starts nothing but requests. -/
theorem starts_readRemote : ∀ m ∈ readRemote, m.Starts (starts StorageBackend.sample
    (PolicyJson.withShort allowAll) ⟨text "a", []⟩ fun _ : Unit => .request) := by
  intro m hm
  simp only [readRemote, List.mem_cons, List.mem_replicate] at hm
  rcases hm with rfl | ⟨-, rfl⟩
  · exact .inl ⟨_, _, rfl⟩
  · trivial

/-- The peer does not answer: the GET fails and leaves the blocks alone. -/
theorem guard_holds_unreachable :
    Tripped (fullSite (.error [])) ∧
      ∀ p ∈ trace Conf.advance (Conf.atRest (fullSite (.error []))) readRemote,
        p.1.Does (fun _ _ s s' => Keeps .request s s') p.2 := by
  have hs : Tripped (fullSite (.error [])) := ⟨fun _ => ⟨_, rfl⟩, fun _ => ⟨_, rfl⟩⟩
  exact ⟨hs, guard_holds StorageBackend.sample (PolicyJson.withShort allowAll) ⟨text "a", []⟩
    (fun _ => .request) (fullSite (.error [])) hs readRemote starts_readRemote⟩

/-- Where the GET ends. -/
def afterRead : Site.Threads Unit localBlob S3Error :=
  readRemote.foldl Conf.advance (Conf.atRest (fullSite (.ok [97])))

/-- **A read that fills the disk.**  The guard has tripped for good; a GET of an
object whose block only the peer holds succeeds, and the site has a copy. -/
theorem read_fills_disk :
    (∀ n, ∃ trip, (fullSite (.ok [97])).oracle.guardTrip n = some trip) ∧
      (∀ m ∈ readRemote, m.Starts (starts StorageBackend.sample (PolicyJson.withShort allowAll)
        ⟨text "a", []⟩ fun _ : Unit => .request)) ∧
      (afterRead.threads ()).result = some (.ok ()) ∧
      ¬ (fullSite (.ok [97])).store.HoldsLocally blockOfA ∧
      afterRead.world.1.store.HoldsLocally blockOfA ∧
      AList.lookup blockOfA (show Table Bytes Bytes from afterRead.world.1.blobs) = some [97] := by
  refine ⟨fun _ => ⟨_, rfl⟩, starts_readRemote, rfl, ?_, ?_, ?_⟩
  · decide +kernel
  · decide +kernel
  · decide +kernel

end Guard
end Shardscape
