/-
# What is quiet

The programs that leave manifests and marks alone and lose no block: storing blocks
and receiving a body (`wp_receiveBody`), inserting and dropping parts, recording a
peer, and whatever only stores blocks (`blocksStored_siteQuiet`): reading an object,
and draining the replication queue while the disk guard does not trip.
-/

import Shardscape.Backend.BlocksKept
import Shardscape.Collector.LastCopy

namespace Shardscape
namespace Cluster

open Lib Lib.Prog StorageBackend

variable {Blob : BlobStore} {ε : Type}

/-! ### Quiet changes -/

/-- The tables the invariant is about are the same. -/
theorem Quiet.frame {st st' : Store} (hlog : st'.factLog = st.factLog)
    (hobj : st'.objects = st.objects) (hpend : st'.pendingDeletions = st.pendingDeletions)
    (hparts : st'.parts = st.parts) (hloc : st'.blockLocations = st.blockLocations)
    (hid : st'.localLocationId = st.localLocationId) : Quiet st st' where
  log := ⟨[], by rw [hlog, List.append_nil], by simp⟩
  objects := hobj
  pending := hpend
  held h hh := by rwa [Store.HoldsLocally, hloc, hid]
  parts h hh := .inl (by rwa [Store.NamedByPart, hparts] at hh)

/-- A new block is quiet: its fact is no manifest. -/
theorem Quiet.storeLocalBlock (st : Store) (ts : ℤ) (hash fid : Bytes) (size : ℤ) :
    Quiet st (st.storeLocalBlock ts hash fid size) where
  log := ⟨_, rfl, fun e he B n => by rw [List.mem_singleton.1 he]; rfl⟩
  objects := rfl
  pending := rfl
  held h hh := (Store.holdsLocally_storeLocalBlock st ts hash fid size h).2 (.inr hh)
  parts _ hh := .inl hh

/-- A part of blocks that are held. -/
theorem Quiet.insertPart {st : Store} (bucket : Str) (id : Uuid) (n : ℤ) {blocks : List Bytes}
    (size : ℤ) (etag : Str) (hlen : ∀ b ∈ blocks, b.length = 32)
    (hheld : ∀ b ∈ blocks, st.HoldsLocally b) :
    Quiet st (st.insertPart bucket id n blocks size etag) where
  log := ⟨[], (List.append_nil _).symm, by simp⟩
  objects := rfl
  pending := rfl
  held _ hh := hh
  parts h := by
    rintro ⟨k, row, hrow, hh⟩
    rw [Store.insertPart, Table.lookup_insert] at hrow
    split_ifs at hrow
    · rw [← Option.some.inj hrow, Store.decodeBlocks_encodeBlocks hlen] at hh
      exact .inr (hheld h hh)
    · exact .inl ⟨k, row, hrow, hh⟩

/-- To drop an upload is quiet: it only names less. -/
theorem Quiet.deleteMultipartUpload (st : Store) (bucket : Str) (id : Uuid) :
    Quiet st (st.deleteMultipartUpload bucket id) where
  log := ⟨[], (List.append_nil _).symm, by simp⟩
  objects := rfl
  pending := rfl
  held _ hh := hh
  parts h := by
    rintro ⟨k, row, hrow, hh⟩
    rw [Store.deleteMultipartUpload, Table.lookup_deleteWhere] at hrow
    split_ifs at hrow
    exact .inl ⟨k, row, hrow, hh⟩

/-- To hear where a block is is quiet. -/
theorem Quiet.applyAnnounce (st : Store) (nowMs : ℤ) (hash : Bytes) (loc : Str) (fid : Bytes)
    (size ts : ℤ) : Quiet st (st.applyAnnounce nowMs hash loc fid size ts) where
  log := ⟨[], by simp only [Store.applyAnnounce]; split_ifs <;> exact (List.append_nil _).symm,
    by simp⟩
  objects := Store.objects_applyAnnounce ..
  pending := by simp only [Store.applyAnnounce]; split_ifs <;> rfl
  held h hh := (Store.holdsLocally_applyAnnounce ..).2 (.inr hh)
  parts h hh := .inl (by simp only [Store.applyAnnounce] at hh; split_ifs at hh <;> exact hh)

/-- A quiet change of a site, which keeps its clock. -/
structure SiteQuiet (s s' : Site Blob) : Prop where
  clock : s'.clock = s.clock
  oracle : s'.oracle = s.oracle
  store : Quiet s.store s'.store

/-- The same for a site, with its clock and its oracle: -/
theorem SiteQuiet.refl (s : Site Blob) : SiteQuiet s s := ⟨rfl, rfl, Quiet.refl _⟩

/-- Quiet steps add up. -/
theorem SiteQuiet.trans {s s' s'' : Site Blob} (h : SiteQuiet s s') (h' : SiteQuiet s' s'') :
    SiteQuiet s s'' :=
  ⟨h'.clock.trans h.clock, h'.oracle.trans h.oracle, h.store.trans h'.store⟩

/-- An answer from outside is quiet. -/
theorem SiteQuiet.ticked (s : Site Blob) (n : ℕ) : SiteQuiet s { s with tick := n } :=
  ⟨rfl, rfl, Quiet.refl _⟩

/-- A quiet step of the database is quiet. -/
theorem SiteQuiet.of_store (s : Site Blob) {st : Store} (h : Quiet s.store st) :
    SiteQuiet s { s with store := st } :=
  ⟨rfl, rfl, h⟩

variable {s : Site Blob}

/-- The block is held afterwards. -/
theorem wp_storeLocalBlock (hash fid : Bytes) (size : ℤ) :
    wp (Site.storeLocalBlock hash fid size : Site.SProg Blob ε Unit) (fun r s' => r = .ok () ∧
      SiteQuiet s s' ∧ s'.store.HoldsLocally hash) s := by
  refine wp_bind.2 ((Site.wp_ask _ _).2 ((Site.wp_exec _ _).2 ⟨rfl, ⟨rfl, rfl, ?_⟩, ?_⟩))
  · exact Quiet.storeLocalBlock _ _ _ _ _
  · exact (Store.holdsLocally_storeLocalBlock ..).2 (.inl rfl)

/-- The blob store is no matter of the database. -/
theorem wp_blobPut (hash data : Bytes) :
    wp (Site.blobPut hash data) (fun _ s' => SiteQuiet s s') s := by
  refine wp_bind.2 ((wp_call _ _).2 ((wp_ofExcept _).2 ?_))
  split <;> exact ⟨rfl, rfl, Quiet.refl _⟩

/-- `store_block` is quiet, and when it succeeds the block is held. -/
theorem wp_storeBlock (B : Blake3) (d : Bytes) (size : ℤ) :
    wp (Site.storeBlock B d size) (fun r s' => SiteQuiet s s' ∧
      ∀ h, r = .ok h → h = B.hash d ∧ s'.store.HoldsLocally h) s := by
  refine wp_bind.2 ((Site.wp_db _ _).2 ?_)
  cases hfid : s.store.getLocalBlockFid (B.hash d) with
  | some fid =>
    refine (wp_pure _).2 ⟨SiteQuiet.refl s, fun h hh => ?_⟩
    obtain rfl := Except.ok.inj hh
    refine ⟨rfl, Store.getLocalBlockFid_isSome_iff.1 ?_⟩
    rw [hfid]
    rfl
  | none =>
    refine wp_bind.2 (wp_mono (wp_blobPut _ _) fun r s₁ h₁ => ?_)
    cases r with
    | error e => exact ⟨h₁, fun h hh => nomatch hh⟩
    | ok fid =>
      refine wp_bind.2 (wp_mono (wp_storeLocalBlock _ _ _) ?_)
      rintro r s₂ ⟨rfl, h₂, hheld⟩
      refine (wp_pure _).2 ⟨h₁.trans h₂, fun h hh => ?_⟩
      obtain rfl := Except.ok.inj hh
      exact ⟨rfl, hheld⟩

/-- Stored chunks are held. -/
theorem wp_storeAll (S : StorageBackend) (ds : List Bytes) :
    wp (S.storeAll ds) (fun r s' => SiteQuiet s s' ∧
      ∀ hs, r = .ok hs → hs = ds.map S.blake3.hash ∧ ∀ h ∈ hs, s'.store.HoldsLocally h) s := by
  induction ds generalizing s with
  | nil =>
    refine (wp_pure _).2 ⟨SiteQuiet.refl s, fun hs hh => ?_⟩
    obtain rfl := Except.ok.inj hh
    exact ⟨rfl, by simp⟩
  | cons d ds ih =>
    refine wp_bind.2 (wp_mapErr.2 (wp_mono (wp_storeBlock _ _ _) ?_))
    rintro r s₁ ⟨h₁, hok₁⟩
    cases r with
    | error e => exact ⟨h₁, fun hs hh => nomatch hh⟩
    | ok hash =>
      obtain ⟨rfl, hheld⟩ := hok₁ hash rfl
      refine wp_bind.2 (wp_mono ih ?_)
      rintro r s₂ ⟨h₂, hok₂⟩
      cases r with
      | error e => exact ⟨h₁.trans h₂, fun hs hh => nomatch hh⟩
      | ok hashes =>
        obtain ⟨rfl, hheld₂⟩ := hok₂ hashes rfl
        refine (wp_pure _).2 ⟨h₁.trans h₂, fun hs hh => ?_⟩
        obtain rfl := Except.ok.inj hh
        refine ⟨rfl, List.forall_mem_cons.2 ⟨?_, hheld₂⟩⟩
        exact h₂.store.held _ hheld

/-- **Receiving a body is quiet, and when it succeeds its blocks are held.** -/
theorem wp_receiveBody (S : StorageBackend) (body : List (Except Str Bytes)) :
    wp (S.receiveBody body) (fun r s' => SiteQuiet s s' ∧ ∀ u, r = .ok u →
      u.blockHashes = (S.chunker.chunks S.fastcdc body []).map S.blake3.hash ∧
        ∀ h ∈ u.blockHashes, s'.store.HoldsLocally h) s := by
  rw [receiveBody_eq]
  refine wp_bind.2 (wp_mono (wp_storeAll S _) ?_)
  rintro r s₁ ⟨h₁, hok⟩
  cases r with
  | error e => exact ⟨h₁, fun u hu => nomatch hu⟩
  | ok hashes =>
    obtain ⟨rfl, hheld⟩ := hok hashes rfl
    cases ChunkingStrategy.bodyOf body with
    | error e => exact ⟨h₁, fun u hu => nomatch hu⟩
    | ok data =>
      refine (wp_pure _).2 ⟨h₁, fun u hu => ?_⟩
      obtain rfl := Except.ok.inj hu
      exact ⟨rfl, hheld⟩

/-! ### Reads, drains and peers -/

/-- Whatever only stores blocks is quiet. -/
theorem blocksStored_siteQuiet (s : Site Blob) :
    Site.BlocksStored (fun _ _ => True) (SiteQuiet s) where
  ticked _ h := h.trans (SiteQuiet.ticked _ _)
  queued _ _ h := h.trans (.of_store _ (Quiet.frame rfl rfl rfl rfl rfl rfl))
  stored _ _ _ _ _ _ h := h.trans ⟨rfl, rfl, Quiet.storeLocalBlock _ _ _ _ _⟩

/-- Any bytes will do. -/
theorem along_truthful {α : Type} (p : Site.SProg Blob ε α) (s : Site Blob) :
    p.Along (Site.Truthful fun _ _ => True) s := by
  refine along_of_forall fun l s => ?_
  unfold Site.Truthful
  split <;> trivial

/-- **A read is quiet**, whatever it fetches. -/
theorem wp_getObject (bucket key : Str) (range : Option Range) :
    wp (StorageBackend.getObject bucket key range) (fun _ s' => SiteQuiet s s') s :=
  ((blocksStored_siteQuiet s).ensures_getObject bucket key range (SiteQuiet.refl s)).wp
    (along_truthful _ s)

/-- **A drain without disk pressure is quiet**, whatever it fetches. -/
theorem wp_drainReplicationQueue (cfg : GcConfig) (localId : Str)
    (htrip : s.oracle.guardTrip s.tick = none) :
    wp (Site.drainReplicationQueue cfg localId : Site.SProg Blob ε Unit)
      (fun _ s' => SiteQuiet s s') s :=
  ((blocksStored_siteQuiet s).ensures_drainReplicationQueue cfg localId htrip
    (SiteQuiet.refl s)).wp (along_truthful _ s)

/-- A peer is a row of its own table. -/
theorem wp_recordPeer (locationId apiUrl : Str) :
    wp (Site.recordPeer locationId apiUrl : Site.SProg Blob ε Unit)
      (fun _ s' => SiteQuiet s s') s := by
  refine ⟨rfl, rfl, ?_⟩
  show Quiet s.store (s.store.recordPeer _ locationId apiUrl)
  unfold Store.recordPeer
  split_ifs
  · exact Quiet.refl _
  · exact Quiet.frame rfl rfl rfl rfl rfl rfl

end Cluster
end Shardscape
