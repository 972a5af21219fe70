/-
# Receiving a body

`put_object` and `upload_part` store a body chunk by chunk while its frames come
in.  On a site that stands for some bodies that leaves a site that stands for the
same bodies, and the blocks stored are a manifest of the body received
(`wp_receiveBody`), whatever the frames and the chunker.
-/

import Shardscape.Backend.Receive
import Shardscape.Refinement.Represents

namespace Shardscape
namespace Represents

open Lib Lib.Prog StorageBackend

variable {Blob : BlobStore} {S : StorageBackend} {L : Blob.Lawful} {D : Set Bytes}
  {s : Site Blob} {b : Bodies}

/-- A manifest of one block. -/
theorem manifest_single {st : Store} {d : Bytes} (hd : d ∈ D)
    (hheld : st.HoldsLocally (S.blake3.hash d)) :
    Manifest S.blake3 D st (S.blake3.hash d) d.length d := by
  refine ⟨[d], by simp [Store.encodeBlocks], fun d' hd' => ?_, by simp, rfl⟩
  rw [List.mem_singleton.1 hd']
  exact ⟨hd, hheld⟩

/-- No blocks are the empty body. -/
theorem manifest_nil {st : Store} :
    Manifest S.blake3 D st (Store.encodeBlocks []) 0 [] :=
  ⟨[], rfl, by simp, rfl, rfl⟩

/-- Everything held before is held still. -/
def Kept (s s' : Site Blob) : Prop := ∀ h, s.store.HoldsLocally h → s'.store.HoldsLocally h

/-- A stored block is held, and it is not the first copy that counts. -/
theorem wp_storeBlock (hr : Represents S L D s b) {d : Bytes} (hd : d ∈ D) :
    wp (Site.storeBlock S.blake3 d d.length) (fun r s' => r = .ok (S.blake3.hash d) ∧
      Represents S L D s' b ∧ Kept s s' ∧ s'.store.HoldsLocally (S.blake3.hash d)) s := by
  refine wp_bind.2 ((Site.wp_db _ _).2 ?_)
  cases hfid : s.store.getLocalBlockFid (S.blake3.hash d) with
  | some fid =>
    refine (wp_pure _).2 ⟨rfl, hr, fun _ h => h, Store.getLocalBlockFid_isSome_iff.1 ?_⟩
    rw [hfid]
    rfl
  | none =>
    have hno := Store.getLocalBlockFid_eq_none_iff.1 hfid
    refine wp_bind.2 (wp_bind.2 ?_)
    simp only [wp_call, hr.puts s.tick, wp_ofExcept, Site.storeLocalBlock,
      Site.nowMicros, wp_bind,
      Site.wp_ask, Site.wp_exec, wp_pure]
    have hheld := Store.holdsLocally_storeLocalBlock s.store
      (s.clock.nowMicros (s.oracle.micros (s.tick + 1))) (S.blake3.hash d)
      (Blob.put s.blobs (S.blake3.hash d) d).2 d.length
    refine ⟨trivial, ?_, fun h hh => (hheld h).2 (Or.inr hh), (hheld _).2 (Or.inl rfl)⟩
    exact hr.ticked.ticked.stored hd hno _

/-- Chunks stored one after the other are a manifest of their concatenation. -/
theorem wp_storeAll {ds : List Bytes} (hd : ∀ d ∈ ds, d ∈ D) (hr : Represents S L D s b) :
    wp (S.storeAll ds) (fun r s' => ∃ hashes, r = .ok hashes ∧ Represents S L D s' b ∧ Kept s s' ∧
      Manifest S.blake3 D s'.store (Store.encodeBlocks hashes) (ds.flatten.length : ℕ)
        ds.flatten) s := by
  induction ds generalizing s with
  | nil => exact (wp_pure _).2 ⟨[], rfl, hr, fun _ h => h, manifest_nil⟩
  | cons d ds ih =>
    rw [List.forall_mem_cons] at hd
    refine wp_bind.2 (wp_mapErr.2 (wp_mono (wp_storeBlock hr hd.1) ?_))
    rintro r s₁ ⟨rfl, hr₁, hkept₁, hheld⟩
    refine wp_bind.2 (wp_mono (ih hd.2 hr₁) ?_)
    rintro r s₂ ⟨hashes, rfl, hr₂, hkept₂, hm⟩
    refine (wp_pure _).2 ⟨_, rfl, hr₂, fun h hh => hkept₂ h (hkept₁ h hh), ?_⟩
    have hone := manifest_single (S := S) hd.1 (hkept₂ _ hheld)
    simpa [Store.encodeBlocks] using hone.append hm

/-- What receiving a body ends with: a manifest of all of it, or the error of the
stream. -/
def Received (S : StorageBackend) (L : Blob.Lawful) (D : Set Bytes) (b : Bodies)
    (body : Except Str Bytes) (r : Except S3Error Upload) (s' : Site Blob) : Prop :=
  Represents S L D s' b ∧
    match body with
    | .error e => r = .error (internal e)
    | .ok body => ∃ u, r = .ok u ∧ u.hashed = body ∧
        Manifest S.blake3 D s'.store (Store.encodeBlocks u.blockHashes) u.totalSize body

/-- **A received body**: its blocks are a manifest of it, however it is framed and
cut. -/
theorem wp_receiveBody (hr : Represents S L D s b) {frames : List (Except Str Bytes)}
    (hd : ∀ d ∈ S.chunker.chunks S.fastcdc frames [], d ∈ D) :
    wp (S.receiveBody frames) (Received S L D b (ChunkingStrategy.bodyOf frames)) s := by
  rw [receiveBody_eq]
  refine wp_bind.2 (wp_mono (wp_storeAll hd hr) ?_)
  rintro r s' ⟨hashes, rfl, hr', -, hm⟩
  cases hbody : ChunkingStrategy.bodyOf frames with
  | error e => exact ⟨hr', rfl⟩
  | ok data =>
    refine (wp_pure _).2 ⟨hr', _, rfl, rfl, ?_⟩
    rwa [ChunkingStrategy.flatten_chunks _ _ hbody, List.nil_append] at hm ⊢

/-- What follows a body that was received: nothing if its stream failed. -/
theorem wp_received_bind (hr : Represents S L D s b) {frames : List (Except Str Bytes)}
    (hd : ∀ d ∈ S.chunker.chunks S.fastcdc frames [], d ∈ D) {α : Type}
    {k : Upload → Site.SProg Blob S3Error α} {Q : Except S3Error α → Site Blob → Prop}
    (hfailed : ∀ e s', ChunkingStrategy.bodyOf frames = .error e → Represents S L D s' b →
      Q (.error (internal e)) s')
    (hdone : ∀ data u s', ChunkingStrategy.bodyOf frames = .ok data → Represents S L D s' b →
      Manifest S.blake3 D s'.store (Store.encodeBlocks u.blockHashes) u.totalSize data →
      wp (k u) Q s') :
    wp (S.receiveBody frames >>= k) Q s := by
  refine wp_bind.2 (wp_mono (wp_receiveBody hr hd) ?_)
  rintro r s' ⟨hr', hres⟩
  cases hbody : ChunkingStrategy.bodyOf frames with
  | error e =>
    rw [hbody] at hres
    rw [hres]
    exact hfailed e s' hbody hr'
  | ok data =>
    rw [hbody] at hres
    obtain ⟨u, rfl, -, hm⟩ := hres
    exact hdone data u s' hbody hr' hm

end Represents
end Shardscape
