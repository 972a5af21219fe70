/-
# Invariants of the blocks of a site

Which blocks a site holds, and their bytes, change in two ways (`src/storage.rs`):
bytes are put and their row written (`store_block`, and `promote_block_locally` with
what a peer has sent), and the sweep deletes a row and its bytes.  An invariant that
survives the first, in the states in which it happens, and does not look at the queue and
the clock (`Site.BlocksStored`) survives `store_block`, `get_block`, `get_object` and the
drainer.  One that survives the second too, and does not look at the marks of the
collector (`Site.BlocksKept`), survives sweeps run to their end.

Nobody checks what a peer sends.  `Truthful Good` is the condition on a fetch that its
bytes are good for the block it asks for.
-/

import Shardscape.Backend.Drain
import Shardscape.Backend.Handlers
import Shardscape.Lib.Along

namespace Shardscape
namespace Site

open Lib Lib.Prog

variable {Blob : BlobStore} {ε : Type}

/-- A fetch that is answered is answered with good bytes. -/
def Truthful (Good : Bytes → Bytes → Prop) (l : Call) (s : Site Blob) : Prop :=
  match l, s.oracle.fetch s.tick with
  | .fetch _ h, .ok d => Good h d
  | _, _ => True

instance {Good : Bytes → Bytes → Prop} [∀ h d, Decidable (Good h d)] (l : Call) (s : Site Blob) :
    Decidable (Truthful Good l s) := by
  unfold Truthful
  split <;> infer_instance

/-- What an invariant has to survive where blocks are stored. -/
structure BlocksStored (Good : Bytes → Bytes → Prop) (P : Site Blob → Prop) : Prop where
  ticked : ∀ s, P s → P { s with tick := s.tick + 1 }
  queued : ∀ s t, P s → P { s with store := { s.store with replicationQueue := t } }
  stored : ∀ s h d ts, Good h d → ¬ s.store.HoldsLocally h → P s →
    P { s with
        blobs := (Blob.put s.blobs h d).1
        store := s.store.storeLocalBlock ts h (Blob.put s.blobs h d).2 d.length }

/-- What an invariant of the blocks has to survive. -/
structure BlocksKept (Good : Bytes → Bytes → Prop) (P : Site Blob → Prop) : Prop
    extends BlocksStored Good P where
  marked : ∀ s t, P s → P { s with store := { s.store with pendingDeletions := t } }
  reaped : ∀ s h row, s.store.blockLocations.lookup (h, s.store.localLocationId) = some row →
    ¬ (s.store.NamedByObject h ∨ s.store.NamedByPart h) → P s →
    P { s with
        store := (s.store.deleteLocalBlock h).1
        blobs := Blob.delete s.blobs h row.fid }

variable {Good : Bytes → Bytes → Prop} {P : Site Blob → Prop} {s : Site Blob}

/-- A query of the store, under any condition. -/
theorem ensures_db {α β : Type} {C : Call → Site Blob → Prop} {l : Call} {f : Store → β}
    {k : β → SProg Blob ε α} {Q : Except ε α → Site Blob → Prop}
    (h : Ensures C (k (f s.store)) Q s) : Ensures C (db l f >>= k) Q s :=
  fun _ => h

/-- A plan is made without changing anything. -/
theorem wp_readPlan_unchanged (hs : P s) (blocks : List Bytes) (size : ℤ) (range : Option Range) :
    wp (StorageBackend.readPlan blocks size range) (fun _ s' => P s') s := by
  cases range with
  | none => exact hs
  | some range =>
    unfold StorageBackend.readPlan
    dsimp only
    cases resolveRange range (asU64 size) with
    | none => exact hs
    | some p => exact hs

/-! ### Writers -/

namespace BlocksStored

variable (hP : BlocksStored Good P)
include hP

/-- Good bytes are put and their row is written, or the put fails. -/
theorem wp_put {h d : Bytes} (hgood : Good h d)
    (hno : ¬ s.store.HoldsLocally h) (hs : P s) {α : Type} {a : α} :
    wp (blobPut h d >>= fun fid => storeLocalBlock h fid d.length >>= fun _ => pure a)
      (fun _ s' => P s') s := by
  refine wp_bind.2 (wp_bind.2 ((wp_call _ _).2 ?_))
  cases hput : s.oracle.putFails s.tick with
  | some e => exact hP.ticked s hs
  | none =>
    simp only [wp_ofExcept, storeLocalBlock, nowMicros, wp_bind, wp_ask, wp_exec, wp_pure]
    exact hP.stored { s with tick := s.tick + 1 + 1 } h d _ hgood hno
      (hP.ticked { s with tick := s.tick + 1 } (hP.ticked s hs))

/-- A good block may be promoted. -/
theorem wp_promoteBlockLocally {h d : Bytes}
    (hgood : Good h d) (hs : P s) : wp (promoteBlockLocally h d) (fun _ s' => P s') s := by
  refine wp_bind.2 ((wp_db _ _).2 ?_)
  cases hfid : s.store.getLocalBlockFid h with
  | some fid => exact hs
  | none =>
    have hput := hP.wp_put (a := ()) hgood (Store.getLocalBlockFid_eq_none_iff.1 hfid) hs
    simpa only [bind_pure_unit] using hput

/-- A good block may be stored. -/
theorem wp_storeBlock {B : Blake3} {d : Bytes} (hgood : Good (B.hash d) d) (hs : P s) :
    wp (storeBlock B d d.length) (fun _ s' => P s') s := by
  refine wp_bind.2 ((wp_db _ _).2 ?_)
  cases hfid : s.store.getLocalBlockFid (B.hash d) with
  | some fid => exact hs
  | none => exact hP.wp_put hgood (Store.getLocalBlockFid_eq_none_iff.1 hfid) hs

/-! ### Read-repair -/

/-- What a fetch brings is good. -/
theorem ensures_noiseFetchBlock (url : Str) (h : Bytes) (hs : P s) :
    Ensures (Truthful Good) (noiseFetchBlock url h : SProg Blob ε (Except Str Bytes))
      (fun r s' => P s' ∧ ∀ d, r = .ok (.ok d) → Good h d) s := by
  intro htrue
  refine ⟨hP.ticked s hs, fun d hd => ?_⟩
  have hfetch : s.oracle.fetch s.tick = .ok d := Except.ok.inj hd
  simpa only [Truthful, hfetch] using htrue

/-- Any block may be queued. -/
theorem wp_enqueueReplication (h : Bytes) (hs : P s) :
    wp (enqueueReplication h : SProg Blob ε Unit) (fun _ s' => P s') s :=
  hP.queued { s with tick := s.tick + 1 } _ (hP.ticked s hs)

/-- A block fetched from a holder is good, as peers are truthful, and may be kept. -/
theorem ensures_fetchFromHolders
    (locations : List (Str × Bytes)) (h : Bytes) (peers : List (Str × Str)) (hs : P s) :
    Ensures (Truthful Good) (fetchFromHolders locations h peers) (fun _ s' => P s') s := by
  induction peers generalizing s with
  | nil => exact hs
  | cons peer rest ih =>
    obtain ⟨id, url⟩ := peer
    unfold fetchFromHolders
    split
    · refine Ensures.bind ((hP.ensures_noiseFetchBlock url h hs).mono ?_)
      rintro (_ | _ | d) s₁ ⟨hs₁, hgood⟩
      · exact hs₁
      · exact ih hs₁
      · refine Ensures.bind (ensures_of_wp (wp_attempt.2 (wp_mono
          (hP.wp_promoteBlockLocally (hgood d rfl) hs₁) fun r s₂ hs₂ => ?_)))
        cases r with
        | ok _ => exact hs₂
        | error _ =>
          refine ensures_of_wp (wp_bind.2 (wp_mono (hP.wp_enqueueReplication h hs₂) ?_))
          rintro (_ | _) s₃ hs₃
          · exact hs₃
          · exact hs₃
    · exact ih hs

/-- **`get_block` keeps the invariant**, with what it promotes. -/
theorem ensures_getBlock (h : Bytes) (hs : P s) :
    Ensures (Truthful Good) (getBlock h) (fun _ s' => P s') s := by
  refine ensures_db ?_
  cases s.store.getLocalBlockFid h with
  | some fid => exact ensures_of_wp (wp_bind.2 ((wp_query _ _).2 ((wp_ofExcept _).2 hs)))
  | none =>
    refine ensures_db ?_
    cases s.store.getBlockFids h with
    | none => exact hs
    | some locations =>
      exact ensures_db (hP.ensures_fetchFromHolders locations h s.store.getPeers hs)

/-! ### The drainer -/

/-- What the first peer answers is good too. -/
theorem ensures_fetchFirst (h : Bytes) (candidates : List (Str × Str)) (hs : P s) :
    Ensures (Truthful Good) (fetchFirst h candidates : SProg Blob ε (Option Bytes))
      (fun r s' => P s' ∧ ∀ d, r = .ok (some d) → Good h d) s := by
  induction candidates generalizing s with
  | nil => exact ⟨hs, nofun⟩
  | cons peer rest ih =>
    refine Ensures.bind ((hP.ensures_noiseFetchBlock peer.2 h hs).mono ?_)
    rintro (_ | _ | d) s₁ ⟨hs₁, hgood⟩
    · exact ⟨hs₁, nofun⟩
    · exact ih hs₁
    · refine ⟨hs₁, ?_⟩
      rintro _ ⟨⟩
      exact hgood d rfl

/-- So the drain of one entry keeps what is kept. -/
theorem ensures_drainEntry (localId : Str)
    (peers : List (Str × Str)) (entry : ReplicationEntry) (hs : P s) :
    Ensures (Truthful Good) (drainEntry localId peers entry : SProg Blob ε Unit)
      (fun _ s' => P s') s := by
  have hdrop : ∀ {s : Site Blob}, P s → Ensures (Truthful Good)
      (dequeueReplication entry.hash : SProg Blob ε Unit) (fun _ s' => P s') s :=
    fun hs => ensures_of_wp (hP.queued _ _ hs)
  have hdefer : ∀ {s : Site Blob}, P s → Ensures (Truthful Good)
      (deferReplication entry : SProg Blob ε Unit) (fun _ s' => P s') s :=
    fun {s} hs => ensures_of_wp (hP.queued { s with tick := s.tick + 1 } _ (hP.ticked s hs))
  refine ensures_db ?_
  cases planReplication ((s.store.getBlockFids entry.hash).getD []) localId peers with
  | drop => exact hdrop hs
  | defer => exact hdefer hs
  | fetchFrom candidates =>
    refine Ensures.bind ((hP.ensures_fetchFirst entry.hash candidates hs).mono ?_)
    rintro (_ | _ | d) s₁ ⟨hs₁, hgood⟩
    · exact hs₁
    · exact hdefer hs₁
    · refine Ensures.bind (ensures_of_wp (wp_attempt.2 (wp_mono
        (hP.wp_promoteBlockLocally (hgood d rfl) hs₁) fun r s₂ hs₂ => ?_)))
      cases r with
      | ok _ => exact hdrop hs₂
      | error _ => exact hdefer hs₂

/-- **A drain keeps the invariant**, when the disk guard does not turn it into a sweep. -/
theorem ensures_drainReplicationQueue (cfg : GcConfig)
    (localId : Str) (htrip : s.oracle.guardTrip s.tick = none) (hs : P s) :
    Ensures (Truthful Good) (drainReplicationQueue cfg localId : SProg Blob ε Unit)
      (fun _ s' => P s') s := by
  refine Ensures.bind (ensures_of_wp ((wp_ask _ _).2 ?_))
  rw [htrip]
  refine Ensures.bind (ensures_of_wp (wp_bind.2 (wp_bind.2 ((wp_ask _ _).2 ?_))))
  have hs₂ := hP.ticked { s with tick := s.tick + 1 } (hP.ticked s hs)
  refine (wp_pure _).2 ((wp_db _ _).2 ?_)
  dsimp only
  split
  · exact hs₂
  · refine ensures_db (Ensures.forEach P (fun _ _ h => h) (fun entry s' hs' => ?_) hs₂)
    exact hP.ensures_drainEntry localId _ entry hs'

/-! ### Reads -/

/-- The frames after the first are read block by block. -/
theorem ensures_streamRest (plan : List (Bytes × ℕ × Option ℕ)) (hs : P s) :
    Ensures (Truthful Good) (StorageBackend.streamRest plan) (fun _ s' => P s') s := by
  induction plan generalizing s with
  | nil => exact hs
  | cons p plan ih =>
    refine Ensures.bind (Ensures.attempt ((hP.ensures_getBlock p.1 hs).mono fun r s₁ hs₁ => ?_))
    cases r with
    | error e => exact hs₁
    | ok block =>
      refine Ensures.bind ((ih hs₁).mono fun r s₂ hs₂ => ?_)
      cases r <;> exact hs₂

/-- And the first is. -/
theorem ensures_firstFrame (plan : List (Bytes × ℕ × Option ℕ)) (hs : P s) :
    Ensures (Truthful Good) (StorageBackend.firstFrame plan) (fun _ s' => P s') s := by
  cases plan with
  | nil => exact hs
  | cons p plan =>
    refine Ensures.bind (Ensures.mapErr ((hP.ensures_getBlock p.1 hs).mono fun r s₁ hs₁ => ?_))
    cases r <;> exact hs₁

/-- **`get_object` keeps the invariant**, with what its reads promote. -/
theorem ensures_getObject (bucket key : Str) (range : Option Range) (hs : P s) :
    Ensures (Truthful Good) (StorageBackend.getObject bucket key range) (fun _ s' => P s') s := by
  refine ensures_db ?_
  cases s.store.getObject bucket key with
  | none => exact hs
  | some m =>
    obtain ⟨blocks, size, etag⟩ := m
    refine Ensures.bind (ensures_of_wp (wp_mono (wp_readPlan_unchanged hs blocks size range) ?_))
    intro r s₁ hs₁
    cases r with
    | error e => exact hs₁
    | ok r =>
      refine Ensures.bind ((hP.ensures_firstFrame r.1 hs₁).mono fun r' s₂ hs₂ => ?_)
      cases r' with
      | error e => exact hs₂
      | ok first =>
        refine Ensures.bind (ensures_of_wp ((wp_ask _ _).2 ?_))
        refine Ensures.bind ((hP.ensures_streamRest r.1.tail (hP.ticked s₂ hs₂)).mono ?_)
        intro r'' s₃ hs₃
        cases r'' <;> exact hs₃

end BlocksStored

/-! ### The collector -/

/-- A sweep leaves what is named alone. -/
def Swept (P : Site Blob → Prop) (s s' : Site Blob) : Prop :=
  P s' ∧ s'.store.objects = s.store.objects ∧ s'.store.parts = s.store.parts

/-- The live set a sweep has read is that of every state it comes to. -/
theorem Swept.named {s' : Site Blob} (h : Swept P s s') {x : Bytes} :
    x ∈ s.store.computeLiveBlockSet ↔ s'.store.NamedByObject x ∨ s'.store.NamedByPart x := by
  rw [Store.mem_computeLiveBlockSet, Store.NamedByObject, Store.NamedByObject, Store.NamedByPart,
    Store.NamedByPart, h.2.1, h.2.2]

/-- A block that was not live when the sweep began may be reaped. -/
theorem BlocksKept.wp_reapBlock (hP : BlocksKept Good P) {s' : Site Blob} (h : Swept P s s')
    {x : Bytes} (hx : x ∉ s.store.computeLiveBlockSet) :
    wp (reapBlock x : SProg Blob ε Unit) (fun r s'' => r = .ok () ∧ Swept P s s'') s' := by
  refine wp_bind.2 ((wp_db _ _).2 ?_)
  cases hfid : s'.store.getLocalBlockFid x with
  | none => exact ⟨rfl, hP.marked _ _ h.1, h.2⟩
  | some fid =>
    obtain ⟨row, hrow, rfl⟩ := Option.map_eq_some_iff.1 hfid
    refine wp_bind.2 ((wp_call _ _).2 ?_)
    have hremoved : (s'.store.deleteLocalBlock x).2 = true := by
      rw [Store.deleteLocalBlock, hrow]
      rfl
    rw [hremoved]
    exact ⟨rfl, hP.marked _ _ (hP.reaped s' x row hrow (mt h.named.2 hx) h.1), h.2⟩

/-- One round of the sweep marks, unmarks or reaps its block. -/
theorem BlocksKept.wp_sweepBlock (hP : BlocksKept Good P) {s' : Site Blob} (h : Swept P s s')
    (cfg : GcConfig) (force : Bool) (pending : Table Bytes ℤ) (now : ℤ) (x : Bytes) :
    wp (sweepBlock cfg force s.store.computeLiveBlockSet pending now x : SProg Blob ε Unit)
      (fun r s'' => r = .ok () ∧ Swept P s s'') s' := by
  have hreap : ∀ {s'' : Site Blob} t, Swept P s s'' → x ∉ s.store.computeLiveBlockSet →
      wp (if force = false ∧ now < t then pure () else reapBlock x : SProg Blob ε Unit)
        (fun r s'' => r = .ok () ∧ Swept P s s'') s'' := by
    intro s'' t h hx
    split_ifs
    · exact ⟨rfl, h⟩
    · exact hP.wp_reapBlock h hx
  rw [sweepBlock]
  split_ifs with hx hp
  · exact ⟨rfl, hP.marked _ _ h.1, h.2⟩
  · exact ⟨rfl, h⟩
  · refine wp_bind.2 ?_
    rw [reapAt]
    cases pending.lookup x with
    | some t => exact hreap t h hx
    | none =>
      refine wp_bind.2 ((wp_ask _ _).2 (wp_bind.2 ((wp_exec _ _).2 ?_)))
      exact hreap _ ⟨hP.marked { s' with tick := s'.tick + 1 } _ (hP.ticked s' h.1), h.2⟩ hx

/-- **A sweep keeps the invariant**, and succeeds. -/
theorem BlocksKept.wp_sweepOrphanedBlocks (hP : BlocksKept Good P) (cfg : GcConfig) (force : Bool)
    (hs : P s) :
    wp (sweepOrphanedBlocks cfg force : SProg Blob ε Unit) (fun r s' => r = .ok () ∧ P s') s := by
  refine wp_bind.2 ((wp_db _ _).2 (wp_bind.2 ((wp_db _ _).2 (wp_bind.2
    ((wp_db _ _).2 (wp_bind.2 ((wp_ask _ _).2 ?_)))))))
  have hstart : Swept P s { s with tick := s.tick + 1 } := ⟨hP.ticked s hs, rfl, rfl⟩
  refine wp_bind.2 (wp_forEach (fun _ s' => Swept P s s') ?_ ?_ hstart)
  · intro s' h
    refine wp_forEach (fun _ s' => Swept P s s') (fun s' h => ⟨rfl, h.1⟩) ?_ h
    intro x _ s' h
    split_ifs
    · exact h
    · exact ⟨hP.marked _ _ h.1, h.2⟩
  · intro x _ s' h
    refine wp_mono (hP.wp_sweepBlock h cfg force _ _ x) ?_
    rintro r s'' ⟨rfl, h⟩
    exact h

/-- **A drain keeps the invariant**, also when it is a sweep. -/
theorem BlocksKept.ensures_drainReplicationQueue (hP : BlocksKept Good P) (cfg : GcConfig)
    (localId : Str) (hs : P s) :
    Ensures (Truthful Good) (drainReplicationQueue cfg localId : SProg Blob ε Unit)
      (fun _ s' => P s') s := by
  cases htrip : s.oracle.guardTrip s.tick with
  | none => exact hP.toBlocksStored.ensures_drainReplicationQueue cfg localId htrip hs
  | some trip =>
    refine Ensures.bind (ensures_of_wp ((wp_ask _ _).2 ?_))
    rw [htrip]
    exact ensures_of_wp (wp_mono (hP.wp_sweepOrphanedBlocks cfg true (hP.ticked s hs))
      fun _ _ h => h.2)

end Site
end Shardscape
