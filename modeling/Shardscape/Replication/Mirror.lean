/-
# Mirroring every block

The background work of a site on the blocks of its peers (`MirrorProgram`),
interleaved call by call in any order.  A pull is queued when an announcement is
applied, never when a manifest is.  So a block that was pulled, reaped as an
orphan, and only then named by a manifest is neither held nor queued
(`reaped_block_not_mirrored`): the parts of an upload are announced when they are
stored, and the manifest comes when the upload is completed.

That is all that can go wrong.  In a run in which every manifest names blocks that
are still held or never were, and no named block is deleted, the mirror is complete
wherever the run passes (`mirror_complete`).
-/

import Shardscape.Replication.MirrorCalls
import Shardscape.Store.Samples

namespace Shardscape

open Lib Discipline

variable {Blob : BlobStore}

/-- A block read by a request; whether it succeeds is not looked at. -/
def Site.readRepair (hash : Bytes) : Site.SProg Blob Str Unit := do
  let _ : Except Str Bytes ← (Site.getBlock hash).attempt
  pure ()

/-- The programs of the site `me`. -/
inductive MirrorProgram (B : Blake3) (cfg : GcConfig) (me : Str) : Site.SProg Blob Str Unit → Prop
  | applyFact (rec : FactRecord) : MirrorProgram B cfg me (Site.applyFact B rec)
  | recordPeer (locationId apiUrl : Str) : MirrorProgram B cfg me
      (Site.recordPeer locationId apiUrl)
  | readRepair (hash : Bytes) : MirrorProgram B cfg me (Site.readRepair hash)
  | drain : MirrorProgram B cfg me (Site.drainReplicationQueue cfg me)
  | sweep (force : Bool) : MirrorProgram B cfg me (Site.sweepOrphanedBlocks cfg force)

namespace Mirror

variable {B : Blake3} {me : Str} {i : ℕ} {α ε : Type} {w : Mirror Blob}

/-! ### The programs -/

/-- An applied fact. -/
theorem safe_applyFact {rec : FactRecord} :
    Safe B me i (Site.applyFact B rec) (fun (_ : Except ε Unit) _ => True) w := by
  refine safe_step (fun w₁ hw₁ hcond => ?_) fun _ _ _ _ => trivial
  generalize (w₁.1.clock.nowMicros (w₁.1.oracle.micros w₁.1.tick)).tdiv 1000 = nowMs
  have hinv := hw₁.inv
  rcases Store.applyFactD_cases B w₁.1.store nowMs rec with ⟨bucket, key, row, hwr, -, h⟩ |
    ⟨ak, row, -, -, h⟩ | ⟨hash, loc, fid, size, -, -, h⟩ | ⟨-, -, h⟩ <;> rw [h]
  · -- a manifest or a tombstone: only what the row itself names is new
    refine inv_after hinv rfl (fun b hb => hb) (fun b hb => .inl hb) (fun b hb => .inl hb)
      hinv.queued fun b hb hmem => ?_
    rcases Store.namedByObject_putObjectRow hb with hold | ⟨hd, hb'⟩
    · exact hinv.named b hold hmem
    · exact hcond b ⟨_, row, hwr, hd, hb'⟩ hmem
  · exact inv_after_frame hinv ⟨rfl, rfl, rfl⟩ rfl
  · -- an announcement: the block is held or queued from here on
    have hheld := Store.holdsLocally_applyAnnounce w₁.1.store nowMs hash loc fid size rec.ts
    have hknown := Store.knownElsewhere_applyAnnounce w₁.1.store nowMs hash loc fid size rec.ts
    have hqueue := Store.queued_applyAnnounce w₁.1.store nowMs hash loc fid size rec.ts
    refine inv_after hinv ?_ (fun b hb => (hknown b).2 (.inr hb)) (fun b hb => ?_)
      (fun b hb => .inl ((hqueue b).2 (.inr hb))) (fun b hb => ?_) fun b hb hmem => ?_
    · rw [← h]
      exact (Store.frame_applyFactD B w₁.1.store nowMs rec).2.2
    · rcases (hknown b).1 hb with ⟨rfl, hloc⟩ | hb
      · by_cases hh : w₁.1.store.HoldsLocally b
        · exact .inr (.inl ((hheld b).2 (.inr hh)))
        · exact .inr (.inr ((hqueue b).2 (.inl ⟨rfl, hloc, hh⟩)))
      · exact .inl hb
    · rcases (hqueue b).1 hb with ⟨rfl, hloc, -⟩ | hb
      · exact (hknown b).2 (.inl ⟨rfl, hloc⟩)
      · exact (hknown b).2 (.inr (hinv.queued b hb))
    · rw [Store.NamedByObject, Store.objects_applyAnnounce] at hb
      exact (hheld b).2 (.inr (hinv.named b hb hmem))
  · exact inv_after_frame hinv ⟨rfl, rfl, rfl⟩ rfl

/-- To record a peer. -/
theorem safe_recordPeer {locationId apiUrl : Str} :
    Safe B me i (Site.recordPeer locationId apiUrl) (fun (_ : Except ε Unit) _ => True) w := by
  refine Safe.bind (safe_nowMillis fun nowMs w₁ _ => ?_)
  refine safe_exec (fun s => ?_) fun _ _ => trivial
  rw [Store.recordPeer]
  split_ifs <;> exact ⟨⟨rfl, rfl, rfl⟩, rfl⟩

/-- A promotion that succeeds: the block has been held. -/
theorem safe_promoteBlockLocally {hash data : Bytes} {Q : Except Str Unit → Mirror Blob → Prop}
    (hok : ∀ w', Later me w w' → hash ∈ w'.2 → Q (.ok ()) w')
    (herr : ∀ e w', Later me w w' → Q (.error e) w') :
    Safe B me i (Site.promoteBlockLocally hash data) Q w := by
  refine Safe.bind (safe_db fun w₁ hw₁ => ?_)
  cases hfid : w₁.1.store.getLocalBlockFid hash with
  | some fid =>
    refine hok w₁ hw₁ (hw₁.inv.held hash (Store.getLocalBlockFid_isSome_iff.1 ?_))
    rw [hfid]
    rfl
  | none =>
    refine Safe.bind (safe_blobPut fun r w₂ hw₂ => ?_)
    cases r with
    | error e => exact herr e w₂ (hw₁.trans hw₂)
    | ok fid => exact safe_storeLocalBlock fun w₃ hw₃ => hok w₃ ((hw₁.trans hw₂).trans hw₃)

variable {hash : Bytes}

/-- A read of a block: it is queued only if a peer is listed as a holder. -/
theorem safe_fetchFromHolders {locations : List (Str × Bytes)} :
    ∀ {peers : List (Str × Str)} {w : Mirror Blob},
      (∀ p ∈ peers, p.1 ∈ locations.map Prod.fst → w.1.store.KnownElsewhere hash) →
      Safe B me i (Site.fetchFromHolders locations hash peers) (fun _ _ => True) w
  | [], _, _ => trivial
  | (peerId, peerUrl) :: rest, w, hp => by
    have hrest : ∀ w', Later me w w' →
        Safe B me i (Site.fetchFromHolders locations hash rest) (fun _ _ => True) w' :=
      fun w' hw' => safe_fetchFromHolders fun p hmem hloc =>
        hw'.known (hp p (List.mem_cons_of_mem _ hmem) hloc)
    rw [Site.fetchFromHolders]
    split_ifs with hloc
    · have hk := hp _ List.mem_cons_self hloc
      refine Safe.bind (safe_ask fun r w₁ hw₁ => ?_)
      cases r with
      | error e => exact hrest w₁ hw₁
      | ok data =>
        refine Safe.bind (Safe.attempt
          (safe_promoteBlockLocally (fun _ _ _ => trivial) fun e w₂ hw₂ => ?_))
        exact Safe.bind
          (safe_enqueueReplication (hw₂.known (hw₁.known hk)) fun _ _ => trivial)
    · exact safe_fetchFromHolders fun p hmem => hp p (List.mem_cons_of_mem _ hmem)

/-- To read a block, which may fetch it and keep it. -/
theorem safe_getBlock :
    Safe B me i (Site.getBlock hash) (fun _ _ => True) w := by
  refine Safe.bind (safe_db fun w₁ hw₁ => ?_)
  cases w₁.1.store.getLocalBlockFid hash with
  | some fid =>
    exact Safe.bind (safe_frame (fun _ => ⟨⟨rfl, rfl, rfl⟩, rfl⟩) fun _ _ _ _ =>
      Safe.ofExcept trivial)
  | none =>
    refine Safe.bind (safe_db fun w₂ hw₂ => ?_)
    cases hloc : w₂.1.store.getBlockFids hash with
    | none => trivial
    | some locations =>
      refine Safe.bind (safe_db fun w₃ hw₃ => ?_)
      refine safe_fetchFromHolders fun p hp hmem => hw₃.known ?_
      have hne := (List.mem_filter.1 hp).2
      refine Store.knownElsewhere_of_mem_getBlockFids p.1 ?_ (by rwa [hloc])
      rw [← hw₃.rely.1]
      simpa using hne

/-- To repair by a read. -/
theorem safe_readRepair :
    Safe B me i (Site.readRepair hash) (fun _ _ => True) w := by
  refine Safe.bind (Safe.attempt ?_)
  exact safe_getBlock.mono fun _ _ _ => trivial

/-- To reap a block, which has been held. -/
theorem safe_reapBlock :
    Safe B me i (Site.reapBlock hash) (fun (_ : Except ε Unit) _ => True) w := by
  have hlast : ∀ w' : Mirror Blob, Safe B me i (Site.removePendingDeletion hash)
      (fun (_ : Except ε Unit) _ => True) w' :=
    fun w' => safe_exec (fun _ => ⟨⟨rfl, rfl, rfl⟩, rfl⟩) fun _ _ => trivial
  refine Safe.bind (safe_db fun w₁ _ => ?_)
  cases w₁.1.store.getLocalBlockFid hash with
  | none => exact hlast w₁
  | some fid =>
    refine Safe.bind (safe_deleteLocalBlock fun removed w₂ _ => ?_)
    cases removed with
    | false => exact hlast w₂
    | true =>
      exact Safe.bind (safe_frame (fun _ => ⟨⟨rfl, rfl, rfl⟩, rfl⟩)
        fun _ w₃ _ _ => hlast w₃)

/-- One round of a sweep. -/
theorem safe_sweepBlock {cfg : GcConfig} {force : Bool} {live : List Bytes}
    {pending : Table Bytes ℤ} {now : ℤ} :
    Safe B me i (Site.sweepBlock cfg force live pending now hash)
      (fun (_ : Except ε Unit) _ => True) w := by
  have hreap : ∀ t (w' : Mirror Blob), Safe B me i (if force = false ∧ now < t then pure ()
      else Site.reapBlock hash) (fun (_ : Except ε Unit) _ => True) w' := by
    intro t w'
    split_ifs
    · trivial
    · exact safe_reapBlock
  rw [Site.sweepBlock]
  split_ifs
  · exact safe_exec (fun _ => ⟨⟨rfl, rfl, rfl⟩, rfl⟩) fun _ _ => trivial
  · trivial
  · refine Safe.bind ?_
    rw [Site.reapAt]
    cases pending.lookup hash with
    | some t => exact hreap t w
    | none =>
      refine Safe.bind (safe_ask fun micros w₁ _ => ?_)
      exact Safe.bind (safe_exec (fun _ => ⟨⟨rfl, rfl, rfl⟩, rfl⟩)
        fun w₂ _ => hreap _ w₂)

/-- A sweep. -/
theorem safe_sweepOrphanedBlocks {cfg : GcConfig} {force : Bool} :
    Safe B me i (Site.sweepOrphanedBlocks cfg force) (fun (_ : Except ε Unit) _ => True) w := by
  refine Safe.bind (safe_db fun w₁ _ => ?_)
  refine Safe.bind (safe_db fun w₂ _ => ?_)
  refine Safe.bind (safe_db fun w₃ _ => ?_)
  refine Safe.bind (safe_ask fun micros w₄ _ => ?_)
  refine Safe.bind (Safe.forEach (fun _ _ => True) ?_ ?_ trivial)
  · intro w₅ _
    refine Safe.forEach (fun _ _ => True) (fun _ _ => trivial) ?_ trivial
    intro hash _ w₆ _
    split_ifs
    · trivial
    · exact safe_exec (fun _ => ⟨⟨rfl, rfl, rfl⟩, rfl⟩) fun _ _ => trivial
  · intro hash _ w₅ _
    refine safe_sweepBlock.mono fun r _ _ => ?_
    cases r <;> trivial

/-- The candidates are asked in turn; nothing of the store changes. -/
theorem safe_fetchFirst {Q : Except ε (Option Bytes) → Mirror Blob → Prop} :
    ∀ {candidates : List (Str × Str)} {w : Mirror Blob}, MirrorInv me w →
      (∀ a w', Later me w w' → Q (.ok a) w') →
      Safe B me i (Site.fetchFirst hash candidates) Q w
  | [], w, hinv, h => h none w ⟨(mirrorDiscipline Blob B me).rely_refl i w, hinv⟩
  | (_, _) :: rest, w, hinv, h => by
    refine Safe.bind (safe_ask fun r w₁ hw₁ => ?_)
    cases r with
    | ok data => exact h _ w₁ hw₁
    | error e => exact safe_fetchFirst hw₁.inv fun a w' hw' => h a w' (hw₁.trans hw')

/-- One entry of the queue: it is taken off only once the block has been held. -/
theorem safe_drainEntry {peers : List (Str × Str)} {entry : ReplicationEntry}
    {Q : Except ε Unit → Mirror Blob → Prop} (hk : w.1.store.KnownElsewhere entry.hash)
    (h : ∀ w', Later me w w' → Q (.ok ()) w') :
    Safe B me i (Site.drainEntry me peers entry) Q w := by
  refine Safe.bind (safe_db fun w₁ hw₁ => ?_)
  dsimp only
  cases hplan : planReplication ((w₁.1.store.getBlockFids entry.hash).getD []) me peers with
  | drop =>
    refine safe_dequeueReplication (hw₁.inv.held _ ?_) fun w₂ hw₂ => h w₂ (hw₁.trans hw₂)
    exact holds_of_plan_drop hw₁.inv.name (hw₁.known hk) hplan
  | defer => exact safe_deferReplication fun w₂ hw₂ => h w₂ (hw₁.trans hw₂)
  | fetchFrom candidates =>
    refine Safe.bind (safe_fetchFirst hw₁.inv fun r w₂ hw₂ => ?_)
    have hw₂ := hw₁.trans hw₂
    cases r with
    | none => exact safe_deferReplication fun w₃ hw₃ => h w₃ (hw₂.trans hw₃)
    | some data =>
      refine Safe.bind (Safe.attempt
        (safe_promoteBlockLocally (fun w₃ hw₃ hmem => ?_) fun e w₃ hw₃ => ?_))
      · exact safe_dequeueReplication hmem fun w₄ hw₄ => h w₄ ((hw₂.trans hw₃).trans hw₄)
      · exact safe_deferReplication fun w₄ hw₄ => h w₄ ((hw₂.trans hw₃).trans hw₄)

/-- The drain, which gives no block up but those it has held. -/
theorem safe_drainReplicationQueue {cfg : GcConfig} :
    Safe B me i (Site.drainReplicationQueue cfg me) (fun (_ : Except ε Unit) _ => True) w := by
  refine Safe.bind (safe_ask fun trip w₁ _ => ?_)
  cases trip with
  | some e => exact safe_sweepOrphanedBlocks
  | none =>
    refine Safe.bind (Safe.bind (safe_nowMillis fun nowMs w₂ _ => ?_))
    refine safe_db fun w₃ hw₃ => ?_
    have hentries : ∀ entry ∈ w₃.1.store.getReplicationQueue nowMs,
        w₃.1.store.KnownElsewhere entry.hash := fun entry he =>
      hw₃.inv.queued _ (Store.queued_of_mem_getReplicationQueue he)
    dsimp only
    generalize w₃.1.store.getReplicationQueue nowMs = entries at hentries
    cases entries with
    | nil => trivial
    | cons entry rest =>
      refine Safe.bind (safe_db fun w₄ hw₄ => ?_)
      refine Safe.forEach
        (fun left w' => ∀ entry ∈ left, w'.1.store.KnownElsewhere entry.hash)
        (fun _ _ => trivial) ?_ fun entry he => hw₄.known (hentries entry he)
      intro entry left w₅ hleft
      refine safe_drainEntry (hleft entry List.mem_cons_self) fun w₆ hw₆ e he => ?_
      exact hw₆.known (hleft e (List.mem_cons_of_mem _ he))

/-- Every program of the site keeps the discipline. -/
theorem safe_mirrorProgram {cfg : GcConfig} {p : Site.SProg Blob Str Unit}
    (h : MirrorProgram B cfg me p) : Safe B me i p (fun _ _ => True) w := by
  cases h with
  | applyFact rec => exact safe_applyFact
  | recordPeer locationId apiUrl => exact safe_recordPeer
  | readRepair hash => exact safe_readRepair
  | drain => exact safe_drainReplicationQueue
  | sweep force => exact safe_sweepOrphanedBlocks

/-! ### Runs -/

/-- The site before a run: nothing is running, and what was ever held is what is held. -/
def outset (s : Site Blob) : Site.Threads ℕ Blob Str (Set Bytes) :=
  Conf.idle (s, { h | s.store.HoldsLocally h })

/-- A mirrored site is one from which the discipline can be kept. -/
theorem sound_outset {s : Site Blob} (h : s.store.Mirrored) :
    Conf.Sound (mirrorDiscipline Blob B s.store.localLocationId) (fun _ _ _ => True) (outset s) :=
  ⟨⟨rfl, fun _ hb => hb, h.covered, h.queued, fun _ _ hb => hb⟩, fun _ => trivial⟩

/-- One move of the site `me`. -/
abbrev move (B : Blake3) (me : Str) (c : Site.Threads ℕ Blob Str (Set Bytes))
    (m : Move ℕ Call (Site Blob) Str) : Site.Threads ℕ Blob Str (Set Bytes) :=
  c.move (mirrorDiscipline Blob B me) m

/-- **The mirror is complete in every state of a run** in which no manifest is
applied that names a block this site held and lost, and no block is deleted while
an object names it. -/
theorem mirror_complete (B : Blake3) (cfg : GcConfig) (s : Site Blob) (hs : s.store.Mirrored)
    (ms : List (Move ℕ Call (Site Blob) Str))
    (hstart : ∀ m ∈ ms, m.Starts fun _ => MirrorProgram B cfg s.store.localLocationId)
    (hmeets : ∀ p ∈ trace (move B s.store.localLocationId) (outset s) ms,
      p.1.Meets (mirrorDiscipline Blob B s.store.localLocationId) p.2) :
    (∀ p ∈ trace (move B s.store.localLocationId) (outset s) ms,
        p.1.world.1.store.MirrorComplete) ∧
      (ms.foldl (move B s.store.localLocationId) (outset s)).world.1.store.MirrorComplete := by
  obtain ⟨hpass, hend⟩ := Conf.sound_run _ (fun _ _ _ _ _ h => h)
    (fun _ _ _ hp _ => safe_mirrorProgram hp) (sound_outset hs) hstart hmeets
  exact ⟨fun p hp => complete_of_inv (hpass p hp).1, complete_of_inv hend.1⟩

/-! ### Two runs -/

/-- What the peer `b` logs: the part `a` of an upload is stored, later the upload
is completed. -/
def announceA : FactRecord := ⟨1, 1000, .blockAnnounce (hexEncode blockOfA) (text "b") [] 1⟩

def manifestA : FactRecord :=
  ⟨2, 700000000, .objectPut (text "bucket") (text "k") ([blockOfA].map hexEncode) 1 []⟩

/-- A site at which every fetch answers `a`; ten minutes pass before the tenth
answer. -/
def siteA : Site localBlob where
  store := Store.new (text "a")
  blobs := (∅ : Table Bytes Bytes)
  clock := ⟨0⟩
  oracle :=
    { micros := fun n => if n < 9 then 2000 else 600002000
      fetch := fun _ => .ok [97]
      guardTrip := fun _ => none
      putFails := fun _ => none }

/-- The next call deletes nothing, and if it applies a manifest, all blocks of it are held. -/
def clear (c : Site.Threads ℕ localBlob Str (Set Bytes)) : Move ℕ Call (Site localBlob) Str → Bool
  | .step i =>
    match c.nextCall i with
    | some (.applyFact rec) => ((Store.objectWrite Blake3.sample rec).map fun w =>
      Store.decodeBlocks w.2.blocks).all fun blocks =>
        blocks.all fun h => c.world.1.store.HoldsLocally h
    | some (.deleteLocalBlock _) => false
    | _ => true
  | .spawn _ _ => true

/-- The check of a run's events, as it computes. -/
theorem meets_of_clear {me : Str} {c : Site.Threads ℕ localBlob Str (Set Bytes)}
    {m : Move ℕ Call (Site localBlob) Str} (h : clear c m = true) :
    c.Meets (mirrorDiscipline localBlob Blake3.sample me) m := by
  cases m with
  | spawn i p => trivial
  | step i =>
    simp only [clear, Conf.nextCall] at h
    simp only [Conf.Meets]
    cases hp : c.threads i with
    | ret a => trivial
    | fail e => trivial
    | step l eff next =>
      rw [hp] at h
      cases l with
      | applyFact rec =>
        rintro b ⟨k, row, hwrite, -, hb⟩ -
        simp only [hwrite, Option.map_some, Option.all_some, List.all_eq_true,
          decide_eq_true_eq] at h
        exact h b hb
      | deleteLocalBlock b => cases h
      | _ => trivial

/-- The block is announced and pulled, its manifest is applied, and then a sweep spares it: a
drain and a sweep besides the facts. -/
def pulledRun : List (Move ℕ Call (Site localBlob) Str) :=
  [Move.spawn 0 (Site.applyFact Blake3.sample announceA), Move.step 0,
      Move.spawn 0 (Site.recordPeer (text "b") (text "http://b"))] ++
    List.replicate 2 (Move.step 0) ++
    [Move.spawn 0 (Site.drainReplicationQueue ⟨300⟩ (text "a"))] ++
    List.replicate 11 (Move.step 0) ++
    [Move.spawn 0 (Site.applyFact Blake3.sample manifestA), Move.step 0,
      Move.spawn 0 (Site.sweepOrphanedBlocks ⟨300⟩ false)] ++
    List.replicate 8 (Move.step 0)

/-- The tables of `siteA` after `pulledRun`. -/
def pulledStore : Store :=
  (pulledRun.foldl (move Blake3.sample (text "a")) (outset siteA)).world.1.store

/-- The mirror is complete, and the block it has pulled is there. -/
theorem mirror_complete_pulledRun :
    pulledStore.MirrorComplete ∧ blockOfA ∈ pulledStore.computeLiveBlockSet ∧
      pulledStore.HoldsLocally blockOfA := by
  have hclear : ∀ p ∈ trace (move Blake3.sample (text "a")) (outset siteA) pulledRun,
      clear p.1 p.2 = true := by
    decide +kernel
  refine ⟨(mirror_complete Blake3.sample ⟨300⟩ siteA (Store.mirrored_new _) pulledRun ?_
    fun p hp => meets_of_clear (hclear p hp)).2, by decide +kernel, by decide +kernel⟩
  simp only [pulledRun, List.forall_mem_append, List.forall_mem_cons, List.forall_mem_replicate]
  exact ⟨⟨⟨⟨⟨⟨.applyFact _, trivial, .recordPeer _ _, by simp⟩, .inr trivial⟩, .drain, by simp⟩,
    .inr trivial⟩, .applyFact _, trivial, .sweep false, by simp⟩, .inr trivial⟩

/-- The block is pulled, seen to be an orphan, and reaped ten minutes later; then
the manifest is applied. -/
def reapedRun : List (Move ℕ Call (Site localBlob) Str) :=
  [Move.spawn 0 (Site.applyFact Blake3.sample announceA), Move.step 0] ++
    [Move.spawn 0 (Site.recordPeer (text "b") (text "http://b"))] ++
    List.replicate 2 (Move.step 0) ++
    [Move.spawn 0 (Site.drainReplicationQueue ⟨300⟩ (text "a"))] ++
    List.replicate 11 (Move.step 0) ++
    [Move.spawn 0 (Site.sweepOrphanedBlocks ⟨300⟩ false)] ++ List.replicate 6 (Move.step 0) ++
    [Move.spawn 0 (Site.sweepOrphanedBlocks ⟨300⟩ false)] ++ List.replicate 8 (Move.step 0) ++
    [Move.spawn 0 (Site.applyFact Blake3.sample manifestA), Move.step 0]

/-- The tables of `siteA` after `reapedRun`. -/
def reapedStore : Store :=
  (reapedRun.foldl (move Blake3.sample (text "a")) (outset siteA)).world.1.store

/-- **A block reaped before its manifest comes is lost to the mirror**: the
manifest is live, `b` is known to hold the block, and it is neither held nor
queued. -/
theorem reaped_block_not_mirrored :
    (∀ m ∈ reapedRun, m.Starts fun _ => MirrorProgram Blake3.sample ⟨300⟩ (text "a")) ∧
      ¬ reapedStore.MirrorComplete := by
  constructor
  · intro m hm
    cases m with
    | step i => trivial
    | spawn i p =>
      simp only [reapedRun, List.mem_append, List.mem_cons, List.mem_replicate,
        Move.spawn.injEq, reduceCtorEq, List.not_mem_nil, and_false, or_false] at hm
      rcases hm with ((((⟨-, rfl⟩ | ⟨-, rfl⟩) | ⟨-, rfl⟩) | ⟨-, rfl⟩) | ⟨-, rfl⟩) | ⟨-, rfl⟩
      · exact .applyFact _
      · exact .recordPeer _ _
      · exact .drain
      · exact .sweep false
      · exact .sweep false
      · exact .applyFact _
  · intro h
    have hrow : (reapedStore.objects.lookup (text "bucket", text "k")).map
        (fun row => (row.deleted, Store.decodeBlocks row.blocks)) = some (false, [blockOfA]) := by
      decide +kernel
    have hloc : (reapedStore.blockLocations.lookup (blockOfA, text "b")).isSome := by decide +kernel
    have hlost : ¬ reapedStore.HoldsLocally blockOfA ∧
        reapedStore.replicationQueue.lookup (text "a", blockOfA) = none := by decide +kernel
    obtain ⟨row, hlook, hrow⟩ := Option.map_eq_some_iff.1 hrow
    rw [Prod.mk.injEq] at hrow
    obtain ⟨loc, hloc⟩ := Option.isSome_iff_exists.1 hloc
    have hname : reapedStore.localLocationId = text "a" := by decide +kernel
    rcases h blockOfA ⟨_, row, hlook, hrow.1, by rw [hrow.2]; exact List.mem_singleton_self _⟩
      ⟨text "b", loc, by rw [hname]; decide, hloc⟩ with hheld | ⟨q, hq⟩
    · exact hlost.1 hheld
    · rw [hname, hlost.2] at hq
      exact nomatch hq

end Mirror
end Shardscape
