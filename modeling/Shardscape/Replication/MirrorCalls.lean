/-
# The discipline of a mirror

`docs/ARCHITECTURE.md`, "Replication": a site that applies an announcement of a
block it lacks enqueues a pull, the drainer fetches it, failed pulls are never
evicted, "so every site converges to a full mirror" (`Store.MirrorComplete`).

At one site, facts of peers are applied, blocks are read and repaired, the queue
is drained and orphans are swept, all at once and one call at a time.  What holds
the mirror together is that a block known at another site is queued or has been
held here before, and that what is named and was held still is (`MirrorInv`).  The
first never fails.  The second is a condition on two calls, the application of a
manifest and the deletion of a block (`MirrorCond`).  Here each call gets its rule;
the programs made of them are in `Shardscape.Replication.Mirror`.
-/

import Shardscape.Replication.Drained
import Mathlib.Data.Set.Lattice

namespace Shardscape

open Lib Discipline

variable {Blob : BlobStore}

namespace Store

/-- Every block a live object names and another site is known to hold is held here
or queued for a pull. -/
def MirrorComplete (s : Store) : Prop :=
  ∀ h, s.NamedByObject h → s.KnownElsewhere h → s.HoldsLocally h ∨ s.Queued h

/-- Every block known elsewhere is held or queued, and only such blocks are
queued. -/
structure Mirrored (s : Store) : Prop where
  covered : ∀ h, s.KnownElsewhere h → s.HoldsLocally h ∨ s.Queued h
  queued : ∀ h, s.Queued h → s.KnownElsewhere h

/-- A new site knows of no block elsewhere. -/
theorem mirrored_new (me : Str) : (new me).Mirrored where
  covered := fun _ ⟨_, _, _, h⟩ => nomatch h
  queued := fun _ ⟨_, h⟩ => nomatch h

end Store

/-- `h` is named by the object row a fact writes. -/
def FactRecord.Names (B : Blake3) (rec : FactRecord) (h : Bytes) : Prop :=
  ∃ k row, Store.objectWrite B rec = some (k, row) ∧ row.deleted = false ∧
    h ∈ Store.decodeBlocks row.blocks

/-- A site with the blocks it has ever held. -/
abbrev Mirror (Blob : BlobStore) := Site Blob × Set Bytes

/-- What every call keeps: the site's name; the blocks held are among those ever
held; a block known elsewhere was held or is queued; only such blocks are queued;
and a block that is named and was held is held. -/
structure MirrorInv (me : Str) (w : Mirror Blob) : Prop where
  name : w.1.store.localLocationId = me
  held : ∀ h, w.1.store.HoldsLocally h → h ∈ w.2
  covered : ∀ h, w.1.store.KnownElsewhere h → h ∈ w.2 ∨ w.1.store.Queued h
  queued : ∀ h, w.1.store.Queued h → w.1.store.KnownElsewhere h
  named : ∀ h, w.1.store.NamedByObject h → h ∈ w.2 → w.1.store.HoldsLocally h

/-- What the programs rely on each other for: holders once known and blocks once
held are not forgotten. -/
def MirrorRely (w w' : Mirror Blob) : Prop :=
  w'.1.store.localLocationId = w.1.store.localLocationId ∧
    (∀ h, w.1.store.KnownElsewhere h → w'.1.store.KnownElsewhere h) ∧ w.2 ⊆ w'.2

/-- The condition on the calls: a manifest that is applied names no block that was
held and is not any more, and a block that is deleted is not named. -/
def MirrorCond (B : Blake3) (l : Call) (w : Mirror Blob) : Prop :=
  match l with
  | .applyFact rec => ∀ h, rec.Names B h → h ∈ w.2 → w.1.store.HoldsLocally h
  | .deleteLocalBlock h => ¬ w.1.store.NamedByObject h
  | _ => True

/-- The discipline of the mirror. -/
def mirrorDiscipline (Blob : BlobStore) (B : Blake3) (me : Str) :
    Discipline ℕ Call (Site Blob) (Set Bytes) where
  record _ H _ _ s' := H ∪ { h | s'.store.HoldsLocally h }
  cond _ := MirrorCond B
  inv := MirrorInv me
  rely _ := MirrorRely
  guar _ := MirrorRely
  rely_refl _ _ := ⟨rfl, fun _ h => h, subset_rfl⟩
  rely_trans _ _ _ _ h h' :=
    ⟨h'.1.trans h.1, fun b hb => h'.2.1 b (h.2.1 b hb), h.2.2.trans h'.2.2⟩
  guar_rely _ _ _ _ _ _ _ h := h

namespace Mirror

variable {B : Blake3} {me : Str} {i : ℕ} {α ε : Type}

/-- The mirror is complete wherever the invariant holds. -/
theorem complete_of_inv {w : Mirror Blob} (h : MirrorInv me w) : w.1.store.MirrorComplete := by
  intro b hnamed hknown
  rcases h.covered b hknown with hmem | hq
  · exact .inl (h.named b hnamed hmem)
  · exact .inr hq

/-- The drainer drops an entry of a block known elsewhere only if it is held. -/
theorem holds_of_plan_drop {s : Store} {hash : Bytes} {peers : List (Str × Str)}
    (hname : s.localLocationId = me) (hk : s.KnownElsewhere hash)
    (hplan : planReplication ((s.getBlockFids hash).getD []) me peers = .drop) :
    s.HoldsLocally hash := by
  subst hname
  refine (Store.plan_drop hplan).resolve_right fun hnone => ?_
  obtain ⟨loc, row, -, hrow⟩ := hk
  exact hnone loc ⟨row, hrow⟩

/-- What a call must do for the invariant and the guarantee: forget no holder,
cover a new one, drop a queue entry only of a block that was held, and leave no
named block that was held. -/
theorem inv_after {w : Mirror Blob} (hinv : MirrorInv me w) {s' : Site Blob}
    (hname : s'.store.localLocationId = w.1.store.localLocationId)
    (hknown : ∀ h, w.1.store.KnownElsewhere h → s'.store.KnownElsewhere h)
    (hnew : ∀ h, s'.store.KnownElsewhere h →
      w.1.store.KnownElsewhere h ∨ s'.store.HoldsLocally h ∨ s'.store.Queued h)
    (hdrop : ∀ h, w.1.store.Queued h → s'.store.Queued h ∨ h ∈ w.2)
    (hqueue : ∀ h, s'.store.Queued h → s'.store.KnownElsewhere h)
    (hnamed : ∀ h, s'.store.NamedByObject h → h ∈ w.2 → s'.store.HoldsLocally h) :
    MirrorInv me (s', w.2 ∪ { h | s'.store.HoldsLocally h }) ∧
      MirrorRely w (s', w.2 ∪ { h | s'.store.HoldsLocally h }) := by
  refine ⟨⟨hname.trans hinv.name, fun h hh => .inr hh, fun h hh => ?_, hqueue,
    fun h hn hh => hh.elim (hnamed h hn) id⟩, hname, hknown, Set.subset_union_left⟩
  rcases hnew h hh with hold | hheld | hq
  · rcases hinv.covered h hold with hmem | hq
    · exact .inl (.inl hmem)
    · exact (hdrop h hq).symm.imp_left .inl
  · exact .inl (.inr hheld)
  · exact .inr hq

/-- A call that touches neither locations nor queue nor objects. -/
theorem inv_after_frame {w : Mirror Blob} (hinv : MirrorInv me w) {s' : Site Blob}
    (h : Store.SameHolding w.1.store s'.store) (hobj : s'.store.objects = w.1.store.objects) :
    MirrorInv me (s', w.2 ∪ { h | s'.store.HoldsLocally h }) ∧
      MirrorRely w (s', w.2 ∪ { h | s'.store.HoldsLocally h }) := by
  refine inv_after hinv h.localLocationId (fun b => (h.knownElsewhere b).2)
    (fun b hb => .inl ((h.knownElsewhere b).1 hb)) (fun b hb => .inl ((h.queued b).2 hb))
    (fun b hb => ?_) fun b hb hmem => ?_
  · exact (h.knownElsewhere b).2 (hinv.queued b ((h.queued b).1 hb))
  · rw [Store.NamedByObject, hobj] at hb
    exact (h.holdsLocally b).2 (hinv.named b hb hmem)

/-! ### Rules for the calls -/

/-- A program's side of the discipline. -/
abbrev Safe (B : Blake3) (me : Str) (i : ℕ) (p : Site.SProg Blob ε α)
    (Q : Except ε α → Mirror Blob → Prop) (w : Mirror Blob) : Prop :=
  (mirrorDiscipline Blob B me).Safe i p Q w

/-- The worlds a program may find itself in after `w`. -/
structure Later (me : Str) (w w' : Mirror Blob) : Prop where
  rely : MirrorRely w w'
  inv : MirrorInv me w'

/-- Later states of later states are later. -/
theorem Later.trans {w w₁ w₂ : Mirror Blob} (h : Later me w w₁) (h' : Later me w₁ w₂) :
    Later me w w₂ where
  rely := ⟨h'.rely.1.trans h.rely.1, fun b hb => h'.rely.2.1 b (h.rely.2.1 b hb),
    h.rely.2.2.trans h'.rely.2.2⟩
  inv := h'.inv

/-- What was known elsewhere still is. -/
theorem Later.known {w w' : Mirror Blob} (h : Later me w w') {b : Bytes}
    (hb : w.1.store.KnownElsewhere b) : w'.1.store.KnownElsewhere b := h.rely.2.1 b hb

/-- What was once held was once held later. -/
theorem Later.was {w w' : Mirror Blob} (h : Later me w w') {b : Bytes} (hb : b ∈ w.2) :
    b ∈ w'.2 := h.rely.2.2 hb

variable {Q : Except ε α → Mirror Blob → Prop} {w : Mirror Blob}

/-- A call, from what it does to the invariant in any world it may be made in. -/
theorem safe_step {l : Call} {eff : Site Blob → Site Blob} {next : Site Blob → Site.SProg Blob ε α}
    (heff : ∀ w', Later me w w' → MirrorCond B l w' →
      MirrorInv me (eff w'.1, w'.2 ∪ { h | (eff w'.1).store.HoldsLocally h }) ∧
        MirrorRely w' (eff w'.1, w'.2 ∪ { h | (eff w'.1).store.HoldsLocally h }))
    (h : ∀ s w', Later me w w' → w'.1 = eff s → Safe B me i (next s) Q w') :
    Safe B me i (.step l eff next) Q w := by
  intro w' hw hinv hcond
  obtain ⟨hinv', hrely⟩ := heff w' ⟨hw, hinv⟩ hcond
  exact ⟨hinv', hrely, h w'.1 _
    ⟨(mirrorDiscipline Blob B me).rely_trans i _ _ _ hw hrely, hinv'⟩ rfl⟩

/-- A call that touches neither locations nor queue nor objects. -/
theorem safe_frame {l : Call} {eff : Site Blob → Site Blob} {next : Site Blob → Site.SProg Blob ε α}
    (heff : ∀ s, Store.SameHolding s.store (eff s).store ∧ (eff s).store.objects = s.store.objects)
    (h : ∀ s w', Later me w w' → w'.1 = eff s → Safe B me i (next s) Q w') :
    Safe B me i (.step l eff next) Q w :=
  safe_step (fun w' hw _ => inv_after_frame hw.inv (heff w'.1).1 (heff w'.1).2) h

/-- A query. -/
theorem safe_db {l : Call} {f : Store → α}
    (h : ∀ w', Later me w w' → Q (.ok (f w'.1.store)) w') : Safe B me i (Site.db l f) Q w := by
  refine safe_frame (fun s => ⟨⟨rfl, rfl, rfl⟩, rfl⟩) fun s w' hw hs => ?_
  have hs' : s = w'.1 := hs.symm
  subst hs'
  exact h w' hw

/-- A statement that touches neither blocks nor queue. -/
theorem safe_exec {l : Call} {f : Store → Store} {Q : Except ε Unit → Mirror Blob → Prop}
    (hf : ∀ s, Store.SameHolding s (f s) ∧ (f s).objects = s.objects)
    (h : ∀ w', Later me w w' → Q (.ok ()) w') : Safe B me i (Site.exec l f) Q w :=
  safe_frame (fun s => hf s.store) fun _ w' hw _ => h w' hw

/-- A question to the outside. -/
theorem safe_ask {l : Call} {f : Site Blob → ℕ → α}
    (h : ∀ a w', Later me w w' → Q (.ok a) w') : Safe B me i (Site.ask l f) Q w :=
  safe_frame (fun _ => ⟨⟨rfl, rfl, rfl⟩, rfl⟩) fun _ w' hw _ => h _ w' hw

/-- The time. -/
theorem safe_nowMillis {Q : Except ε ℤ → Mirror Blob → Prop}
    (h : ∀ a w', Later me w w' → Q (.ok a) w') : Safe B me i (Site.nowMillis) Q w :=
  Safe.bind (safe_ask fun _ w' hw => h _ w' hw)

/-- A put of the blob store. -/
theorem safe_blobPut {hash data : Bytes} {Q : Except Str Bytes → Mirror Blob → Prop}
    (h : ∀ r w', Later me w w' → Q r w') : Safe B me i (Site.blobPut hash data) Q w := by
  refine Safe.bind (safe_frame (fun s => ?_) fun s w' hw _ => ?_)
  · dsimp only
    split <;> exact ⟨⟨rfl, rfl, rfl⟩, rfl⟩
  · exact Safe.ofExcept (h _ w' hw)

/-- The row of a block: it has been held from now on. -/
theorem safe_storeLocalBlock {hash fid : Bytes} {size : ℤ} {Q : Except ε Unit → Mirror Blob → Prop}
    (h : ∀ w', Later me w w' → hash ∈ w'.2 → Q (.ok ()) w') :
    Safe B me i (Site.storeLocalBlock hash fid size) Q w := by
  refine Safe.bind (safe_ask fun ts w₁ hw₁ => ?_)
  refine safe_step (fun w₂ hw₂ _ => ?_) fun s w₂ hw₂ hs => ?_
  · have hheld := Store.holdsLocally_storeLocalBlock w₂.1.store ts hash fid size
    have hknown := Store.knownElsewhere_storeLocalBlock w₂.1.store ts hash fid size
    refine inv_after hw₂.inv rfl (fun b hb => (hknown b).2 hb)
      (fun b hb => .inl ((hknown b).1 hb)) (fun b hb => .inl hb)
      (fun b hb => (hknown b).2 (hw₂.inv.queued b hb)) fun b hb hmem => ?_
    exact (hheld b).2 (.inr (hw₂.inv.named b hb hmem))
  · refine h w₂ (hw₁.trans hw₂) (hw₂.inv.held hash ?_)
    rw [hs]
    exact (Store.holdsLocally_storeLocalBlock s.store ts hash fid size hash).2 (.inl rfl)

/-- Queueing a block that is known elsewhere. -/
theorem safe_enqueueReplication {hash : Bytes} {Q : Except ε Unit → Mirror Blob → Prop}
    (hk : w.1.store.KnownElsewhere hash) (h : ∀ w', Later me w w' → Q (.ok ()) w') :
    Safe B me i (Site.enqueueReplication hash) Q w := by
  refine Safe.bind (safe_nowMillis fun nowMs w₁ hw₁ => ?_)
  refine safe_step (fun w₂ hw₂ _ => ?_) fun s w₂ hw₂ _ => h w₂ (hw₁.trans hw₂)
  have hq := Store.queued_enqueueReplication w₂.1.store nowMs hash
  refine inv_after hw₂.inv rfl (fun b hb => hb) (fun b hb => .inl hb)
    (fun b hb => .inl ((hq b).2 (.inr hb))) (fun b hb => ?_) hw₂.inv.named
  rcases (hq b).1 hb with rfl | hb
  · exact hw₂.known (hw₁.known hk)
  · exact hw₂.inv.queued b hb

/-- Taking a block off the queue that was held. -/
theorem safe_dequeueReplication {hash : Bytes} {Q : Except ε Unit → Mirror Blob → Prop}
    (hmem : hash ∈ w.2) (h : ∀ w', Later me w w' → Q (.ok ()) w') :
    Safe B me i (Site.dequeueReplication hash) Q w := by
  refine safe_step (fun w₁ hw₁ _ => ?_) fun s w₁ hw₁ _ => h w₁ hw₁
  have hq := Store.queued_dequeueReplication w₁.1.store hash
  refine inv_after hw₁.inv rfl (fun b hb => hb) (fun b hb => .inl hb) (fun b hb => ?_)
    (fun b hb => hw₁.inv.queued b ((hq b).1 hb).2) hw₁.inv.named
  by_cases hb' : b = hash
  · exact .inr (hb' ▸ hw₁.was hmem)
  · exact .inl ((hq b).2 ⟨hb', hb⟩)

/-- An entry that is put off stays queued. -/
theorem safe_deferReplication {entry : ReplicationEntry} {Q : Except ε Unit → Mirror Blob → Prop}
    (h : ∀ w', Later me w w' → Q (.ok ()) w') :
    Safe B me i (Site.deferReplication entry) Q w := by
  refine Safe.bind (safe_nowMillis fun nowMs w₁ hw₁ => ?_)
  refine safe_step (fun w₂ hw₂ _ => ?_) fun s w₂ hw₂ _ => h w₂ (hw₁.trans hw₂)
  have hq := Store.queued_deferReplication w₂.1.store nowMs entry
  exact inv_after hw₂.inv rfl (fun b hb => hb) (fun b hb => .inl hb)
    (fun b hb => .inl ((hq b).2 hb)) (fun b hb => hw₂.inv.queued b ((hq b).1 hb)) hw₂.inv.named

/-- Deleting a block that is not named: what was held stays recorded. -/
theorem safe_deleteLocalBlock {hash : Bytes} {Q : Except ε Bool → Mirror Blob → Prop}
    (h : ∀ a w', Later me w w' → Q (.ok a) w') :
    Safe B me i (Site.deleteLocalBlock hash) Q w := by
  refine safe_step (fun w₁ hw₁ hcond => ?_) fun s w₁ hw₁ _ => h _ w₁ hw₁
  have hheld := Store.holdsLocally_deleteLocalBlock w₁.1.store hash
  have hknown := Store.knownElsewhere_deleteLocalBlock w₁.1.store hash
  refine inv_after hw₁.inv rfl (fun b hb => (hknown b).2 hb)
    (fun b hb => .inl ((hknown b).1 hb)) (fun b hb => .inl hb)
    (fun b hb => (hknown b).2 (hw₁.inv.queued b hb)) fun b hb hmem => (hheld b).2 ⟨?_, ?_⟩
  · rintro rfl
    exact hcond hb
  · exact hw₁.inv.named b hb hmem

end Mirror
end Shardscape
