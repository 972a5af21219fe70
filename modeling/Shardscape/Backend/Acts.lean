/-
# What a site does, as one step

Any number of sites take whole requests of clients, reads, pulls of a page of a peer's facts
(one turn of the loop of `sync_facts_once` in `src/main.rs`), drains and sweeps, and record
peers, in any order.  `record_peer` is what `/internal/join`, the joining of a cluster and the
gossip of `src/main.rs` come to; a drain and a read fetch only from peers that are recorded.

Each act is one step of one site (`ActEvent.step`), with the answers the world gives it: the
clock, what peers send, the disk guard and failing puts.
-/

import Shardscape.Backend.Drain
import Shardscape.Backend.Handlers
import Mathlib.Logic.Function.Basic

namespace Shardscape

open Lib

variable {ι : Type} {Blob : BlobStore}

/-! ### Pulls -/

/-- A page of facts applied one by one: the store, `max_seq`, and the numbers of the
facts whose `apply_fact` succeeded. -/
def Store.applyPage (B : Blake3) (nowMs : ℤ) :
    List FactRecord → Store → ℕ → Store × ℕ × List ℕ
  | [], s, maxSeq => (s, maxSeq, [])
  | rec :: page, s, maxSeq =>
    match s.applyFact B nowMs rec with
    | .ok s' =>
      let r := applyPage B nowMs page s' (max maxSeq rec.seq)
      (r.1, r.2.1, rec.seq :: r.2.2)
    | .error _ => applyPage B nowMs page s maxSeq

/-- One turn of the loop of `sync_facts_once`: the store, and the numbers of the facts that
were applied. -/
def Store.pullPage (B : Blake3) (nowMs : ℤ) (s peer : Store) : Store × List ℕ :=
  let after := s.getCursor peer.localLocationId
  match peer.factsSince after factSyncBatch with
  | [] => (s, [])
  | rec :: page =>
    let r := applyPage B nowMs (rec :: page) s after
    (r.1.setCursor peer.localLocationId r.2.1, r.2.2)

/-- The store after a page: its facts applied one after the other. -/
theorem Store.fst_applyPage (B : Blake3) (nowMs : ℤ) (page : List FactRecord) (s : Store) (n : ℕ) :
    (applyPage B nowMs page s n).1 = page.foldl (fun s rec => s.applyFactD B nowMs rec) s := by
  induction page generalizing s n with
  | nil => rfl
  | cons rec page ih =>
    rw [applyPage, List.foldl_cons, Store.applyFactD]
    cases s.applyFact B nowMs rec with
    | ok s' => exact ih s' _
    | error e => exact ih s n

/-- **What a pull keeps**: what the facts of the peer's log keep when they are applied, and a new
cursor keeps. -/
theorem Store.pullPage_induction {B : Blake3} {nowMs : ℤ} {s peer : Store} {P : Store → Prop}
    (hs : P s)
    (hfact : ∀ t rec, rec ∈ factRecords peer.factLog → P t → P (t.applyFactD B nowMs rec))
    (hcursor : ∀ t id n, P t → P (t.setCursor id n)) : P (pullPage B nowMs s peer).1 := by
  have hpage : ∀ page : List FactRecord, (∀ rec ∈ page, rec ∈ factRecords peer.factLog) →
      P (page.foldl (fun t rec => t.applyFactD B nowMs rec) s) := by
    intro page hmem
    exact List.foldlRecOn page _ hs fun t ht rec hrec => hfact t rec (hmem rec hrec) ht
  have hlog : ∀ rec ∈ peer.factsSince (s.getCursor peer.localLocationId) factSyncBatch,
      rec ∈ factRecords peer.factLog := fun rec hrec => (mem_factsSince.1 hrec).1
  unfold pullPage
  dsimp only
  split
  · exact hs
  · next rec page hcons =>
      rw [fst_applyPage]
      exact hcursor _ _ _ (hpage _ (hcons ▸ hlog))

/-! ### Acts -/

/-- What a site does. -/
inductive SiteAct (ι : Type) where
  | request (r : StorageBackend.Request)
  | get (bucket key : Str) (range : Option Range)
  | pull (peer : ι)
  | drain
  | sweep (force : Bool)
  | recordPeer (locationId apiUrl : Str)

/-- A step: who does what, with which answers of the world. -/
structure ActEvent (ι : Type) where
  site : ι
  act : SiteAct ι
  oracle : Oracle

namespace ActEvent

/-- The site that takes a step, with the answers it will get. -/
def before (c : ι → Site Blob) (e : ActEvent ι) : Site Blob :=
  { c e.site with oracle := e.oracle, tick := 0 }

/-- The clock of a pull. -/
def nowMs (c : ι → Site Blob) (e : ActEvent ι) : ℤ :=
  ((c e.site).clock.nowMicros (e.oracle.micros 0)).tdiv 1000

/-- What a pull leaves: nothing happens on a pull from oneself. -/
def pulled [DecidableEq ι] (S : StorageBackend) (c : ι → Site Blob) (e : ActEvent ι) (peer : ι) :
    Store × List ℕ :=
  if peer = e.site then ((c e.site).store, [])
  else Store.pullPage S.blake3 (e.nowMs c) (c e.site).store (c peer).store

/-- The drain of a site. -/
def drain (S : StorageBackend) (s : Site Blob) : Site.SProg Blob Str Unit :=
  Site.drainReplicationQueue S.gc s.store.localLocationId

/-- The site after its step. -/
def after [DecidableEq ι] (S : StorageBackend) (c : ι → Site Blob) (e : ActEvent ι) : Site Blob :=
  match e.act with
  | .request r => ((S.serve r).exec (e.before c)).1
  | .get bucket key range => ((StorageBackend.getObject bucket key range).exec (e.before c)).1
  | .pull peer => { e.before c with store := (e.pulled S c peer).1 }
  | .drain => ((drain S (c e.site)).exec (e.before c)).1
  | .sweep force =>
    ((Site.sweepOrphanedBlocks S.gc force : Site.SProg Blob Str Unit).exec (e.before c)).1
  | .recordPeer locationId apiUrl =>
    ((Site.recordPeer locationId apiUrl : Site.SProg Blob Str Unit).exec (e.before c)).1

/-- One step. -/
def step [DecidableEq ι] (S : StorageBackend) (c : ι → Site Blob) (e : ActEvent ι) :
    ι → Site Blob :=
  Function.update c e.site (e.after S c)

/-- **What one step keeps at every site**, from what it does at the site that takes it. -/
theorem step_forall [DecidableEq ι] {S : StorageBackend} {c : ι → Site Blob} {e : ActEvent ι}
    {P : ι → Site Blob → Prop} (h : ∀ i, P i (c i)) (hafter : P e.site (e.after S c)) (i : ι) :
    P i (e.step S c i) :=
  (Function.forall_update_iff c P).2 ⟨hafter, fun j _ => h j⟩ i

end ActEvent
end Shardscape
