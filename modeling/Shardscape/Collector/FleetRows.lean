/-
# What the location rows of a fleet mean

Announcements travel between sites, and deletions do not.  A location row names a site
that has announced the block, at some time (`Inv.listed`), and what a site has heard of
a peer stays listed, whatever the peer has deleted since (`Inv.heard`).  Every event of
the fleet keeps this (`Inv.change`).
-/

import Shardscape.Collector.Fleet

namespace Shardscape
namespace Fleet

open Lib

variable {ι : Type}

/-- What a site has heard of a peer it has listed: the announcements up to its
cursor. -/
structure Heard (s peer : Store) (id : Str) : Prop where
  cursor : s.getCursor id ≤ peer.factLog.length
  rows : ∀ rec ∈ Store.factRecords peer.factLog, rec.seq ≤ s.getCursor id →
    ∀ h loc, rec.fact.announced = some (h, loc) → s.Listed h loc

/-- What the location rows of the sites mean. -/
structure Inv (ids : ι ↪ Str) (σ : ι → Store) : Prop where
  own : ∀ i, (σ i).localLocationId = ids i
  logs : ∀ i, ∀ e ∈ (σ i).factLog, ∀ h loc, e.2.announced = some (h, loc) → loc = ids i
  listed : ∀ i h loc, (σ i).Listed h loc → ∃ j, loc = ids j ∧ (σ j).Announced h
  matched : ∀ i, (σ i).Matched
  heard : ∀ i j, i ≠ j → Heard (σ i) (σ j) (ids j)

/-- Fresh sites. -/
theorem inv_new (ids : ι ↪ Str) : Inv ids fun i => Store.new (ids i) where
  own _ := rfl
  logs _ _ he := nomatch he
  listed _ _ _ h := nomatch h
  matched _ _ := iff_of_false (fun h => nomatch h) fun h => nomatch h
  heard _ _ _ := ⟨le_rfl, fun _ hrec => nomatch hrec⟩

/-- A peer logs something new: it has not been heard. -/
theorem Heard.append {s peer peer' : Store} {id : Str} (h : Heard s peer id)
    {new : List (ℤ × Fact)} (hlog : peer'.factLog = peer.factLog ++ new) : Heard s peer' id := by
  refine ⟨?_, fun rec hrec hseq => ?_⟩
  · rw [hlog, List.length_append]
    exact h.cursor.trans (Nat.le_add_right _ _)
  · rw [hlog, Store.mem_factRecords_append] at hrec
    rcases hrec with hold | ⟨hlt, -⟩
    · exact h.rows rec hold hseq
    · exact absurd (hseq.trans h.cursor) (by omega)

/-- A site that keeps its cursors and the rows of its peers. -/
theorem Heard.keep {s s' peer : Store} {id : Str} (h : Heard s peer id)
    (hcur : s'.replicationCursors = s.replicationCursors)
    (hkept : ∀ rec ∈ Store.factRecords peer.factLog, ∀ h loc,
      rec.fact.announced = some (h, loc) → s.Listed h loc → s'.Listed h loc) :
    Heard s' peer id := by
  have hsame : s'.getCursor id = s.getCursor id := by rw [Store.getCursor, hcur, Store.getCursor]
  refine ⟨hsame ▸ h.cursor, fun rec hrec hseq hash loc ha => ?_⟩
  exact hkept rec hrec hash loc ha (h.rows rec hrec (hsame ▸ hseq) hash loc ha)

/-- What a site has announced it has announced for good. -/
theorem announced_append {s s' : Store} {new : List (ℤ × Fact)}
    (h : s'.factLog = s.factLog ++ new) {hash : Bytes} (ha : s.Announced hash) :
    s'.Announced hash := by
  obtain ⟨e, he, loc, hloc⟩ := ha
  exact ⟨e, h ▸ List.mem_append_left _ he, loc, hloc⟩

variable {ids : ι ↪ Str} {σ : ι → Store} {i : ι} {s : Store}

/-- The facts of a site's log are its own. -/
theorem Inv.logged (h : Inv ids σ) {rec : FactRecord}
    (hrec : rec ∈ Store.factRecords (σ i).factLog) {hash : Bytes} {loc : Str}
    (ha : rec.fact.announced = some (hash, loc)) : loc = ids i ∧ (σ i).Announced hash := by
  have hmem := List.mem_of_getElem? (Store.mem_factRecords.1 hrec).2
  exact ⟨h.logs i _ hmem hash loc ha, _, hmem, loc, ha⟩

section Change

variable [DecidableEq ι]

variable {new : List (ℤ × Fact)}

/-- Announcements stay when a site does something. -/
theorem announced_update (hlog : s.factLog = (σ i).factLog ++ new) {j : ι} {hash : Bytes}
    (ha : (σ j).Announced hash) : (Function.update σ i s j).Announced hash := by
  by_cases hj : j = i
  · subst hj
    rw [Function.update_self]
    exact announced_append hlog ha
  · rwa [Function.update_of_ne hj]

/-- **A site changes**: it may log announcements of its own, list itself for them, list
a peer for what the peer has announced, and take itself off the lists. -/
theorem Inv.update (h : Inv ids σ) (hid : s.localLocationId = (σ i).localLocationId)
    (hlog : s.factLog = (σ i).factLog ++ new)
    (hnew : ∀ e ∈ new, ∀ h loc, e.2.announced = some (h, loc) → loc = ids i)
    (hlisted : ∀ h loc, s.Listed h loc →
      (σ i).Listed h loc ∨ ∃ j, loc = ids j ∧ (Function.update σ i s j).Announced h)
    (hmatched : s.Matched) (hheard : ∀ j, j ≠ i → Heard s (σ j) (ids j)) :
    Inv ids (Function.update σ i s) where
  own := (Function.forall_update_iff σ fun j t => t.localLocationId = ids j).2
    ⟨hid.trans (h.own i), fun j _ => h.own j⟩
  logs := by
    refine (Function.forall_update_iff σ fun j t => ∀ e ∈ t.factLog, ∀ h loc,
      e.2.announced = some (h, loc) → loc = ids j).2 ⟨fun e he => ?_, fun j _ => h.logs j⟩
    rw [hlog, List.mem_append] at he
    exact he.elim (h.logs i e) (hnew e)
  listed := by
    have hold : ∀ j hash loc, (σ j).Listed hash loc →
        ∃ k, loc = ids k ∧ (Function.update σ i s k).Announced hash := by
      intro j hash loc hl
      obtain ⟨k, hk, ha⟩ := h.listed j hash loc hl
      exact ⟨k, hk, announced_update hlog ha⟩
    refine (Function.forall_update_iff σ fun j t => ∀ h loc, t.Listed h loc →
      ∃ k, loc = ids k ∧ (Function.update σ i s k).Announced h).2 ⟨fun hash loc hl => ?_, fun j _ =>
        hold j⟩
    exact (hlisted hash loc hl).elim (hold i hash loc) id
  matched := (Function.forall_update_iff σ fun _ t => t.Matched).2
    ⟨hmatched, fun j _ => h.matched j⟩
  heard := by
    intro j k hjk
    by_cases hj : j = i
    · subst hj
      rw [Function.update_self, Function.update_of_ne hjk.symm]
      exact hheard k hjk.symm
    · rw [Function.update_of_ne hj]
      by_cases hk : k = i
      · subst hk
        rw [Function.update_self]
        exact (h.heard j k hjk).append hlog
      · rw [Function.update_of_ne hk]
        exact h.heard j k hjk

/-- A site that logs no other announcement than its own, and keeps the rows of its
peers. -/
theorem Inv.local (h : Inv ids σ) (hid : s.localLocationId = (σ i).localLocationId)
    (hcur : s.replicationCursors = (σ i).replicationCursors)
    (hlog : s.factLog = (σ i).factLog ++ new)
    (hnew : ∀ e ∈ new, ∀ h loc, e.2.announced = some (h, loc) → loc = ids i)
    (hlisted : ∀ h loc, s.Listed h loc → (σ i).Listed h loc ∨ (loc = ids i ∧ s.Announced h))
    (hkept : ∀ h loc, loc ≠ ids i → (σ i).Listed h loc → s.Listed h loc) (hmatched : s.Matched) :
    Inv ids (Function.update σ i s) := by
  refine h.update hid hlog hnew (fun hash loc hl => ?_) hmatched fun j hj => ?_
  · refine (hlisted hash loc hl).imp id fun ⟨hloc, ha⟩ => ⟨i, hloc, ?_⟩
    rwa [Function.update_self]
  · refine (h.heard i j hj.symm).keep hcur fun rec hrec hash loc ha hl => ?_
    refine hkept hash loc (fun hloc => hj (ids.injective ?_)) hl
    exact (h.logged hrec ha).1.symm.trans hloc

/-- **A page is pulled**: what the peer has announced is listed, up to the new cursor. -/
theorem Inv.pulled (h : Inv ids σ) {peer : ι} (hne : peer ≠ i)
    (hp : Store.Pulled (σ i) (σ peer) s) :
    Inv ids (Function.update σ i s) := by
  have hlog : s.factLog = (σ i).factLog ++ [] := by rw [hp.factLog, List.append_nil]
  refine h.update hp.localLocationId hlog (fun _ he => nomatch he) (fun hash loc hl => ?_)
    (hp.matched (h.matched i)) fun j hj => ?_
  · rcases (hp.listed hash loc).1 hl with ⟨rec, hrec, ha⟩ | hold
    · obtain ⟨hloc, hann⟩ := h.logged (Store.mem_factsSince.1 hrec).1 ha
      exact .inr ⟨peer, hloc, announced_update hlog hann⟩
    · exact .inl hold
  · have hkept : ∀ hash loc, (σ i).Listed hash loc → s.Listed hash loc :=
      fun hash loc hl => (hp.listed hash loc).2 (.inr hl)
    have hj' := h.heard i j hj.symm
    by_cases hpeer : j = peer
    · subst hpeer
      have hcur := hp.cursor
      rw [h.own j] at hcur
      refine ⟨hcur _ hj'.cursor fun rec hrec => ?_, fun rec hrec hseq hash loc ha => ?_⟩
      · exact Store.seq_le_of_mem_factRecords (Store.mem_factsSince.1 hrec).1
      · -- the page reaches up to the new cursor
        have hle : rec.seq ≤ (σ i).getCursor (ids j) + factSyncBatch :=
          hseq.trans (hcur _ (Nat.le_add_right _ _) fun r hr =>
            h.own j ▸ (Store.mem_factsSince.1 hr).2.2)
        rcases Nat.lt_or_ge ((σ i).getCursor (ids j)) rec.seq with hlt | hold
        · refine (hp.listed hash loc).2 (.inl ⟨rec, Store.mem_factsSince.2 ⟨hrec, ?_⟩, ha⟩)
          rw [h.own j]
          exact ⟨hlt, hle⟩
        · exact hkept hash loc (hj'.rows rec hrec hold hash loc ha)
    · have hcur : s.getCursor (ids j) = (σ i).getCursor (ids j) :=
        hp.others _ fun hid => hpeer (ids.injective (hid.trans (h.own peer)))
      refine ⟨hcur ▸ hj'.cursor, fun rec hrec hseq hash loc ha => ?_⟩
      exact hkept hash loc (hj'.rows rec hrec (hcur ▸ hseq) hash loc ha)

/-- **One event keeps the meaning of the rows.** -/
theorem Inv.change (h : Inv ids σ) {B : Blake3} {l : Option Call} (hc : Change B σ i l s) :
    Inv ids (Function.update σ i s) := by
  cases hc with
  | stored hash ts fid size =>
    have hfact : (Fact.blockAnnounce (hexEncode hash) (σ i).localLocationId (hexEncode fid)
        size).announced = some (hash, (σ i).localLocationId) := by simp [Fact.announced]
    refine h.local rfl rfl rfl (fun e he h' loc ha => ?_) (fun h' loc hl => ?_)
      (fun h' loc _ hl => ?_) ?_
    · obtain rfl := List.mem_singleton.1 he
      rw [hfact, Option.some.injEq, Prod.mk.injEq] at ha
      rw [← ha.2, h.own i]
    · rcases (Store.listed_storeLocalBlock _ _ _ _ _ _ _).1 hl with ⟨rfl, rfl⟩ | hold
      · exact .inr ⟨h.own i, _, List.mem_append_right _ List.mem_cons_self, _, hfact⟩
      · exact .inl hold
    · exact (Store.listed_storeLocalBlock _ _ _ _ _ _ _).2 (.inr hl)
    · exact (h.matched i).storeLocalBlock ts hash fid size
  | deleted hash =>
    have hlog : (σ i).factLog = (σ i).factLog ++ [] := (List.append_nil _).symm
    refine h.local rfl rfl hlog (fun _ he => absurd he List.not_mem_nil) (fun h' loc hl => ?_)
      (fun h' loc hloc hl => ?_) ?_
    · exact .inl ((Store.listed_deleteLocalBlock _ _ _ _).1 hl).2
    · refine (Store.listed_deleteLocalBlock _ _ _ _).2 ⟨fun hno => hloc ?_, hl⟩
      exact hno.2.trans (h.own i)
    · exact (h.matched i).deleteLocalBlock hash
  | unmoved _ _ hun =>
    obtain ⟨new, hlog, hnew⟩ := hun.factLog
    have hlisted : ∀ h' loc, s.Listed h' loc ↔ (σ i).Listed h' loc := by
      intro h' loc
      rw [Store.Listed, hun.blockLocations, Store.Listed]
    refine h.local hun.localLocationId hun.replicationCursors hlog (fun e he h' loc ha => ?_)
      (fun h' loc hl => .inl ((hlisted h' loc).1 hl)) (fun h' loc _ => (hlisted h' loc).2) ?_
    · rw [hnew e he] at ha
      cases ha
    · intro h'
      simp only [Store.Recorded, hun.blocks, hlisted]
      exact h.matched i h'
  | pulled peer nowMs hne => exact h.pulled hne (Store.pulled_pullPage B nowMs _ _)

end Change

/-! ### Runs -/

variable {κ : Type} {Blob : BlobStore}

/-- The fleet is described, and its rows mean what they mean. -/
def Sound (ids : ι ↪ Str) (w : Sites ι κ Blob) : Prop :=
  w.Described Site.OwnCall ∧ Inv ids w.stores

/-- Fresh sites that do nothing are sound. -/
theorem sound_start (s : ι → Site Blob) (hs : ∀ i, (s i).store = Store.new (ids i)) :
    Sound ids (Sites.start s : Sites ι κ Blob) := by
  refine ⟨Sites.described_start s, ?_⟩
  rw [show (Sites.start s : Sites ι κ Blob).stores = fun i => Store.new (ids i) from funext hs]
  exact inv_new ids

/-- And sites stay so in every event. -/
theorem Sound.step [DecidableEq ι] [DecidableEq κ] {S : StorageBackend} {J : PolicyJson}
    {cfg : ι → SiteConfig} {w : Sites ι κ Blob} (h : Sound ids w) {e : SitesEvent ι κ}
    (he : e.hears = false) : Sound ids (w.step S J cfg e) := by
  obtain ⟨hdesc, i, l, s, hstep, -, hc⟩ := step_cases h.1 he
  exact ⟨hdesc, hstep ▸ h.2.change hc⟩

end Fleet
end Shardscape
