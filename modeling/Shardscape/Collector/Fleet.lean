/-
# A fleet of sites

The sites of `Shardscape.Backend.Jobs`, as long as all that a site hears of the facts of others it
has pulled itself, a page at a time.

Announcements are the only thing that travels, and deletions do not.  `Change` says what one
event does to the stores of the sites.
-/

import Shardscape.Backend.Jobs
import Shardscape.Collector.Locations

namespace Shardscape

open Lib

variable {ι κ : Type} {Blob : BlobStore}

/-! ### A page of facts -/

namespace Store

/-- `max_seq` is the number of some fact of the page. -/
theorem maxSeq_applyPage_le {B : Blake3} {nowMs : ℤ} {page : List FactRecord} {s : Store}
    {n bound : ℕ} (hn : n ≤ bound) (hpage : ∀ rec ∈ page, rec.seq ≤ bound) :
    (applyPage B nowMs page s n).2.1 ≤ bound := by
  induction page generalizing s n with
  | nil => exact hn
  | cons rec page ih =>
    rw [List.forall_mem_cons] at hpage
    rw [applyPage]
    cases s.applyFact B nowMs rec with
    | ok s' => exact ih (max_le hn hpage.1) hpage.2
    | error e => exact ih hn hpage.2

/-- What a page does to the rows of blocks, and what it leaves. -/
theorem foldl_applyFactD (B : Blake3) (nowMs : ℤ) (page : List FactRecord) (s : Store) :
    (∀ h loc, (page.foldl (fun s rec => s.applyFactD B nowMs rec) s).Listed h loc ↔
        (∃ rec ∈ page, rec.fact.announced = some (h, loc)) ∨ s.Listed h loc) ∧
      (s.Matched → (page.foldl (fun s rec => s.applyFactD B nowMs rec) s).Matched) ∧
      (page.foldl (fun s rec => s.applyFactD B nowMs rec) s).factLog = s.factLog ∧
      (page.foldl (fun s rec => s.applyFactD B nowMs rec) s).replicationCursors =
        s.replicationCursors ∧
      (page.foldl (fun s rec => s.applyFactD B nowMs rec) s).localLocationId =
        s.localLocationId := by
  induction page generalizing s with
  | nil => exact ⟨by simp, id, rfl, rfl, rfl⟩
  | cons rec page ih =>
    obtain ⟨hlisted, hmatched, hlog, hcur, hid⟩ := ih (s.applyFactD B nowMs rec)
    obtain ⟨hlog₁, hcur₁, hid₁⟩ := frame_applyFactD B s nowMs rec
    rw [List.foldl_cons, hlog, hcur, hid]
    refine ⟨fun h loc => ?_, fun hs => hmatched (hs.applyFactD B nowMs rec), hlog₁, hcur₁, hid₁⟩
    rw [hlisted, listed_applyFactD, List.exists_mem_cons_iff, or_left_comm, or_assoc]

/-- What a pull does to the rows of blocks and to the cursor, and what it leaves. -/
structure Pulled (s peer s' : Store) : Prop where
  localLocationId : s'.localLocationId = s.localLocationId
  factLog : s'.factLog = s.factLog
  matched : s.Matched → s'.Matched
  listed : ∀ h loc, s'.Listed h loc ↔
    (∃ rec ∈ peer.factsSince (s.getCursor peer.localLocationId) factSyncBatch,
      rec.fact.announced = some (h, loc)) ∨ s.Listed h loc
  others : ∀ id, id ≠ peer.localLocationId → s'.getCursor id = s.getCursor id
  cursor : ∀ bound, s.getCursor peer.localLocationId ≤ bound →
    (∀ rec ∈ peer.factsSince (s.getCursor peer.localLocationId) factSyncBatch, rec.seq ≤ bound) →
    s'.getCursor peer.localLocationId ≤ bound

/-- A pull writes what the facts of the page say, and moves the cursor. -/
theorem pulled_pullPage (B : Blake3) (nowMs : ℤ) (s peer : Store) :
    Pulled s peer (pullPage B nowMs s peer).1 := by
  unfold pullPage
  dsimp only
  split
  · next hnil =>
      refine ⟨rfl, rfl, id, fun h loc => ?_, fun _ _ => rfl, fun _ hn _ => hn⟩
      rw [hnil]
      simp
  · next rec page hcons =>
      obtain ⟨hlisted, hmatched, hlog, hcur, hid⟩ := foldl_applyFactD B nowMs (rec :: page) s
      rw [← fst_applyPage B nowMs (rec :: page) s (s.getCursor peer.localLocationId)]
        at hlisted hmatched hlog hcur hid
      have hget : ∀ id, (applyPage B nowMs (rec :: page) s
          (s.getCursor peer.localLocationId)).1.getCursor id = s.getCursor id := by
        intro id
        rw [getCursor, hcur, getCursor]
      refine ⟨hid, hlog, hmatched, hcons ▸ hlisted, fun id hne => ?_, fun bound hn hpage => ?_⟩
      · rw [getCursor_setCursor, if_neg hne, hget]
      · rw [getCursor_setCursor, if_pos rfl, hget]
        exact max_le hn (maxSeq_applyPage_le hn (hcons ▸ hpage))

end Store

namespace Fleet

/-! ### What an event can do -/

/-- What an event can do to the tables of the site it is at. -/
inductive Change (B : Blake3) (σ : ι → Store) (i : ι) : Option Call → Store → Prop
  | stored (hash : Bytes) (ts : ℤ) (fid : Bytes) (size : ℤ) :
      Change B σ i (some (.storeLocalBlock hash)) ((σ i).storeLocalBlock ts hash fid size)
  | deleted (hash : Bytes) :
      Change B σ i (some (.deleteLocalBlock hash)) ((σ i).deleteLocalBlock hash).1
  | unmoved (l : Option Call) (s : Store) (h : Store.Unmoved (σ i) s) : Change B σ i l s
  | pulled (peer : ι) (nowMs : ℤ) (hne : peer ≠ i) :
      Change B σ i none (Store.pullPage B nowMs (σ i) (σ peer)).1

/-- What a site does, in terms of its tables: it stores or deletes a block, or pulls, or leaves the
rows of blocks alone. -/
theorem change_of_sites {S : StorageBackend} {J : PolicyJson} {w : Sites ι κ Blob} {i : ι}
    {l : Option Call} {s : Site Blob} (h : w.Change S J Site.OwnCall i l s) :
    Change S.blake3 w.stores i l s.store := by
  cases h with
  | same => exact .unmoved _ _ (.frame rfl rfl rfl rfl rfl)
  | called hown heff =>
    rcases Store.stores_cases heff.store hown with ⟨hash, ts, fid, size, rfl, hst⟩ |
      ⟨hash, rfl, hst⟩ | hun
    · rw [hst]
      exact .stored hash ts fid size
    · rw [hst]
      exact .deleted hash
    · exact .unmoved _ _ hun
  | pulled peer nowMs hne => exact .pulled peer nowMs hne
  | created ts accessKey secretKey policy => exact .unmoved _ _ (.logged rfl rfl rfl rfl rfl rfl)
  | clocked clock => exact .unmoved _ _ (.frame rfl rfl rfl rfl rfl)

/-- **Every event** of a described fleet changes the tables of one site, as `Change`
says, and leaves a described fleet. -/
theorem step_cases [DecidableEq ι] [DecidableEq κ] {S : StorageBackend} {J : PolicyJson}
    {cfg : ι → SiteConfig} {w : Sites ι κ Blob} {e : SitesEvent ι κ}
    (h : w.Described Site.OwnCall) (he : e.hears = false) :
    (w.step S J cfg e).Described Site.OwnCall ∧
      ∃ i l s, (w.step S J cfg e).stores = Function.update w.stores i s ∧
        w.calls e = l.map (fun l => (i, l)) ∧ Change S.blake3 w.stores i l s := by
  obtain ⟨hdesc, i, l, s, hsite, hcalls, hchange⟩ := h.step (S := S) (J := J) cfg (e := e) <| by
    rintro i k job rfl
    exact makes_ownJob (cfg i) he
  refine ⟨hdesc, i, l, s.store, ?_, hcalls, change_of_sites hchange⟩
  funext j
  rw [Sites.stores, hsite]
  by_cases hj : j = i
  · subst hj
    rw [Function.update_self, Function.update_self]
  · rw [Function.update_of_ne hj, Function.update_of_ne hj]
    rfl

end Fleet
end Shardscape
