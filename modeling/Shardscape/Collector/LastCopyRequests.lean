/-
# Requests and pulls keep the invariant

A put, a copy, a completed upload and a deletion end with a row that is logged, and
under the conditions of `Careful` the site can answer for its blocks (`wp_serve`).
A pull is a list of rows that are heard (`Inv.pullPage`).
-/

import Shardscape.Collector.LastCopyQuiet
import Shardscape.Collector.LastCopyWrites

namespace Shardscape
namespace Cluster

open Lib Lib.Prog StorageBackend

variable {ι : Type} [DecidableEq ι] {B : Blake3} {cfg : GcConfig} {L : Ledger ι} {σ : ι → Store}
  {i : ι}

/-- Two moves of one site are one. -/
@[simp] theorem moved_moved (st st' : Store) : moved (moved σ i st) i st' = moved σ i st' :=
  Function.update_idem ..

/-- A row written into the table, and a fact logged. -/
theorem hears_putObjectRow (st : Store) (bucket key : Str) (row : ObjectRow)
    (new : List (ℤ × Fact)) :
    Hears st { st.putObjectRow bucket key row with factLog := st.factLog ++ new } (bucket, key)
      row :=
  ⟨List.prefix_append _ _, fun k => Store.lookup_putObjectRow st bucket key row k, rfl,
    fun _ h => h, fun _ h => h⟩

variable {bucket key : Str}

/-- `insert_object` of blocks that are held and not marked, under a stamp of its
own. -/
theorem Inv.insertObject (h : Inv B cfg L σ) {ts : ℤ} {blocks : List Bytes} {size : ℤ} {etag : Str}
    (hlen : ∀ b ∈ blocks, b.length = 32) (hheld : ∀ b ∈ blocks, (σ i).HoldsLocally b)
    (hmark : ∀ b ∈ blocks, (σ i).pendingDeletions.lookup b = none)
    (hts : ∀ row ∈ (σ i).objects.lookup (bucket, key), row.updatedAt ≠ ts) :
    Inv B cfg L (moved σ i
      ((σ i).insertObject ts bucket (computeShardId B key) key blocks size etag)) := by
  refine h.wrote (e := (ts, .objectPut bucket key (blocks.map hexEncode) size etag))
    (hears_putObjectRow (σ i) bucket key
      (Store.objectRow (Store.encodeBlocks blocks) size etag (computeShardId B key) false ts) _)
    rfl (fun n => ?_) fun _ => ⟨fun b hb => ?_, hts⟩
  · simp only [Store.objectWrite, hexDecodeAll_map_hexEncode, Option.map_some]
  · rw [Store.objectRow, Store.decodeBlocks_encodeBlocks hlen] at hb
    exact ⟨hheld b hb, hmark b hb⟩

/-- `delete_object`. -/
theorem Inv.deleteObject (h : Inv B cfg L σ) (ts : ℤ) (bucket key : Str) :
    Inv B cfg L (moved σ i ((σ i).deleteObject B ts bucket key)) :=
  h.wrote (e := (ts, .objectDelete bucket key))
    (hears_putObjectRow (σ i) bucket key (Store.tombstone B key ts) _) rfl (fun _ => rfl)
    fun hdel => nomatch hdel

/-! ### Pulls -/

omit [DecidableEq ι] in
/-- Fewer facts count as applied. -/
theorem Inv.of_applied (h : Inv B cfg L σ) {L' : Ledger ι} (hnow : L'.now = L.now)
    (hat : L'.loggedAt = L.loggedAt) (happ : ∀ j, ∀ x ∈ L'.applied j, x ∈ L.applied j) :
    Inv B cfg L' σ where
  origin := h.origin
  heard j j' rec k row hw hj := h.heard j j' rec k row hw (hj.imp_right (happ j _))
  answers j rec k row b hw hdel hb :=
    (h.answers j rec k row b hw hdel hb).later hnow.ge fun _ _ _ _ _ => by rw [hat]
  parts := h.parts
  times j n := by rw [hat, hnow]; exact h.times j n
  known j j' n hn := h.known j j' n (happ j _ hn)

/-- The ledger notes the facts of the page for the site that pulled it. -/
theorem mem_noted {L : Ledger ι} {i peer j : ι} {seqs : List ℕ} {x : ι × ℕ} :
    x ∈ (noted L i peer seqs).applied j ↔
      (j = i ∧ x ∈ seqs.map (peer, ·)) ∨ x ∈ L.applied j := by
  by_cases hj : j = i
  · subst hj
    simp [noted]
  · simp [noted, hj]

/-- A pull without facts notes none. -/
@[simp] theorem noted_nil (L : Ledger ι) (i peer : ι) : noted L i peer [] = L := by
  simp [noted]

/-- A fact that writes no object row may count as applied. -/
theorem Inv.noted_of_silent (h : Inv B cfg L σ) {peer : ι} {rec₀ : FactRecord}
    (hrec : rec₀ ∈ Store.factRecords (σ peer).factLog) (hw₀ : Store.objectWrite B rec₀ = none) :
    Inv B cfg (noted L i peer [rec₀.seq]) σ where
  origin := h.origin
  heard j j' rec k row hw hj := by
    rcases hj with rfl | hj
    · exact h.heard j j rec k row hw (Or.inl rfl)
    · rcases mem_noted.1 hj with ⟨-, hx⟩ | hx
      · rw [List.map_singleton, List.mem_singleton, Prod.mk.injEq] at hx
        obtain ⟨rfl, hseq⟩ := hx
        obtain rfl := Store.eq_of_mem_factRecords hw.1 hrec hseq
        exact nomatch hw₀.symm.trans hw.2
      · exact h.heard j j' rec k row hw (Or.inr hx)
  answers j rec k row b hw hdel hb :=
    (h.answers j rec k row b hw hdel hb).later le_rfl fun _ _ _ _ _ => rfl
  parts := h.parts
  times := h.times
  known j j' n hn := by
    rcases mem_noted.1 hn with ⟨-, hx⟩ | hx
    · rw [List.map_singleton, List.mem_singleton, Prod.mk.injEq] at hx
      obtain ⟨rfl, rfl⟩ := hx
      exact Store.seq_le_of_mem_factRecords hrec
    · exact h.known j j' n hx

/-- **A fact of a peer is applied.** -/
theorem Inv.applyFact (h : Inv B cfg L σ) {peer : ι} {rec : FactRecord} (nowMs : ℤ)
    (hrec : rec ∈ Store.factRecords (σ peer).factLog) :
    Inv B cfg (noted L i peer [rec.seq]) (moved σ i ((σ i).applyFactD B nowMs rec)) := by
  rcases Store.applyFactD_cases B (σ i) nowMs rec with ⟨bucket, key, row, hw, -, heq⟩ |
    ⟨accessKey, row, hw, -, heq⟩ | ⟨hash, loc, fid, size, hw, -, heq⟩ | ⟨hw, -, heq⟩ <;> rw [heq]
  · have hh := hears_putObjectRow (σ i) bucket key row []
    rw [List.append_nil] at hh
    exact h.heardFact hh rfl ⟨hrec, hw⟩
  · exact (h.noted_of_silent hrec hw).quiet (Quiet.frame rfl rfl rfl rfl rfl rfl)
  · exact (h.noted_of_silent hrec hw).quiet (Quiet.applyAnnounce ..)
  · exact (h.noted_of_silent hrec hw).quiet (Quiet.refl _)

/-- **A page of facts** keeps the invariant, fact by fact. -/
theorem Inv.applyPage {peer : ι} (hne : peer ≠ i) (nowMs : ℤ) {page : List FactRecord}
    (hpage : ∀ rec ∈ page, rec ∈ Store.factRecords (σ peer).factLog) (maxSeq : ℕ)
    (h : Inv B cfg L σ) :
    Inv B cfg (noted L i peer (Store.applyPage B nowMs page (σ i) maxSeq).2.2)
      (moved σ i (Store.applyPage B nowMs page (σ i) maxSeq).1) := by
  induction page generalizing σ L maxSeq with
  | nil =>
    rw [Store.applyPage, noted_nil]
    exact h.quiet (Quiet.refl _)
  | cons rec page ih =>
    rw [List.forall_mem_cons] at hpage
    rw [Store.applyPage]
    cases hres : (σ i).applyFact B nowMs rec with
    | error e => exact ih hpage.2 maxSeq h
    | ok st =>
      have h₁ : Inv B cfg (noted L i peer [rec.seq]) (moved σ i st) := by
        have := h.applyFact (i := i) nowMs hpage.1
        rwa [Store.applyFactD_of_ok hres] at this
      have hpage₁ : ∀ r ∈ page, r ∈ Store.factRecords (moved σ i st peer).factLog := by
        rw [moved_of_ne hne]
        exact hpage.2
      have h₂ := ih hpage₁ (max maxSeq rec.seq) h₁
      rw [moved_self, moved_moved] at h₂
      refine h₂.of_applied rfl rfl fun j x hx => ?_
      simp only [mem_noted, List.map_cons, List.mem_cons, List.map_nil, List.not_mem_nil,
        or_false] at hx ⊢
      tauto

/-- **A pull keeps the invariant.** -/
theorem Inv.pullPage (h : Inv B cfg L σ) {peer : ι} (hne : peer ≠ i) (nowMs : ℤ) :
    Inv B cfg (noted L i peer (Store.pullPage B nowMs (σ i) (σ peer)).2)
      (moved σ i (Store.pullPage B nowMs (σ i) (σ peer)).1) := by
  unfold Store.pullPage
  dsimp only
  have hpage : ∀ rec ∈ (σ peer).factsSince ((σ i).getCursor (σ peer).localLocationId) factSyncBatch,
      rec ∈ Store.factRecords (σ peer).factLog := fun rec hrec =>
    (List.mem_filter.1 (List.mem_of_mem_take hrec)).1
  generalize (σ peer).factsSince ((σ i).getCursor (σ peer).localLocationId) factSyncBatch = page
    at hpage ⊢
  cases page with
  | nil =>
    rw [noted_nil]
    exact h.quiet (Quiet.refl _)
  | cons rec page =>
    have h₁ := h.applyPage hne nowMs hpage ((σ i).getCursor (σ peer).localLocationId)
    dsimp only
    generalize Store.applyPage B nowMs (rec :: page) (σ i)
      ((σ i).getCursor (σ peer).localLocationId) = r at h₁ ⊢
    have hcursor : Quiet (moved σ i r.1 i) (r.1.setCursor (σ peer).localLocationId r.2.1) := by
      rw [moved_self]
      exact Quiet.frame rfl rfl rfl rfl rfl rfl
    have h₂ := h₁.quiet hcursor
    rwa [moved_moved] at h₂

/-! ### Requests -/

variable {Blob : BlobStore} {S : StorageBackend} {s : Site Blob} {micros : ℕ}

/-- Where a step may end. -/
abbrev Kept (S : StorageBackend) (L : Ledger ι) (σ : ι → Store) (i : ι) (s : Site Blob) : Prop :=
  Inv S.blake3 S.gc L (moved σ i s.store)

/-- A quiet step keeps the invariant. -/
theorem Inv.kept (h : Inv S.blake3 S.gc L σ) {s s' : Site Blob} (hs : σ i = s.store)
    (hq : SiteQuiet s s') : Kept S L σ i s' :=
  h.quiet (hs ▸ hq.store)

/-- A manifest is written at the end of a request, of blocks that are held by then. -/
theorem wp_insertObject (h : Inv S.blake3 S.gc L σ) (hs : σ i = s.store)
    (hmicros : ∀ n, s.oracle.micros n = micros) {s₁ : Site Blob} (hq : SiteQuiet s s₁)
    {blocks : List Bytes} {size : ℤ} {etag : Str} (hlen : ∀ b ∈ blocks, b.length = 32)
    (hheld : ∀ b ∈ blocks, s₁.store.HoldsLocally b)
    (hmark : ∀ b ∈ blocks, s.store.pendingDeletions.lookup b = none)
    (hts : ∀ row ∈ s.store.objects.lookup (bucket, key),
      row.updatedAt ≠ s.clock.nowMicros micros) :
    wp (Site.insertObject bucket (computeShardId S.blake3 key) key blocks size etag :
      Site.SProg Blob S3Error Unit) (fun r s' => r = .ok () ∧ Kept S L σ i s') s₁ := by
  refine wp_bind.2 ((Site.wp_ask _ _).2 ((Site.wp_exec _ _).2 ⟨rfl, ?_⟩))
  have h₁ : Inv S.blake3 S.gc L (moved (moved σ i s₁.store) i
      ((moved σ i s₁.store i).insertObject (s.clock.nowMicros micros) bucket
        (computeShardId S.blake3 key) key blocks size etag)) := by
    refine (h.kept hs hq).insertObject hlen ?_ ?_ ?_ <;> rw [moved_self]
    · exact hheld
    · rw [hq.store.pending]
      exact hmark
    · rw [hq.store.objects]
      exact hts
  rw [moved_moved, moved_self] at h₁
  rw [hq.oracle, hq.clock, hmicros]
  exact h₁

/-- What a request does once it has received a body, whose blocks are held by then. -/
theorem wp_receiveBody_bind {α : Type} {body : List (Except Str Bytes)}
    {k : Upload → Site.SProg Blob S3Error α} {Q : Except S3Error α → Site Blob → Prop}
    (herror : ∀ e s₁, SiteQuiet s s₁ → Q (.error e) s₁)
    (hok : ∀ u s₁, SiteQuiet s s₁ →
      u.blockHashes = (S.chunker.chunks S.fastcdc body []).map S.blake3.hash →
      (∀ b ∈ u.blockHashes, b.length = 32) → (∀ b ∈ u.blockHashes, s₁.store.HoldsLocally b) →
      wp (k u) Q s₁) : wp (S.receiveBody body >>= k) Q s := by
  refine wp_bind.2 (wp_mono (wp_receiveBody S body) ?_)
  rintro r s₁ ⟨h₁, hreceived⟩
  cases r with
  | error e => exact herror e s₁ h₁
  | ok u =>
    obtain ⟨hu, hheld⟩ := hreceived u rfl
    refine hok u s₁ h₁ hu (fun b hb => ?_) hheld
    rw [hu] at hb
    exact S.blake3.length_of_mem_map_hash hb

variable (h : Inv S.blake3 S.gc L σ) (hs : σ i = s.store)
include h hs

/-- A PUT holds its blocks before it names them. -/
theorem wp_putObject
    (hmicros : ∀ n, s.oracle.micros n = micros) {body : Option (List (Except Str Bytes))}
    (hcare : CarefulRequest S s.store (s.clock.nowMicros micros) (.putObject bucket key body)) :
    wp (S.serve (.putObject bucket key body)) (fun _ s' => Kept S L σ i s') s := by
  have hquiet : ∀ {s' : Site Blob}, SiteQuiet s s' → Kept S L σ i s' := h.kept hs
  have htick := SiteQuiet.ticked s (s.tick + 1)
  refine wp_bind.2 (wp_bind.2 (wp_checkWritable.2 ?_))
  cases s.oracle.guardTrip s.tick with
  | some trip => exact hquiet htick
  | none =>
    cases body with
    | none => exact hquiet htick
    | some body =>
      refine wp_receiveBody_bind (fun e s₁ h₁ => hquiet (htick.trans h₁))
        fun u s₁ h₁ hu hlen hheld => ?_
      obtain ⟨hmark, hts, -⟩ := hcare _ rfl
      refine wp_bind.2 (wp_mono
        (wp_insertObject h hs hmicros (htick.trans h₁) hlen hheld ?_ hts)
        fun r s₂ h₂ => ?_)
      · rw [hu]
        exact hmark
      · obtain ⟨rfl, h₂⟩ := h₂
        exact h₂

/-- A copy names blocks that its source names. -/
theorem wp_copyObject (hmicros : ∀ n, s.oracle.micros n = micros) {source : CopySource}
    (hcare : CarefulRequest S s.store (s.clock.nowMicros micros) (.copyObject source bucket key)) :
    wp (S.serve (.copyObject source bucket key)) (fun _ s' => Kept S L σ i s') s := by
  have hsame : Kept S L σ i s := h.kept hs (SiteQuiet.refl s)
  refine wp_bind.2 ?_
  cases source with
  | accessPoint => exact hsame
  | bucket srcBucket srcKey =>
    refine wp_bind.2 ((Site.wp_db _ _).2 ?_)
    cases hget : s.store.getObject srcBucket srcKey with
    | none => exact hsame
    | some m =>
      obtain ⟨blocks, size, etag⟩ := m
      obtain ⟨hmark, hts, hheld⟩ := hcare ((bucket, key), blocks) (by simp [manifestOf, hget])
      have hlen : ∀ b ∈ blocks, b.length = 32 := by
        obtain ⟨row, -, -, rfl, -⟩ := Store.getObject_eq_some_iff.1 hget
        exact fun b hb => Store.length_of_mem_decodeBlocks hb
      refine wp_bind.2 (wp_mono (wp_insertObject h hs hmicros (SiteQuiet.refl s) hlen
        (hheld trivial) hmark hts) fun r s₁ h₁ => ?_)
      obtain ⟨rfl, h₁⟩ := h₁
      exact h₁

/-- A part names blocks that are held. -/
theorem wp_uploadPart {bucket : Str}
    {uploadId : Option Uuid} {partNumber : ℤ} {body : Option (List (Except Str Bytes))} :
    wp (S.serve (.uploadPart bucket uploadId partNumber body)) (fun _ s' => Kept S L σ i s') s := by
  have hquiet : ∀ {s' : Site Blob}, SiteQuiet s s' → Kept S L σ i s' := h.kept hs
  have htick := SiteQuiet.ticked s (s.tick + 1)
  refine wp_bind.2 (wp_bind.2 (wp_checkWritable.2 ?_))
  cases s.oracle.guardTrip s.tick with
  | some trip => exact hquiet htick
  | none =>
    refine wp_named_bind (fun id key _ _ => ?_) fun _ e => hquiet htick
    cases body with
    | none => exact hquiet htick
    | some body =>
      refine wp_receiveBody_bind (fun e s₁ h₁ => hquiet (htick.trans h₁))
        fun u s₁ h₁ _ hlen hheld => ?_
      exact hquiet ((htick.trans h₁).trans
        (.of_store s₁ (Quiet.insertPart _ _ _ _ _ hlen hheld)))

/-- A completed upload names the blocks of its parts, which are held. -/
theorem wp_completeMultipartUpload
    (hmicros : ∀ n, s.oracle.micros n = micros) {uploadId : Option Uuid}
    (hcare : CarefulRequest S s.store (s.clock.nowMicros micros)
      (.completeMultipartUpload bucket key uploadId)) :
    wp (S.serve (.completeMultipartUpload bucket key uploadId))
      (fun _ s' => Kept S L σ i s') s := by
  have hsame : Kept S L σ i s := h.kept hs (SiteQuiet.refl s)
  refine wp_bind.2 (wp_named_bind (fun id storedKey hid _ => ?_) fun _ e => hsame)
  cases hid
  dsimp only
  split_ifs with hkey
  · exact hsame
  · refine wp_bind.2 ((Site.wp_db _ _).2 (wp_bind.2 ((wp_ofExcept _).2 ?_)))
    cases hgather : gatherParts (sortBy Prod.fst (s.store.listParts bucket id)) with
    | error e => exact hsame
    | ok r =>
      obtain ⟨blocks, size, etags⟩ := r
      obtain ⟨hmark, hts, -⟩ := hcare _ rfl
      -- a part of the upload names each block
      have hpart : ∀ b ∈ blocks, ∃ p ∈ s.store.listParts bucket id, b ∈ p.2.1 := by
        rw [(gatherParts_ok hgather).1]
        intro b hb
        obtain ⟨p, hp, hb⟩ := List.mem_flatMap.1 hb
        exact ⟨p, mem_sortBy.1 hp, hb⟩
      have hnamed : ∀ b ∈ blocks, b.length = 32 ∧ s.store.NamedByPart b := by
        intro b hb
        obtain ⟨p, hp, hb⟩ := hpart b hb
        obtain ⟨row, hrow, hp⟩ := Store.mem_listParts.1 hp
        rw [hp] at hb
        exact ⟨Store.length_of_mem_decodeBlocks hb, _, row, hrow, hb⟩
      refine wp_bind.2 (wp_mono (wp_insertObject h hs hmicros (SiteQuiet.refl s)
        (fun b hb => (hnamed b hb).1) (fun b hb => ?_) (fun b hb => ?_) hts)
        fun r s₁ h₁ => ?_)
      · have := h.parts i b
        rw [hs] at this
        exact this (hnamed b hb).2
      · obtain ⟨p, hp, hb⟩ := hpart b hb
        exact hmark b (List.mem_flatMap.2 ⟨p, hp, hb⟩)
      · obtain ⟨rfl, h₁⟩ := h₁
        have hq : Quiet (moved σ i s₁.store i)
            (s₁.store.deleteMultipartUpload bucket id) := by
          rw [moved_self]
          exact Quiet.deleteMultipartUpload _ _ _
        have h₂ := h₁.quiet hq
        rwa [moved_moved] at h₂

/-- **A request keeps the invariant**, if it is careful. -/
theorem wp_serve (hmicros : ∀ n, s.oracle.micros n = micros) {r : Request}
    (hcare : CarefulRequest S s.store (s.clock.nowMicros micros) r) :
    wp (S.serve r) (fun _ s' => Kept S L σ i s') s := by
  have hquiet : ∀ {s' : Site Blob}, SiteQuiet s s' → Kept S L σ i s' := h.kept hs
  cases r with
  | putObject bucket key body => exact wp_putObject h hs hmicros hcare
  | copyObject source bucket key => exact wp_copyObject h hs hmicros hcare
  | deleteObject bucket key =>
    have h₁ := h.deleteObject (i := i) (s.clock.nowMicros (s.oracle.micros s.tick)) bucket key
    rw [hs] at h₁
    exact h₁
  | createMultipartUpload bucket key uploadId =>
    exact hquiet (.of_store s (Quiet.frame rfl rfl rfl rfl rfl rfl))
  | uploadPart bucket uploadId partNumber body => exact wp_uploadPart h hs
  | completeMultipartUpload bucket key uploadId =>
    exact wp_completeMultipartUpload h hs hmicros hcare
  | abortMultipartUpload bucket uploadId =>
    cases uploadId with
    | none => exact hquiet (SiteQuiet.refl s)
    | some id => exact hquiet (.of_store s (Quiet.deleteMultipartUpload _ bucket id))

end Cluster
end Shardscape
