/-
# How a site represents bodies

`Represents` ties the tables and the blob store of a site to the bodies it stands
for.  Every block held has its bytes in the blob store and its size in its row;
every live manifest and every part is a list of blocks that are held and whose
bytes, put together, are the body; and every object row is older than the next
clock reading, so that the next write of the key wins.

A sweep deletes blocks for good, but only blocks that no live manifest and no part
names, so it leaves the bodies alone (`wp_sweepOrphanedBlocks`), forced or not.  The
hash is assumed to tell the chunks `D` of the run apart.
-/

import Shardscape.Refinement.Bodies
import Shardscape.Refinement.Intact
import Mathlib.Order.Monotone.Basic

namespace Shardscape

open Lib Function

variable {Blob : BlobStore} {S : StorageBackend} {L : Blob.Lawful} {D : Set Bytes}
  {s s' : Site Blob} {b : Bodies}

/-- A stored list of blocks, all of them held, is the body. -/
def Manifest (B : Blake3) (D : Set Bytes) (s : Store) (raw : Bytes) (size : ℤ) (body : Bytes) :
    Prop :=
  ∃ ds : List Bytes, raw = Store.encodeBlocks (ds.map B.hash) ∧
    (∀ d ∈ ds, d ∈ D ∧ s.HoldsLocally (B.hash d)) ∧ ds.flatten = body ∧ size = body.length

/-- The row of a key and the body under it. -/
def ObjectIs (B : Blake3) (D : Set Bytes) (s : Store) (row : Option ObjectRow) :
    Option Bytes → Prop
  | none => ∀ r, row = some r → r.deleted = true
  | some body => ∃ r, row = some r ∧ r.deleted = false ∧ Manifest B D s r.blocks r.size body

/-- The row of a part and its body. -/
def PartIs (B : Blake3) (D : Set Bytes) (s : Store) (row : Option PartRow) :
    Option Bytes → Prop
  | none => row = none
  | some body => ∃ r, row = some r ∧ Manifest B D s r.blocks r.size body ∧
      ∃ digest, r.etag = hexEncode digest

/-- The site `s` stands for the bodies `b`: its blocks are what they are called, its rows name the
blocks of the bodies, and its clock and its disk go on to serve it. -/
structure Represents (S : StorageBackend) (L : Blob.Lawful) (D : Set Bytes) (s : Site Blob)
    (b : Bodies) : Prop extends Intact S.blake3 L D s where
  micros : StrictMono s.oracle.micros
  puts : ∀ n, s.oracle.putFails n = none
  objects : ∀ k, ObjectIs S.blake3 D s.store (s.store.objects.lookup k) (b.objects k)
  uploads : ∀ u, s.store.multipartUploads.lookup u = b.uploads u
  parts : ∀ bucket id n, PartIs S.blake3 D s.store (s.store.parts.lookup (bucket, id, n))
    ((b.parts (bucket, id)).lookup n)
  stamps : ∀ k row, s.store.objects.lookup k = some row → ∀ n, s.tick ≤ n →
    row.updatedAt < s.clock.nowMicros (s.oracle.micros n)

/-! ### Manifests -/

/-- Hashes have 32 bytes, so a row's blocks read back. -/
theorem decodeBlocks_map_hash (B : Blake3) (ds : List Bytes) :
    Store.decodeBlocks (Store.encodeBlocks (ds.map B.hash)) = ds.map B.hash := by
  exact Store.decodeBlocks_encodeBlocks fun b hb => B.length_of_mem_map_hash hb

/-- A manifest stays one as long as the blocks it names are held. -/
theorem Manifest.of_held {B : Blake3} {s s' : Store} {raw : Bytes} {size : ℤ} {body : Bytes}
    (h : Manifest B D s raw size body)
    (hheld : ∀ b ∈ Store.decodeBlocks raw, s.HoldsLocally b → s'.HoldsLocally b) :
    Manifest B D s' raw size body := by
  obtain ⟨ds, rfl, hds, hbody, hsize⟩ := h
  rw [decodeBlocks_map_hash] at hheld
  exact ⟨ds, rfl, fun d hd => ⟨(hds d hd).1, hheld _ (List.mem_map_of_mem hd) (hds d hd).2⟩,
    hbody, hsize⟩

/-- Two manifests one after the other. -/
theorem Manifest.append {B : Blake3} {s : Store} {raw raw' : Bytes} {size size' : ℤ}
    {body body' : Bytes} (h : Manifest B D s raw size body) (h' : Manifest B D s raw' size' body') :
    Manifest B D s (raw ++ raw') (size + size') (body ++ body') := by
  obtain ⟨ds, rfl, hds, rfl, rfl⟩ := h
  obtain ⟨ds', rfl, hds', rfl, rfl⟩ := h'
  refine ⟨ds ++ ds', by simp [Store.encodeBlocks], fun d hd => ?_, by simp, by simp⟩
  exact (List.mem_append.1 hd).elim (hds d) (hds' d)

/-- The rows keep their bodies as long as the blocks they name are held. -/
theorem ObjectIs.of_held {B : Blake3} {s s' : Store} {row : Option ObjectRow} {body : Option Bytes}
    (h : ObjectIs B D s row body)
    (hheld : ∀ r, row = some r → r.deleted = false → ∀ b ∈ Store.decodeBlocks r.blocks,
      s.HoldsLocally b → s'.HoldsLocally b) : ObjectIs B D s' row body := by
  cases body with
  | none => exact h
  | some body =>
    obtain ⟨r, hr, hd, hm⟩ := h
    exact ⟨r, hr, hd, hm.of_held (hheld r hr hd)⟩

/-- A part stays what it is as long as its blocks are held. -/
theorem PartIs.of_held {B : Blake3} {s s' : Store} {row : Option PartRow} {body : Option Bytes}
    (h : PartIs B D s row body)
    (hheld : ∀ r, row = some r → ∀ b ∈ Store.decodeBlocks r.blocks,
      s.HoldsLocally b → s'.HoldsLocally b) : PartIs B D s' row body := by
  cases body with
  | none => exact h
  | some body =>
    obtain ⟨r, hr, hm, he⟩ := h
    exact ⟨r, hr, hm.of_held (hheld r hr), he⟩

namespace Represents

/-! ### Steps that keep the bodies -/

variable (hr : Represents S L D s b)
include hr

/-- A step that leaves manifests and uploads alone, keeps the blocks they name, and
keeps what is held true to its bytes. -/
theorem of_blocks (hobj : s'.store.objects = s.store.objects)
    (hparts : s'.store.parts = s.store.parts)
    (hup : s'.store.multipartUploads = s.store.multipartUploads) (horacle : s'.oracle = s.oracle)
    (hclock : s'.clock = s.clock) (htick : s.tick ≤ s'.tick)
    (hintact : Intact S.blake3 L D s')
    (hheld : ∀ h, s.store.NamedByObject h ∨ s.store.NamedByPart h → s.store.HoldsLocally h →
      s'.store.HoldsLocally h) : Represents S L D s' b where
  toIntact := hintact
  micros := horacle ▸ hr.micros
  puts := horacle ▸ hr.puts
  objects k := by
    rw [hobj]
    exact (hr.objects k).of_held fun r hrow hd h hh => hheld h (Or.inl ⟨k, r, hrow, hd, hh⟩)
  uploads u := by
    rw [hup]
    exact hr.uploads u
  parts bucket id n := by
    rw [hparts]
    exact (hr.parts bucket id n).of_held fun r hrow h hh => hheld h (Or.inr ⟨_, r, hrow, hh⟩)
  stamps k row hrow n hn := by
    rw [hobj] at hrow
    rw [horacle, hclock]
    exact hr.stamps k row hrow n (htick.trans hn)

/-- A step on other tables, or one that takes an answer of the oracle. -/
theorem frame (h : s.store.SameHolding s'.store)
    (hblocks : s'.store.blocks = s.store.blocks) (hobj : s'.store.objects = s.store.objects)
    (hparts : s'.store.parts = s.store.parts)
    (hup : s'.store.multipartUploads = s.store.multipartUploads) (hblobs : s'.blobs = s.blobs)
    (horacle : s'.oracle = s.oracle) (hclock : s'.clock = s.clock) (htick : s.tick ≤ s'.tick) :
    Represents S L D s' b := by
  exact hr.of_blocks hobj hparts hup horacle hclock htick
    (hr.toIntact.frame h.localLocationId h.blockLocations hblocks hblobs)
    fun k _ hk => (h.holdsLocally k).2 hk

/-- An answer is taken from the oracle. -/
theorem ticked : Represents S L D { s with tick := s.tick + 1 } b :=
  hr.frame ⟨rfl, rfl, rfl⟩ rfl rfl rfl rfl rfl rfl rfl (Nat.le_succ _)

/-- A new block, with its bytes in the blob store. -/
theorem stored {d : Bytes} (hd : d ∈ D) (hno : ¬ s.store.HoldsLocally (S.blake3.hash d)) (ts : ℤ) :
    Represents S L D
      { s with
        blobs := (Blob.put s.blobs (S.blake3.hash d) d).1
        store := s.store.storeLocalBlock ts (S.blake3.hash d)
          (Blob.put s.blobs (S.blake3.hash d) d).2 d.length } b := by
  exact hr.of_blocks rfl rfl rfl rfl rfl le_rfl (hr.toIntact.stored hd hno ts) fun h _ hh =>
    (Store.holdsLocally_storeLocalBlock _ _ _ _ _ h).2 (Or.inr hh)

/-- A block that nothing names goes, with its bytes. -/
theorem reaped {h : Bytes} {row : LocationRow}
    (hrow : s.store.blockLocations.lookup (h, s.store.localLocationId) = some row)
    (hno : ¬ (s.store.NamedByObject h ∨ s.store.NamedByPart h)) :
    Represents S L D
      { s with
        store := (s.store.deleteLocalBlock h).1
        blobs := Blob.delete s.blobs h row.fid } b := by
  have hheld := Store.holdsLocally_deleteLocalBlock s.store h
  exact hr.of_blocks rfl rfl rfl rfl rfl le_rfl (hr.toIntact.reaped hrow) fun h' hnamed hh' =>
    (hheld h').2 ⟨fun he => hno (he ▸ hnamed), hh'⟩

omit hr in
/-- Writers and sweeps keep the bodies. -/
theorem blocksKept :
    Site.BlocksKept (Intact.Named S.blake3 D) (fun s : Site Blob => Represents S L D s b) where
  ticked _ hr := hr.ticked
  marked _ _ hr := hr.frame ⟨rfl, rfl, rfl⟩ rfl rfl rfl rfl rfl rfl rfl le_rfl
  queued _ _ hr := hr.of_blocks rfl rfl rfl rfl rfl le_rfl (hr.toIntact.frame rfl rfl rfl rfl)
    fun _ _ hh => hh
  stored := by
    rintro s _ d ts ⟨hd, rfl⟩ hno hr
    exact hr.stored hd hno ts
  reaped _ _ _ hrow hno hr := hr.reaped hrow hno

/-- **A sweep leaves the bodies alone.** -/
theorem wp_sweepOrphanedBlocks (cfg : GcConfig) (force : Bool) :
    Prog.wp (Site.sweepOrphanedBlocks cfg force)
      (fun (r : Except S3Error Unit) s' => r = .ok () ∧ Represents S L D s' b) s :=
  blocksKept.wp_sweepOrphanedBlocks cfg force hr

/-! ### Steps that change the bodies -/

/-- A row written at the next clock reading wins. -/
theorem wrote (bucket key : Str) {row : ObjectRow}
    {body : Option Bytes} (hbody : ObjectIs S.blake3 D s.store (some row) body)
    (hts : row.updatedAt = s.clock.nowMicros (s.oracle.micros s.tick)) (fact : Fact) :
    Represents S L D
      { s with
        tick := s.tick + 1
        store := (s.store.putObjectRow bucket key row).appendFact row.updatedAt fact }
      (b.write (bucket, key) body) := by
  have hrow : ∀ k,
      ((s.store.putObjectRow bucket key row).appendFact row.updatedAt fact).objects.lookup k =
        if k = (bucket, key) then some row else s.store.objects.lookup k := by
    intro k
    refine (Store.lookup_putObjectRow s.store bucket key row k).trans ?_
    split_ifs with hk
    · cases hold : s.store.objects.lookup (bucket, key) with
      | none => rfl
      | some old =>
        refine Lww.merge_of_lt ?_
        rw [hts]
        exact hr.stamps _ old hold _ le_rfl
    · rfl
  refine ⟨hr.toIntact.frame rfl rfl rfl rfl, hr.micros, hr.puts, fun k => ?_, hr.uploads, hr.parts,
    fun k r hk n hn => ?_⟩
  · rw [hrow k]
    simp only [Bodies.write, update_apply]
    split_ifs
    · exact hbody.of_held fun _ _ _ _ _ h => h
    · exact (hr.objects k).of_held fun _ _ _ _ _ h => h
  · rw [hrow k] at hk
    have htick : s.tick + 1 ≤ n := hn
    split_ifs at hk
    · have hlt := hr.micros (show s.tick < n by omega)
      rw [← Option.some.inj hk, hts]
      show s.clock.nowMicros (s.oracle.micros s.tick) < s.clock.nowMicros (s.oracle.micros n)
      unfold ClusterClock.nowMicros
      omega
    · exact hr.stamps k r hk n (by omega)

/-- An upload is created. -/
theorem created (bucket key : Str) (id : Uuid) :
    Represents S L D { s with store := s.store.insertMultipart bucket id key }
      { b with uploads := update b.uploads (bucket, id) (some key) } := by
  refine ⟨hr.toIntact.frame rfl rfl rfl rfl, hr.micros, hr.puts, hr.objects, fun u => ?_, hr.parts,
    hr.stamps⟩
  simp only [Store.insertMultipart, Table.lookup_insert, update_apply, hr.uploads u]

/-- A part is stored. -/
theorem added (bucket : Str) (id : Uuid) (n : ℤ) {blocks : List Bytes} {size : ℤ} {body : Bytes}
    (hm : Manifest S.blake3 D s.store (Store.encodeBlocks blocks) size body) (digest : Bytes) :
    Represents S L D
      { s with store := s.store.insertPart bucket id n blocks size (hexEncode digest) }
      (b.addPart (bucket, id) n body) := by
  refine ⟨hr.toIntact.frame rfl rfl rfl rfl, hr.micros, hr.puts, hr.objects, hr.uploads,
    fun bucket' id' n' => ?_, hr.stamps⟩
  have hold := hr.parts bucket' id' n'
  simp only [Store.insertPart, Table.lookup_insert, Bodies.addPart, update_apply,
    Prod.mk.injEq]
  by_cases hu : bucket' = bucket ∧ id' = id
  · obtain ⟨rfl, rfl⟩ := hu
    simp only [true_and, and_self, if_true, Table.lookup_insert]
    split_ifs
    · exact ⟨_, rfl, hm, digest, rfl⟩
    · exact hold
  · rw [if_neg hu, if_neg fun h => hu ⟨h.1, h.2.1⟩]
    exact hold

/-- An upload ends. -/
theorem forgot (bucket : Str) (id : Uuid) :
    Represents S L D { s with store := s.store.deleteMultipartUpload bucket id }
      (b.forget (bucket, id)) := by
  refine ⟨hr.toIntact.frame rfl rfl rfl rfl, hr.micros, hr.puts, hr.objects, fun u => ?_,
    fun bucket' id' n' => ?_, hr.stamps⟩
  · simp only [Store.deleteMultipartUpload, Table.lookup_erase, Bodies.forget,
      update_apply, hr.uploads u]
  · have hold := hr.parts bucket' id' n'
    simp only [Store.deleteMultipartUpload, Table.lookup_deleteWhere, Bodies.forget,
      update_apply, Prod.mk.injEq, decide_eq_true_eq]
    split_ifs
    · rfl
    · exact hold

end Represents
end Shardscape
