/-
# Reads on a site that represents bodies

A GET plans which blocks to read and what to cut from them, and streams them; all
of them are held, so the stream is the body, or the bytes of it that the range
picks (`wp_getObject`).
-/

import Shardscape.Refinement.Requests

namespace Shardscape
namespace Represents

open Lib Lib.Prog StorageBackend

variable {Blob : BlobStore} {S : StorageBackend} {L : Blob.Lawful} {D : Set Bytes}
  {s : Site Blob} {b : Bodies}

/-- Frames without an error, put together. -/
theorem bodyOf_map_ok {ε : Type} (l : List Bytes) :
    ChunkingStrategy.bodyOf (l.map fun d => (.ok d : Except ε Bytes)) = .ok l.flatten := by
  induction l with
  | nil => rfl
  | cons d l ih => simp only [List.map_cons, ChunkingStrategy.bodyOf, ih, List.flatten_cons]

/-- **A HEAD reports the length of the body.** -/
theorem wp_headObject (hr : Represents S L D s b) (bucket key : Str) :
    wp (headObject bucket key) (fun r _ => r.map HeadObjectOutput.contentLength =
      (b.get (bucket, key) none).map fun data => (data.length : ℤ)) s := by
  refine wp_bind.2 ((Site.wp_db _ _).2 ?_)
  simp only [Bodies.get]
  rcases hr.getObject_cases bucket key with ⟨hbody, hget⟩ | ⟨ds, etag, hbody, hget, -⟩
  · rw [hbody, hget]
    rfl
  · rw [hbody, hget]
    rfl

variable (hinj : Set.InjOn S.blake3.hash D) (hr : Represents S L D s b)
include hinj hr

/-- A block that is held is read, and nothing changes. -/
theorem wp_getBlock {d : Bytes} (hd : d ∈ D) (hheld : s.store.HoldsLocally (S.blake3.hash d))
    {Q : Except Str Bytes → Site Blob → Prop} (hQ : Q (.ok d) s) :
    wp (Site.getBlock (S.blake3.hash d)) Q s := by
  obtain ⟨row, hrow⟩ := hheld
  obtain ⟨d', hd', hh, hw⟩ := hr.bytes _ row hrow
  obtain rfl := hinj hd hd' hh
  refine wp_bind.2 ((Site.wp_db _ _).2 ?_)
  rw [Store.getLocalBlockFid, hrow]
  refine wp_bind.2 ((wp_query _ _).2 ((wp_ofExcept _).2 ?_))
  rw [L.get_of_written hw]
  exact hQ

/-- The size on record of a block that is held is that of its bytes. -/
theorem blockSizes_eq
    {ds : List Bytes} (hds : ∀ d ∈ ds, d ∈ D ∧ s.store.HoldsLocally (S.blake3.hash d)) :
    s.store.blockSizes (ds.map S.blake3.hash) = ds.map fun d => (d.length : ℤ) := by
  rw [Store.blockSizes, List.map_map]
  refine List.map_congr_left fun d hd => ?_
  obtain ⟨row, hrow⟩ := hr.sized _ (hds d hd).2
  obtain ⟨d', hd', hh, hsize⟩ := hr.sizes _ row hrow
  obtain rfl := hinj (hds d hd).1 hd' hh
  simp [hrow, hsize]

/-- So all blocks of the plan are. -/
theorem wp_streamRest :
    ∀ {l : List (Bytes × ℕ × Option ℕ)},
      (∀ p ∈ l, p.1 ∈ D ∧ s.store.HoldsLocally (S.blake3.hash p.1)) →
      wp (streamRest (l.map fun p => (S.blake3.hash p.1, p.2))) (fun r s' => s' = s ∧
        r = .ok (l.map fun p => .ok (sliceBlockBytes p.1 p.2.1 p.2.2))) s
  | [], _ => ⟨rfl, rfl⟩
  | (d, skip, take) :: l, hl => by
    have hd := hl _ List.mem_cons_self
    refine wp_bind.2 (wp_attempt.2 (wp_getBlock hinj hr hd.1 hd.2 (wp_bind.2 (wp_mono
      (wp_streamRest fun p hp => hl p (List.mem_cons_of_mem _ hp)) ?_))))
    rintro r s' ⟨rfl, rfl⟩
    exact ⟨rfl, rfl⟩

/-- The first frame. -/
theorem wp_firstFrame {l : List (Bytes × ℕ × Option ℕ)}
    (hl : ∀ p ∈ l, p.1 ∈ D ∧ s.store.HoldsLocally (S.blake3.hash p.1)) :
    wp (firstFrame (l.map fun p => (S.blake3.hash p.1, p.2))) (fun r s' => s' = s ∧
      r = .ok ((l.take 1).map fun p => .ok (sliceBlockBytes p.1 p.2.1 p.2.2))) s := by
  cases l with
  | nil => exact ⟨rfl, rfl⟩
  | cons p l =>
    obtain ⟨hd, hheld⟩ := hl p List.mem_cons_self
    exact wp_bind.2 (wp_mapErr.2 (wp_getBlock hinj hr hd hheld ⟨rfl, rfl⟩))

/-- What a GET delivers: its body, if it gets as far as one, and the length it
announced. -/
def delivered (r : Except S3Error GetObjectOutput) : Except S3Error (Bytes × ℤ) :=
  match r with
  | .error e => .error e
  | .ok out => (ChunkingStrategy.bodyOf out.body).map fun body => (body, out.contentLength)

/-- The plan of a GET reads blocks that are held, and its slices are the bytes that
were asked for. -/
def Planned (S : StorageBackend) (D : Set Bytes) (s : Site Blob) (data : Bytes)
    (plan : List (Bytes × ℕ × Option ℕ)) : Prop :=
  ∃ l : List (Bytes × ℕ × Option ℕ), plan = (l.map fun p => (S.blake3.hash p.1, p.2)) ∧
    (∀ p ∈ l, p.1 ∈ D ∧ s.store.HoldsLocally (S.blake3.hash p.1)) ∧
    (l.map fun p => sliceBlockBytes p.1 p.2.1 p.2.2).flatten = data

/-- The plan cuts the selection out of the blocks, or fails as the specification does. -/
theorem wp_readPlan
    {ds : List Bytes} (hds : ∀ d ∈ ds, d ∈ D ∧ s.store.HoldsLocally (S.blake3.hash d))
    (range : Option Range) :
    wp (readPlan (ds.map S.blake3.hash) ds.flatten.length range) (fun r s' => s' = s ∧
      match Bodies.selection ds.flatten range with
      | .error e => r = .error e
      | .ok data => ∃ plan contentRange, r = .ok (plan, (data.length : ℤ), contentRange) ∧
          Planned S D s data plan) s := by
  cases range with
  | none =>
    refine (wp_pure _).2 ⟨rfl, _, none, rfl, ds.map fun d => (d, 0, none), ?_, ?_, ?_⟩
    · simp
    · simpa using hds
    · rw [List.map_map]
      simp [Function.comp_def, sliceBlockBytes]
  | some range =>
    rw [readPlan, asU64_natCast]
    simp only [Bodies.selection]
    cases hres : resolveRange range ds.flatten.length with
    | none =>
      rw [if_pos ((resolveRange_eq_none_iff range _).1 hres)]
      exact ⟨rfl, rfl⟩
    | some p =>
      obtain ⟨start, stop⟩ := p
      have hsome : range.select ds.flatten ≠ [] := fun h => by
        rw [(resolveRange_eq_none_iff range _).2 h] at hres
        cases hres
      obtain ⟨hle, hlt, hsel⟩ := resolveRange_select hres
      have hlen : ((range.select ds.flatten).length : ℤ) = ((stop - start + 1 : ℕ) : ℤ) := by
        rw [hsel, List.length_drop, List.length_take]
        omega
      rw [if_neg hsome]
      refine wp_bind.2 ((Site.wp_db _ _).2 ((wp_pure _).2 ⟨rfl, _, _, by rw [hlen], ?_⟩))
      rw [blockSizes_eq hinj hr hds]
      refine ⟨(sliceBlocksForRange (ds.map fun d => (d.length : ℤ)) start stop).map fun p =>
        (ds.getD p.1 [], p.2.1, some p.2.2), ?_, ?_, ?_⟩
      · rw [List.map_map]
        refine List.map_congr_left fun p hp => ?_
        have hp' : p.1 < ds.length := by simpa using lt_of_mem_sliceBlocksForRange hp
        simp [hp']
      · intro p hp
        obtain ⟨q, hq, rfl⟩ := List.mem_map.1 hp
        have hq' : q.1 < ds.length := by simpa using lt_of_mem_sliceBlocksForRange hq
        refine hds _ ?_
        simp [hq']
      · rw [List.map_map, hsel]
        exact flatten_sliceBlocksForRange hle ds (fun j => ds.getD j [])
          fun j hj => by simp [hj]

/-- **A GET, full or ranged, delivers the bytes of the body.** -/
theorem wp_getObject (bucket key : Str) (range : Option Range) :
    wp (getObject bucket key range) (fun r _ => delivered r =
      (b.get (bucket, key) range).map fun data => (data, (data.length : ℤ))) s := by
  refine wp_bind.2 ((Site.wp_db _ _).2 ?_)
  simp only [Bodies.get]
  rcases hr.getObject_cases bucket key with
    ⟨hbody, hget⟩ | ⟨ds, etag, hbody, hget, hds⟩
  · rw [hbody, hget]
    rfl
  · rw [hbody, hget]
    refine wp_bind.2 (wp_mono (wp_readPlan hinj hr hds range) ?_)
    rintro r s' ⟨rfl, hplan⟩
    dsimp only
    cases hsel : Bodies.selection ds.flatten range with
    | error e =>
      rw [hsel] at hplan
      rw [hplan]
      rfl
    | ok data =>
      rw [hsel] at hplan
      obtain ⟨plan, contentRange, rfl, l, rfl, hl, hdata⟩ := hplan
      -- the first block is read before the response, the others while it is sent
      refine wp_bind.2 (wp_mono (wp_firstFrame hinj hr hl) ?_)
      rintro r s'' ⟨rfl, rfl⟩
      refine wp_bind.2 ((Site.wp_ask _ _).2 ?_)
      rw [← List.map_tail]
      refine wp_bind.2 (wp_mono (wp_streamRest hinj hr.ticked fun p hp =>
        hl p (List.mem_of_mem_tail hp)) ?_)
      rintro r s₃ ⟨rfl, rfl⟩
      have hbody := bodyOf_map_ok (ε := S3Error) (l.map fun p => sliceBlockBytes p.1 p.2.1 p.2.2)
      rw [hdata, List.map_map] at hbody
      refine (wp_pure _).2 ?_
      rw [delivered, ← List.map_append, ← List.drop_one, List.take_append_drop]
      exact congrArg (Except.map _) hbody

end Represents
end Shardscape
