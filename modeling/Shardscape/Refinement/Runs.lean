/-
# A site is a map of bodies

A site and the bodies it stands for take a run of requests and sweeps side by side
(`both`); the specification is told only what the disk guard answered.  With
`wp_serve`, `wp_sweepOrphanedBlocks` and `wp_getObject` this gives the refinement:
one site without peers, through every finite run, answers every request and every
read as the map of bodies does (`site_refines_bodies`).  Deduplication, overwrites,
uploads in parts and the deletions of the collector cannot be seen from outside.
-/

import Shardscape.Backend.Samples
import Shardscape.Refinement.Reads

namespace Shardscape

open Lib Lib.Prog StorageBackend

variable {Blob : BlobStore} {S : StorageBackend} {L : Blob.Lawful} {D : Set Bytes}

/-- One event, at the site and on the bodies. -/
def both (S : StorageBackend) (p : Site Blob × Bodies) (e : BackendEvent) : Site Blob × Bodies :=
  (((e.run S).exec p.1).1, (p.2.after (p.1.oracle.guardTrip p.1.tick) e).1)

/-- A run, from a fresh site and no bodies. -/
def bothAfter (S : StorageBackend) (s₀ : Site Blob) (events : List BackendEvent) :
    Site Blob × Bodies :=
  events.foldl (both S) (s₀, Bodies.empty)

namespace Represents

/-- One event: the answer is the specified one, and the site stands for the
specified bodies. -/
theorem wp_run {s : Site Blob} {b : Bodies} (hr : Represents S L D s b) {e : BackendEvent}
    (hd : ∀ d ∈ e.chunks S, d ∈ D) :
    wp (e.run S) (fun r s' => r = (b.after (s.oracle.guardTrip s.tick) e).2 ∧
      Represents S L D s' (b.after (s.oracle.guardTrip s.tick) e).1) s := by
  cases e with
  | request r => exact hr.wp_serve hd
  | sweep force => exact hr.wp_sweepOrphanedBlocks S.gc force

/-- A fresh site stands for no bodies. -/
theorem fresh {s : Site Blob} {me : Str} (hnew : s.store = Store.new me)
    (hmicros : StrictMono s.oracle.micros) (hputs : ∀ n, s.oracle.putFails n = none) :
    Represents S L D s Bodies.empty := by
  refine ⟨⟨?_, ?_, ?_⟩, hmicros, hputs, ?_, ?_, ?_, ?_⟩ <;> rw [hnew]
  · exact fun h row hrow => nomatch hrow
  · exact fun h ⟨row, hrow⟩ => nomatch hrow
  · exact fun h row hrow => nomatch hrow
  · exact fun k r hrow => nomatch hrow
  · exact fun u => rfl
  · exact fun bucket id n => rfl
  · exact fun k row hrow => nomatch hrow

end Represents

open Represents

/-- **One site without peers refines the map of bodies.**  Through every run of
requests and sweeps, every request answers as specified, and afterwards every GET,
full or ranged, delivers the body of its key, or the bytes of it that the range
picks, and every HEAD its length. -/
theorem site_refines_bodies (S : StorageBackend) (L : Blob.Lawful) (s₀ : Site Blob) (me : Str)
    (hnew : s₀.store = Store.new me) (hmicros : StrictMono s₀.oracle.micros)
    (hputs : ∀ n, s₀.oracle.putFails n = none) (events : List BackendEvent)
    (hinj : Set.InjOn S.blake3.hash { d | ∃ e ∈ events, d ∈ e.chunks S }) :
    (∀ p ∈ trace (both S) (s₀, Bodies.empty) events,
        ((p.2.run S).exec p.1.1).2 =
          (p.1.2.after (p.1.1.oracle.guardTrip p.1.1.tick) p.2).2) ∧
      ∀ bucket key,
        (∀ range, delivered ((getObject bucket key range).exec (bothAfter S s₀ events).1).2 =
          ((bothAfter S s₀ events).2.get (bucket, key) range).map fun data =>
            (data, (data.length : ℤ))) ∧
        ((headObject bucket key).exec (bothAfter S s₀ events).1).2.map
            HeadObjectOutput.contentLength =
          ((bothAfter S s₀ events).2.get (bucket, key) none).map fun data =>
            (data.length : ℤ) := by
  -- the chunks of the whole run are what the hash has to tell apart
  have hstep : ∀ (p : Site Blob × Bodies) (e : BackendEvent),
      Represents S L { d | ∃ e ∈ events, d ∈ e.chunks S } p.1 p.2 → e ∈ events →
      Represents S L { d | ∃ e ∈ events, d ∈ e.chunks S } (both S p e).1 (both S p e).2 :=
    fun p e hr he => (hr.wp_run fun d hd => ⟨e, he, hd⟩).2
  have hmem : ∀ p ∈ trace (both S) (s₀, Bodies.empty) events, p.2 ∈ events :=
    fun p hp => mem_of_mem_trace hp
  have hstart : Represents S L { d | ∃ e ∈ events, d ∈ e.chunks S } s₀ Bodies.empty :=
    fresh hnew hmicros hputs
  refine ⟨fun p hp => ?_, fun bucket key => ?_⟩
  · have hr := invariant_of_trace (P := fun p : Site Blob × Bodies => Represents S L _ p.1 p.2)
      hstep hstart hmem p hp
    exact (hr.wp_run fun d hd => ⟨p.2, hmem p hp, hd⟩).1
  · have hr := invariant_at_end (P := fun p : Site Blob × Bodies => Represents S L _ p.1 p.2)
      hstep hstart hmem
    exact ⟨fun range => wp_getObject hinj hr bucket key range, wp_headObject hr bucket key⟩

/-! ### A run -/

/-- Two objects that share a block, an overwrite, an upload in parts that come in
the wrong order, a deletion, and a forced sweep. -/
def busyDay : List BackendEvent :=
  [.request (.putObject (text "b") (text "k") (some [.ok [97, 98], .ok [99]])),
    .request (.putObject (text "b") (text "l") (some [.ok [97, 98]])),
    .request (.putObject (text "b") (text "l") (some [.ok [97], .ok [98, 97, 98]])),
    .request (.createMultipartUpload (text "b") (text "m") 7),
    .request (.uploadPart (text "b") (some 7) 2 (some [.ok [99]])),
    .request (.uploadPart (text "b") (some 7) 1 (some [.ok [97, 98]])),
    .request (.completeMultipartUpload (text "b") (text "m") (some 7)),
    .request (.deleteObject (text "b") (text "k")),
    .sweep true]

/-- No two chunks of the day share a hash. -/
theorem injOn_busyDay : Set.InjOn StorageBackend.sample.blake3.hash
    { d | ∃ e ∈ busyDay, d ∈ e.chunks StorageBackend.sample } := by
  have hchunks : ∀ d ∈ busyDay.flatMap (·.chunks StorageBackend.sample),
      ∀ d' ∈ busyDay.flatMap (·.chunks StorageBackend.sample),
        StorageBackend.sample.blake3.hash d = StorageBackend.sample.blake3.hash d' → d = d' := by
    decide
  rintro d ⟨e, he, hd⟩ d' ⟨e', he', hd'⟩ h
  exact hchunks d (List.mem_flatMap.2 ⟨e, he, hd⟩) d' (List.mem_flatMap.2 ⟨e', he', hd'⟩) h

/-- At the end of the day the completed upload is read whole, a copy in part, and the deleted object
is not found. -/
theorem site_refines_bodies_busyDay :
    delivered ((getObject (text "b") (text "m") none).exec
        (bothAfter StorageBackend.sample freshSite busyDay).1).2 = .ok ([97, 98, 99], 3) ∧
      delivered ((getObject (text "b") (text "l") (some (.int 1 (some 2)))).exec
        (bothAfter StorageBackend.sample freshSite busyDay).1).2 = .ok ([98, 97], 2) ∧
      delivered ((getObject (text "b") (text "k") none).exec
        (bothAfter StorageBackend.sample freshSite busyDay).1).2 =
          .error ⟨.noSuchKey, text "Not found"⟩ := by
  have h := (site_refines_bodies StorageBackend.sample localBlob.lawful freshSite (text "a") rfl
    strictMono_id (fun _ => rfl) busyDay injOn_busyDay).2
  exact ⟨((h (text "b") (text "m")).1 none).trans rfl,
    ((h (text "b") (text "l")).1 _).trans rfl, ((h (text "b") (text "k")).1 none).trans rfl⟩

end Shardscape
