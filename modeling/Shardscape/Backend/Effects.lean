/-
# What the calls of the backend do

`Call.Effect` says once what a call may do to a site, by its label, and everything
in `src/storage.rs` is described by the calls it makes (`Site.Makes`): which calls
(`A`), in states of which kind (`I`), each doing what its label says.

Two parts of `storage.rs` bring block bytes into a site, `store_block` behind
`check_writable` and the read-repair of `get_block`.  What else a request calls
leaves the blocks alone (`Call.touches`), so a request is described as soon as these
two are (`Site.Entries`, `makes_handle`).
-/

import Shardscape.Backend.Internal
import Shardscape.Backend.Receive
import Shardscape.Backend.Requests
import Shardscape.Lib.Calls

namespace Shardscape

open Lib

variable {Blob : BlobStore}

/-- What a call may do to the store. -/
def Call.Stores : Call → Store → Store → Prop
  | .storeLocalBlock h, s, s' => ∃ ts fid size, s' = s.storeLocalBlock ts h fid size
  | .addPendingDeletion h notBefore, s, s' => s' = s.addPendingDeletion h notBefore
  | .removePendingDeletion h, s, s' => s' = s.removePendingDeletion h
  | .deleteLocalBlock h, s, s' => s' = (s.deleteLocalBlock h).1
  | .enqueueReplication h, s, s' => ∃ nowMs targets, s' = s.enqueueReplication nowMs h targets
  | .dequeueReplication h, s, s' => s' = s.dequeueReplication h
  | .deferReplication _, s, s' => ∃ nowMs entry, s' = s.deferReplication nowMs entry
  | .insertObject bucket key, s, s' => ∃ ts shardId blocks size etag,
      s' = s.insertObject ts bucket shardId key blocks size etag
  | .deleteObject bucket key, s, s' => ∃ B ts, s' = Store.deleteObject B s ts bucket key
  | .insertMultipart bucket id, s, s' => ∃ key, s' = s.insertMultipart bucket id key
  | .deleteMultipartUpload bucket id, s, s' => s' = s.deleteMultipartUpload bucket id
  | .insertPart bucket id number, s, s' => ∃ blocks size etag,
      s' = s.insertPart bucket id number blocks size etag
  | .applyFact rec, s, s' => ∃ B nowMs, s' = s.applyFactD B nowMs rec
  | .recordPeer id, s, s' => ∃ nowMs url, s' = s.recordPeer nowMs id url
  | _, s, s' => s' = s

/-- What a call may do to the blobs. -/
def Call.Blobs : Call → Blob.State → Blob.State → Prop
  | .blobPut h, b, b' => b' = b ∨ ∃ d, b' = (Blob.put b h d).1
  | .blobDelete h, b, b' => ∃ fid, b' = Blob.delete b h fid
  | _, b, b' => b' = b

/-- What a call may do to a site. -/
structure Call.Effect (l : Call) (s s' : Site Blob) : Prop where
  oracle : s'.oracle = s.oracle
  clock : s'.clock = s.clock
  store : l.Stores s.store s'.store
  blobs : l.Blobs s.blobs s'.blobs

/-- The calls that write a row of a block, an object, an upload or a user. -/
def Call.writesRows : Call → Bool
  | .storeLocalBlock _ | .deleteLocalBlock _ | .insertObject _ _ | .deleteObject _ _ => true
  | .insertMultipart _ _ | .deleteMultipartUpload _ _ | .insertPart _ _ _ | .applyFact _ => true
  | _ => false

/-- **The frame of a call** that writes no such row: all it can change are the marks, the queue and
the nodes. -/
theorem Call.Stores.frame {l : Call} {s s' : Store} (h : l.Stores s s')
    (hl : l.writesRows = false) :
    s' = { s with
      pendingDeletions := s'.pendingDeletions
      replicationQueue := s'.replicationQueue
      nodes := s'.nodes } := by
  cases l with
  | enqueueReplication hash =>
    obtain ⟨nowMs, targets, rfl⟩ := h
    rfl
  | deferReplication hash =>
    obtain ⟨nowMs, entry, rfl⟩ := h
    rfl
  | recordPeer id =>
    obtain ⟨nowMs, url, rfl⟩ := h
    unfold Store.recordPeer
    split <;> rfl
  | _ =>
    first
    | obtain rfl := h
      rfl
    | cases hl

/-- The calls that can change which blocks a site holds, or their bytes. -/
def Call.touches : Call → Bool
  | .storeLocalBlock _ => true
  | .deleteLocalBlock _ => true
  | .applyFact _ => true
  | .blobPut _ => true
  | .blobDelete _ => true
  | _ => false

/-- The calls that change nothing. -/
def Call.reads : Call → Bool
  | .storeLocalBlock _ | .addPendingDeletion _ _ | .removePendingDeletion _ => false
  | .deleteLocalBlock _ | .enqueueReplication _ | .dequeueReplication _ => false
  | .deferReplication _ | .insertObject _ _ | .deleteObject _ _ | .insertMultipart _ _ => false
  | .deleteMultipartUpload _ _ | .insertPart _ _ _ | .applyFact _ | .recordPeer _ => false
  | .blobPut _ | .blobDelete _ => false
  | _ => true

/-- A call that changes nothing touches no block. -/
theorem Call.touches_of_reads {l : Call} (h : l.reads = true) : l.touches = false := by
  cases l <;> first | rfl | cases h

/-- The calls that stream a body, apart from those that put a block. -/
def Call.streams : Call → Bool
  | .getLocalBlockFid _ | .blobGet _ | .getBlockFids _ | .getPeersWithUrls | .fetch _ _ => true
  | .enqueueReplication _ | .nowMicros | .systemTime | .blockSizes _ => true
  | _ => false

/-- A stream touches no block, unless it puts one. -/
theorem Call.touches_of_streams {l : Call} (h : l.streams = true) : l.touches = false := by
  cases l <;> first | rfl | cases h

/-- All that moves at a query is the count of answers from outside. -/
theorem Call.effect_of_reads {l : Call} (h : l.reads = true) (s : Site Blob) (tick : ℕ) :
    l.Effect s { s with tick := tick } := by
  cases l <;> first | exact ⟨rfl, rfl, rfl, rfl⟩ | exact nomatch h

namespace Site

variable {ε α β : Type} {I : Site Blob → Prop} {A : Call → Prop}

/-- In states of `I`, all calls are in `A` and do what their labels say, and the
result is in `Q`. -/
def Makes (I : Site Blob → Prop) (A : Call → Prop) (p : SProg Blob ε α)
    (Q : Except ε α → Prop := Prog.anyResult) : Prop :=
  p.Calls I (fun l s s' => A l ∧ l.Effect s s') Q

/-! ### Single calls -/

/-- A query of the database. -/
theorem makes_db {l : Call} {f : Store → α} (hl : A l) (hr : l.reads = true) :
    Makes I A (db l f : SProg Blob ε α) :=
  fun s _ => ⟨⟨hl, Call.effect_of_reads hr s s.tick⟩, trivial⟩

/-- A statement that changes the database as its call may. -/
theorem makes_exec {l : Call} {f : Store → Store} (hl : A l) (hs : ∀ s, l.Stores s (f s))
    (hb : ∀ b : Blob.State, l.Blobs b b) : Makes I A (exec l f : SProg Blob ε Unit) :=
  fun _ _ => ⟨⟨hl, rfl, rfl, hs _, hb _⟩, trivial⟩

/-- A query, with what is known of its answer. -/
theorem makes_db_bind {l : Call} {f : Store → β} {k : β → SProg Blob ε α} (hl : A l)
    (hr : l.reads = true) (hk : ∀ s, I s → Makes I A (k (f s.store))) :
    Makes I A (db l f >>= k) :=
  fun s hs => ⟨⟨hl, Call.effect_of_reads hr s s.tick⟩, hk s hs⟩

/-- An answer of the world, with what is known of it. -/
theorem makes_ask {l : Call} {f : Site Blob → ℕ → α} {Q : Except ε α → Prop} (hl : A l)
    (hr : l.reads = true) (hQ : ∀ s, I s → Q (.ok (f s s.tick))) :
    Makes I A (ask l f : SProg Blob ε α) Q :=
  fun s hI => ⟨⟨hl, Call.effect_of_reads hr s (s.tick + 1)⟩, hQ s hI⟩

/-- The clock of the system is one call. -/
theorem makes_systemTime (hl : A .systemTime) : Makes I A (systemTime : SProg Blob ε ℕ) :=
  makes_ask hl rfl fun _ _ => trivial

/-- The cluster time is one call. -/
theorem makes_nowMicros (hl : A .nowMicros) : Makes I A (nowMicros : SProg Blob ε ℤ) :=
  makes_ask hl rfl fun _ _ => trivial

/-- The cluster time in milliseconds is one call. -/
theorem makes_nowMillis (hl : A .nowMicros) : Makes I A (nowMillis : SProg Blob ε ℤ) :=
  Prog.Calls.seq (makes_nowMicros hl) (fun _ => trivial) fun _ => trivial

/-- A sequence. -/
theorem Makes.seq {p : SProg Blob ε β} {k : β → SProg Blob ε α} (h : Makes I A p)
    (hk : ∀ b, Makes I A (k b)) : Makes I A (p >>= k) :=
  Prog.Calls.seq h (fun _ => trivial) hk

/-- To work on the result takes no call. -/
theorem Makes.map {p : SProg Blob ε β} (h : Makes I A p) (f : β → α) : Makes I A (f <$> p) :=
  h.seq fun _ => trivial

/-- To return takes no call. -/
theorem makes_pure (a : α) : Makes I A (pure a : SProg Blob ε α) := trivial

/-- To fail takes no call. -/
theorem makes_fail (e : ε) : Makes I A (.fail e : SProg Blob ε α) := trivial

/-- Errors may be caught. -/
theorem Makes.attempt {ε' : Type} {p : SProg Blob ε α} (h : Makes I A p) :
    Makes I A (p.attempt : SProg Blob ε' (Except ε α)) :=
  Prog.Calls.attempt h

/-- Errors may be renamed. -/
theorem Makes.mapErr {ε' : Type} {f : ε → ε'} {p : SProg Blob ε α} (h : Makes I A p) :
    Makes I A (p.mapErr f) :=
  Prog.Calls.mapErr h

/-! ### Blocks -/

/-- The calls that put a block. -/
def putsBlock (h : Bytes) : List Call :=
  [.getLocalBlockFid h, .blobPut h, .nowMicros, .storeLocalBlock h]

variable {h : Bytes}

/-- `get_local_block_fid` is one query. -/
theorem makes_getLocalBlockFid (hl : A (.getLocalBlockFid h)) :
    Makes I A (getLocalBlockFid h : SProg Blob ε (Option Bytes)) :=
  makes_db hl rfl

/-- A put of the blob store is one call, whether it fails or not. -/
theorem makes_blobPut {h d : Bytes} (hl : A (.blobPut h)) :
    Makes I A (blobPut h d : SProg Blob Str Bytes) := by
  refine Makes.seq (fun s _ => ⟨⟨hl, ?_⟩, trivial⟩) fun r => Prog.Calls.ofExcept trivial
  dsimp only
  cases s.oracle.putFails s.tick with
  | some e => exact ⟨rfl, rfl, rfl, Or.inl rfl⟩
  | none => exact ⟨rfl, rfl, rfl, Or.inr ⟨d, rfl⟩⟩

/-- The row of a block is stamped and written. -/
theorem makes_storeLocalBlock {h fid : Bytes} {size : ℤ} (hnow : A .nowMicros)
    (hl : A (.storeLocalBlock h)) : Makes I A (storeLocalBlock h fid size : SProg Blob ε Unit) :=
  (makes_nowMicros hnow).seq fun ts => makes_exec hl (fun _ => ⟨ts, fid, size, rfl⟩) fun _ => rfl

/-- The calls of `promote_block_locally` are those that put a block. -/
theorem makes_promoteBlockLocally {h d : Bytes} (hl : ∀ l ∈ putsBlock h, A l) :
    Makes I A (promoteBlockLocally h d : SProg Blob Str Unit) := by
  simp only [putsBlock, List.forall_mem_cons] at hl
  obtain ⟨hfid, hput, hnow, hstore, -⟩ := hl
  refine (makes_getLocalBlockFid hfid).seq fun fid => ?_
  cases fid with
  | some fid => exact makes_pure _
  | none => exact (makes_blobPut hput).seq fun fid => makes_storeLocalBlock hnow hstore

/-- So are those of `store_block`; a block that is there costs one query. -/
theorem makes_storeBlock {B : Blake3} {d : Bytes} {size : ℤ}
    (hl : ∀ l ∈ putsBlock (B.hash d), A l) :
    Makes I A (storeBlock B d size : SProg Blob Str Bytes) := by
  simp only [putsBlock, List.forall_mem_cons] at hl
  obtain ⟨hfid, hput, hnow, hstore, -⟩ := hl
  refine (makes_getLocalBlockFid hfid).seq fun fid => ?_
  cases fid with
  | some fid => exact makes_pure _
  | none =>
    exact (makes_blobPut hput).seq fun fid =>
      (makes_storeLocalBlock hnow hstore).seq fun _ => makes_pure _

/-- An entry of the queue is stamped and written. -/
theorem makes_enqueueReplication (hnow : A .nowMicros) (hl : A (.enqueueReplication h)) :
    Makes I A (enqueueReplication h : SProg Blob ε Unit) :=
  (makes_nowMillis hnow).seq fun ms => makes_exec hl (fun _ => ⟨ms, _, rfl⟩) fun _ => rfl

/-- The read-repair of a block: no fetch succeeds, or a copy may be put. -/
def Repairs (I : Site Blob → Prop) (A : Call → Prop) (h : Bytes) : Prop :=
  (∀ s, I s → ∃ e, s.oracle.fetch s.tick = .error e) ∨ ∀ l ∈ putsBlock h, A l

/-- A fetch, from a peer that may not be reached. -/
theorem makes_noiseFetchBlock {url : Str} (hl : A (.fetch url h)) :
    Makes I A (noiseFetchBlock url h : SProg Blob ε (Except Str Bytes)) fun r =>
      (∀ s, I s → ∃ e, s.oracle.fetch s.tick = .error e) → ∃ e, r = .ok (.error e) := by
  refine makes_ask hl rfl fun s hs hfail => ?_
  obtain ⟨e, he⟩ := hfail s hs
  exact ⟨e, by rw [he]⟩

/-- Holders are asked in turn until one has the block, which is then kept. -/
theorem makes_fetchFromHolders {locations : List (Str × Bytes)} {peers : List (Str × Str)}
    (hstreams : ∀ l : Call, l.streams = true → A l) (hrepair : Repairs I A h) :
    Makes I A (fetchFromHolders locations h peers : SProg Blob Str Bytes) := by
  induction peers with
  | nil => exact makes_fail _
  | cons peer rest ih =>
    obtain ⟨peerId, peerUrl⟩ := peer
    unfold fetchFromHolders
    split
    · refine Prog.Calls.bind ((makes_noiseFetchBlock (hstreams _ rfl)).mono (fun _ hs => hs)
        (fun _ _ _ hP => hP) fun r hr => ?_)
      cases r with
      | error e => trivial
      | ok r =>
        cases r with
        | error e => exact ih
        | ok d =>
          rcases hrepair with hfail | hput
          · obtain ⟨e, he⟩ := hr hfail
            exact nomatch he
          · refine Makes.seq (makes_promoteBlockLocally hput).attempt fun r => ?_
            cases r with
            | ok _ => exact makes_pure _
            | error _ =>
              exact (makes_enqueueReplication (hstreams _ rfl) (hstreams _ rfl)).seq
                fun _ => makes_pure _
    · exact ih

/-- `get_block` reads the block here, or fetches it from a holder. -/
theorem makes_getBlock (hstreams : ∀ l : Call, l.streams = true → A l) (hrepair : Repairs I A h) :
    Makes I A (getBlock h : SProg Blob Str Bytes) := by
  refine (makes_getLocalBlockFid (hstreams _ rfl)).seq fun fid => ?_
  cases fid with
  | some fid =>
    refine Makes.seq (fun s _ => ⟨⟨hstreams _ rfl, rfl, rfl, rfl, rfl⟩, trivial⟩) fun r => ?_
    exact Prog.Calls.ofExcept trivial
  | none =>
    refine (makes_db (hstreams _ (by rfl)) (by rfl)).seq fun locations => ?_
    cases locations with
    | none => exact makes_fail _
    | some locations =>
      exact (makes_db (hstreams _ (by rfl)) (by rfl)).seq fun peers =>
        makes_fetchFromHolders hstreams hrepair

/-! ### The collector and the drainer -/

/-- The calls of a sweep whose live set is `live`. -/
def sweeps (live : List Bytes) : Call → Prop
  | .listLocalBlockHashes => True
  | .getPendingDeletions => True
  | .systemTime => True
  | .markTime => True
  | .addPendingDeletion _ _ => True
  | .removePendingDeletion _ => True
  | .getLocalBlockFid _ => True
  | .deleteLocalBlock h => h ∉ live
  | .blobDelete h => h ∉ live
  | _ => False

/-- A mark is taken away by one statement. -/
theorem makes_removePendingDeletion (hl : A (.removePendingDeletion h)) :
    Makes I A (removePendingDeletion h : SProg Blob ε Unit) :=
  makes_exec hl (fun _ => rfl) fun _ => rfl

/-- To reap a block deletes the row, the file and the mark. -/
theorem makes_reapBlock {live : List Bytes} (hlive : h ∉ live) :
    Makes I (sweeps live) (reapBlock h : SProg Blob ε Unit) := by
  refine (makes_getLocalBlockFid trivial).seq fun fid => ?_
  cases fid with
  | none => exact makes_removePendingDeletion trivial
  | some fid =>
    refine Makes.seq (p := deleteLocalBlock h)
      (fun s _ => ⟨⟨hlive, rfl, rfl, rfl, rfl⟩, trivial⟩) fun b => ?_
    cases b with
    | true =>
      exact Makes.seq (p := blobDelete h fid)
        (fun s _ => ⟨⟨hlive, rfl, rfl, rfl, ⟨fid, rfl⟩⟩, trivial⟩)
        fun _ => makes_removePendingDeletion trivial
    | false => exact makes_removePendingDeletion trivial

/-- One round of the sweep makes only calls about a block that is not live. -/
theorem makes_sweepBlock {cfg : GcConfig} {force : Bool} {live : List Bytes}
    {pending : Table Bytes ℤ} {now : ℤ} :
    Makes I (sweeps live) (sweepBlock cfg force live pending now h : SProg Blob ε Unit) := by
  unfold sweepBlock
  split
  · split
    · exact makes_removePendingDeletion trivial
    · exact makes_pure _
  · next hlive =>
      have hreapAt : Makes I (sweeps live) (reapAt cfg pending now h : SProg Blob ε ℤ) := by
        unfold reapAt
        cases pending.lookup h with
        | some t => exact makes_pure _
        | none =>
          refine Makes.seq (p := markTime) (makes_ask trivial rfl fun _ _ => trivial)
            fun micros => ?_
          exact Makes.seq (p := addPendingDeletion h _)
            (makes_exec trivial (fun _ => rfl) fun _ => rfl) fun _ => makes_pure _
      refine hreapAt.seq fun t => ?_
      split
      · exact makes_pure _
      · exact makes_reapBlock hlive

/-- A sweep, once it has read its live set. -/
def sweepFrom (cfg : GcConfig) (force : Bool) (live : List Bytes) : SProg Blob ε Unit := do
  let held ← listLocalBlockHashes
  let pending ← getPendingDeletions
  let micros ← systemTime
  let now : ℤ := (micros / 1000 : ℕ)
  Prog.forEach (sweepBlock cfg force live pending now) held
  Prog.forEach (fun hash => if hash ∈ held then pure () else removePendingDeletion hash)
    pending.keys

/-- The sweep takes the live set first and then goes by it. -/
theorem sweepOrphanedBlocks_eq (cfg : GcConfig) (force : Bool) :
    (sweepOrphanedBlocks cfg force : SProg Blob ε Unit) =
      computeLiveBlockSet >>= sweepFrom cfg force := rfl

/-- **A sweep deletes no block of the live set it has read.** -/
theorem makes_sweepFrom (cfg : GcConfig) (force : Bool) (live : List Bytes) :
    Makes I (sweeps live) (sweepFrom cfg force live : SProg Blob ε Unit) := by
  refine Makes.seq (p := listLocalBlockHashes) (makes_db trivial rfl) fun held => ?_
  refine Makes.seq (p := getPendingDeletions) (makes_db trivial rfl) fun pending => ?_
  refine (makes_systemTime trivial).seq fun micros => ?_
  refine Makes.seq (Prog.Calls.forEach fun h _ => makes_sweepBlock) fun _ => ?_
  refine Prog.Calls.forEach fun h _ => ?_
  split
  · exact makes_pure _
  · exact makes_removePendingDeletion trivial

/-- A whole sweep reads the live set and makes the calls a sweep may make. -/
theorem makes_sweep {A : Call → Prop} (hread : A .computeLiveBlockSet)
    (hA : ∀ live l, sweeps live l → A l) (cfg : GcConfig) (force : Bool) :
    Makes I A (sweepOrphanedBlocks cfg force : SProg Blob ε Unit) := by
  rw [sweepOrphanedBlocks_eq]
  refine Makes.seq (p := computeLiveBlockSet) (makes_db hread rfl) fun live => ?_
  refine (makes_sweepFrom cfg force live).mono (fun _ hs => hs) ?_ fun _ h => h
  exact fun l s s' hl => ⟨hA live l hl.1, hl.2⟩

end Site
end Shardscape
