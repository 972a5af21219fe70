/-
# A site and its calls

`src/storage.rs` runs over the store, a blob backend for the bytes of the blocks,
and the world: the clock, the network and the disk guard.  A `Site` is all of
them, and every call `storage.rs` makes is one atomic step of it (`Call` names
them), so that its functions are programs (`Lib.Prog`) over sites.

What the world answers is an `Oracle`, one answer after the other: nothing is
assumed of it here, and a statement about every oracle is one about every clock,
every fetch outcome and every disk.  Time is in microseconds since 1970.  Calls
of the database do not fail.
-/

import Shardscape.Clock
import Shardscape.Lib.Interleave
import Shardscape.Store.Facts
import Shardscape.Store.Listing
import Shardscape.Store.Multipart

namespace Shardscape

open Lib

/-- `BlobStore`: where the bytes of blocks are kept, under a hash and a token
(`fid`) given out when they are put. -/
structure BlobStore where
  State : Type
  put : State → Bytes → Bytes → State × Bytes
  get : State → Bytes → Bytes → Except Str Bytes
  delete : State → Bytes → Bytes → State

/-- `LocalBlob`: a file per hash; the token is the text `local` and is not read
back. -/
def localBlob : BlobStore where
  State := Table Bytes Bytes
  put files hash data := (files.insert hash data, text "local")
  get files hash _ :=
    match files.lookup hash with
    | some data => .ok data
    | none => .error (text "No such file or directory (os error 2)")
  delete files hash _ := files.erase hash

/-- `GuardTrip`, with the two amounts its message reports, as texts. -/
inductive GuardTrip where
  | lowFreeSpace (free reserve : Str)
  | overQuota (used cap : Str)

/-- What the world answers, in order: readings of `SystemTime`, outcomes of
`noise_fetch_block`, refusals of the disk guard, and failures of the blob backend
to put. -/
structure Oracle where
  micros : ℕ → ℕ
  fetch : ℕ → Except Str Bytes
  guardTrip : ℕ → Option GuardTrip
  putFails : ℕ → Option Str

/-- A site: `tick` counts the answers taken from the oracle. -/
structure Site (Blob : BlobStore) where
  store : Store
  blobs : Blob.State
  clock : ClusterClock
  oracle : Oracle
  tick : ℕ := 0

/-- The calls. -/
inductive Call where
  | nowMicros
  | systemTime
  | markTime
  | diskGuard
  | fetch (peerUrl : Str) (hash : Bytes)
  | blobPut (hash : Bytes)
  | blobGet (hash : Bytes)
  | blobDelete (hash : Bytes)
  | getLocalBlockFid (hash : Bytes)
  | getBlockFids (hash : Bytes)
  | storeLocalBlock (hash : Bytes)
  | blockSizes (hashes : List Bytes)
  | getPeersWithUrls
  | computeLiveBlockSet
  | listLocalBlockHashes
  | getPendingDeletions
  | addPendingDeletion (hash : Bytes) (notBefore : ℤ)
  | removePendingDeletion (hash : Bytes)
  | deleteLocalBlock (hash : Bytes)
  | enqueueReplication (hash : Bytes)
  | getReplicationQueue
  | dequeueReplication (hash : Bytes)
  | deferReplication (hash : Bytes)
  | getObject (bucket key : Str)
  | insertObject (bucket key : Str)
  | deleteObject (bucket key : Str)
  | insertMultipart (bucket : Str) (uploadId : Uuid)
  | getMultipartKey (bucket : Str) (uploadId : Uuid)
  | deleteMultipartUpload (bucket : Str) (uploadId : Uuid)
  | insertPart (bucket : Str) (uploadId : Uuid) (partNumber : ℤ)
  | listParts (bucket : Str) (uploadId : Uuid)
  | listMultipartUploads (bucket : Str)
  | listObjects (bucket : Str)
  | listBuckets
  | getUser (accessKey : Str)
  | allNodes
  | factsSince (afterSeq : ℤ)
  | applyFact (rec : FactRecord)
  | recordPeer (locationId : Str)

namespace Site

variable {Blob : BlobStore} {ε : Type}

/-- A program over sites. -/
abbrev SProg (Blob : BlobStore) := Prog Call (Site Blob)

/-- Programs of a site side by side, in threads `κ`, and the record `γ` of what they have done. -/
abbrev Threads (κ : Type) (Blob : BlobStore) (ε : Type) (γ : Type := Unit) :=
  Conf κ Call (Site Blob) γ ε

/-- A query of the store. -/
def db (l : Call) {α : Type} (f : Store → α) : SProg Blob ε α := Prog.query l fun s => f s.store

/-- A statement on the store. -/
def exec (l : Call) (f : Store → Store) : SProg Blob ε Unit :=
  Prog.modify l fun s => { s with store := f s.store }

/-- The next answer of the oracle. -/
def ask (l : Call) {α : Type} (f : Site Blob → ℕ → α) : SProg Blob ε α :=
  Prog.call l fun s => ({ s with tick := s.tick + 1 }, f s s.tick)

variable {α : Type} {Q : Except ε α → Site Blob → Prop} {s : Site Blob}

/-- A query answers from the database. -/
@[simp] theorem wp_db (l : Call) (f : Store → α) :
    Prog.wp (db l f : SProg Blob ε α) Q s ↔ Q (.ok (f s.store)) s := Iff.rfl

/-- A statement changes the database. -/
@[simp] theorem wp_exec (l : Call) (f : Store → Store) {Q : Except ε Unit → Site Blob → Prop} :
    Prog.wp (exec l f) Q s ↔ Q (.ok ()) { s with store := f s.store } := Iff.rfl

/-- A call to the outside takes the next answer of the oracle. -/
@[simp] theorem wp_ask (l : Call) (f : Site Blob → ℕ → α) :
    Prog.wp (ask l f : SProg Blob ε α) Q s ↔ Q (.ok (f s s.tick)) { s with tick := s.tick + 1 } :=
  Iff.rfl

/-- `SystemTime::now`. -/
def systemTime : SProg Blob ε ℕ := ask .systemTime fun s n => s.oracle.micros n

/-- `SystemTime::now` in the argument of `add_pending_deletion`. -/
def markTime : SProg Blob ε ℕ := ask .markTime fun s n => s.oracle.micros n

/-- `ClusterClock::now_micros`. -/
def nowMicros : SProg Blob ε ℤ :=
  ask .nowMicros fun s n => s.clock.nowMicros (s.oracle.micros n)

/-- The next reading of the clock. -/
def stamp (s : Site Blob) : ℤ := s.clock.nowMicros (s.oracle.micros s.tick)

/-- `Store::now_millis`. -/
def nowMillis : SProg Blob ε ℤ := do
  let micros ← nowMicros
  pure (micros.tdiv 1000)

/-- `DiskGuard::check`. -/
def diskGuard : SProg Blob ε (Option GuardTrip) := ask .diskGuard fun s n => s.oracle.guardTrip n

/-- `noise_fetch_block`. -/
def noiseFetchBlock (peerUrl : Str) (hash : Bytes) : SProg Blob ε (Except Str Bytes) :=
  ask (.fetch peerUrl hash) fun s n => s.oracle.fetch n

/-- `BlobStore::put`. -/
def blobPut (hash data : Bytes) : SProg Blob Str Bytes := do
  let r ← Prog.call (.blobPut hash) fun s : Site Blob =>
    match s.oracle.putFails s.tick with
    | some e => ({ s with tick := s.tick + 1 }, Except.error e)
    | none =>
      ({ s with tick := s.tick + 1, blobs := (Blob.put s.blobs hash data).1 },
        .ok (Blob.put s.blobs hash data).2)
  Prog.ofExcept r

/-- `BlobStore::get`. -/
def blobGet (hash fid : Bytes) : SProg Blob Str Bytes := do
  let r ← Prog.query (.blobGet hash) fun s : Site Blob => Blob.get s.blobs hash fid
  Prog.ofExcept r

/-- `BlobStore::delete`. -/
def blobDelete (hash fid : Bytes) : SProg Blob ε Unit :=
  Prog.modify (.blobDelete hash) fun s => { s with blobs := Blob.delete s.blobs hash fid }

/-! ### The calls of the store -/

def getLocalBlockFid (hash : Bytes) : SProg Blob ε (Option Bytes) :=
  db (.getLocalBlockFid hash) (·.getLocalBlockFid hash)

def getBlockFids (hash : Bytes) : SProg Blob ε (Option (List (Str × Bytes))) :=
  db (.getBlockFids hash) (·.getBlockFids hash)

def storeLocalBlock (hash fid : Bytes) (size : ℤ) : SProg Blob ε Unit := do
  let ts ← nowMicros
  exec (.storeLocalBlock hash) (·.storeLocalBlock ts hash fid size)

def blockSizes (hashes : List Bytes) : SProg Blob ε (List ℤ) :=
  db (.blockSizes hashes) (·.blockSizes hashes)

def getPeersWithUrls : SProg Blob ε (List (Str × Str)) := db .getPeersWithUrls (·.getPeers)

def computeLiveBlockSet : SProg Blob ε (List Bytes) :=
  db .computeLiveBlockSet (·.computeLiveBlockSet)

def listLocalBlockHashes : SProg Blob ε (List Bytes) :=
  db .listLocalBlockHashes (·.listLocalBlockHashes)

def getPendingDeletions : SProg Blob ε (Table Bytes ℤ) :=
  db .getPendingDeletions (·.getPendingDeletions)

def addPendingDeletion (hash : Bytes) (notBefore : ℤ) : SProg Blob ε Unit :=
  exec (.addPendingDeletion hash notBefore) (·.addPendingDeletion hash notBefore)

def removePendingDeletion (hash : Bytes) : SProg Blob ε Unit :=
  exec (.removePendingDeletion hash) (·.removePendingDeletion hash)

def deleteLocalBlock (hash : Bytes) : SProg Blob ε Bool :=
  Prog.call (.deleteLocalBlock hash) fun s =>
    ({ s with store := (s.store.deleteLocalBlock hash).1 }, (s.store.deleteLocalBlock hash).2)

def enqueueReplication (hash : Bytes) : SProg Blob ε Unit := do
  let nowMs ← nowMillis
  exec (.enqueueReplication hash) fun s => s.enqueueReplication nowMs hash [s.localLocationId]

def getReplicationQueue : SProg Blob ε (List ReplicationEntry) := do
  let nowMs ← nowMillis
  db .getReplicationQueue (·.getReplicationQueue nowMs)

def dequeueReplication (hash : Bytes) : SProg Blob ε Unit :=
  exec (.dequeueReplication hash) (·.dequeueReplication hash)

def deferReplication (entry : ReplicationEntry) : SProg Blob ε Unit := do
  let nowMs ← nowMillis
  exec (.deferReplication entry.hash) (·.deferReplication nowMs entry)

def getObject (bucket key : Str) : SProg Blob ε (Option (List Bytes × ℤ × Str)) :=
  db (.getObject bucket key) (·.getObject bucket key)

def insertObject (bucket : Str) (shardId : ℤ) (key : Str) (blocks : List Bytes) (size : ℤ)
    (etag : Str) : SProg Blob ε Unit := do
  let ts ← nowMicros
  exec (.insertObject bucket key) (·.insertObject ts bucket shardId key blocks size etag)

def deleteObject (B : Blake3) (bucket key : Str) : SProg Blob ε Unit := do
  let ts ← nowMicros
  exec (.deleteObject bucket key) (Store.deleteObject B · ts bucket key)

def insertMultipart (bucket : Str) (uploadId : Uuid) (key : Str) : SProg Blob ε Unit :=
  exec (.insertMultipart bucket uploadId) (·.insertMultipart bucket uploadId key)

def getMultipartKey (bucket : Str) (uploadId : Uuid) : SProg Blob ε (Option Str) :=
  db (.getMultipartKey bucket uploadId) (·.getMultipartKey bucket uploadId)

def deleteMultipartUpload (bucket : Str) (uploadId : Uuid) : SProg Blob ε Unit :=
  exec (.deleteMultipartUpload bucket uploadId) (·.deleteMultipartUpload bucket uploadId)

def insertPart (bucket : Str) (uploadId : Uuid) (partNumber : ℤ) (blocks : List Bytes) (size : ℤ)
    (etag : Str) : SProg Blob ε Unit :=
  exec (.insertPart bucket uploadId partNumber)
    (·.insertPart bucket uploadId partNumber blocks size etag)

def listParts (bucket : Str) (uploadId : Uuid) :
    SProg Blob ε (List (ℤ × List Bytes × ℤ × Str)) :=
  db (.listParts bucket uploadId) (·.listParts bucket uploadId)

def listMultipartUploads (bucket : Str) (pre keyMarker : Option Str) (maxUploads : ℕ) :
    SProg Blob ε (List (Str × Uuid)) :=
  db (.listMultipartUploads bucket) (·.listMultipartUploads bucket pre keyMarker maxUploads)

/-- `list_objects`; `none` is its panic. -/
def listObjects (bucket : Str) (after pre : Option Str) (pageSize : ℕ) :
    SProg Blob ε (Option (List ListedRow × Bool)) :=
  db (.listObjects bucket) (·.listObjects bucket after pre pageSize)

def listBuckets : SProg Blob ε (List (Str × ℤ)) := db .listBuckets (·.listBuckets)

def getUser (J : PolicyJson) (accessKey : Str) :
    SProg Blob ε (Except StoreError (Option (Str × Policy))) :=
  db (.getUser accessKey) (Store.getUser J · accessKey)

def allNodes : SProg Blob ε (List (Str × Str)) := db .allNodes (·.allNodes)

/-- `facts_since`; sequence numbers start at 1, so a negative one is before all. -/
def factsSince (afterSeq : ℤ) (limit : ℕ) : SProg Blob ε (List FactRecord) :=
  db (.factsSince afterSeq) (·.factsSince afterSeq.toNat limit)

/-- `apply_fact`; the reading is for the replication queue. -/
def applyFact (B : Blake3) (rec : FactRecord) : SProg Blob ε Unit :=
  Prog.modify (.applyFact rec) fun s =>
    { s with
      tick := s.tick + 1
      store := s.store.applyFactD B ((s.clock.nowMicros (s.oracle.micros s.tick)).tdiv 1000) rec }

def recordPeer (locationId apiUrl : Str) : SProg Blob ε Unit := do
  let nowMs ← nowMillis
  exec (.recordPeer locationId) (·.recordPeer nowMs locationId apiUrl)

end Site
end Shardscape
