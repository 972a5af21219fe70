/-
# Many sites and their collectors

`docs/ARCHITECTURE.md`, "The model in one paragraph": garbage collection reduces to
one invariant, never delete the last copy of a block any site might still
reference.  The sites are those of `Shardscape.Backend.Acts`; every step is taken at
one reading of the clock.

The ledger is a ghost: when each fact was logged, and which facts of which peers a
site has applied.  `Timely` is the assumption the design states: a fact is applied
everywhere within the grace period, in the milliseconds the collector counts in.
`Careful` is what a step has to keep to besides, so that no last copy is deleted:

* a copy is made at a site that holds the blocks of its source;
* no block that a new manifest names is marked for deletion at that site;
* no manifest is written under the very stamp of the row that is there;
* no sweep is forced, and no drain runs under disk pressure, when it is a forced sweep.
-/

import Shardscape.Backend.Acts
import Shardscape.Backend.Receive

namespace Shardscape

open Lib StorageBackend

/-- The ghosts of a cluster: the reading of the last step, the reading at which a
site logged the fact with a number, and the facts a site has applied, by peer and
number. -/
structure Ledger (ι : Type) where
  now : ℕ := 0
  loggedAt : ι → ℕ → ℕ := fun _ _ => 0
  applied : ι → List (ι × ℕ) := fun _ => []

/-- A cluster. -/
structure Cluster (ι : Type) (Blob : BlobStore) where
  sites : ι → Site Blob
  ledger : Ledger ι := {}

/-- A step of a site, at one reading of `SystemTime`. -/
structure ClusterEvent (ι : Type) where
  site : ι
  micros : ℕ
  act : SiteAct ι
  fetch : ℕ → Except Str Bytes := fun _ => .error []
  guardTrip : ℕ → Option GuardTrip := fun _ => none
  putFails : ℕ → Option Str := fun _ => none

/-- The step of the sites. -/
def ClusterEvent.toAct {ι : Type} (e : ClusterEvent ι) : ActEvent ι where
  site := e.site
  act := e.act
  oracle :=
    { micros := fun _ => e.micros
      fetch := e.fetch
      guardTrip := e.guardTrip
      putFails := e.putFails }

namespace Cluster

variable {ι : Type} {Blob : BlobStore}

/-- The tables of the sites. -/
def stores (c : Cluster ι Blob) (i : ι) : Store := (c.sites i).store

/-- The ledger when a step begins: what the site logs from now on is logged now. -/
def opened [DecidableEq ι] (c : Cluster ι Blob) (e : ClusterEvent ι) : Ledger ι where
  now := e.micros
  loggedAt j n :=
    if j = e.site ∧ (c.stores j).factLog.length < n then e.micros else c.ledger.loggedAt j n
  applied := c.ledger.applied

/-- A site has applied some facts of a peer. -/
def noted [DecidableEq ι] (L : Ledger ι) (i peer : ι) (seqs : List ℕ) : Ledger ι :=
  { L with applied := Function.update L.applied i (seqs.map (peer, ·) ++ L.applied i) }

/-- One step. -/
def step [DecidableEq ι] (S : StorageBackend) (c : Cluster ι Blob) (e : ClusterEvent ι) :
    Cluster ι Blob where
  sites := e.toAct.step S c.sites
  ledger :=
    match e.act with
    | .pull peer => noted (c.opened e) e.site peer (e.toAct.pulled S c.sites peer).2
    | _ => c.opened e

/-- When a fact logged at a reading has to be applied everywhere, in milliseconds. -/
def due (cfg : GcConfig) (micros : ℕ) : ℤ := (micros / 1000 : ℕ) + cfg.grace

/-- A live row or a part names `h` at some site. -/
def NamedSomewhere (c : Cluster ι Blob) (h : Bytes) : Prop :=
  ∃ i, (c.stores i).NamedByObject h ∨ (c.stores i).NamedByPart h

/-- Some site holds `h`. -/
def HeldSomewhere (c : Cluster ι Blob) (h : Bytes) : Prop := ∃ i, (c.stores i).HoldsLocally h

/-- Every fact that is due at a reading is applied everywhere. -/
def Timely (cfg : GcConfig) (c : Cluster ι Blob) (micros : ℕ) : Prop :=
  ∀ i j, i ≠ j → ∀ rec ∈ Store.factRecords (c.stores j).factLog,
    due cfg (c.ledger.loggedAt j rec.seq) ≤ (micros / 1000 : ℕ) → (j, rec.seq) ∈ c.ledger.applied i

/-- The manifest a request writes: its key and blocks. -/
def manifestOf (S : StorageBackend) (s : Store) : Request → Option ((Str × Str) × List Bytes)
  | .putObject bucket key body =>
    some ((bucket, key), ((Request.putObject bucket key body).chunks S).map S.blake3.hash)
  | .copyObject (.bucket srcBucket srcKey) bucket key =>
    (s.getObject srcBucket srcKey).map fun m => ((bucket, key), m.1)
  | .completeMultipartUpload bucket key (some uploadId) =>
    some ((bucket, key), (s.listParts bucket uploadId).flatMap fun p => p.2.1)
  | _ => none

/-- A request is a copy. -/
def IsCopy : Request → Prop
  | .copyObject _ _ _ => True
  | _ => False

instance : DecidablePred IsCopy
  | .copyObject _ _ _ => isTrue trivial
  | .putObject _ _ _ | .deleteObject _ _ | .createMultipartUpload _ _ _ | .uploadPart _ _ _ _
  | .completeMultipartUpload _ _ _ | .abortMultipartUpload _ _ => isFalse id

/-- What a request at a site keeps to, at the stamp it writes with. -/
def CarefulRequest (S : StorageBackend) (s : Store) (ts : ℤ) (r : Request) : Prop :=
  ∀ m ∈ manifestOf S s r,
    (∀ h ∈ m.2, s.pendingDeletions.lookup h = none) ∧
      (∀ row ∈ s.objects.lookup m.1, row.updatedAt ≠ ts) ∧
      (IsCopy r → ∀ h ∈ m.2, s.HoldsLocally h)

instance (S : StorageBackend) (s : Store) (ts : ℤ) (r : Request) :
    Decidable (CarefulRequest S s ts r) :=
  inferInstanceAs (Decidable (∀ m ∈ manifestOf S s r, _ ∧ _ ∧ _))

/-- What a step keeps to. -/
def Careful (S : StorageBackend) (c : Cluster ι Blob) (e : ClusterEvent ι) : Prop :=
  match e.act with
  | .request r =>
    CarefulRequest S (c.stores e.site) ((c.sites e.site).clock.nowMicros e.micros) r
  | .drain => (e.guardTrip 0).isNone
  | .sweep force => force = false
  | _ => True

end Cluster
end Shardscape
