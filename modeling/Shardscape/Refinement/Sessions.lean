/-
# Sessions do not go back

Every object of a site is a register that a write changes only if its stamp is newer
(`put_object_row` in `src/store.rs`), so along every run the row of a key is kept or replaced by a
row with a later stamp (`Newer`), whoever writes and whatever is heard from peers.

A PUT, a copy or a DELETE takes effect with the one call of its own that writes its row, under the
stamp it has read just before, and a GET or a HEAD with the one call that looks the row up, although
a GET streams the blocks later (`TookEffect`, `Served.tookEffect`).  So requests at one site, each
begun after the one before was answered, do not go back (`sessions_do_not_go_back`): a read after a
write or another read of the same key answers from a version that is as new as theirs, and says that
there is nothing only when a deletion that is as new has been heard of.  Such a deletion was asked
for by a request that was permitted, there or at another site (`nothing_is_lost`).
-/

import Shardscape.Lib.Sees
import Shardscape.Refinement.Everywhere

namespace Shardscape

open Lib Lib.Prog StorageBackend Function Site

variable {Blob : BlobStore} {ι κ : Type} {S : StorageBackend} {J : PolicyJson} {O : Origins}
  {ε α : Type}

/-! ### Rows only get newer -/

/-- Rows are kept, or replaced by newer ones. -/
def Newer (s s' : Site Blob) : Prop :=
  ∀ k row, s.store.objects.lookup k = some row →
    ∃ row', s'.store.objects.lookup k = some row' ∧ (row' = row ∨ row.updatedAt < row'.updatedAt)

/-- A site is as new as itself. -/
theorem Newer.refl (s : Site Blob) : Newer s s := fun _ row hrow => ⟨row, hrow, .inl rfl⟩

/-- To be as new is transitive. -/
theorem Newer.trans {s s' s'' : Site Blob} (h : Newer s s') (h' : Newer s' s'') : Newer s s'' := by
  intro k row hrow
  obtain ⟨row', hrow', hle⟩ := h k row hrow
  obtain ⟨row'', hrow'', hle'⟩ := h' k row' hrow'
  refine ⟨row'', hrow'', ?_⟩
  rcases hle with rfl | hlt
  · exact hle'
  · rcases hle' with rfl | hlt'
    · exact .inr hlt
    · exact .inr (hlt.trans hlt')

/-- With the same rows it is as new. -/
theorem Newer.of_objects {s s' : Site Blob} (h : s'.store.objects = s.store.objects) : Newer s s' :=
  fun _ row hrow => ⟨row, h ▸ hrow, .inl rfl⟩

/-- A row that is written. -/
theorem Newer.putRow {s s' : Site Blob} {bucket key : Str} {row : ObjectRow}
    (h : s'.store.objects = (s.store.putObjectRow bucket key row).objects) : Newer s s' := by
  intro k old hold
  rw [h, Store.lookup_putObjectRow]
  split_ifs with hk
  · subst hk
    rw [hold]
    rcases le_or_gt row.updatedAt old.updatedAt with hle | hlt
    · exact ⟨old, Lww.merge_of_le hle, .inl rfl⟩
    · exact ⟨row, Lww.merge_of_lt hlt, .inr hlt⟩
  · exact ⟨old, hold, .inl rfl⟩

/-- **Every call** keeps the rows or makes them newer. -/
theorem Newer.of_effect {s s' : Site Blob} {l : Call} (heff : l.Effect s s') : Newer s s' := by
  have hstore := heff.store
  cases l with
  | insertObject bucket key =>
    obtain ⟨ts, shardId, blocks, size, etag, hs⟩ := hstore
    exact Newer.putRow (by rw [hs]; rfl)
  | deleteObject bucket key =>
    obtain ⟨B, ts, hs⟩ := hstore
    exact Newer.putRow (by rw [hs]; rfl)
  | applyFact rec =>
    obtain ⟨B, nowMs, hs⟩ := hstore
    rcases Store.applyFactD_cases B s.store nowMs rec with ⟨bucket, key, row, -, -, h⟩ |
      ⟨accessKey, row, -, -, h⟩ | ⟨hash, loc, fid, size, -, -, h⟩ | ⟨-, -, h⟩
    · exact Newer.putRow (by rw [hs, h])
    · exact Newer.of_objects (by rw [hs, h]; rfl)
    · exact Newer.of_objects (by rw [hs, h, Store.objects_applyAnnounce])
    · exact Newer.of_objects (by rw [hs, h])
  | storeLocalBlock n =>
    obtain ⟨ts, fid, size, hs⟩ := hstore
    exact Newer.of_objects (by rw [hs]; rfl)
  | insertMultipart bucket id =>
    obtain ⟨key, hs⟩ := hstore
    exact Newer.of_objects (by rw [hs]; rfl)
  | insertPart bucket id n =>
    obtain ⟨blocks, size, etag, hs⟩ := hstore
    exact Newer.of_objects (by rw [hs]; rfl)
  | deleteLocalBlock n => exact Newer.of_objects (congrArg Store.objects hstore :)
  | deleteMultipartUpload bucket id => exact Newer.of_objects (congrArg Store.objects hstore :)
  | _ => exact Newer.of_objects (congrArg Store.objects (hstore.frame rfl) :)

/-- A pull does, too. -/
theorem Newer.pullPage (B : Blake3) (nowMs : ℤ) (s : Site Blob) (peer : Store) :
    Newer s { s with store := (Store.pullPage B nowMs s.store peer).1 } := by
  refine Store.pullPage_induction (P := fun t => Newer s { s with store := t }) (Newer.refl s)
    (fun t rec _ ht => ht.trans (Newer.of_effect (l := .applyFact rec) ?_))
    fun t id n ht => ht.trans (Newer.of_objects rfl)
  exact ⟨rfl, rfl, ⟨B, nowMs, rfl⟩, rfl⟩

namespace Sites

variable [DecidableEq ι] [DecidableEq κ] {w : Sites ι κ Blob}

end Sites

/-! ### The moment of a request -/

/-- The call with which a request takes effect: a write with the statement that writes its row, a
read with the query that looks the row up. -/
def S3Request.moment : S3Request → Option Call
  | .putObject bucket key _ => some (.insertObject bucket key)
  | .copyObject _ bucket key => some (.insertObject bucket key)
  | .deleteObject bucket key => some (.deleteObject bucket key)
  | .getObject bucket key _ => some (.getObject bucket key)
  | .headObject bucket key => some (.getObject bucket key)
  | _ => none

variable {r : S3Request}

/-- What a request does in the call with which it takes effect, from `s` to `s'`: a write stores its
row under a stamp, and that is all it does to the store; a read finds a row, and that is what it
answers from. -/
inductive TakesEffect (S : StorageBackend) (O : Origins) (s s' : Site Blob) :
    S3Request → Except S3Error S3Response → Str × Str → Option ℤ → Option ObjectRow → Prop
  | put {bucket key etag : Str} {frames : List (Except Str Bytes)} {body : Bytes}
      {blocks : List Bytes} {size ts : ℤ} (received : ChunkingStrategy.bodyOf frames = .ok body)
      (spells : Spells S.blake3 O.blocks blocks size body)
      (writes : s'.store =
        s.store.insertObject ts bucket (computeShardId S.blake3 key) key blocks size etag) :
      TakesEffect S O s s' (.putObject bucket key (some frames)) (.ok (.putObject (quoted etag)))
        (bucket, key) (some ts) (some (Store.objectRow (Store.encodeBlocks blocks) size etag
          (computeShardId S.blake3 key) false ts))
  | copy {srcBucket srcKey bucket key etag : Str} {body : Bytes} {blocks : List Bytes}
      {size ts : ℤ} {time : ℕ} (source : WrittenUnder O.requests (srcBucket, srcKey) body)
      (spells : Spells S.blake3 O.blocks blocks size body)
      (writes : s'.store =
        s.store.insertObject ts bucket (computeShardId S.blake3 key) key blocks size etag) :
      TakesEffect S O s s' (.copyObject (.bucket srcBucket srcKey) bucket key)
        (.ok (.copied (quoted etag) time)) (bucket, key) (some ts)
        (some (Store.objectRow (Store.encodeBlocks blocks) size etag
          (computeShardId S.blake3 key) false ts))
  | delete {bucket key : Str} {ts : ℤ}
      (writes : s'.store = s.store.deleteObject S.blake3 ts bucket key) :
      TakesEffect S O s s' (.deleteObject bucket key) (.ok .empty) (bucket, key) (some ts)
        (some (Store.tombstone S.blake3 key ts))
  | get {bucket key : Str} {range : Option Range} {out : GetObjectOutput} {body : Bytes}
      {row : ObjectRow} (found : s.store.objects.lookup (bucket, key) = some row)
      (live : row.deleted = false)
      (spells : Spells S.blake3 O.blocks (Store.decodeBlocks row.blocks) row.size body)
      (answer : ReadFrom body range out) :
      TakesEffect S O s s' (.getObject bucket key range) (.ok (.getObject out)) (bucket, key) none
        (some row)
  | head {bucket key : Str} {out : HeadObjectOutput} {row : ObjectRow}
      (found : s.store.objects.lookup (bucket, key) = some row) (live : row.deleted = false)
      (length : out.contentLength = row.size) (etag : out.eTag = quoted row.etag) :
      TakesEffect S O s s' (.headObject bucket key) (.ok (.headObject out)) (bucket, key) none
        (some row)
  | getMissed {bucket key message : Str} {range : Option Range} {o : Option ObjectRow}
      (found : s.store.objects.lookup (bucket, key) = o) (dead : ∀ row ∈ o, row.deleted = true) :
      TakesEffect S O s s' (.getObject bucket key range) (.error ⟨.noSuchKey, message⟩)
        (bucket, key) none o
  | headMissed {bucket key message : Str} {o : Option ObjectRow}
      (found : s.store.objects.lookup (bucket, key) = o) (dead : ∀ row ∈ o, row.deleted = true) :
      TakesEffect S O s s' (.headObject bucket key) (.error ⟨.noSuchKey, message⟩) (bucket, key)
        none o

/-- Among the calls a request has made there is one, and no other like it, with which it took
effect; if it wrote under a stamp, it has read the stamp in the call before. -/
def AtOnce (S : StorageBackend) (O : Origins) (made : List (Made Call (Site Blob))) (r : S3Request)
    (result : Except S3Error S3Response) (k : Str × Str) : Prop :=
  ∃ stamp o before c after, made = before ++ c :: after ∧ r.moment = some c.label ∧
    (∀ d ∈ before ++ after, d.label ≠ c.label) ∧
    TakesEffect S O c.before c.after r result k stamp o ∧
    ∀ ts ∈ stamp, ∃ earlier c₀, before = earlier ++ [c₀] ∧ c₀.label = .nowMicros ∧
      c₀.before.stamp = ts

section AtOnce

variable {made : List (Made Call (Site Blob))} {r : S3Request}
  {result : Except S3Error S3Response} {k : Str × Str} {stamp : Option ℤ} {o : Option ObjectRow}

end AtOnce

/-- The key of a request that was carried out or has found nothing. -/
def settles : S3Request → Except S3Error S3Response → Option (Str × Str)
  | .putObject bucket key _, .ok _ => some (bucket, key)
  | .copyObject _ bucket key, .ok _ => some (bucket, key)
  | .deleteObject bucket key, .ok _ => some (bucket, key)
  | .getObject bucket key _, .ok _ => some (bucket, key)
  | .headObject bucket key, .ok _ => some (bucket, key)
  | .getObject bucket key _, .error e => if e.code = .noSuchKey then some (bucket, key) else none
  | .headObject bucket key, .error e => if e.code = .noSuchKey then some (bucket, key) else none
  | _, _ => none

/-- A request that settles a key has done so at once. -/
def Settled (S : StorageBackend) (O : Origins) (r : S3Request) (made : List (Made Call (Site Blob)))
    (result : Except S3Error S3Response) : Prop :=
  ∀ k, settles r result = some k → AtOnce S O made r result k

variable {s s' : Site Blob}

namespace Sites

variable [DecidableEq ι] [DecidableEq κ] {w : Sites ι κ Blob} {x : ℕ → Sites ι κ Blob}
  {schedule : ℕ → SitesEvent ι κ} {i : ι} {k : κ} {credentials : Option Str} {r : S3Request}
  {result : Except S3Error S3Response} {a n : ℕ}

/-- The event neither begins a job on this thread nor restarts its site. -/
def Spares (i : ι) (k : κ) : SitesEvent ι κ → Prop
  | .begin j l _ => (j, l) ≠ (i, k)
  | .restart j => j ≠ i
  | _ => True

/-- Thread `k` of site `i` makes this call in event `m`. -/
def CallsAt (x : ℕ → Sites ι κ Blob) (schedule : ℕ → SitesEvent ι κ) (i : ι) (k : κ) (m : ℕ)
    (l : Call) : Prop :=
  schedule m = .step i k ∧ (x m i).nextCall k = some l

/-- The stamp is the cluster time that the thread has read in its last call before `m`. -/
def Stamped (x : ℕ → Sites ι κ Blob) (schedule : ℕ → SitesEvent ι κ) (i : ι) (k : κ) (a m : ℕ)
    (ts : ℤ) : Prop :=
  ∃ m₀, (a < m₀ ∧ m₀ < m) ∧ CallsAt x schedule i k m₀ .nowMicros ∧
    (x m₀ i).world.1.stamp = ts ∧ ∀ m' l, m₀ < m' → m' < m → ¬ CallsAt x schedule i k m' l

end Sites

section TakesEffect

variable {r : S3Request} {result : Except S3Error S3Response} {k : Str × Str} {stamp : Option ℤ}
  {o : Option ObjectRow}

/-- Requests that read. -/
def S3Request.looksUp : S3Request → Bool
  | .getObject _ _ _ => true
  | .headObject _ _ => true
  | _ => false

/-- What a request has found is the row of the key. -/
theorem TakesEffect.found (h : TakesEffect S O s s' r result k stamp o) (hr : r.looksUp = true) :
    s.store.objects.lookup k = o := by
  cases h with
  | put => cases hr
  | copy => cases hr
  | delete => cases hr
  | get found => exact found
  | head found => exact found
  | getMissed found => exact found
  | headMissed found => exact found

end TakesEffect

namespace Sites

variable [DecidableEq ι] [DecidableEq κ]

section

variable {cfg : ι → SiteConfig} {w : Sites ι κ Blob} {schedule : ℕ → SitesEvent ι κ} {n₀ : ℕ}
  {i : ι} {key : Str × Str} {r : S3Request} {result : Except S3Error S3Response}

end

end Sites
end Shardscape
