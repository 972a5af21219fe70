/-
# What a user can read

`src/storage.rs`: `authorize` decides about every request, by the policy of the user, an
action and a resource.  A GET needs `s3:GetObject` on the object.  `copy_object` and
`upload_part_copy` read an object, too, but are authorized for `s3:PutObject` on the
destination and for nothing on the source.

So a user who may not read an object but may write and read elsewhere copies it there
(`copy_reads_hidden`).  Copies apart, what the user reads does not depend on the bytes of an
object that the policy does not allow to be read (`reads_alike`): every other request is
blind to them, or refused, or uses them for nothing but a response that is not that of a
GET.
-/

import Shardscape.Access.BlindRequests
import Shardscape.Backend.RequestEffects
import Shardscape.Backend.Samples

namespace Shardscape

open Lib Prog

/-- The policy allows the request. -/
def Policy.permits (policy : Policy) (r : S3Request) : Bool :=
  policy.isAllowed r.asks.1 (resourceOf r.asks.2.1 r.asks.2.2)

/-- A GET. -/
def S3Request.isGet : S3Request → Bool
  | .getObject _ _ _ => true
  | _ => false

/-- The body of a response to a GET. -/
def responseBody : Except S3Error S3Response → Option (List (Except S3Error Bytes))
  | .ok (.getObject output) => some output.body
  | _ => none

/-- A call other than `apply_fact` leaves the users alone. -/
theorem Call.Stores.users {l : Call} {s s' : Store} (h : l.Stores s s') (hl : Site.OwnCall l) :
    s'.users = s.users := by
  cases l with
  | applyFact rec => exact absurd rfl (hl rec)
  | storeLocalBlock hash =>
    obtain ⟨ts, fid, size, rfl⟩ := h
    rfl
  | insertObject bucket key =>
    obtain ⟨ts, shardId, blocks, size, etag, rfl⟩ := h
    rfl
  | deleteObject bucket key =>
    obtain ⟨B, ts, rfl⟩ := h
    rfl
  | insertMultipart bucket id =>
    obtain ⟨key, rfl⟩ := h
    rfl
  | insertPart bucket id number =>
    obtain ⟨blocks, size, etag, rfl⟩ := h
    rfl
  | deleteLocalBlock hash | deleteMultipartUpload bucket id =>
    obtain rfl := h
    rfl
  | _ => rw [h.frame rfl]

namespace StorageBackend

variable {Blob : BlobStore} {S : StorageBackend} {J : PolicyJson}

/-- The requests one after the other: the bodies of the responses to the GETs among them. -/
def getBodies (S : StorageBackend) (J : PolicyJson) (credentials : Option Str) :
    List S3Request → Site Blob → List (Option (List (Except S3Error Bytes)))
  | [], _ => []
  | r :: rs, s =>
    let out := (S.handle J credentials r).exec s
    (if r.isGet then [responseBody out.2] else []) ++ getBodies S J credentials rs out.1

/-! ### One request -/

/-- A request leaves the users alone. -/
theorem users_handle (credentials : Option Str) (r : S3Request) (s : Site Blob) :
    ((S.handle J credentials r).exec s).1.store.users = s.store.users :=
  Prog.Calls.exec (makes_handle (S := S) (I := fun _ : Site Blob => True) Site.entries_ownCall J
      credentials r) (fun s : Site Blob => s.store.users) (fun _ _ _ h => h.2.store.users h.1) s

variable {accessKey secret : Str} {policy : Policy} {x : Str × Str} {s t : Site Blob}

/-- A request of a user runs if their policy allows it. -/
theorem exec_handle (huser : s.store.getUser J accessKey = .ok (some (secret, policy)))
    (r : S3Request) : (S.handle J (some accessKey) r).exec s =
      if policy.permits r then (S.run r).exec s else (s, .error ⟨.accessDenied, []⟩) := by
  have hauth : (authorize J (some accessKey) r.asks.1 r.asks.2.1 r.asks.2.2 :
      Site.SProg Blob S3Error Unit).exec s =
        (s, if policy.permits r then .ok () else .error ⟨.accessDenied, []⟩) := by
    have hget : (Site.getUser J accessKey : Site.SProg Blob S3Error _).exec s =
        (s, .ok (.ok (some (secret, policy)))) := by
      rw [← huser]
      rfl
    unfold authorize Policy.permits
    dsimp only
    rw [exec_bind, hget]
    dsimp only
    split <;> rfl
  rw [handle, exec_bind, hauth]
  cases policy.permits r <;> rfl

/-- **One request** of a user who may not read `x`, other than a copy of it: the sites stay
alike but for `x`, and a GET has the same response at both. -/
theorem alike_handle (h : s.AlikeBut x t)
    (huser : s.store.getUser J accessKey = .ok (some (secret, policy)))
    (hdenied : policy.isAllowed (text "s3:GetObject") (resourceOf (some x.1) (some x.2)) = false)
    {r : S3Request} (hcopy : policy.permits r = true → r.copySource ≠ some x) :
    ((S.handle J (some accessKey) r).exec s).1.AlikeBut x
        ((S.handle J (some accessKey) r).exec t).1 ∧
      (r.isGet = true → ((S.handle J (some accessKey) r).exec s).2 =
        ((S.handle J (some accessKey) r).exec t).2) := by
  have huser' : t.store.getUser J accessKey = .ok (some (secret, policy)) :=
    (h.store.eq_of_reads (f := fun s => s.getUser J accessKey) fun _ _ _ => rfl).symm.trans huser
  rw [exec_handle huser, exec_handle huser']
  cases hp : policy.permits r with
  | false => exact ⟨h, fun _ => rfl⟩
  | true =>
    -- a GET of `x` itself would not be allowed
    have hget : ∀ range, r ≠ .getObject x.1 x.2 range := by
      rintro range rfl
      exact Bool.false_ne_true (hdenied.symm.trans hp)
    simp only [if_true]
    refine ⟨parallel_run (hcopy hp) hget s t h, fun hr => ?_⟩
    cases r with
    | getObject bucket key range =>
      have hne : (bucket, key) ≠ x := by
        rintro rfl
        exact hget range rfl
      exact (((blind_getObject hne range).map S3Response.getObject).exec h).1
    | _ => exact nomatch hr

/-! ### Every sequence of requests -/

/-- **Reads of a user do not depend on what the user may not read**, as long as nothing is
copied from it: for two sites that differ only in the bytes of `x`, on which the policy does
not allow `s3:GetObject`, every sequence of requests in which no copy that the policy allows
has `x` for its source gets the same bodies. -/
theorem reads_alike (S : StorageBackend) (J : PolicyJson) (accessKey secret : Str)
    (policy : Policy) (x : Str × Str) (s t : Site Blob) (h : s.AlikeBut x t)
    (huser : s.store.getUser J accessKey = .ok (some (secret, policy)))
    (hdenied : policy.isAllowed (text "s3:GetObject") (resourceOf (some x.1) (some x.2)) = false)
    (rs : List S3Request) (hcopy : ∀ r ∈ rs, policy.permits r = true → r.copySource ≠ some x) :
    S.getBodies J (some accessKey) rs s = S.getBodies J (some accessKey) rs t := by
  induction rs generalizing s t with
  | nil => rfl
  | cons r rs ih =>
    obtain ⟨halike, hsame⟩ := alike_handle (S := S) h huser hdenied (hcopy r List.mem_cons_self)
    have huser' : ((S.handle J (some accessKey) r).exec s).1.store.getUser J accessKey =
        .ok (some (secret, policy)) := by
      rw [Store.getUser, users_handle, ← huser, Store.getUser]
    have hrest := ih _ _ halike huser' fun r' hr' => hcopy r' (List.mem_cons_of_mem r hr')
    simp only [getBodies]
    rw [hrest]
    refine congrArg (· ++ _) ?_
    split
    · next hget => rw [hsame hget]
    · rfl

/-! ### Two runs -/

/-- Everything under the bucket `pub` may be written and read, and nothing else. -/
def pubOnly : Policy :=
  ⟨[⟨text "Allow", [text "s3:PutObject", text "s3:GetObject"], [text "arn:ss:bucket:::pub/*"]⟩]⟩

/-- A site of such a user, with two objects of `pub`. -/
def pubSite : Site localBlob :=
  (((StorageBackend.sample.putObject (text "pub") (text "a") (some [.ok [97]])).exec
    (freshSite.withUser pubOnly)).1 |>
      (StorageBackend.sample.putObject (text "pub") (text "b") (some [.ok [98]])).exec).1

/-- The object `k` of the bucket `sec` has the block of `c`. -/
def secretSite (c : Byte) : Site localBlob :=
  { pubSite with
    store := pubSite.store.insertObject 9 (text "sec") (computeShardId Blake3.sample (text "k"))
      (text "k") [Blake3.sample.hash [c]] 1 [c] }

end StorageBackend

/-- Two stores that were given different bytes for an object are alike but for it. -/
theorem Store.alikeBut_insertObject (s : Store) (ts : ℤ) (bucket key : Str) (shardId : ℤ)
    (blocks blocks' : List Bytes) (size size' : ℤ) (etag etag' : Str) :
    (s.insertObject ts bucket shardId key blocks size etag).AlikeBut (bucket, key)
      (s.insertObject ts bucket shardId key blocks' size' etag') := by
  have hlookup : ∀ blocks size etag y,
      (s.insertObject ts bucket shardId key blocks size etag).objects.lookup y =
        if y = (bucket, key) then Lww.merge ObjectRow.updatedAt (s.objects.lookup (bucket, key))
          (objectRow (encodeBlocks blocks) size etag shardId false ts)
        else s.objects.lookup y :=
    fun blocks size etag y => lookup_putObjectRow s bucket key _ y
  refine ⟨rfl, fun y hy => ?_, ?_⟩
  · rw [hlookup, hlookup, if_neg hy, if_neg hy]
  · rw [hlookup, hlookup, if_pos rfl, if_pos rfl]
    cases s.objects.lookup (bucket, key) with
    | none => rfl
    | some row =>
      simp only [Lww.merge, objectRow]
      by_cases hts : row.updatedAt < ts <;> simp [hts, ObjectRow.veiled]

/-- The same site with either store. -/
theorem Site.alikeBut_withStore {Blob : BlobStore} (s : Site Blob) {x : Str × Str}
    {store store' : Store} (h : store.AlikeBut x store') :
    ({ s with store := store } : Site Blob).AlikeBut x { s with store := store' } :=
  ⟨rfl, h⟩

namespace StorageBackend

/-- The two sites differ in the one object. -/
theorem alikeBut_secretSite (c c' : Byte) :
    (secretSite c).AlikeBut (text "sec", text "k") (secretSite c') :=
  pubSite.alikeBut_withStore (Store.alikeBut_insertObject _ _ _ _ _ _ _ _ _ _ _)

/-- A user who copies what may be read. -/
theorem reads_alike_copyOfPublic :
    sample.getBodies (PolicyJson.withShort pubOnly) (some (text "u"))
        [.copyObject (.bucket (text "pub") (text "a")) (text "pub") (text "c"),
          .getObject (text "sec") (text "k") none, .getObject (text "pub") (text "c") none]
        (secretSite 97) =
      sample.getBodies (PolicyJson.withShort pubOnly) (some (text "u"))
        [.copyObject (.bucket (text "pub") (text "a")) (text "pub") (text "c"),
          .getObject (text "sec") (text "k") none, .getObject (text "pub") (text "c") none]
        (secretSite 98) := by
  refine reads_alike sample (PolicyJson.withShort pubOnly) (text "u") (text "secret") pubOnly
    (text "sec", text "k") (secretSite 97) (secretSite 98) (alikeBut_secretSite 97 98) ?_ ?_ _ ?_
  · decide +kernel
  · decide +kernel
  · intro r hr _
    simp only [List.mem_cons, List.not_mem_nil, or_false] at hr
    rcases hr with rfl | rfl | rfl <;> decide

/-- **A copy reads what a GET may not.**  The policy does not allow the user to read the
object `k` of `sec`; two sites differ in its bytes alone; a copy of it into `pub` and a GET
of the copy get the byte `a` from one and the byte `b` from the other. -/
theorem copy_reads_hidden :
    (secretSite 97).AlikeBut (text "sec", text "k") (secretSite 98) ∧
      (secretSite 97).store.getUser (PolicyJson.withShort pubOnly) (text "u") =
        .ok (some (text "secret", pubOnly)) ∧
      pubOnly.isAllowed (text "s3:GetObject") (resourceOf (some (text "sec")) (some (text "k"))) =
        false ∧
      sample.getBodies (PolicyJson.withShort pubOnly) (some (text "u"))
        [.copyObject (.bucket (text "sec") (text "k")) (text "pub") (text "c"),
          .getObject (text "pub") (text "c") none] (secretSite 97) = [some [.ok [97]]] ∧
      sample.getBodies (PolicyJson.withShort pubOnly) (some (text "u"))
        [.copyObject (.bucket (text "sec") (text "k")) (text "pub") (text "c"),
          .getObject (text "pub") (text "c") none] (secretSite 98) = [some [.ok [98]]] := by
  refine ⟨alikeBut_secretSite 97 98, ?_, ?_, ?_, ?_⟩
  · decide +kernel
  · decide +kernel
  · decide +kernel
  · decide +kernel

end StorageBackend
end Shardscape
