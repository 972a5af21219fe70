/-
# Manifests and users

`src/store.rs`: `insert_object`, `put_object_row`, `get_object`, `delete_object`
and `create_user`, `put_user_row`, `get_user`.

Object and user rows are last-write-wins registers stamped by `updated_at`, and a
delete is a write of a tombstone.  Each mutator takes the clock reading `ts` it
makes before it locks the store, writes the row if the reading is newer than the
stored one, and logs the fact either way.

`serde_json` is an external crate: `PolicyJson` holds the three conversions the
store makes with it and what the store relies on, that both texts it writes for a
policy parse back to the policy.
-/

import Shardscape.Store.Basic
import Mathlib.Logic.Equiv.List
import Mathlib.Tactic.DeriveEncodable

namespace Shardscape

open Lib

/-- `PolicyStatement`. -/
structure PolicyStatement where
  effect : Str
  actions : List Str
  resources : List Str
  deriving DecidableEq, Encodable

/-- `Policy`. -/
structure Policy where
  statements : List PolicyStatement
  deriving DecidableEq, Encodable

/-- `serde_json` on policies: the text of a policy, the text of the JSON value
made from it (its keys may come in another order), and parsing. -/
structure PolicyJson where
  toText : Policy → Str
  toValueText : Policy → Str
  parse : Str → Option Policy
  parse_toText : ∀ p, parse (toText p) = some p
  parse_toValueText : ∀ p, parse (toValueText p) = some p

namespace Store

/-- The row `put_object_row` writes. -/
def objectRow (encodedBlocks : Bytes) (size : ℤ) (etag : Str) (shardId : ℤ) (deleted : Bool)
    (ts : ℤ) : ObjectRow where
  blocks := encodedBlocks
  size := size
  etag := etag
  shardId := shardId
  updatedAt := ts
  deleted := deleted

/-- `put_object_row`: the row advances only on a newer `ts`. -/
def putObjectRow (s : Store) (bucket key : Str) (row : ObjectRow) : Store :=
  { s with objects := Table.upsertNewer ObjectRow.updatedAt s.objects (bucket, key) row }

/-- The tombstone `delete_object` writes: no blocks, size 0, no etag. -/
def tombstone (B : Blake3) (key : Str) (ts : ℤ) : ObjectRow :=
  objectRow [] 0 [] (computeShardId B key) true ts

/-- `insert_object`. -/
def insertObject (s : Store) (ts : ℤ) (bucket : Str) (shardId : ℤ) (key : Str)
    (blocks : List Bytes) (size : ℤ) (etag : Str) : Store :=
  (s.putObjectRow bucket key
    (objectRow (encodeBlocks blocks) size etag shardId false ts)).appendFact
    ts (.objectPut bucket key (blocks.map hexEncode) size etag)

/-- `delete_object`. -/
def deleteObject (B : Blake3) (s : Store) (ts : ℤ) (bucket key : Str) : Store :=
  (s.putObjectRow bucket key (tombstone B key ts)).appendFact ts (.objectDelete bucket key)

/-- What a read returns of a row: nothing of a tombstone. -/
def readRow (row : ObjectRow) : Option (List Bytes × ℤ × Str) :=
  if row.deleted then none else some (decodeBlocks row.blocks, row.size, row.etag)

/-- `get_object`. -/
def getObject (s : Store) (bucket key : Str) : Option (List Bytes × ℤ × Str) :=
  (s.objects.lookup (bucket, key)).bind readRow

/-- The row of an object after `put_object_row`: the register heard the write. -/
theorem lookup_putObjectRow (s : Store) (bucket key : Str) (row : ObjectRow) (k : Str × Str) :
    (s.putObjectRow bucket key row).objects.lookup k =
      if k = (bucket, key) then Lww.merge ObjectRow.updatedAt (s.objects.lookup (bucket, key)) row
      else s.objects.lookup k :=
  Table.lookup_upsertNewer _ _ _ _

/-- A live row of 32-byte hashes reads as its manifest. -/
theorem readRow_live {blocks : List Bytes} (h : ∀ b ∈ blocks, b.length = 32) (size : ℤ)
    (etag : Str) (shardId ts : ℤ) :
    readRow (objectRow (encodeBlocks blocks) size etag shardId false ts) =
      some (blocks, size, etag) := by
  simp [readRow, objectRow, decodeBlocks_encodeBlocks h]

/-- What is read is the manifest of a live row. -/
theorem getObject_eq_some_iff {s : Store} {bucket key : Str} {blocks : List Bytes} {size : ℤ}
    {etag : Str} :
    s.getObject bucket key = some (blocks, size, etag) ↔
      ∃ row, s.objects.lookup (bucket, key) = some row ∧ row.deleted = false ∧
        decodeBlocks row.blocks = blocks ∧ row.size = size ∧ row.etag = etag := by
  rw [getObject, Option.bind_eq_some_iff]
  refine exists_congr fun row => and_congr_right fun _ => ?_
  cases hd : row.deleted <;> simp [readRow, hd]

/-- A tombstone reads as no object. -/
@[simp] theorem readRow_tombstone (B : Blake3) (key : Str) (ts : ℤ) :
    readRow (tombstone B key ts) = none := rfl

/-! ### Users -/

/-- `put_user_row`. -/
def putUserRow (s : Store) (accessKey : Str) (row : UserRow) : Store :=
  { s with users := Table.upsertNewer UserRow.updatedAt s.users accessKey row }

/-- `create_user`: the row holds the text of the policy, the fact the text of its
JSON value. -/
def createUser (J : PolicyJson) (s : Store) (ts : ℤ) (accessKey secretKey : Str)
    (policy : Policy) : Store :=
  (s.putUserRow accessKey ⟨secretKey, J.toText policy, ts⟩).appendFact ts
    (.userPut accessKey secretKey (J.toValueText policy))

/-- `get_user`. -/
def getUser (J : PolicyJson) (s : Store) (accessKey : Str) :
    Except StoreError (Option (Str × Policy)) :=
  match s.users.lookup accessKey with
  | none => .ok none
  | some row =>
    match J.parse row.policy with
    | some policy => .ok (some (row.secretKey, policy))
    | none => .error .json

end Store
end Shardscape
