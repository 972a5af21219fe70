/-
# Sites for concrete runs

What the runs on fixed inputs of this development start from: a backend whose hash and whose
chunker can be evaluated, a fresh site on a local disk, and a user `u`.  Nothing that is proved of
the backend in general is about these.
-/

import Shardscape.Backend.Requests
import Shardscape.Store.Samples

namespace Shardscape

open Lib

/-- A backend for concrete runs: blocks of two bytes, a grace period of five
minutes, and the data itself for its md5. -/
def StorageBackend.sample : StorageBackend where
  blake3 := Blake3.sample
  md5 := id
  fastcdc := FastCdc.sample
  chunker := .fixed 2
  positive := Nat.zero_lt_two
  fits := trivial
  gc := ⟨300⟩

/-- A fresh site on a local disk. -/
def freshSite : Site localBlob where
  store := Store.new (text "a")
  blobs := (∅ : Table Bytes Bytes)
  clock := ⟨0⟩
  oracle :=
    { micros := id
      fetch := fun _ => .error []
      guardTrip := fun _ => none
      putFails := fun _ => none }

variable {Blob : BlobStore}

/-- A site with the user `u`. -/
def Site.withUser (s : Site Blob) (policy : Policy) : Site Blob :=
  { s with
    store := (s.store.createUser (PolicyJson.withShort policy) 0 (text "u") (text "secret")
      policy) }

/-- A request of the user `u`, whose policy is `policy`. -/
def StorageBackend.byUser (policy : Policy) (r : S3Request) : Site.SProg Blob S3Error Unit :=
  (fun _ => ()) <$> sample.handle (PolicyJson.withShort policy) (some (text "u")) r

end Shardscape
