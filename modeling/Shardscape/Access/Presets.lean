/-
# Presets for one bucket

`src/main.rs`: `readonly_policy`, `readwrite_policy`, the policies that
`shardscape create-user` gives out, for all buckets or, with `--bucket`, for one.

The resource of a preset for the bucket `b` is a pattern, `arn:ss:bucket:::b*`: what
starts with `b`.  `authorize` (`src/storage.rs`) writes a bucket `c` and a key `k` as
`arn:ss:bucket:::c/k`.  So a preset for `photos` is one for `photos2`, too
(`preset_leaves_bucket`), and it stays in its bucket exactly where the name `b` does not
start `c/k` for another `c` (`presets_stay_iff`).
-/

import Shardscape.Backend.Policy

namespace Shardscape

open Lib

/-- The resource of a preset. -/
def presetResource : Option Str → Str
  | some bucket => text "arn:ss:bucket:::" ++ bucket ++ text "*"
  | none => text "*"

/-- A policy that allows some actions, in one bucket or in all. -/
def presetPolicy (actions : List Str) (bucket : Option Str) : Policy :=
  ⟨[⟨text "Allow", actions, [presetResource bucket]⟩]⟩

/-- The actions of `readonly_policy`. -/
def readonlyActions : List Str :=
  [text "s3:GetObject", text "s3:HeadObject", text "s3:ListBucket", text "s3:ListAllMyBuckets",
    text "s3:ListMultipartUploadParts", text "s3:ListBucketMultipartUploads"]

/-- The actions of `readwrite_policy`. -/
def readwriteActions : List Str :=
  [text "s3:GetObject", text "s3:HeadObject", text "s3:PutObject", text "s3:DeleteObject",
    text "s3:ListBucket", text "s3:ListAllMyBuckets", text "s3:CreateBucket",
    text "s3:DeleteBucket", text "s3:AbortMultipartUpload", text "s3:ListMultipartUploadParts",
    text "s3:ListBucketMultipartUploads"]

/-- `readonly_policy`. -/
def readonlyPolicy (bucket : Option Str) : Policy := presetPolicy readonlyActions bucket

/-- `readwrite_policy`. -/
def readwritePolicy (bucket : Option Str) : Policy := presetPolicy readwriteActions bucket

/-! ### What a preset allows -/

/-- A policy of one statement that allows. -/
theorem isAllowed_presetPolicy (actions : List Str) (bucket : Option Str) (action resource : Str) :
    (presetPolicy actions bucket).isAllowed action resource =
      PolicyStatement.matches ⟨text "Allow", actions, [presetResource bucket]⟩ action resource := by
  unfold Policy.isAllowed presetPolicy Policy.allowedFrom
  cases PolicyStatement.matches ⟨text "Allow", actions, [presetResource bucket]⟩
    action resource with
  | false => rfl
  | true => rfl

/-- **What a preset allows**: its actions, on whatever starts with the name of its bucket. -/
theorem isAllowed_presetPolicy_iff {actions : List Str}
    (hplain : ∀ a ∈ actions, a.getLast? ≠ some 42)
    (b action resource : Str) :
    (presetPolicy actions (some b)).isAllowed action resource = true ↔
      action ∈ actions ∧ text "arn:ss:bucket:::" ++ b <+: resource := by
  have haction : (actions.any fun a => wildcardMatch a action) = true ↔ action ∈ actions := by
    rw [List.any_eq_true]
    constructor
    · rintro ⟨a, ha, hmatch⟩
      rw [← (wildcardMatch_of_getLast?_ne (hplain a ha) action).1 hmatch]
      exact ha
    · intro ha
      exact ⟨action, ha, (wildcardMatch_of_getLast?_ne (hplain action ha) action).2 rfl⟩
  rw [isAllowed_presetPolicy, PolicyStatement.matches, Bool.and_eq_true, haction]
  refine and_congr_right fun _ => ?_
  rw [List.any_cons, List.any_nil, Bool.or_false]
  exact wildcardMatch_star _ _

/-- The actions of a preset have no star. -/
theorem getLast?_ne_of_mem_presets :
    (∀ a ∈ readonlyActions, a.getLast? ≠ some 42) ∧
      ∀ a ∈ readwriteActions, a.getLast? ≠ some 42 := by
  decide

/-- What `readonly` may, `readwrite` may. -/
theorem readonlyActions_subset : ∀ a ∈ readonlyActions, a ∈ readwriteActions := by decide

/-! ### Staying in the bucket -/

/-- An action on the bucket `c`, or on the object `k` in it, is allowed only if `c` is `b`. -/
def StaysIn (policy : Policy) (b c k action : Str) : Prop :=
  policy.isAllowed action (resourceOf (some c) none) = true ∨
    policy.isAllowed action (resourceOf (some c) (some k)) = true → c = b

/-- A preset stays in its bucket iff the name of the bucket starts no other path. -/
theorem staysIn_presetPolicy_iff {actions : List Str} (hplain : ∀ a ∈ actions, a.getLast? ≠ some 42)
    (b c k action : Str) :
    StaysIn (presetPolicy actions (some b)) b c k action ↔
      (action ∈ actions → b <+: c ++ text "/" ++ k → c = b) := by
  have hbucket : text "arn:ss:bucket:::" ++ b <+: resourceOf (some c) none ↔ b <+: c :=
    List.prefix_append_right_inj _
  have hobject : text "arn:ss:bucket:::" ++ b <+: resourceOf (some c) (some k) ↔
      b <+: c ++ text "/" ++ k := by
    rw [resourceOf, List.append_assoc, List.append_assoc, List.prefix_append_right_inj,
      List.append_assoc]
  unfold StaysIn
  rw [isAllowed_presetPolicy_iff hplain, isAllowed_presetPolicy_iff hplain, hbucket, hobject]
  constructor
  · intro h haction hstarts
    exact h (Or.inr ⟨haction, hstarts⟩)
  · rintro h (⟨haction, hstarts⟩ | ⟨haction, hstarts⟩)
    · -- what starts the bucket starts every path in it
      rw [List.append_assoc] at h
      exact h haction (hstarts.trans (List.prefix_append _ _))
    · exact h haction hstarts

/-- **When the presets stay in their bucket.**  For the buckets `b` and `c` and the key `k`,
exactly if the action is in neither preset, or `c` is `b`, or `b` does not start `c/k`. -/
theorem presets_stay_iff (b c k action : Str) :
    (StaysIn (readonlyPolicy (some b)) b c k action ∧
        StaysIn (readwritePolicy (some b)) b c k action) ↔
      (action ∈ readwriteActions → b <+: c ++ text "/" ++ k → c = b) := by
  obtain ⟨hreadonly, hreadwrite⟩ := getLast?_ne_of_mem_presets
  rw [readonlyPolicy, readwritePolicy, staysIn_presetPolicy_iff hreadonly,
    staysIn_presetPolicy_iff hreadwrite]
  exact ⟨fun h => h.2, fun h => ⟨fun haction => h (readonlyActions_subset action haction), h⟩⟩

/-- **A preset that leaves its bucket.**  The preset for `photos` allows to read from `photos2`,
and, with write access, to delete there. -/
theorem preset_leaves_bucket :
    (readonlyPolicy (some (text "photos"))).isAllowed (text "s3:GetObject")
        (resourceOf (some (text "photos2")) (some (text "k"))) = true ∧
      (readwritePolicy (some (text "photos"))).isAllowed (text "s3:DeleteObject")
        (resourceOf (some (text "photos2")) (some (text "k"))) = true ∧
      ¬ StaysIn (readonlyPolicy (some (text "photos"))) (text "photos") (text "photos2") (text "k")
        (text "s3:GetObject") := by
  have hread : (readonlyPolicy (some (text "photos"))).isAllowed (text "s3:GetObject")
      (resourceOf (some (text "photos2")) (some (text "k"))) = true := by decide
  refine ⟨hread, by decide, fun h => ?_⟩
  have hsame : text "photos2" = text "photos" := h (Or.inr hread)
  exact absurd hsame (by decide)

end Shardscape
