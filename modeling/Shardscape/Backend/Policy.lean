/-
# Policies

`src/db.rs`: `wildcard_match`, `PolicyStatement::matches`, `Policy::is_allowed`;
`src/storage.rs`: `StorageBackend::authorize`.

Every request names an action and a resource, and the policy of the user decides: a
statement that matches and denies ends the matter, and without one some statement
has to match and allow.
-/

import Shardscape.Backend.Handlers

namespace Shardscape

open Lib

/-- `wildcard_match`: a star at the end stands for any text. -/
def wildcardMatch (pattern value : Str) : Bool :=
  if pattern = text "*" then true
  else if pattern.getLast? = some 42 then pattern.dropLast.isPrefixOf value
  else decide (pattern = value)

/-- A pattern with a star at its end matches what starts with the rest of it. -/
theorem wildcardMatch_star (pattern value : Str) :
    wildcardMatch (pattern ++ [42]) value = true ↔ pattern <+: value := by
  unfold wildcardMatch
  split_ifs with hstar hlast
  · -- nothing stands before the star
    have hnil : pattern = [] := List.append_left_eq_self.1 hstar
    rw [hnil]
    exact ⟨fun _ => List.nil_prefix, fun _ => rfl⟩
  · rw [List.dropLast_concat, List.isPrefixOf_iff_prefix]
  · exact absurd List.getLast?_concat hlast

/-- A pattern without one matches itself. -/
theorem wildcardMatch_of_getLast?_ne {pattern : Str}
    (h : pattern.getLast? ≠ some 42) (value : Str) :
    wildcardMatch pattern value = true ↔ pattern = value := by
  have hstar : pattern ≠ text "*" := fun he => h (he ▸ rfl)
  rw [wildcardMatch, if_neg hstar, if_neg h, decide_eq_true_iff]

/-- `PolicyStatement::matches`. -/
def PolicyStatement.matches (stmt : PolicyStatement) (action resource : Str) : Bool :=
  (stmt.actions.any fun a => wildcardMatch a action) &&
    stmt.resources.any fun r => wildcardMatch r resource

/-- The loop of `is_allowed`. -/
def Policy.allowedFrom (action resource : Str) : Bool → List PolicyStatement → Bool
  | allowed, [] => allowed
  | allowed, stmt :: rest =>
    if stmt.matches action resource then
      if stmt.effect = text "Deny" then false
      else allowedFrom action resource (allowed || decide (stmt.effect = text "Allow")) rest
    else allowedFrom action resource allowed rest

/-- `Policy::is_allowed`. -/
def Policy.isAllowed (policy : Policy) (action resource : Str) : Bool :=
  Policy.allowedFrom action resource false policy.statements

/-- The resource of a request: an object, a bucket, or everything. -/
def resourceOf : Option Str → Option Str → Str
  | some bucket, some key => text "arn:ss:bucket:::" ++ bucket ++ text "/" ++ key
  | some bucket, none => text "arn:ss:bucket:::" ++ bucket
  | none, _ => text "*"

namespace StorageBackend

variable {Blob : BlobStore}

/-- `authorize`; `credentials` is the access key of a signed request. -/
def authorize (J : PolicyJson) (credentials : Option Str) (action : Str) (bucket key : Option Str) :
    Site.SProg Blob S3Error Unit :=
  match credentials with
  | none => .fail ⟨.accessDenied, []⟩
  | some accessKey => do
    match ← Site.getUser J accessKey with
    | .error _ => .fail ⟨.internalError, []⟩
    | .ok none => .fail ⟨.accessDenied, []⟩
    | .ok (some (_, policy)) =>
      if policy.isAllowed action (resourceOf bucket key) then pure ()
      else .fail ⟨.accessDenied, []⟩

end StorageBackend
end Shardscape
