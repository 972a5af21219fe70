/-
# What a policy decides

`src/db.rs`: `Policy::is_allowed`.

The loop goes through the statements in order and stops at the first that matches and denies.
Its answer does not depend on the order: what counts is the set of effects of the statements that
match, and a policy allows if `Allow` is among them and `Deny` is not (`isAllowed_iff`).  Effects
of other names count for nothing.

So two policies with the same terms decide alike, however often and in whatever order they list
their statements, actions and resources, and a statement more changes a decision in one direction
only (`policy_decides_by_effects`).
-/

import Shardscape.Backend.Policy
import Mathlib.Data.Set.Insert

namespace Shardscape

open Lib

/-! ### Matching -/

/-- A pattern matches a value: they are equal, or the pattern is some text and a star, and the
value starts with the text. -/
def PatternMatches (pattern value : Str) : Prop :=
  pattern = value ∨ ∃ start, pattern = start ++ [42] ∧ start <+: value

/-- The code's match is the match of the patterns. -/
theorem wildcardMatch_iff (pattern value : Str) :
    wildcardMatch pattern value = true ↔ PatternMatches pattern value := by
  by_cases hlast : pattern.getLast? = some 42
  · obtain ⟨start, rfl⟩ := List.getLast?_eq_some_iff.1 hlast
    rw [wildcardMatch_star]
    constructor
    · intro hstart
      exact Or.inr ⟨start, rfl, hstart⟩
    · rintro (rfl | ⟨start', heq, hstart⟩)
      · exact List.prefix_append _ _
      · rwa [List.append_cancel_right heq]
  · rw [wildcardMatch_of_getLast?_ne hlast]
    constructor
    · intro heq
      exact Or.inl heq
    · rintro (heq | ⟨start, rfl, -⟩)
      · exact heq
      · exact absurd List.getLast?_concat hlast

/-- A statement matches if one of its actions and one of its resources do. -/
def PolicyStatement.Matches (stmt : PolicyStatement) (action resource : Str) : Prop :=
  (∃ a ∈ stmt.actions, PatternMatches a action) ∧ ∃ r ∈ stmt.resources, PatternMatches r resource

/-- A statement matches if one of its actions and one of its resources does. -/
theorem PolicyStatement.matches_iff (stmt : PolicyStatement) (action resource : Str) :
    stmt.matches action resource = true ↔ stmt.Matches action resource := by
  simp only [PolicyStatement.matches, PolicyStatement.Matches, Bool.and_eq_true, List.any_eq_true,
    wildcardMatch_iff]

/-! ### Deciding by effects -/

/-- Effects allow what is asked for if `Allow` is among them and `Deny` is not. -/
def EffectsAllow (effects : Set Str) : Prop := text "Allow" ∈ effects ∧ text "Deny" ∉ effects

/-- One effect more: to deny does not make them allow. -/
theorem not_effectsAllow_of_deny {effects effects' : Set Str} (hsub : effects ⊆ effects')
    (hnew : effects' ⊆ insert (text "Deny") effects) (h : ¬ EffectsAllow effects) :
    ¬ EffectsAllow effects' := by
  rintro ⟨hallow, hdeny⟩
  refine h ⟨?_, fun hold => hdeny (hsub hold)⟩
  exact (Set.mem_insert_iff.1 (hnew hallow)).resolve_left (by decide)

/-- And to allow does not make them deny. -/
theorem effectsAllow_of_allow {effects effects' : Set Str} (hsub : effects ⊆ effects')
    (hnew : effects' ⊆ insert (text "Allow") effects) (h : EffectsAllow effects) :
    EffectsAllow effects' := by
  refine ⟨hsub h.1, fun hdeny => h.2 ?_⟩
  exact (Set.mem_insert_iff.1 (hnew hdeny)).resolve_left (by decide)

namespace Policy

/-- The effects of the statements that match. -/
def effects (policy : Policy) (action resource : Str) : Set Str :=
  {e | ∃ stmt ∈ policy.statements, stmt.Matches action resource ∧ stmt.effect = e}

variable {action resource : Str}

/-- The loop, from the statements that are left. -/
theorem allowedFrom_iff {allowed : Bool} {statements : List PolicyStatement} :
    allowedFrom action resource allowed statements = true ↔
      (allowed = true ∨ text "Allow" ∈ effects ⟨statements⟩ action resource) ∧
        text "Deny" ∉ effects ⟨statements⟩ action resource := by
  induction statements generalizing allowed with
  | nil => simp [allowedFrom, effects]
  | cons stmt rest ih =>
    have hcons : ∀ e, e ∈ effects ⟨stmt :: rest⟩ action resource ↔
        (stmt.matches action resource = true ∧ stmt.effect = e) ∨
          e ∈ effects ⟨rest⟩ action resource := by
      intro e
      simp only [effects, Set.mem_ofPred_eq, List.exists_mem_cons_iff,
        PolicyStatement.matches_iff]
    rw [allowedFrom, hcons, hcons]
    split_ifs with hmatch hdeny
    · simp [hmatch, hdeny]
    · refine ih.trans ?_
      simp [hmatch, hdeny, or_assoc]
    · refine ih.trans ?_
      simp [hmatch]

/-- **What a policy allows**, whatever the order of its statements. -/
theorem isAllowed_iff (policy : Policy) :
    policy.isAllowed action resource = true ↔ EffectsAllow (policy.effects action resource) := by
  rw [isAllowed, allowedFrom_iff, EffectsAllow]
  simp

/-- Another statement adds its effect, or nothing. -/
theorem effects_insert (before after : List PolicyStatement) (stmt : PolicyStatement) :
    effects ⟨before ++ after⟩ action resource ⊆ effects ⟨before ++ stmt :: after⟩ action resource ∧
      effects ⟨before ++ stmt :: after⟩ action resource ⊆
        insert stmt.effect (effects ⟨before ++ after⟩ action resource) := by
  constructor
  · rintro e ⟨s, hs, hmatch⟩
    refine ⟨s, ?_, hmatch⟩
    rw [List.mem_append, List.mem_cons]
    exact (List.mem_append.1 hs).imp_right Or.inr
  · rintro e ⟨s, hs, hmatch, rfl⟩
    rw [List.mem_append, List.mem_cons] at hs
    rcases hs with hs | rfl | hs
    · exact Set.mem_insert_of_mem _ ⟨s, List.mem_append_left _ hs, hmatch, rfl⟩
    · exact Set.mem_insert _ _
    · exact Set.mem_insert_of_mem _ ⟨s, List.mem_append_right _ hs, hmatch, rfl⟩

end Policy

/-! ### The same terms -/

/-- Two statements with the same terms: the same effect, and the same actions and resources in
any order and any number. -/
structure PolicyStatement.SameTerms (stmt stmt' : PolicyStatement) : Prop where
  effect : stmt'.effect = stmt.effect
  actions : ∀ a, a ∈ stmt'.actions ↔ a ∈ stmt.actions
  resources : ∀ r, r ∈ stmt'.resources ↔ r ∈ stmt.resources

/-- They match the same requests. -/
theorem PolicyStatement.SameTerms.matches_iff {stmt stmt' : PolicyStatement}
    (h : stmt.SameTerms stmt') (action resource : Str) :
    stmt'.Matches action resource ↔ stmt.Matches action resource := by
  simp only [PolicyStatement.Matches, h.actions, h.resources]

/-- Two policies with the same terms: each statement of one has a counterpart in the other.  Such
are two policies of which one lists the statements of the other in another order or several
times, or does so with the actions or resources of a statement. -/
structure Policy.SameTerms (policy policy' : Policy) : Prop where
  left : ∀ stmt ∈ policy.statements, ∃ stmt' ∈ policy'.statements, stmt.SameTerms stmt'
  right : ∀ stmt' ∈ policy'.statements, ∃ stmt ∈ policy.statements, stmt.SameTerms stmt'

/-- Policies with the same terms have the same effects. -/
theorem Policy.SameTerms.effects_eq {policy policy' : Policy} (h : policy.SameTerms policy')
    (action resource : Str) :
    policy'.effects action resource = policy.effects action resource := by
  ext e
  constructor
  · rintro ⟨stmt', hmem', hmatch, rfl⟩
    obtain ⟨stmt, hmem, hsame⟩ := h.right stmt' hmem'
    exact ⟨stmt, hmem, (hsame.matches_iff action resource).1 hmatch, hsame.effect.symm⟩
  · rintro ⟨stmt, hmem, hmatch, rfl⟩
    obtain ⟨stmt', hmem', hsame⟩ := h.left stmt hmem
    exact ⟨stmt', hmem', (hsame.matches_iff action resource).2 hmatch, hsame.effect⟩

/-- **What a policy decides.**  It allows exactly if some statement that matches allows and none
that matches denies.  Only its terms count.  Another statement anywhere, if it denies, does not turn
a refusal into a permission, and if it allows, does not turn a permission into a refusal. -/
theorem policy_decides_by_effects (policy : Policy) (action resource : Str) :
    (policy.isAllowed action resource = true ↔
        (∃ stmt ∈ policy.statements, stmt.Matches action resource ∧ stmt.effect = text "Allow") ∧
          ∀ stmt ∈ policy.statements, stmt.Matches action resource → stmt.effect ≠ text "Deny") ∧
      (∀ policy', policy.SameTerms policy' →
        policy'.isAllowed action resource = policy.isAllowed action resource) ∧
      ∀ before after stmt, policy.statements = before ++ after →
        (stmt.effect = text "Deny" → policy.isAllowed action resource = false →
          Policy.isAllowed ⟨before ++ stmt :: after⟩ action resource = false) ∧
        (stmt.effect = text "Allow" → policy.isAllowed action resource = true →
          Policy.isAllowed ⟨before ++ stmt :: after⟩ action resource = true) := by
  refine ⟨?_, fun policy' hsame => ?_, fun before after stmt hsplit => ?_⟩
  · rw [policy.isAllowed_iff, EffectsAllow]
    refine and_congr_right fun _ => ⟨fun hdeny stmt hmem hmatch heff => ?_, ?_⟩
    · exact hdeny ⟨stmt, hmem, hmatch, heff⟩
    · rintro hdeny ⟨stmt, hmem, hmatch, heff⟩
      exact hdeny stmt hmem hmatch heff
  · rw [Bool.eq_iff_iff, policy.isAllowed_iff, policy'.isAllowed_iff, hsame.effects_eq]
  · obtain ⟨statements⟩ := policy
    subst hsplit
    obtain ⟨hsub, hnew⟩ := @Policy.effects_insert action resource before after stmt
    constructor
    · intro heff hrefused
      rw [heff] at hnew
      rw [← Bool.not_eq_true, Policy.isAllowed_iff] at hrefused ⊢
      exact not_effectsAllow_of_deny hsub hnew hrefused
    · intro heff hallowed
      rw [heff] at hnew
      rw [Policy.isAllowed_iff] at hallowed ⊢
      exact effectsAllow_of_allow hsub hnew hallowed

end Shardscape
