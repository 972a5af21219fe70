/-
# Keyed tables

A table with a primary key, as the lists with distinct keys of Mathlib: at most
one row per key, in no order a query may rely on.  The statements a metadata
store runs on one table are insertions, deletions by key (`AList.insert`,
`AList.erase`), insertions that keep an existing row (`Table.insertIfAbsent`),
deletions of every key matching a condition (`Table.deleteWhere`) and updates of
one row in place (`Table.modify`), and each has a `lookup` equation here.
-/

import Mathlib.Data.List.AList

namespace Shardscape
namespace Lib

/-- A table of rows `ν` with primary key `κ`. -/
abbrev Table (κ ν : Type*) := AList fun _ : κ => ν

namespace Table

variable {κ ν : Type*}

/-- The row of `k` is `v`, read off the entries. -/
theorem lookup_eq_some_iff [DecidableEq κ] {t : Table κ ν} {k : κ} {v : ν} :
    t.lookup k = some v ↔ (⟨k, v⟩ : Sigma fun _ : κ => ν) ∈ t.entries := by
  rw [← AList.mem_lookup_iff, Option.mem_def]

/-- `lookup` after an insertion, at every key at once. -/
theorem lookup_insert [DecidableEq κ] (t : Table κ ν) (k k' : κ) (v : ν) :
    (t.insert k v).lookup k' = if k' = k then some v else t.lookup k' := by
  split_ifs with h
  · subst h
    exact AList.lookup_insert t
  · exact AList.lookup_insert_ne h

/-- `lookup` after a deletion by key, at every key at once. -/
theorem lookup_erase [DecidableEq κ] (t : Table κ ν) (k k' : κ) :
    (t.erase k).lookup k' = if k' = k then none else t.lookup k' := by
  split_ifs with h
  · subst h
    exact AList.lookup_erase _ t
  · exact AList.lookup_erase_ne h

/-- `INSERT … ON CONFLICT DO NOTHING`. -/
def insertIfAbsent [DecidableEq κ] (t : Table κ ν) (k : κ) (v : ν) : Table κ ν :=
  match t.lookup k with
  | some _ => t
  | none => t.insert k v

/-- An insertion that does nothing on conflict fills an empty place only. -/
theorem lookup_insertIfAbsent [DecidableEq κ] (t : Table κ ν) (k k' : κ) (v : ν) :
    (t.insertIfAbsent k v).lookup k' =
      if k' = k then some ((t.lookup k).getD v) else t.lookup k' := by
  unfold insertIfAbsent
  cases h : t.lookup k with
  | none => rw [lookup_insert, Option.getD_none]
  | some w =>
    split_ifs with hk
    · rw [hk, h, Option.getD_some]
    · rfl

/-- `DELETE FROM t WHERE p key`. -/
def deleteWhere (t : Table κ ν) (p : κ → Bool) : Table κ ν where
  entries := t.entries.filter fun e => !p e.1
  nodupKeys := t.nodupKeys.sublist List.filter_sublist

/-- Deleting by a condition on the key keeps the other rows and no more. -/
theorem lookup_deleteWhere [DecidableEq κ] (t : Table κ ν) (p : κ → Bool) (k : κ) :
    (t.deleteWhere p).lookup k = if p k then none else t.lookup k := by
  have hmem : ∀ v, (t.deleteWhere p).lookup k = some v ↔ t.lookup k = some v ∧ p k = false := by
    intro v
    rw [lookup_eq_some_iff, lookup_eq_some_iff, deleteWhere, List.mem_filter]
    simp
  cases hp : p k with
  | true =>
    rw [if_pos rfl]
    refine Option.eq_none_iff_forall_ne_some.2 fun v hv => ?_
    rw [((hmem v).1 hv).2] at hp
    exact absurd hp Bool.false_ne_true
  | false =>
    rw [if_neg Bool.false_ne_true]
    refine Option.ext fun v => ?_
    rw [hmem v]
    exact and_iff_left hp

/-- `UPDATE t SET … WHERE key = k`: the row of `k`, if there is one, becomes `f`
of itself. -/
def modify [DecidableEq κ] (t : Table κ ν) (k : κ) (f : ν → ν) : Table κ ν :=
  match t.lookup k with
  | some v => t.insert k (f v)
  | none => t

/-- An update changes the row it names and no other. -/
theorem lookup_modify [DecidableEq κ] (t : Table κ ν) (k k' : κ) (f : ν → ν) :
    (t.modify k f).lookup k' = if k' = k then (t.lookup k).map f else t.lookup k' := by
  unfold modify
  cases h : t.lookup k with
  | none =>
    split_ifs with hk
    · rw [hk, h, Option.map_none]
    · rfl
  | some v => rw [lookup_insert, Option.map_some]

/-- The keys of a table are those with a row. -/
theorem mem_keys_iff [DecidableEq κ] {t : Table κ ν} {k : κ} :
    k ∈ t.keys ↔ ∃ v, t.lookup k = some v := by
  rw [← AList.mem_keys, ← AList.lookup_isSome, Option.isSome_iff_exists]

/-- What a query reads off the rows has distinct names, if the name tells the key
of the row. -/
theorem nodup_filterMap {α β : Type*} {t : Table κ ν} {f : (Sigma fun _ : κ => ν) → Option α}
    {name : α → β}
    (h : ∀ e e' a a', f e = some a → f e' = some a' → name a = name a' → e.1 = e'.1) :
    ((t.entries.filterMap f).map name).Nodup := by
  refine List.pairwise_map.2 (List.pairwise_filterMap.2 ?_)
  have hkeys : t.entries.Pairwise fun e e' => e.1 ≠ e'.1 := List.pairwise_map.1 t.keys_nodup
  exact hkeys.imp fun {e e'} hne a ha a' ha' heq => hne (h e e' a a' ha ha' heq)

end Table

end Lib
end Shardscape
