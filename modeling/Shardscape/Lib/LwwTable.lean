/-
# Tables of last-write-wins registers

`INSERT … ON CONFLICT DO UPDATE … WHERE excluded.ts > ts` makes every row of a
table a last-write-wins register (`Table.upsertNewer`, `Table.lookup_upsertNewer`).
A stream of events, each of which may write one row, is folded into the table by
`Table.upsertAll`; at one key that is the register hearing the writes at that key
(`Table.lookup_upsertAll`).

`Table.Reflects` describes a table by the *set* of events it has heard, whatever
their order and multiplicity, and `Table.Reflects.unique` says that the set
determines the rows.  `Table.upsertAll_perm_iff` is the exact condition for the order of the events
not to matter (`Table.Undisputed`): wherever two events write different rows of one key under one
stamp, a third event or the stored row beats them both.
-/

import Shardscape.Lib.Table
import Shardscape.Lib.Lww

namespace Shardscape
namespace Lib
namespace Table

variable {α κ ν τ : Type*} [DecidableEq κ] [LinearOrder τ] {ts : ν → τ}

/-- `INSERT … ON CONFLICT(k) DO UPDATE … WHERE excluded.ts > ts`. -/
def upsertNewer (ts : ν → τ) (t : Table κ ν) (k : κ) (v : ν) : Table κ ν :=
  match t.lookup k with
  | none => t.insert k v
  | some old => if ts old < ts v then t.insert k v else t

/-- Each row is a register: the written row hears the write, the others do not. -/
theorem lookup_upsertNewer (t : Table κ ν) (k k' : κ) (v : ν) :
    (upsertNewer ts t k v).lookup k' =
      if k' = k then Lww.merge ts (t.lookup k) v else t.lookup k' := by
  unfold upsertNewer
  cases h : t.lookup k with
  | none => rw [lookup_insert, Lww.merge_none]
  | some old =>
    simp only [Lww.merge]
    split_ifs with hlt hk hk
    · rw [lookup_insert, if_pos hk]
    · rw [lookup_insert, if_neg hk]
    · rw [hk, h]
    · rfl

/-- The part of a row that a reader sees hears the write too, as long as the stamp is
part of it. -/
theorem map_lookup_upsertNewer {ω : Type*} (us : ω → τ) (view : ν → ω)
    (h : ∀ v, us (view v) = ts v) (t : Table κ ν) (k k' : κ) (v : ν) :
    ((upsertNewer ts t k v).lookup k').map view =
      if k' = k then Lww.merge us ((t.lookup k).map view) (view v)
      else (t.lookup k').map view := by
  rw [lookup_upsertNewer]
  split_ifs
  · exact Lww.map_merge ts us h _ v
  · rfl

/-- An upsert leaves a row at its key, and every row that was there. -/
theorem exists_lookup_upsertNewer (t : Table κ ν) (k k' : κ) (v : ν) :
    (∃ row, (upsertNewer ts t k v).lookup k' = some row) ↔
      k' = k ∨ ∃ row, t.lookup k' = some row := by
  rw [lookup_upsertNewer]
  split_ifs with hk
  · rcases Lww.merge_cases ts (t.lookup k) v with ⟨h, -⟩ | ⟨old, hold, -, h⟩
    · simp [h, hk]
    · rw [h, hold]
      simp [hk]
  · simp [hk]

/-- At most one row written. -/
def upsertWrite (ts : ν → τ) (t : Table κ ν) : Option (κ × ν) → Table κ ν
  | some (k, v) => upsertNewer ts t k v
  | none => t

/-- A stream of events folded into a table, each writing at most one row. -/
def upsertAll (ts : ν → τ) (write : α → Option (κ × ν)) (t : Table κ ν) (l : List α) :
    Table κ ν :=
  l.foldl (fun t a => upsertWrite ts t (write a)) t

/-- The last event is written on top. -/
theorem upsertAll_concat (write : α → Option (κ × ν)) (t : Table κ ν) (l : List α) (a : α) :
    upsertAll ts write t (l ++ [a]) = upsertWrite ts (upsertAll ts write t l) (write a) :=
  List.foldl_concat ..

/-- The rows the events write at `k`, in order. -/
def writesAt (write : α → Option (κ × ν)) (k : κ) (l : List α) : List ν :=
  l.filterMap fun a => (write a).bind fun kv => if kv.1 = k then some kv.2 else none

variable {write : α → Option (κ × ν)}

/-- The writes at a key are what the events write there. -/
theorem mem_writesAt {k : κ} {l : List α} {v : ν} :
    v ∈ writesAt write k l ↔ ∃ a ∈ l, write a = some (k, v) := by
  rw [writesAt, List.mem_filterMap]
  refine exists_congr fun a => and_congr_right fun _ => ?_
  cases h : write a with
  | none => simp
  | some kv =>
    obtain ⟨k', v'⟩ := kv
    simp only [Option.bind_some, Option.ite_none_right_eq_some, Option.some.injEq,
      Prod.mk.injEq]

/-- An event that writes at the key comes first. -/
theorem writesAt_cons {k : κ} {v : ν} {a : α} (l : List α) (h : write a = some (k, v)) :
    writesAt write k (a :: l) = v :: writesAt write k l := by
  simp [writesAt, h]

/-- A stream acts on each key as the writes at that key act on its register. -/
theorem lookup_upsertAll (write : α → Option (κ × ν)) (t : Table κ ν) (l : List α) (k : κ) :
    (upsertAll ts write t l).lookup k = Lww.run ts (t.lookup k) (writesAt write k l) := by
  induction l generalizing t with
  | nil => rfl
  | cons a l ih =>
    rw [upsertAll, List.foldl_cons, ← upsertAll, ih]
    cases h : write a with
    | none => simp [upsertWrite, writesAt, h]
    | some kv =>
      obtain ⟨k', v⟩ := kv
      simp only [upsertWrite, lookup_upsertNewer]
      split_ifs with hk
      · subst hk
        rw [writesAt_cons l h, Lww.run_cons]
      · simp [writesAt, h, Ne.symm hk]

/-! ### The events heard, as a set -/

section Reflects

variable {ω : Type*} {us : ω → τ} {view : ν → ω} {write : α → Option (κ × ω)} {S : Set α}
  {t : Table κ ν}

/-- Every row, seen through `view`, is the winner among what the events of `S`
write at its key. -/
def Reflects (us : ω → τ) (view : ν → ω) (write : α → Option (κ × ω)) (S : Set α)
    (t : Table κ ν) : Prop :=
  ∀ k, Lww.IsWinner us { v | ∃ a ∈ S, write a = some (k, v) } ((t.lookup k).map view)

/-- The empty table reflects no events. -/
theorem Reflects.empty (h : S = ∅) : Reflects us view write S (∅ : Table κ ν) := by
  intro k
  subst h
  simp only [Set.mem_empty_iff_false, false_and, exists_false, Set.ofPred_false, AList.lookup_empty,
    Option.map_none]
  exact Lww.IsWinner.empty

/-- An upsert makes the table reflect one more event, one that writes what the row
shows. -/
theorem Reflects.upsertNewer (h : Reflects us view write S t) (hts : ∀ v, us (view v) = ts v)
    {a : α} {k : κ} {row : ν} (hw : write a = some (k, view row)) :
    Reflects us view write (insert a S) (upsertNewer ts t k row) := by
  intro k'
  rw [lookup_upsertNewer]
  split_ifs with hk
  · have hset : { v | ∃ b ∈ insert a S, write b = some (k', v) } =
        insert (view row) { v | ∃ b ∈ S, write b = some (k', v) } := by
      ext v
      simp only [Set.mem_insert_iff, exists_eq_or_imp, Set.mem_ofPred_eq, hw, Option.some.injEq,
        Prod.mk.injEq, hk, true_and]
      exact or_congr_left eq_comm
    rw [hset, Lww.map_merge ts us hts, ← hk]
    exact (h k').merge (view row)
  · have hset : { v | ∃ b ∈ insert a S, write b = some (k', v) } =
        { v | ∃ b ∈ S, write b = some (k', v) } := by
      ext v
      simp [hw, Ne.symm hk]
    rw [hset]
    exact h k'

/-- An event that writes nothing changes nothing. -/
theorem Reflects.insert_of_none (h : Reflects us view write S t) {a : α} (hw : write a = none) :
    Reflects us view write (insert a S) t := by
  intro k
  have hset : { v | ∃ b ∈ insert a S, write b = some (k, v) } =
      { v | ∃ b ∈ S, write b = some (k, v) } := by
    ext v
    simp [hw]
  rw [hset]
  exact h k

/-- An event that may write a row, and is seen to write what it writes. -/
theorem Reflects.upsertWrite (h : Reflects us view write S t) (hts : ∀ v, us (view v) = ts v)
    {a : α} {o : Option (κ × ν)} (hw : write a = o.map fun kv => (kv.1, view kv.2)) :
    Reflects us view write (insert a S) (upsertWrite ts t o) := by
  cases o with
  | some kv => exact h.upsertNewer hts hw
  | none => exact h.insert_of_none hw

/-- **Tables that reflect the same events show the same rows**, once events that
write one key under one stamp write the same. -/
theorem Reflects.unique {t' : Table κ ν} (h : Reflects us view write S t)
    (h' : Reflects us view write S t')
    (hinj : ∀ a ∈ S, ∀ b ∈ S, ∀ k v w, write a = some (k, v) → write b = some (k, w) →
      us v = us w → v = w) (k : κ) : (t.lookup k).map view = (t'.lookup k).map view := by
  refine (h k).unique (h' k) ?_
  rintro v ⟨a, ha, hv⟩ w ⟨b, hb, hw⟩ huw
  exact hinj a ha b hb k v w hv hw huw

end Reflects

/-! ### The events heard, as a list -/

/-- Wherever two events write different rows of one key under one stamp, another
event or the stored row beats them. -/
def Undisputed (ts : ν → τ) (write : α → Option (κ × ν)) (t : Table κ ν) (l : List α) : Prop :=
  ∀ a ∈ l, ∀ b ∈ l, ∀ k v w, write a = some (k, v) → write b = some (k, w) → ts v = ts w →
    v ≠ w → (∃ c ∈ l, ∃ u, write c = some (k, u) ∧ ts v < ts u) ∨
      ∃ old, t.lookup k = some old ∧ ts v ≤ ts old

/-- Undisputed events do not tie at any key. -/
theorem Undisputed.noTie {t : Table κ ν} {l : List α} (h : Undisputed ts write t l) (k : κ) :
    Lww.NoTie ts (t.lookup k) (writesAt write k l) := by
  intro v hv w hw hts hne
  obtain ⟨a, ha, hva⟩ := mem_writesAt.1 hv
  obtain ⟨b, hb, hwb⟩ := mem_writesAt.1 hw
  rcases h a ha b hb k v w hva hwb hts hne with ⟨c, hc, u, hu, hlt⟩ | hold
  · exact Or.inl ⟨u, mem_writesAt.2 ⟨c, hc, hu⟩, hlt⟩
  · exact Or.inr hold

/-- An event of the greatest stamp at its key, moved to the front, decides the
row. -/
theorem lookup_upsertAll_cons_of_max {t : Table κ ν} {l : List α} {a : α} {k : κ} {v : ν}
    (ha : write a = some (k, v)) (hold : ∀ old, t.lookup k = some old → ts old < ts v)
    (hmax : ∀ c ∈ l, ∀ u, write c = some (k, u) → ts u ≤ ts v) :
    (upsertAll ts write t (a :: l)).lookup k = some v := by
  rw [lookup_upsertAll, writesAt_cons l ha]
  refine Lww.run_cons_of_max hold fun u hu => ?_
  obtain ⟨c, hc, hcu⟩ := mem_writesAt.1 hu
  exact hmax c hc u hcu

/-- **When the order of the events does not matter.**  Every reordering gives the
same rows exactly when no row is disputed: two different rows of the greatest
stamp at a key, each heard first in one of two orders, would end as two different
rows. -/
theorem upsertAll_perm_iff [DecidableEq α] (write : α → Option (κ × ν)) (t : Table κ ν)
    (l : List α) :
    (∀ l', l'.Perm l → ∀ k, (upsertAll ts write t l').lookup k = (upsertAll ts write t l).lookup k)
      ↔ Undisputed ts write t l := by
  constructor
  · intro h a ha b hb k v w hva hwb hts hne
    by_contra hcon
    rw [not_or] at hcon
    obtain ⟨hbeat, hstored⟩ := hcon
    have hold : ∀ old, t.lookup k = some old → ts old < ts v := fun old ho =>
      lt_of_not_ge fun hle => hstored ⟨old, ho, hle⟩
    have hmax : ∀ c ∈ l, ∀ u, write c = some (k, u) → ts u ≤ ts v := fun c hc u hu =>
      le_of_not_gt fun hlt => hbeat ⟨c, hc, u, hu, hlt⟩
    have h₁ := h _ (List.perm_cons_erase ha).symm k
    have h₂ := h _ (List.perm_cons_erase hb).symm k
    rw [lookup_upsertAll_cons_of_max hva hold fun c hc => hmax c (List.mem_of_mem_erase hc)] at h₁
    rw [lookup_upsertAll_cons_of_max hwb (hts ▸ hold) fun c hc =>
      hts ▸ hmax c (List.mem_of_mem_erase hc)] at h₂
    exact hne (Option.some.inj (h₁.trans h₂.symm))
  · intro h l' hp k
    rw [lookup_upsertAll, lookup_upsertAll]
    exact Lww.run_perm (hp.filterMap _) (h.noTie k)

end Table
end Lib
end Shardscape
