/-
# Last-write-wins registers

A register holds at most one value, and a write replaces it only when its stamp
is strictly greater (`Lww.merge`): on equal stamps the value heard first stays.
`Lww.run` is a register hearing a list of writes.

Two descriptions of where a register ends up are used downstream.  `Lww.IsWinner`
is relative to the *set* of writes heard, whatever their order and multiplicity:
the value is one of them and no stamp beats its own, and when equal stamps carry
equal values the set determines it (`Lww.IsWinner.unique`).  For lists,
`Lww.run_perm` says when reordering the writes cannot change the outcome: no two
different values share the greatest stamp, unless the value held at the start
already beats them (`Lww.NoTie`).
-/

import Mathlib.Data.List.Perm.Basic
import Mathlib.Data.Set.Insert
import Mathlib.Order.Lattice

namespace Shardscape
namespace Lib
namespace Lww

variable {ν ω τ : Type*} [LinearOrder τ] {ts : ν → τ}

/-- One write heard by a register. -/
def merge (ts : ν → τ) : Option ν → ν → Option ν
  | none, v => some v
  | some old, v => if ts old < ts v then some v else some old

/-- The first write is kept. -/
@[simp] theorem merge_none (v : ν) : merge ts none v = some v := rfl

/-- A strictly newer write is taken. -/
theorem merge_of_lt {old v : ν} (h : ts old < ts v) : merge ts (some old) v = some v :=
  if_pos h

/-- A write that is not newer leaves the register alone. -/
theorem merge_of_le {old v : ν} (h : ts v ≤ ts old) : merge ts (some old) v = some old :=
  if_neg h.not_gt

/-- What hearing a write can do: take it over everything older, or ignore it. -/
theorem merge_cases (ts : ν → τ) (r : Option ν) (v : ν) :
    (merge ts r v = some v ∧ ∀ old, r = some old → ts old < ts v) ∨
      ∃ old, r = some old ∧ ts v ≤ ts old ∧ merge ts r v = r := by
  cases r with
  | none => exact .inl ⟨rfl, by simp⟩
  | some old =>
    rcases lt_or_ge (ts old) (ts v) with h | h
    · exact .inl ⟨merge_of_lt h, fun o ho => Option.some.inj ho ▸ h⟩
    · exact .inr ⟨old, rfl, h, merge_of_le h⟩

/-- A register that has heard a write is as new as the write, and as new as it was. -/
theorem exists_merge_eq_some (ts : ν → τ) (r : Option ν) (v : ν) :
    ∃ w, merge ts r v = some w ∧ ts v ≤ ts w ∧ ∀ old, r = some old → ts old ≤ ts w := by
  rcases merge_cases ts r v with ⟨hm, hold⟩ | ⟨old, rfl, hle, hm⟩
  · exact ⟨v, hm, le_rfl, fun old ho => (hold old ho).le⟩
  · exact ⟨old, hm, hle, fun o ho => (congrArg ts (Option.some.inj ho)).ge⟩

/-- Forgetting part of a value commutes with hearing a write, as long as the
stamp is kept. -/
theorem map_merge (ts : ν → τ) (us : ω → τ) {view : ν → ω}
    (h : ∀ v, us (view v) = ts v) (r : Option ν)
    (v : ν) : (merge ts r v).map view = merge us (r.map view) (view v) := by
  cases r with
  | none => rfl
  | some old =>
    simp only [merge, Option.map_some, h]
    split_ifs <;> rfl

/-! ### The writes heard, as a set -/

/-- `r` is what a register holds after hearing the writes `S`: one of them, and
none with a greater stamp. -/
def IsWinner (ts : ν → τ) (S : Set ν) (r : Option ν) : Prop :=
  (∀ v, r = some v → v ∈ S) ∧ ∀ w ∈ S, ∃ v, r = some v ∧ ts w ≤ ts v

/-- Of no writes, none wins. -/
theorem IsWinner.empty : IsWinner ts (∅ : Set ν) none :=
  ⟨by simp, by simp⟩

/-- Hearing one more write, or the same one again. -/
theorem IsWinner.merge {S : Set ν} {r : Option ν} (h : IsWinner ts S r) (v : ν) :
    IsWinner ts (insert v S) (merge ts r v) := by
  rcases merge_cases ts r v with ⟨hr, hold⟩ | ⟨old, hold, hle, hr⟩
  · refine ⟨fun u hu => ?_, fun w hw => ⟨v, hr, ?_⟩⟩
    · rw [hr] at hu
      exact Option.some.inj hu ▸ Set.mem_insert v S
    · rcases Set.mem_insert_iff.1 hw with rfl | hw
      · exact le_rfl
      · obtain ⟨u, hu, hwu⟩ := h.2 w hw
        exact hwu.trans (hold u hu).le
  · rw [hr]
    refine ⟨fun u hu => Set.mem_insert_of_mem v (h.1 u hu), fun w hw => ?_⟩
    rcases Set.mem_insert_iff.1 hw with rfl | hw
    · exact ⟨old, hold, hle⟩
    · exact h.2 w hw

/-- **The set of writes determines the register**, once equal stamps carry equal
values. -/
theorem IsWinner.unique {S : Set ν} {r r' : Option ν} (h : IsWinner ts S r)
    (h' : IsWinner ts S r') (hinj : ∀ v ∈ S, ∀ w ∈ S, ts v = ts w → v = w) : r = r' := by
  cases hr : r with
  | none =>
    cases hr' : r' with
    | none => rfl
    | some v =>
      obtain ⟨u, hu, -⟩ := h.2 v (h'.1 v hr')
      rw [hr] at hu
      exact absurd hu (by simp)
  | some v =>
    obtain ⟨u, hu, hvu⟩ := h'.2 v (h.1 v hr)
    obtain ⟨w, hw, huw⟩ := h.2 u (h'.1 u hu)
    obtain rfl : v = w := Option.some.inj (hr.symm.trans hw)
    rw [hu, hinj v (h.1 v hr) u (h'.1 u hu) (le_antisymm hvu huw)]

/-! ### The writes heard, as a list -/

/-- A register hearing the writes of a list in order. -/
def run (ts : ν → τ) (r : Option ν) (ws : List ν) : Option ν :=
  ws.foldl (merge ts) r

/-- Writes are merged from the first on. -/
@[simp] theorem run_cons (r : Option ν) (v : ν) (ws : List ν) :
    run ts r (v :: ws) = run ts (merge ts r v) ws := rfl

/-- A value no later write beats stays. -/
theorem run_of_forall_le {v : ν} {ws : List ν} (h : ∀ w ∈ ws, ts w ≤ ts v) :
    run ts (some v) ws = some v := by
  induction ws with
  | nil => rfl
  | cons w ws ih =>
    rw [run_cons, merge_of_le (h w List.mem_cons_self)]
    exact ih fun u hu => h u (List.mem_cons_of_mem w hu)

/-- Heard first, a write of the greatest stamp is what the register ends with. -/
theorem run_cons_of_max {r : Option ν} {v : ν} {ws : List ν}
    (hold : ∀ old, r = some old → ts old < ts v) (h : ∀ w ∈ ws, ts w ≤ ts v) :
    run ts r (v :: ws) = some v := by
  rw [run_cons]
  rcases merge_cases ts r v with ⟨hr, -⟩ | ⟨old, hr, hle, -⟩
  · rw [hr]
    exact run_of_forall_le h
  · exact absurd (hold old hr) hle.not_gt

/-- Where a run ends: at its start, which no write beats, or at a write of the
greatest stamp, which beats the start. -/
theorem run_cases (ts : ν → τ) (r : Option ν) (ws : List ν) :
    (run ts r ws = r ∧ ∀ w ∈ ws, ∃ old, r = some old ∧ ts w ≤ ts old) ∨
      ∃ v ∈ ws, run ts r ws = some v ∧ (∀ w ∈ ws, ts w ≤ ts v) ∧
        ∀ old, r = some old → ts old < ts v := by
  induction ws generalizing r with
  | nil => exact .inl ⟨rfl, by simp⟩
  | cons w ws ih =>
    rw [run_cons]
    rcases merge_cases ts r w with ⟨hr, hold⟩ | ⟨old, hr, hle, hm⟩
    · rw [hr]
      rcases ih (some w) with ⟨hrun, hle⟩ | ⟨v, hv, hrun, hmax, hlt⟩
      · refine .inr ⟨w, List.mem_cons_self, hrun, fun u hu => ?_, hold⟩
        rcases List.mem_cons.1 hu with rfl | hu
        · exact le_rfl
        · obtain ⟨o, ho, hle⟩ := hle u hu
          exact Option.some.inj ho ▸ hle
      · have hwv := hlt w rfl
        refine .inr ⟨v, List.mem_cons_of_mem w hv, hrun, fun u hu => ?_,
          fun old ho => (hold old ho).trans hwv⟩
        rcases List.mem_cons.1 hu with rfl | hu
        · exact hwv.le
        · exact hmax u hu
    · rw [hm]
      rcases ih r with ⟨hrun, hall⟩ | ⟨v, hv, hrun, hmax, hlt⟩
      · refine .inl ⟨hrun, fun u hu => ?_⟩
        rcases List.mem_cons.1 hu with rfl | hu
        · exact ⟨old, hr, hle⟩
        · exact hall u hu
      · refine .inr ⟨v, List.mem_cons_of_mem w hv, hrun, fun u hu => ?_, hlt⟩
        rcases List.mem_cons.1 hu with rfl | hu
        · exact hle.trans (hlt old hr).le
        · exact hmax u hu

/-- No two different values of `ws` share a stamp, except below a greater stamp
of `ws` or below the value held at the start. -/
def NoTie (ts : ν → τ) (r : Option ν) (ws : List ν) : Prop :=
  ∀ v ∈ ws, ∀ w ∈ ws, ts v = ts w → v ≠ w →
    (∃ u ∈ ws, ts v < ts u) ∨ ∃ old, r = some old ∧ ts v ≤ ts old

/-- Without ties the order of the writes is irrelevant. -/
theorem run_perm {r : Option ν} {ws ws' : List ν} (hp : ws'.Perm ws) (h : NoTie ts r ws) :
    run ts r ws' = run ts r ws := by
  rcases run_cases ts r ws with ⟨hrun, hall⟩ | ⟨v, hv, hrun, hmax, hlt⟩ <;>
    rcases run_cases ts r ws' with ⟨hrun', hall'⟩ | ⟨v', hv', hrun', hmax', hlt'⟩
  · rw [hrun, hrun']
  · obtain ⟨old, ho, hle⟩ := hall v' (hp.mem_iff.1 hv')
    exact absurd (hlt' old ho) hle.not_gt
  · obtain ⟨old, ho, hle⟩ := hall' v (hp.mem_iff.2 hv)
    exact absurd (hlt old ho) hle.not_gt
  · rw [hrun, hrun']
    by_contra hne
    have hne' : v ≠ v' := fun he => hne (by rw [he])
    have hts : ts v = ts v' :=
      le_antisymm (hmax' v (hp.mem_iff.2 hv)) (hmax v' (hp.mem_iff.1 hv'))
    rcases h v hv v' (hp.mem_iff.1 hv') hts hne' with ⟨u, hu, huv⟩ | ⟨old, ho, hle⟩
    · exact absurd huv (hmax u hu).not_gt
    · exact absurd (hlt old ho) hle.not_gt

end Lww
end Lib
end Shardscape
