/-
# Rows that are logged and rows that are heard

What a write of an object row does to the invariant of
`Shardscape.Collector.LastCopy`: one that a site logs itself (`Inv.wrote`), and one
that comes with a fact of a peer (`Inv.heardFact`).
-/

import Shardscape.Collector.LastCopy

namespace Shardscape
namespace Cluster

open Lib

variable {ι : Type} {B : Blake3} {cfg : GcConfig} {L : Ledger ι} {σ : ι → Store}

section Step

variable [DecidableEq ι] {i : ι} {st : Store}

/-- A site hears a row: last write wins. -/
structure Hears (st st' : Store) (k₀ : Str × Str) (row₀ : ObjectRow) : Prop where
  log : st.factLog <+: st'.factLog
  objects : ∀ k, st'.objects.lookup k =
    if k = k₀ then Lww.merge ObjectRow.updatedAt (st.objects.lookup k₀) row₀
    else st.objects.lookup k
  pending : st'.pendingDeletions = st.pendingDeletions
  held : ∀ h, st.HoldsLocally h → st'.HoldsLocally h
  parts : ∀ h, st'.NamedByPart h → st.NamedByPart h

variable {k₀ : Str × Str} {row₀ : ObjectRow}

/-- What a key reads as after: the row that was there, or the one that is heard,
which is then newer. -/
theorem Hears.lookup_cases {st' : Store} (hh : Hears st st' k₀ row₀) (k : Str × Str) :
    (st'.objects.lookup k = st.objects.lookup k ∧
        (k = k₀ → ∃ old, st.objects.lookup k₀ = some old ∧ row₀.updatedAt ≤ old.updatedAt)) ∨
      (k = k₀ ∧ st'.objects.lookup k = some row₀ ∧
        ∀ old, st.objects.lookup k = some old → old.updatedAt < row₀.updatedAt) := by
  rw [hh.objects]
  split_ifs with hk
  · subst hk
    rcases Lww.merge_cases ObjectRow.updatedAt (st.objects.lookup k) row₀ with
      ⟨hm, hold⟩ | ⟨old, hold, hle, hm⟩
    · exact .inr ⟨rfl, hm, hold⟩
    · exact .inl ⟨hm, fun _ => ⟨old, hold, hle⟩⟩
  · exact .inl ⟨rfl, fun he => absurd he hk⟩

/-- Stamps only grow. -/
theorem Hears.mono {st' : Store} (hh : Hears st st' k₀ row₀) {k : Str × Str} {old : ObjectRow}
    (hold : st.objects.lookup k = some old) :
    ∃ row', st'.objects.lookup k = some row' ∧ old.updatedAt ≤ row'.updatedAt := by
  rcases hh.lookup_cases k with ⟨hsame, -⟩ | ⟨-, hnew, hlt⟩
  · exact ⟨old, hsame.trans hold, le_rfl⟩
  · exact ⟨row₀, hnew, (hlt old hold).le⟩

/-- The row is heard. -/
theorem Hears.heard {st' : Store} (hh : Hears st st' k₀ row₀) :
    ∃ row', st'.objects.lookup k₀ = some row' ∧ row₀.updatedAt ≤ row'.updatedAt := by
  rcases hh.lookup_cases k₀ with ⟨hsame, hold⟩ | ⟨-, hnew, -⟩
  · obtain ⟨old, hold, hle⟩ := hold rfl
    exact ⟨old, hsame.trans hold, hle⟩
  · exact ⟨row₀, hnew, le_rfl⟩

/-- For the manifests already logged the sites go on answering: a current row that
is replaced is replaced by a logged one. -/
theorem Hears.answers (hh : Hears (σ i) st k₀ row₀) {j₀ : ι} {rec₀ : FactRecord}
    (hw₀ : Wrote B (moved σ i st) j₀ rec₀ k₀ row₀) {j : ι} {k : Str × Str} {row : ObjectRow}
    {h : Bytes} (ha : Answers B cfg L σ j k row h) : Answers B cfg L (moved σ i st) j k row h := by
  have hpend : st.pendingDeletions.lookup h = (σ i).pendingDeletions.lookup h := by rw [hh.pending]
  rcases hh.lookup_cases k with ⟨hsame, -⟩ | ⟨rfl, hnew, hlt⟩
  · exact ha.moved hh.log (fun _ => hsame) (fun _ => hh.held h) fun _ => hpend
  · by_cases hj : j = i
    · subst hj
      cases ha with
      | current hrow hheld hmark =>
        refine .replaced j₀ rec₀ row₀ hw₀ (hlt row hrow) ?_ ?_
        · rw [moved_self]
          exact hh.held h hheld
        · rw [moved_self, hpend, hmark]
          exact fun t ht => nomatch ht
      | replaced j' rec row' hw hlt' hheld hmark =>
        refine .replaced j' rec row' (hw.moved hh.log) hlt' ?_ ?_
        · rw [moved_self]
          exact hh.held h hheld
        · rw [moved_self, hpend]
          exact hmark
      | past j' rec row' hw hlt' hdue => exact .past j' rec row' (hw.moved hh.log) hlt' hdue
    · exact ha.moved hh.log (fun he => absurd he hj) (fun he => absurd he hj)
        fun he => absurd he hj

/-- Rows still come from logs. -/
theorem Inv.origin_hears (h : Inv B cfg L σ) (hh : Hears (σ i) st k₀ row₀) {j₀ : ι}
    {rec₀ : FactRecord} (hw₀ : Wrote B (moved σ i st) j₀ rec₀ k₀ row₀) :
    ∀ j k row, (moved σ i st j).objects.lookup k = some row →
      ∃ j' rec, Wrote B (moved σ i st) j' rec k row := by
  have hold : ∀ j k row, (σ j).objects.lookup k = some row →
      ∃ j' rec, Wrote B (moved σ i st) j' rec k row := fun j k row hrow => by
    obtain ⟨j', rec, hw⟩ := h.origin j k row hrow
    exact ⟨j', rec, hw.moved hh.log⟩
  refine moved_cases (P := fun _ s => ∀ k row, s.objects.lookup k = some row →
    ∃ j' rec, Wrote B (moved σ i st) j' rec k row) (fun k row hrow => ?_) fun j _ => hold j
  rcases hh.lookup_cases k with ⟨hsame, -⟩ | ⟨rfl, hnew, -⟩
  · exact hold i k row (hsame.symm.trans hrow)
  · obtain rfl := Option.some.inj (hnew.symm.trans hrow)
    exact ⟨j₀, rec₀, hw₀⟩

/-- What was heard stays heard. -/
theorem Inv.heard_hears (h : Inv B cfg L σ) (hh : Hears (σ i) st k₀ row₀) {j j' : ι}
    {rec : FactRecord} {k : Str × Str} {row : ObjectRow} (hw : Wrote B σ j' rec k row)
    (happ : j = j' ∨ (j', rec.seq) ∈ L.applied j) :
    ∃ row', (moved σ i st j).objects.lookup k = some row' ∧ row.updatedAt ≤ row'.updatedAt := by
  obtain ⟨row', hrow', hle⟩ := h.heard j j' rec k row hw happ
  by_cases hj : j = i
  · subst hj
    obtain ⟨row'', hrow'', hle'⟩ := hh.mono hrow'
    exact ⟨row'', by rwa [moved_self], hle.trans hle'⟩
  · exact ⟨row', by rwa [moved_of_ne hj], hle⟩

/-- Parts name only blocks that are held, and a fact changes neither. -/
theorem Inv.parts_hears (h : Inv B cfg L σ) (hh : Hears (σ i) st k₀ row₀) :
    ∀ j b, (moved σ i st j).NamedByPart b → (moved σ i st j).HoldsLocally b :=
  moved_cases (P := fun _ s => ∀ b, s.NamedByPart b → s.HoldsLocally b)
    (fun b hb => hh.held b (h.parts i b (hh.parts b hb))) fun j _ => h.parts j

/-- **A fact of a peer keeps the invariant.** -/
theorem Inv.heardFact (h : Inv B cfg L σ) {j₀ : ι} {rec₀ : FactRecord}
    (hh : Hears (σ i) st k₀ row₀) (hlog : st.factLog = (σ i).factLog)
    (hw₀ : Wrote B σ j₀ rec₀ k₀ row₀) :
    Inv B cfg (noted L i j₀ [rec₀.seq]) (moved σ i st) := by
  have hback : ∀ {j rec k row}, Wrote B (moved σ i st) j rec k row → Wrote B σ j rec k row := by
    intro j rec k row hw
    refine ⟨?_, hw.2⟩
    have := hw.1
    rwa [moved_cases (P := fun j s => s.factLog = (σ j).factLog) hlog (fun _ _ => rfl) j] at this
  have happ : ∀ {j x}, x ∈ (noted L i j₀ [rec₀.seq]).applied j →
      x ∈ L.applied j ∨ (j = i ∧ x = (j₀, rec₀.seq)) := by
    intro j x hx
    by_cases hj : j = i
    · subst hj
      simp only [noted, Function.update_self, List.map_cons, List.map_nil, List.cons_append,
        List.nil_append, List.mem_cons] at hx
      exact hx.symm.imp id fun hx => ⟨rfl, hx⟩
    · simp only [noted, Function.update_of_ne hj] at hx
      exact .inl hx
  refine ⟨h.origin_hears hh (hw₀.moved hh.log), fun j j' rec k row hw hj => ?_,
    fun j rec k row b hw hdel hb => ?_, h.parts_hears hh, h.times, fun j j' n hn => ?_⟩
  · rcases hj.imp_right happ with rfl | hin | ⟨rfl, heq⟩
    · exact h.heard_hears hh (hback hw) (.inl rfl)
    · exact h.heard_hears hh (hback hw) (.inr hin)
    · -- the number tells which fact it is
      rw [Prod.mk.injEq] at heq
      obtain ⟨rfl, hseq⟩ := heq
      obtain rfl := Store.eq_of_mem_factRecords (hback hw).1 hw₀.1 hseq
      have hkr := hw.2.symm.trans hw₀.2
      rw [Option.some.injEq, Prod.mk.injEq] at hkr
      obtain ⟨rfl, rfl⟩ := hkr
      rw [moved_self]
      exact hh.heard
  · have ha := h.answers j rec k row b (hback hw) hdel hb
    exact (hh.answers (hw₀.moved hh.log) ha).later le_rfl fun _ _ _ _ _ => rfl
  · refine (?_ : n ≤ (σ j').factLog.length).trans (length_le_moved hh.log j')
    rcases happ hn with hn | ⟨-, heq⟩
    · exact h.known j j' n hn
    · rw [Prod.mk.injEq] at heq
      obtain ⟨rfl, rfl⟩ := heq
      exact Store.seq_le_of_mem_factRecords hw₀.1

/-- **A row this site logs keeps the invariant**, if the site holds the blocks it
names, none is marked, and it is not written under the stamp of the row that is
there. -/
theorem Inv.wrote (h : Inv B cfg L σ) {e : ℤ × Fact} (hh : Hears (σ i) st k₀ row₀)
    (hlog : st.factLog = (σ i).factLog ++ [e])
    (he : ∀ n, Store.objectWrite B ⟨n, e.1, e.2⟩ = some (k₀, row₀))
    (hcare : row₀.deleted = false →
      (∀ b ∈ Store.decodeBlocks row₀.blocks, (σ i).HoldsLocally b ∧
        (σ i).pendingDeletions.lookup b = none) ∧
      ∀ row ∈ (σ i).objects.lookup k₀, row.updatedAt ≠ row₀.updatedAt) :
    Inv B cfg L (moved σ i st) := by
  have hback : ∀ {j rec k row}, Wrote B (moved σ i st) j rec k row →
      Wrote B σ j rec k row ∨
        (j = i ∧ (σ i).factLog.length < rec.seq ∧ k = k₀ ∧ row = row₀) := by
    rintro j rec k row ⟨hrec, hwr⟩
    by_cases hj : j = i
    · subst hj
      rw [moved_self, hlog] at hrec
      rcases Store.mem_factRecords_append.1 hrec with hrec | ⟨hlt, hn⟩
      · exact .inl ⟨hrec, hwr⟩
      · have hmem := List.mem_singleton.1 (List.mem_of_getElem? hn)
        have hrow := he rec.seq
        rw [← hmem] at hrow
        obtain ⟨rfl, rfl⟩ := Prod.mk.inj (Option.some.inj (hwr.symm.trans hrow))
        exact .inr ⟨rfl, hlt, rfl, rfl⟩
    · rw [moved_of_ne hj] at hrec
      exact .inl ⟨hrec, hwr⟩
  have hw₀ : Wrote B (moved σ i st) i ⟨(σ i).factLog.length + 1, e.1, e.2⟩ k₀ row₀ := by
    refine ⟨?_, he _⟩
    rw [moved_self, hlog]
    refine Store.mem_factRecords_append.2 (.inr ⟨Nat.lt_succ_self _, ?_⟩)
    simp
  refine ⟨h.origin_hears hh hw₀, fun j j' rec k row hw happ => ?_,
    fun j rec k row b hw hdel hb => ?_, h.parts_hears hh, h.times,
    fun j j' n hn => (h.known j j' n hn).trans (length_le_moved hh.log j')⟩
  · rcases hback hw with hw | ⟨rfl, hseq, rfl, rfl⟩
    · exact h.heard_hears hh hw happ
    · -- nobody has applied a fact that is only now being logged
      rcases happ with rfl | hin
      · rw [moved_self]
        exact hh.heard
      · have := h.known j j' rec.seq hin
        omega
  · rcases hback hw with hw | ⟨rfl, -, rfl, rfl⟩
    · exact hh.answers hw₀ (h.answers j rec k row b hw hdel hb)
    · obtain ⟨hblocks, hfresh⟩ := hcare hdel
      obtain ⟨hheld, hmark⟩ := hblocks b hb
      rw [← hh.pending] at hmark
      have hheld := hh.held b hheld
      rcases hh.lookup_cases k with ⟨hsame, hold⟩ | ⟨-, hnew, -⟩
      · -- the row that is there is newer, and was logged by someone
        obtain ⟨old, hold, hle⟩ := hold rfl
        obtain ⟨j', rec', hw'⟩ := h.origin j k old hold
        refine .replaced j' rec' old (hw'.moved hh.log)
          (lt_of_le_of_ne hle (Ne.symm (hfresh old hold))) ?_ ?_
        · rwa [moved_self]
        · rw [moved_self, hmark]
          exact fun t ht => nomatch ht
      · refine .current ?_ ?_ ?_ <;> rw [moved_self] <;> assumption

end Step

end Cluster
end Shardscape
