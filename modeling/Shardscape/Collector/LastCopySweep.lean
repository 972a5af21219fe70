/-
# Sweeps and the last copy

A scheduled sweep that runs as one step deletes only what its live set does not
name and whose mark has run out, and marks what it sees for the first time
(`SweptTo`).  That keeps the invariant (`Inv.swept`), and when every fact that is
due has been applied, a block that some site names is held somewhere afterwards
(`Inv.held_of_swept`): a mark runs out a grace period after the row that replaced
the manifest was logged, and by then no site has the manifest.
-/

import Shardscape.Collector.LastCopyWrites
import Shardscape.Collector.Sweep

namespace Shardscape
namespace Cluster

open Lib Lib.Prog

variable {ι : Type} {B : Blake3} {cfg : GcConfig} {L : Ledger ι} {σ : ι → Store}

/-- At `now` a sweep of `st` may delete `h`: no manifest and no part names it, and
its mark, which may be a new one, has run out. -/
def Reapable (cfg : GcConfig) (now : ℤ) (st : Store) (h : Bytes) : Prop :=
  h ∉ st.computeLiveBlockSet ∧
    ∃ t, (st.pendingDeletions.lookup h = some t ∨
      (st.pendingDeletions.lookup h = none ∧ t = now + cfg.grace)) ∧ t ≤ now

/-- What a sweep of `st` at `now` has done so far. -/
structure SweptTo (cfg : GcConfig) (now : ℤ) (st st' : Store) : Prop where
  factLog : st'.factLog = st.factLog
  objects : st'.objects = st.objects
  parts : st'.parts = st.parts
  held : ∀ h, st.HoldsLocally h → st'.HoldsLocally h ∨ Reapable cfg now st h
  marks : ∀ h, ∀ t ∈ st'.pendingDeletions.lookup h, t ∈ st.pendingDeletions.lookup h ∨
    (h ∉ st.computeLiveBlockSet ∧ t = now + cfg.grace)

/-- What a scheduled sweep leaves is as far as that, if the deadlines it gives are in range. -/
theorem SweptTo.of_swept {now : ℤ} {st st' : Store} (hnow : cfg.deadlineAt now = now + cfg.grace)
    (h : st.Swept cfg false now st') : SweptTo cfg now st st' where
  factLog := h.factLog
  objects := h.objects
  parts := h.parts
  held b hb := by
    by_cases hkept : b ∈ st.computeLiveBlockSet ∨ st.Spares cfg false now b
    · exact .inl ((h.held b).2 ⟨hb, hkept⟩)
    · obtain ⟨hdead, hreap⟩ := not_or.1 hkept
      refine .inr ⟨hdead, st.deadline cfg now b, ?_, not_lt.1 fun hlt => hreap ⟨rfl, hlt⟩⟩
      unfold Store.deadline
      cases st.pendingDeletions.lookup b with
      | some t => exact .inl rfl
      | none => exact .inr ⟨rfl, hnow⟩
  marks b t ht := by
    rw [h.marks, Store.markAfter] at ht
    split_ifs at ht with hheld hspared
    · obtain rfl := Option.some.inj ht
      unfold Store.deadline
      cases st.pendingDeletions.lookup b with
      | some t => exact .inl rfl
      | none => exact .inr ⟨hspared.1, hnow⟩
    · exact nomatch ht
    · exact nomatch ht

/-- **What a scheduled sweep does, as one step.** -/
theorem wp_sweepOrphanedBlocks {Blob : BlobStore} {ε : Type} {s : Site Blob} {micros : ℕ}
    (hmicros : ∀ n, s.oracle.micros n = micros) (hfits : cfg.Fits micros) :
    wp (Site.sweepOrphanedBlocks cfg false : Site.SProg Blob ε Unit)
      (fun _ s' => SweptTo cfg (micros / 1000 : ℕ) s.store s'.store) s :=
  wp_mono (Site.wp_sweepOrphanedBlocks cfg false hmicros) fun _ _ h =>
    .of_swept (GcConfig.deadlineAt_of_fits hfits) h.2

/-! ### What the invariant says of it -/

/-- What is named is not deleted. -/
theorem SweptTo.held_of_live {now : ℤ} {st st' : Store} (h : SweptTo cfg now st st') {b : Bytes}
    (hb : st.NamedByObject b ∨ st.NamedByPart b) (hheld : st.HoldsLocally b) :
    st'.HoldsLocally b :=
  (h.held b hheld).resolve_right fun hr => hr.1 (Store.mem_computeLiveBlockSet.2 hb)

/-- A block of a replaced manifest is deleted only when the row that replaced it is
due. -/
theorem SweptTo.held_or_due {st st' : Store} (h : SweptTo cfg (L.now / 1000 : ℕ) st st')
    {b : Bytes} {at' : ℕ} (hat : at' ≤ L.now) (hheld : st.HoldsLocally b)
    (hmark : ∀ t ∈ st.pendingDeletions.lookup b, due cfg at' ≤ t) :
    st'.HoldsLocally b ∨ due cfg at' ≤ (L.now / 1000 : ℕ) := by
  refine (h.held b hheld).imp id fun ⟨_, t, ht, hle⟩ => ?_
  have hdiv : at' / 1000 ≤ L.now / 1000 := Nat.div_le_div_right hat
  rcases ht with ht | ⟨-, ht⟩
  · exact (hmark t ht).trans hle
  · unfold due
    omega

section Step

variable [DecidableEq ι] {i : ι} {st : Store}

/-- **A sweep keeps the invariant.** -/
theorem Inv.swept (h : Inv B cfg L σ) (hs : SweptTo cfg (L.now / 1000 : ℕ) (σ i) st) :
    Inv B cfg L (moved σ i st) := by
  have hlog : ∀ j, (moved σ i st j).factLog = (σ j).factLog :=
    moved_cases (P := fun j s => s.factLog = (σ j).factLog) hs.factLog fun _ _ => rfl
  have hobj : ∀ j, (moved σ i st j).objects = (σ j).objects :=
    moved_cases (P := fun j s => s.objects = (σ j).objects) hs.objects fun _ _ => rfl
  have hgrown : (σ i).factLog <+: st.factLog := hs.factLog ▸ List.prefix_rfl
  have hback : ∀ {j rec k row}, Wrote B (moved σ i st) j rec k row → Wrote B σ j rec k row :=
    fun hw => ⟨by rw [← hlog]; exact hw.1, hw.2⟩
  refine ⟨fun j k row hrow => ?_, fun j j' rec k row hw happ => ?_,
    fun j rec k row b hw hdel hb => ?_, ?_, h.times, fun j j' n hn => ?_⟩
  · rw [hobj] at hrow
    obtain ⟨j', rec, hw⟩ := h.origin j k row hrow
    exact ⟨j', rec, hw.moved hgrown⟩
  · rw [hobj]
    exact h.heard j j' rec k row (hback hw) happ
  · have ha := h.answers j rec k row b (hback hw) hdel hb
    by_cases hj : j = i
    · subst hj
      cases ha with
      | current hrow hheld hmark =>
        have hnamed : (σ j).NamedByObject b := ⟨k, row, hrow, hdel, hb⟩
        refine .current ?_ ?_ ?_ <;> rw [moved_self]
        · rw [hs.objects, hrow]
        · exact hs.held_of_live (.inl hnamed) hheld
        · refine Option.eq_none_iff_forall_ne_some.2 fun t ht => ?_
          rcases hs.marks b t ht with hold | ⟨hno, -⟩
          · exact nomatch hmark.symm.trans hold
          · exact hno (Store.mem_computeLiveBlockSet.2 (.inl hnamed))
      | replaced j' rec' row' hw' hlt hheld hmark =>
        have hat := h.times j' rec'.seq
        rcases hs.held_or_due hat hheld hmark with hheld | hdue
        · refine .replaced j' rec' row' (hw'.moved hgrown) hlt (by rwa [moved_self]) ?_
          rw [moved_self]
          intro t ht
          rcases hs.marks b t ht with hold | ⟨-, rfl⟩
          · exact hmark t hold
          · have hdiv : L.loggedAt j' rec'.seq / 1000 ≤ L.now / 1000 := Nat.div_le_div_right hat
            unfold due
            omega
        · exact .past j' rec' row' (hw'.moved hgrown) hlt hdue
      | past j' rec' row' hw' hlt hdue => exact .past j' rec' row' (hw'.moved hgrown) hlt hdue
    · exact ha.moved hgrown (fun he => absurd he hj) (fun he => absurd he hj)
        fun he => absurd he hj
  · refine moved_cases (P := fun _ s => ∀ b, s.NamedByPart b → s.HoldsLocally b) (fun b hb => ?_)
      fun j _ => h.parts j
    have hb : (σ i).NamedByPart b := by rwa [Store.NamedByPart, hs.parts] at hb
    exact hs.held_of_live (.inr hb) (h.parts i b hb)
  · exact (h.known j j' n hn).trans (hlog j' ▸ le_rfl)

/-- **What some site names is held somewhere after a sweep**, when every fact that
is due has been applied. -/
theorem Inv.held_of_swept (h : Inv B cfg L σ) (hs : SweptTo cfg (L.now / 1000 : ℕ) (σ i) st)
    (htimely : ∀ p j, p ≠ j → ∀ rec ∈ Store.factRecords (σ j).factLog,
      due cfg (L.loggedAt j rec.seq) ≤ (L.now / 1000 : ℕ) → (j, rec.seq) ∈ L.applied p)
    {p : ι} {b : Bytes} (hb : (σ p).NamedByObject b ∨ (σ p).NamedByPart b) :
    ∃ q, (moved σ i st q).HoldsLocally b := by
  -- a site whose live set names the block goes on holding it
  have hkeep : ∀ q, (σ q).HoldsLocally b → ((σ q).NamedByObject b ∨ (σ q).NamedByPart b) →
      (moved σ i st q).HoldsLocally b := fun q hheld hname =>
    moved_cases (P := fun j s => (σ j).HoldsLocally b →
      ((σ j).NamedByObject b ∨ (σ j).NamedByPart b) → s.HoldsLocally b)
      (fun hheld hname => hs.held_of_live hname hheld) (fun _ _ hheld _ => hheld) q hheld hname
  rcases hb with ⟨k, row, hrow, hdel, hb⟩ | hb
  · -- a row that is due has been heard at `p`, so the manifest is not there any more
    have hpast : ∀ {j rec row'}, Wrote B σ j rec k row' → row.updatedAt < row'.updatedAt →
        ¬ due cfg (L.loggedAt j rec.seq) ≤ (L.now / 1000 : ℕ) := by
      intro j rec row' hw hlt hdue
      have happ : p = j ∨ (j, rec.seq) ∈ L.applied p := by
        by_cases hpj : p = j
        · exact .inl hpj
        · exact .inr (htimely p j hpj rec hw.1 hdue)
      obtain ⟨row'', hrow'', hle⟩ := h.heard p j rec k row' hw happ
      obtain rfl := Option.some.inj (hrow''.symm.trans hrow)
      omega
    obtain ⟨q, rec, hw⟩ := h.origin p k row hrow
    cases h.answers q rec k row b hw hdel hb with
    | current hrow' hheld _ => exact ⟨q, hkeep q hheld (.inl ⟨k, row, hrow', hdel, hb⟩)⟩
    | replaced j rec' row' hw' hlt hheld hmark =>
      refine ⟨q, moved_cases (P := fun j s => j = q → s.HoldsLocally b) ?_ ?_ q rfl⟩
      · rintro rfl
        exact (hs.held_or_due (h.times j rec'.seq) hheld hmark).resolve_right (hpast hw' hlt)
      · rintro j' - rfl
        exact hheld
    | past j rec' row' hw' hlt hdue => exact absurd hdue (hpast hw' hlt)
  · exact ⟨p, hkeep p (h.parts p b hb) (.inr hb)⟩

end Step

end Cluster
end Shardscape
