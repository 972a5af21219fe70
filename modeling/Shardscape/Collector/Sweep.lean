/-
# What a sweep does

`sweep_orphaned_blocks` of `src/storage.rs`, run from its first call to its last at one
reading of the clock (`wp_sweepOrphanedBlocks`).

An orphan is a block that is held and not in the live set.  Its deadline is its mark, or, on
first sighting, a grace period from now.  The sweep spares an orphan until its deadline and
deletes the others, all of them when forced (`Swept.held`), and afterwards the orphans that
were spared are marked with their deadlines and nothing else is (`Swept.marks`).
-/

import Shardscape.Backend.Gc

namespace Shardscape

open Lib Lib.Prog

namespace Store

/-- A block that is held here and that no manifest or part names. -/
def Orphan (st : Store) (h : Bytes) : Prop := st.HoldsLocally h ∧ h ∉ st.computeLiveBlockSet

instance (st : Store) (h : Bytes) : Decidable (st.Orphan h) :=
  inferInstanceAs (Decidable (_ ∧ _))

/-- When an orphan may be deleted: at its mark, or a grace period from now. -/
def deadline (cfg : GcConfig) (now : ℤ) (st : Store) (h : Bytes) : ℤ :=
  (st.pendingDeletions.lookup h).getD (cfg.deadlineAt now)

/-- A sweep at `now` leaves `h`, if it is an orphan, for later. -/
def Spares (cfg : GcConfig) (force : Bool) (now : ℤ) (st : Store) (h : Bytes) : Prop :=
  force = false ∧ now < st.deadline cfg now h

instance (cfg : GcConfig) (force : Bool) (now : ℤ) (st : Store) (h : Bytes) :
    Decidable (st.Spares cfg force now h) :=
  inferInstanceAs (Decidable (_ ∧ _))

/-- The mark of a held block after a sweep. -/
def markAfter (cfg : GcConfig) (force : Bool) (now : ℤ) (st : Store) (h : Bytes) : Option ℤ :=
  if h ∉ st.computeLiveBlockSet ∧ st.Spares cfg force now h then some (st.deadline cfg now h)
  else none

/-- What a sweep of `st` at `now` leaves. -/
structure Swept (cfg : GcConfig) (force : Bool) (now : ℤ) (st st' : Store) : Prop where
  factLog : st'.factLog = st.factLog
  objects : st'.objects = st.objects
  parts : st'.parts = st.parts
  held : ∀ h, st'.HoldsLocally h ↔
    st.HoldsLocally h ∧ (h ∈ st.computeLiveBlockSet ∨ st.Spares cfg force now h)
  marks : ∀ h, st'.pendingDeletions.lookup h =
    if st.HoldsLocally h then st.markAfter cfg force now h else none

/-- What a sweep of `st` has done when the blocks of `todo` are still to come. -/
structure Sweeping (cfg : GcConfig) (force : Bool) (now : ℤ) (st : Store) (todo : List Bytes)
    (st' : Store) : Prop where
  nodup : todo.Nodup
  sub : ∀ h ∈ todo, st.HoldsLocally h
  factLog : st'.factLog = st.factLog
  objects : st'.objects = st.objects
  parts : st'.parts = st.parts
  held : ∀ h, st'.HoldsLocally h ↔ st.HoldsLocally h ∧
    (h ∈ todo ∨ h ∈ st.computeLiveBlockSet ∨ st.Spares cfg force now h)
  marks : ∀ h, st'.pendingDeletions.lookup h =
    if st.HoldsLocally h ∧ h ∉ todo then st.markAfter cfg force now h
    else st.pendingDeletions.lookup h

variable {cfg : GcConfig} {force : Bool} {now : ℤ} {st st' : Store} {todo : List Bytes}
  {hash : Bytes}

/-- At first all blocks are still to be looked at. -/
theorem sweeping_start (cfg : GcConfig) (force : Bool) (now : ℤ) (st : Store) :
    Sweeping cfg force now st st.listLocalBlockHashes st where
  nodup := st.nodup_listLocalBlockHashes
  sub h hh := mem_listLocalBlockHashes.1 hh
  factLog := rfl
  objects := rfl
  parts := rfl
  held h := ⟨fun hh => ⟨hh, .inl (mem_listLocalBlockHashes.2 hh)⟩, fun hh => hh.1⟩
  marks h := by rw [if_neg fun hh => hh.2 (mem_listLocalBlockHashes.2 hh.1)]

namespace Sweeping

/-- The next block is held until it is looked at, and its mark is the one it had. -/
theorem head (h : Sweeping cfg force now st (hash :: todo) st') : st'.HoldsLocally hash ∧
    st'.pendingDeletions.lookup hash = st.pendingDeletions.lookup hash := by
  refine ⟨(h.held hash).2 ⟨h.sub hash List.mem_cons_self, .inl List.mem_cons_self⟩, ?_⟩
  rw [h.marks, if_neg fun hh => hh.2 List.mem_cons_self]

/-- The next block is done, once it is held if it is to be, and has the mark it is to
have, and nothing else has changed. -/
theorem next (h : Sweeping cfg force now st (hash :: todo) st') {st'' : Store}
    (hlog : st''.factLog = st'.factLog) (hobj : st''.objects = st'.objects)
    (hparts : st''.parts = st'.parts)
    (hheld : ∀ b, st''.HoldsLocally b ↔ st'.HoldsLocally b ∧
      (b ≠ hash ∨ hash ∈ st.computeLiveBlockSet ∨ st.Spares cfg force now hash))
    (hmarks : ∀ b, st''.pendingDeletions.lookup b =
      if b = hash then st.markAfter cfg force now hash else st'.pendingDeletions.lookup b) :
    Sweeping cfg force now st todo st'' where
  nodup := (List.nodup_cons.1 h.nodup).2
  sub b hb := h.sub b (List.mem_cons_of_mem hash hb)
  factLog := hlog.trans h.factLog
  objects := hobj.trans h.objects
  parts := hparts.trans h.parts
  held b := by
    have hnot := (List.nodup_cons.1 h.nodup).1
    rw [hheld, h.held]
    by_cases hb : b = hash
    · subst hb
      simp [hnot]
    · simp [hb]
  marks b := by
    have hnot := (List.nodup_cons.1 h.nodup).1
    rw [hmarks]
    by_cases hb : b = hash
    · subst hb
      rw [if_pos rfl, if_pos ⟨h.sub b List.mem_cons_self, hnot⟩]
    · rw [if_neg hb, h.marks]
      simp [hb]

end Sweeping
end Store

namespace Site

variable {Blob : BlobStore} {ε : Type} {cfg : GcConfig} {force : Bool} {st : Store} {s : Site Blob}
  {micros : ℕ} {now : ℤ} {st' : Store} {hash : Bytes} {todo : List Bytes}

/-- A site that is sweeping `st`, at one reading of the clock. -/
def SweepingAt (cfg : GcConfig) (force : Bool) (micros : ℕ) (st : Store) (todo : List Bytes)
    (s : Site Blob) : Prop :=
  (∀ n, s.oracle.micros n = micros) ∧ st.Sweeping cfg force (micros / 1000 : ℕ) todo s.store

/-- A block of the live set loses its mark. -/
theorem wp_sweepBlock_live (h : SweepingAt cfg force micros st (hash :: todo) s)
    (hlive : hash ∈ st.computeLiveBlockSet) :
    wp (sweepBlock cfg force st.computeLiveBlockSet st.getPendingDeletions
        (micros / 1000 : ℕ) hash :
      SProg Blob ε Unit) (fun r s' => r = .ok () ∧ SweepingAt cfg force micros st todo s') s := by
  obtain ⟨hmicros, h⟩ := h
  have hnone : st.markAfter cfg force (micros / 1000 : ℕ) hash = none := if_neg fun hh => hh.1 hlive
  have hheld : ∀ b, s.store.HoldsLocally b ↔ s.store.HoldsLocally b ∧ (b ≠ hash ∨
      hash ∈ st.computeLiveBlockSet ∨ st.Spares cfg force (micros / 1000 : ℕ) hash) :=
    fun b => ⟨fun hb => ⟨hb, .inr (.inl hlive)⟩, fun hb => hb.1⟩
  rw [sweepBlock, if_pos hlive]
  split_ifs with hmark
  · refine ⟨rfl, hmicros, h.next rfl rfl rfl hheld fun b => ?_⟩
    rw [hnone]
    exact Table.lookup_erase _ _ _
  · refine (wp_pure _).2 ⟨rfl, hmicros, h.next rfl rfl rfl hheld fun b => ?_⟩
    split_ifs with hb
    · rw [hb, h.head.2, hnone]
      exact Option.not_isSome_iff_eq_none.1 hmark
    · rfl

/-- A site in the middle of a turn: some answers taken, some marks changed. -/
def withMarks (s : Site Blob) (tick : ℕ) (marks : Table Bytes ℤ) : Site Blob :=
  { s with tick := tick, store := { s.store with pendingDeletions := marks } }

section

variable (h : SweepingAt cfg force micros st (hash :: todo) s)
include h

/-- An orphan that is spared has the mark it is spared until. -/
theorem sweepingAt_spared
    (hdead : hash ∉ st.computeLiveBlockSet) (hspares : st.Spares cfg force (micros / 1000 : ℕ) hash)
    (tick : ℕ) {marks : Table Bytes ℤ}
    (hmarks : ∀ b, marks.lookup b = if b = hash then some (st.deadline cfg (micros / 1000 : ℕ) hash)
      else s.store.pendingDeletions.lookup b) :
    SweepingAt cfg force micros st todo (s.withMarks tick marks) := by
  have hmark : st.markAfter cfg force (micros / 1000 : ℕ) hash =
      some (st.deadline cfg (micros / 1000 : ℕ) hash) := if_pos ⟨hdead, hspares⟩
  refine ⟨h.1, h.2.next rfl rfl rfl (fun b => ?_) fun b => ?_⟩
  · exact ⟨fun hb => ⟨hb, .inr (.inr hspares)⟩, fun hb => hb.1⟩
  · rw [hmark]
    exact hmarks b

/-- An orphan that is not spared is deleted, and its mark with it. -/
theorem wp_reapBlock (hdead : hash ∉ st.computeLiveBlockSet)
    (hreap : ¬ st.Spares cfg force (micros / 1000 : ℕ) hash) (tick : ℕ) {marks : Table Bytes ℤ}
    (hmarks : ∀ b ≠ hash, marks.lookup b = s.store.pendingDeletions.lookup b) :
    wp (reapBlock hash : SProg Blob ε Unit)
      (fun r s' => r = .ok () ∧ SweepingAt cfg force micros st todo s')
        (s.withMarks tick marks) := by
  have hnone : st.markAfter cfg force (micros / 1000 : ℕ) hash = none := if_neg fun hh => hreap hh.2
  -- the row goes, and then the mark
  have hdone : ∀ blobs : Blob.State, SweepingAt cfg force micros st todo
      { s.withMarks tick marks with
      blobs := blobs
      store := ((s.withMarks tick marks).store.deleteLocalBlock hash).1.removePendingDeletion
        hash } := by
    refine fun _ => ⟨h.1, h.2.next rfl rfl rfl (fun b => ?_) fun b => ?_⟩
    · refine (Store.holdsLocally_deleteLocalBlock (s.withMarks tick marks).store hash b).trans ?_
      constructor
      · rintro ⟨hne, hb⟩
        exact ⟨hb, .inl hne⟩
      · rintro ⟨hb, hne | hlive | hspares⟩
        · exact ⟨hne, hb⟩
        · exact absurd hlive hdead
        · exact absurd hspares hreap
    · refine (Table.lookup_erase _ _ _).trans ?_
      rw [hnone]
      split_ifs with hb
      · rfl
      · exact hmarks b hb
  refine wp_bind.2 ((wp_db _ _).2 ?_)
  obtain ⟨fid, hfid⟩ := Option.isSome_iff_exists.1 (Store.getLocalBlockFid_isSome_iff.2 h.2.head.1)
  rw [show (s.withMarks tick marks).store.getLocalBlockFid hash = some fid from hfid]
  refine wp_bind.2 ((wp_call _ _).2 ?_)
  cases ((s.withMarks tick marks).store.deleteLocalBlock hash).2 with
  | true => exact ⟨rfl, hdone _⟩
  | false => exact ⟨rfl, hdone _⟩

/-- An orphan: the sweep knows its deadline, from its mark or by marking it now. -/
theorem wp_sweepBlock_dead (hdead : hash ∉ st.computeLiveBlockSet) :
    wp (sweepBlock cfg force st.computeLiveBlockSet st.getPendingDeletions
        (micros / 1000 : ℕ) hash :
      SProg Blob ε Unit) (fun r s' => r = .ok () ∧ SweepingAt cfg force micros st todo s') s := by
  rw [sweepBlock, if_neg hdead]
  refine wp_bind.2 ?_
  unfold reapAt
  cases hmark : st.getPendingDeletions.lookup hash with
  | some t =>
    have hdeadline : st.deadline cfg (micros / 1000 : ℕ) hash = t := by
      rw [Store.deadline, show st.pendingDeletions.lookup hash = some t from hmark,
        Option.getD_some]
    have hspares : st.Spares cfg force (micros / 1000 : ℕ) hash ↔
        force = false ∧ ((micros / 1000 : ℕ) : ℤ) < t := by rw [Store.Spares, hdeadline]
    refine (wp_pure _).2 ?_
    dsimp only
    split_ifs with hspared
    · refine (wp_pure _).2 ⟨rfl, sweepingAt_spared h hdead (hspares.2 hspared) s.tick fun b => ?_⟩
      split_ifs with hb
      · rw [hb, h.2.head.2, hdeadline]
        exact hmark
      · rfl
    · exact wp_reapBlock h hdead (mt hspares.1 hspared) s.tick fun _ _ => rfl
  | none =>
    have hdeadline : st.deadline cfg (micros / 1000 : ℕ) hash =
        cfg.deadlineAt (micros / 1000 : ℕ) := by
      rw [Store.deadline, show st.pendingDeletions.lookup hash = none from hmark,
        Option.getD_none]
    have hspares : st.Spares cfg force (micros / 1000 : ℕ) hash ↔
        force = false ∧ ((micros / 1000 : ℕ) : ℤ) < cfg.deadlineAt (micros / 1000 : ℕ) := by
      rw [Store.Spares, hdeadline]
    refine wp_bind.2 ((wp_ask _ _).2 (wp_bind.2 ((wp_exec _ _).2 ((wp_pure _).2 ?_))))
    dsimp only
    rw [h.1 s.tick, cfg.notBefore_eq]
    have hadded : ∀ b, (s.store.pendingDeletions.insert hash
        (cfg.deadlineAt (micros / 1000 : ℕ))).lookup b =
          if b = hash then some (st.deadline cfg (micros / 1000 : ℕ) hash)
          else s.store.pendingDeletions.lookup b := by
      intro b
      rw [hdeadline]
      exact Table.lookup_insert _ _ _ _
    split_ifs with hspared
    · exact (wp_pure _).2 ⟨rfl, sweepingAt_spared h hdead (hspares.2 hspared) (s.tick + 1) hadded⟩
    · exact wp_reapBlock h hdead (mt hspares.1 hspared) (s.tick + 1)
        fun b hb => (hadded b).trans (if_neg hb)

/-- One turn of the loop over the local blocks. -/
theorem wp_sweepBlock :
    wp (sweepBlock cfg force st.computeLiveBlockSet st.getPendingDeletions
        (micros / 1000 : ℕ) hash :
      SProg Blob ε Unit) (fun r s' => r = .ok () ∧ SweepingAt cfg force micros st todo s') s := by
  by_cases hlive : hash ∈ st.computeLiveBlockSet
  · exact wp_sweepBlock_live h hlive
  · exact wp_sweepBlock_dead h hlive

end

/-- What is left to do after the loop: the marks of the blocks of `todo` that are not held. -/
structure Unmarking (cfg : GcConfig) (force : Bool) (now : ℤ) (st : Store) (todo : List Bytes)
    (st' : Store) : Prop where
  factLog : st'.factLog = st.factLog
  objects : st'.objects = st.objects
  parts : st'.parts = st.parts
  held : ∀ h, st'.HoldsLocally h ↔
    st.HoldsLocally h ∧ (h ∈ st.computeLiveBlockSet ∨ st.Spares cfg force now h)
  kept : ∀ h, st.HoldsLocally h →
    st'.pendingDeletions.lookup h = st.markAfter cfg force now h
  stale : ∀ h, ¬ st.HoldsLocally h → h ∉ todo → st'.pendingDeletions.lookup h = none

/-- After the loop over the local blocks. -/
theorem unmarking_start (h : st.Sweeping cfg force now [] st') :
    Unmarking cfg force now st st.pendingDeletions.keys st' where
  factLog := h.factLog
  objects := h.objects
  parts := h.parts
  held b := by simpa using h.held b
  kept b hb := by rw [h.marks, if_pos ⟨hb, List.not_mem_nil⟩]
  stale b hb hkey := by
    rw [h.marks, if_neg fun hh => hb hh.1]
    by_contra hsome
    obtain ⟨t, ht⟩ := Option.ne_none_iff_exists'.1 hsome
    exact hkey (Table.mem_keys_iff.2 ⟨t, ht⟩)

/-- One turn of the last loop. -/
theorem Unmarking.next (h : Unmarking cfg force now st (hash :: todo) st')
    (hheld : ¬ st.HoldsLocally hash) :
    Unmarking cfg force now st todo (st'.removePendingDeletion hash) where
  factLog := h.factLog
  objects := h.objects
  parts := h.parts
  held := h.held
  kept b hb := by
    have hne : b ≠ hash := fun he => hheld (he ▸ hb)
    rw [← h.kept b hb]
    exact (Table.lookup_erase _ _ _).trans (if_neg hne)
  stale b hb hmem := by
    refine (Table.lookup_erase _ _ _).trans ?_
    split_ifs with he
    · rfl
    · exact h.stale b hb fun hh => (List.mem_cons.1 hh).elim he hmem

/-- **What a sweep does, as one step.** -/
theorem wp_sweepOrphanedBlocks (cfg : GcConfig) (force : Bool)
    (hmicros : ∀ n, s.oracle.micros n = micros) :
    wp (sweepOrphanedBlocks cfg force : SProg Blob ε Unit)
      (fun r s' => r = .ok () ∧ s.store.Swept cfg force (micros / 1000 : ℕ) s'.store) s := by
  refine wp_bind.2 ((wp_db _ _).2 (wp_bind.2 ((wp_db _ _).2 (wp_bind.2
    ((wp_db _ _).2 (wp_bind.2 ((wp_ask _ _).2 ?_)))))))
  have hstart : SweepingAt cfg force micros s.store s.store.listLocalBlockHashes
      { s with tick := s.tick + 1 } := ⟨hmicros, Store.sweeping_start cfg force _ s.store⟩
  rw [hmicros]
  refine wp_bind.2 (wp_forEach (fun todo s' => SweepingAt cfg force micros s.store todo s')
    (fun s₁ h₁ => ?_) (fun b bs s₁ h₁ => ?_) hstart)
  · refine wp_forEach (fun todo s' => Unmarking cfg force (micros / 1000 : ℕ) s.store todo s'.store)
      (fun s₂ h₂ => ⟨rfl, ⟨h₂.factLog, h₂.objects, h₂.parts, h₂.held, fun b => ?_⟩⟩)
      (fun b bs s₂ h₂ => ?_) (unmarking_start h₁.2)
    · split_ifs with hb
      · refine ⟨h₂.factLog, h₂.objects, h₂.parts, h₂.held, h₂.kept, fun b' hb' hmem => ?_⟩
        refine h₂.stale b' hb' fun hh => (List.mem_cons.1 hh).elim ?_ hmem
        rintro rfl
        exact hb' (Store.mem_listLocalBlockHashes.1 hb)
      · exact h₂.next fun hh => hb (Store.mem_listLocalBlockHashes.2 hh)
    · split_ifs with hb
      · exact h₂.kept b hb
      · exact h₂.stale b hb List.not_mem_nil
  · refine wp_mono (wp_sweepBlock h₁) ?_
    rintro r s₂ ⟨rfl, h₂⟩
    exact h₂

end Site
end Shardscape
