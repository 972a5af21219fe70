/-
# Grace over whole histories

`src/storage.rs`, `sweep_orphaned_blocks`, among everything else that is done to the store
of a site: a run is any sequence of calls of the backend other than the three the sweep has
for itself (`StoreWrite`) and of sweeps, scheduled or forced, each at a clock reading of its
own; readings may go back.

A mark in `pending_deletions` is written and removed by sweeps only.  So it says since when
every sweep has left the block an orphan, plus the grace period (`marks_run`), and when a
scheduled sweep deletes a block, an earlier sweep, a grace period before it, found the block
an orphan, as did every sweep between the two (`grace_honoured`).  Between two sweeps the
block may have been referenced and dropped again: only what sweeps see counts.

Deadlines are `i64`s: the grace periods that start at the sweeps of the run have to end
within their range (`GcConfig.Fits`).
-/

import Shardscape.Backend.Effects
import Shardscape.Backend.Samples
import Shardscape.Collector.Sweep

namespace Shardscape

open Lib Lib.Prog

/-- The calls of the store that only a sweep makes. -/
def Call.collects : Call → Bool
  | .addPendingDeletion _ _ | .removePendingDeletion _ | .deleteLocalBlock _ => true
  | _ => false

/-- A call of the store that is not one of a sweep's own: what it does is what its label
says. -/
structure StoreWrite where
  call : Call
  after : Store → Store
  does (s : Store) : call.Stores s (after s)
  beside : call.collects = false

/-- Facts of peers set no marks. -/
theorem Store.pendingDeletions_applyFactD (B : Blake3) (s : Store) (nowMs : ℤ) (rec : FactRecord) :
    (s.applyFactD B nowMs rec).pendingDeletions = s.pendingDeletions := by
  rcases applyFactD_cases B s nowMs rec with ⟨bucket, key, row, -, -, h⟩ | ⟨ak, row, -, -, h⟩ |
    ⟨hash, loc, fid, size, -, -, h⟩ | ⟨-, -, h⟩ <;> rw [h]
  · rfl
  · rfl
  · simp only [applyAnnounce]
    split_ifs <;> rfl

/-- No other call touches the marks. -/
theorem Call.Stores.pendingDeletions {l : Call} {s s' : Store} (h : l.Stores s s')
    (hl : l.collects = false) : s'.pendingDeletions = s.pendingDeletions := by
  cases l
  case addPendingDeletion | removePendingDeletion | deleteLocalBlock => exact nomatch hl
  case storeLocalBlock => obtain ⟨ts, fid, size, rfl⟩ := h; rfl
  case enqueueReplication => obtain ⟨nowMs, targets, rfl⟩ := h; rfl
  case dequeueReplication => obtain rfl := h; rfl
  case deferReplication => obtain ⟨nowMs, entry, rfl⟩ := h; rfl
  case insertObject => obtain ⟨ts, shardId, blocks, size, etag, rfl⟩ := h; rfl
  case deleteObject => obtain ⟨B, ts, rfl⟩ := h; rfl
  case insertMultipart => obtain ⟨key, rfl⟩ := h; rfl
  case deleteMultipartUpload => obtain rfl := h; rfl
  case insertPart => obtain ⟨blocks, size, etag, rfl⟩ := h; rfl
  case applyFact =>
    obtain ⟨B, nowMs, rfl⟩ := h
    exact Store.pendingDeletions_applyFactD B s nowMs _
  case recordPeer =>
    obtain ⟨nowMs, url, rfl⟩ := h
    unfold Store.recordPeer
    split_ifs <;> rfl
  all_goals (obtain rfl := h; rfl)

namespace Grace

/-- What happens to a site. -/
inductive Event where
  | write (w : StoreWrite)
  | sweep (force : Bool) (micros : ℕ)

variable {Blob : BlobStore} {cfg : GcConfig}

/-- A site whose clock stands at a reading. -/
def reading (s : Site Blob) (micros : ℕ) : Site Blob :=
  { s with oracle := { s.oracle with micros := fun _ => micros } }

/-- One event. -/
def step (cfg : GcConfig) (s : Site Blob) : Event → Site Blob
  | .write w => { s with store := w.after s.store }
  | .sweep force micros =>
    ((Site.sweepOrphanedBlocks cfg force : Site.SProg Blob Str Unit).exec (reading s micros)).1

/-- Since which reading every sweep has left `h` an orphan, when `since` is the answer at the
start of the events. -/
def orphanSince (cfg : GcConfig) (h : Bytes) : Option ℤ → Site Blob → List Event → Option ℤ
  | since, _, [] => since
  | since, s, .write w :: events => orphanSince cfg h since (step cfg s (.write w)) events
  | since, s, .sweep force micros :: events =>
    let s' := step cfg s (.sweep force micros)
    orphanSince cfg h
      (if s'.store.Orphan h then since.or (some (micros / 1000 : ℕ)) else none) s' events

/-- A sweep between two events is a sweep by the rules. -/
theorem swept (cfg : GcConfig) (s : Site Blob) (force : Bool) (micros : ℕ) :
    s.store.Swept cfg force (micros / 1000 : ℕ) (step cfg s (.sweep force micros)).store :=
  (Site.wp_sweepOrphanedBlocks (ε := Str) (s := reading s micros) cfg force fun _ => rfl).2

/-- A sweep leaves the live set alone. -/
theorem live_of_swept {force : Bool} {now : ℤ} {st st' : Store} (h : st.Swept cfg force now st') :
    st'.computeLiveBlockSet = st.computeLiveBlockSet := by
  rw [Store.computeLiveBlockSet, Store.objectBlocks, Store.partBlocks, h.objects, h.parts]
  rfl

/-- The orphans after a sweep are those it spared. -/
theorem orphan_of_swept {force : Bool} {now : ℤ} {st st' : Store} (h : st.Swept cfg force now st')
    (b : Bytes) : st'.Orphan b ↔ st.Orphan b ∧ st.Spares cfg force now b := by
  rw [Store.Orphan, Store.Orphan, h.held, live_of_swept h]
  constructor
  · rintro ⟨⟨hheld, hkept⟩, hdead⟩
    exact ⟨⟨hheld, hdead⟩, hkept.resolve_left hdead⟩
  · rintro ⟨⟨hheld, hdead⟩, hspared⟩
    exact ⟨⟨hheld, .inr hspared⟩, hdead⟩

/-- The mark after a sweep is the deadline of an orphan. -/
theorem mark_of_swept {force : Bool} {now : ℤ} {st st' : Store} (h : st.Swept cfg force now st')
    (b : Bytes) : st'.pendingDeletions.lookup b =
      if st'.Orphan b then some (st.deadline cfg now b) else none := by
  rw [h.marks, Store.markAfter]
  by_cases horphan : st'.Orphan b
  · obtain ⟨⟨hheld, hdead⟩, hspared⟩ := (orphan_of_swept h b).1 horphan
    rw [if_pos horphan, if_pos hheld, if_pos ⟨hdead, hspared⟩]
  · rw [if_neg horphan]
    split_ifs with hheld hspared
    · exact absurd ((orphan_of_swept h b).2 ⟨⟨hheld, hspared.1⟩, hspared.2⟩) horphan
    · rfl
    · rfl

/-- **A mark is the deadline of the first of the sweeps** since which every one has left
the block an orphan. -/
theorem marks_run (cfg : GcConfig) (h : Bytes) (events : List Event) (s : Site Blob)
    (since : Option ℤ)
    (hmark : s.store.pendingDeletions.lookup h = since.map cfg.deadlineAt) :
    (events.foldl (step cfg) s).store.pendingDeletions.lookup h =
      (orphanSince cfg h since s events).map cfg.deadlineAt := by
  induction events generalizing s since with
  | nil => exact hmark
  | cons e events ih =>
    cases e with
    | write w =>
      refine ih _ _ ?_
      rw [← hmark]
      exact congrArg (AList.lookup h) ((w.does s.store).pendingDeletions w.beside)
    | sweep force micros =>
      refine ih _ _ ?_
      rw [mark_of_swept (swept cfg s force micros) h, Store.deadline, hmark]
      split_ifs
      · cases since with
        | none => rw [Option.map_none, Option.getD_none, Option.none_or, Option.map_some]
        | some T => rw [Option.map_some, Option.getD_some, Option.some_or, Option.map_some]
      · rfl

/-! ### What the sweeps have seen -/

/-- The time a block became an orphan is found event by event. -/
theorem orphanSince_append (h : Bytes) (events events' : List Event) (s : Site Blob)
    (since : Option ℤ) :
    orphanSince cfg h since s (events ++ events') =
      orphanSince cfg h (orphanSince cfg h since s events) (events.foldl (step cfg) s) events' := by
  induction events generalizing s since with
  | nil => rfl
  | cons e events ih =>
    cases e with
    | write w => exact ih _ _
    | sweep force micros => exact ih _ _

/-- A sweep at `T₀` found `h` an orphan, and so has every sweep after it. -/
def SeenSince (cfg : GcConfig) (s₀ : Site Blob) (events : List Event) (h : Bytes) (T₀ : ℤ) : Prop :=
  ∃ before force micros after, events = before ++ .sweep force micros :: after ∧
    T₀ = (micros / 1000 : ℕ) ∧
    ∀ p ∈ trace (step cfg) (before.foldl (step cfg) s₀) (.sweep force micros :: after),
      ∀ f m, p.2 = .sweep f m → p.1.store.Orphan h

variable {s₀ : Site Blob} {events : List Event} {h : Bytes} {T₀ : ℤ}

/-- A sweep that finds an orphan is the first of those that have. -/
theorem seenSince_now (force : Bool) (micros : ℕ)
    (horphan : (events.foldl (step cfg) s₀).store.Orphan h) :
    SeenSince cfg s₀ (events ++ [Event.sweep force micros]) h (micros / 1000 : ℕ) := by
  refine ⟨events, force, micros, [], rfl, rfl, fun p hp f m _ => ?_⟩
  rw [trace_cons, trace_nil, List.mem_singleton] at hp
  rwa [hp]

/-- One more event: if it is a sweep, it finds the orphan too. -/
theorem SeenSince.concat (hseen : SeenSince cfg s₀ events h T₀) {e : Event}
    (he : ∀ f m, e = .sweep f m → (events.foldl (step cfg) s₀).store.Orphan h) :
    SeenSince cfg s₀ (events ++ [e]) h T₀ := by
  obtain ⟨before, force, micros, after, rfl, hT, hsweeps⟩ := hseen
  refine ⟨before, force, micros, after ++ [e], by simp, hT, fun p hp f m hf => ?_⟩
  rw [← List.cons_append, trace_append, List.mem_append] at hp
  rcases hp with hp | hp
  · exact hsweeps p hp f m hf
  · rw [trace_cons, trace_nil, List.mem_singleton] at hp
    subst hp
    rw [← List.foldl_append]
    exact he f m hf

/-- **Since then every sweep has found the block an orphan.** -/
theorem seenSince_of_orphanSince (hsince : orphanSince cfg h none s₀ events = some T₀) :
    SeenSince cfg s₀ events h T₀ := by
  induction events using List.reverseRecOn generalizing T₀ with
  | nil => exact nomatch hsince
  | append_singleton events e ih =>
    rw [orphanSince_append] at hsince
    cases e with
    | write w => exact (ih hsince).concat nofun
    | sweep force micros =>
      simp only [orphanSince] at hsince
      split_ifs at hsince with horphan
      have hbefore := ((orphan_of_swept (swept cfg _ force micros) h).1 horphan).1
      cases hold : orphanSince cfg h none s₀ events with
      | some T₁ =>
        rw [hold, Option.some_or, Option.some.injEq] at hsince
        exact hsince ▸ (ih hold).concat fun _ _ _ => hbefore
      | none =>
        rw [hold, Option.none_or, Option.some.injEq] at hsince
        exact hsince ▸ seenSince_now force micros hbefore

/-- The reading since which a block is an orphan is that of a sweep of the run, so its
deadline is a grace period after it. -/
theorem SeenSince.deadlineAt_eq (hseen : SeenSince cfg s₀ events h T₀)
    (hfits : ∀ f m, Event.sweep f m ∈ events → cfg.Fits m) :
    cfg.deadlineAt T₀ = T₀ + cfg.grace := by
  obtain ⟨before, force, micros, after, rfl, rfl, -⟩ := hseen
  exact GcConfig.deadlineAt_of_fits (hfits force micros (by simp))

/-- **Grace is honoured.**  In every run from a store without marks, at every sweep:
if it is a scheduled one and deletes the local copy of `h`, then `h` is not in the live set,
and a sweep at a reading `T₀`, this one or an earlier one, at least a grace period before,
found `h` held and not live, and so has every sweep since.  And after the sweep the marked
blocks are exactly those that are held, not live, and inside their grace period.  The grace
periods that start at the sweeps end within the range of `i64`. -/
theorem grace_honoured (cfg : GcConfig) (s₀ : Site Blob)
    (hnew : ∀ h, s₀.store.pendingDeletions.lookup h = none) (before : List Event) (force : Bool)
    (micros : ℕ)
    (hfits : ∀ f m, Event.sweep f m ∈ before ++ [Event.sweep force micros] → cfg.Fits m) :
    (force = false → ∀ h, (before.foldl (step cfg) s₀).store.HoldsLocally h →
      ¬ ((before ++ [Event.sweep force micros]).foldl (step cfg) s₀).store.HoldsLocally h →
        h ∉ (before.foldl (step cfg) s₀).store.computeLiveBlockSet ∧
          ∃ T₀, T₀ + cfg.grace ≤ (micros / 1000 : ℕ) ∧
            SeenSince cfg s₀ (before ++ [Event.sweep force micros]) h T₀) ∧
    ∀ h, (∃ t,
        ((before ++ [Event.sweep force micros]).foldl (step cfg) s₀).store.pendingDeletions.lookup
          h = some t) ↔
      ((before ++ [Event.sweep force micros]).foldl (step cfg) s₀).store.Orphan h ∧
        ∃ T₀ ∈ orphanSince cfg h none s₀ (before ++ [Event.sweep force micros]),
          ((micros / 1000 : ℕ) : ℤ) < T₀ + cfg.grace := by
  have hlast : (before ++ [Event.sweep force micros]).foldl (step cfg) s₀ =
      step cfg (before.foldl (step cfg) s₀) (.sweep force micros) := List.foldl_concat _ _ _ _
  have hmarks := fun h => marks_run cfg h before s₀ none (hnew h)
  have hmarks' := fun h => marks_run cfg h (before ++ [Event.sweep force micros]) s₀ none (hnew h)
  rw [hlast] at hmarks' ⊢
  have hswept := swept cfg (before.foldl (step cfg) s₀) force micros
  refine ⟨fun hforce h hheld hgone => ?_, fun h => ⟨?_, ?_⟩⟩
  · rw [hswept.held] at hgone
    obtain ⟨hdead, hreap⟩ := not_or.1 fun hkept => hgone ⟨hheld, hkept⟩
    have hdue : (before.foldl (step cfg) s₀).store.deadline cfg (micros / 1000 : ℕ) h ≤
        (micros / 1000 : ℕ) := not_lt.1 fun hlt => hreap ⟨hforce, hlt⟩
    refine ⟨hdead, ?_⟩
    rw [Store.deadline, hmarks h] at hdue
    -- the sweep that saw it first, which may be this one
    cases hsince : orphanSince cfg h none s₀ before with
    | some T₀ =>
      have hseen := (seenSince_of_orphanSince hsince).concat
        (e := .sweep force micros) fun _ _ _ => ⟨hheld, hdead⟩
      rw [hsince, Option.map_some, Option.getD_some, hseen.deadlineAt_eq hfits] at hdue
      exact ⟨T₀, hdue, hseen⟩
    | none =>
      have hseen : SeenSince cfg s₀ (before ++ [Event.sweep force micros]) h (micros / 1000 : ℕ) :=
        seenSince_now force micros ⟨hheld, hdead⟩
      rw [hsince, Option.map_none, Option.getD_none, hseen.deadlineAt_eq hfits] at hdue
      exact ⟨_, hdue, hseen⟩
  · rintro ⟨t, ht⟩
    have hdeadline := mark_of_swept hswept h
    rw [ht] at hdeadline
    split_ifs at hdeadline with horphan
    refine ⟨horphan, ?_⟩
    rw [hmarks' h, Option.map_eq_some_iff] at ht
    obtain ⟨T₀, hT₀, rfl⟩ := ht
    refine ⟨T₀, hT₀, ?_⟩
    rw [← (seenSince_of_orphanSince hT₀).deadlineAt_eq hfits, Option.some.inj hdeadline]
    exact ((orphan_of_swept hswept h).1 horphan).2.2
  · rintro ⟨-, T₀, hT₀, -⟩
    exact ⟨cfg.deadlineAt T₀, by rw [hmarks' h, Option.mem_def.1 hT₀, Option.map_some]⟩

/-- The block of `a` stored. -/
def storing : StoreWrite where
  call := .storeLocalBlock blockOfA
  after s := s.storeLocalBlock 1 blockOfA (text "local") 1
  does _ := ⟨1, text "local", 1, rfl⟩
  beside := rfl

/-- `grace_honoured` on a block that is stored and never named, with a grace period of five
minutes: the sweep at 300 seconds deletes it, and the one at zero had found it. -/
theorem grace_honoured_unnamed :
    (∀ h, freshSite.store.pendingDeletions.lookup h = none) ∧
    blockOfA ∉ ([.write storing, .sweep false 0].foldl (step ⟨300⟩)
      freshSite).store.computeLiveBlockSet ∧
    ∃ T₀, T₀ + GcConfig.grace ⟨300⟩ ≤ (300000000 / 1000 : ℕ) ∧
      SeenSince ⟨300⟩ freshSite ([.write storing, .sweep false 0] ++ [Event.sweep false 300000000])
        blockOfA T₀ := by
  have hnew : ∀ h, freshSite.store.pendingDeletions.lookup h = none := fun _ => rfl
  have hfits : ∀ f m, Event.sweep f m ∈ [.write storing, .sweep false 0] ++
      [Event.sweep false 300000000] → GcConfig.Fits ⟨300⟩ m := by
    intro f m hm
    simp only [List.cons_append, List.nil_append, List.mem_cons, List.not_mem_nil, or_false,
      reduceCtorEq, false_or, Event.sweep.injEq] at hm
    rcases hm with ⟨-, rfl⟩ | ⟨-, rfl⟩ <;> decide
  refine ⟨hnew, (grace_honoured ⟨300⟩ freshSite hnew [.write storing, .sweep false 0] false
    300000000 hfits).1 rfl blockOfA ?_ ?_⟩
  · decide +kernel
  · decide +kernel

end Grace
end Shardscape
