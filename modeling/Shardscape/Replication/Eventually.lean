/-
# The mesh comes to agree

`src/main.rs`, `sync_facts_once` and the task that runs it every `FACT_SYNC_INTERVAL_SECS` seconds.

`Shardscape.Replication.Agreement` says what holds once every cursor is at the end of its peer's
log.  Here it comes to that: in a time without mutations, failures and crashes, if every site pulls
from every peer again and again and goes on with the page it has, then from some moment on every
cursor is at the end of its peer's log, and all sites return the same (`mesh_comes_to_agree`).  The
pages may be taken in any order, and the sites may take turns between any two store calls.

For one site and one peer the argument is a chain: behind the log, an idle site that pulls gets a
page that is not empty; each fact of it is applied; and when none is left the cursor is set past
where it was.
-/

import Shardscape.Lib.LeadsTo
import Shardscape.Replication.Agreement

namespace Shardscape

open Lib Function

variable {ι : Type*}

namespace Mesh

/-- An event that is no mutation, no failure and no crash. -/
def Quiet : MeshEvent ι → Prop
  | .mutate _ _ | .failNext _ _ | .abandon _ => False
  | .pull _ _ | .applyNext _ _ | .finish _ => True

/-- In a quiet event no apply fails. -/
theorem Quiet.applySucceeds {e : MeshEvent ι} (h : Quiet e) : ApplySucceeds e = true := by
  cases e with
  | failNext => exact h.elim
  | _ => rfl

/-- A quiet time in which every site goes on: it applies the facts of its page, it sets its cursor,
and it pulls from every peer when it is idle, again and again. -/
structure Fair (w : ℕ → Mesh ι) (schedule : ℕ → MeshEvent ι) : Prop where
  quiet : ∀ n, Quiet (schedule n)
  applies : ∀ i, InfinitelyOften w schedule fun _ e => ∃ nowMs, e = .applyNext i nowMs
  finishes : ∀ i, InfinitelyOften w schedule fun _ e => e = .finish i
  pulls : ∀ i p, p ≠ i → InfinitelyOften w schedule fun v e => e = .pull i p ∧ (v i).task = none

/-- The cursor of a site for a peer is past `k`. -/
def Passed (ids : ι ↪ Str) (i p : ι) (k : ℕ) (w : Mesh ι) : Prop :=
  k < (w i).store.getCursor (ids p)

/-- A site is working on a page of a peer, whose facts are past `k`. -/
def Working (i p : ι) (k : ℕ) (w : Mesh ι) : Prop :=
  ∃ t, (w i).task = some t ∧ t.peer = p ∧ (∀ rec ∈ t.pending, k < rec.seq) ∧
    (t.pending = [] → k < t.maxSeq)

/-- The facts a site has still to apply. -/
def left (i : ι) (w : Mesh ι) : ℕ := ((w i).task.map fun t => t.pending.length).getD 0

section

variable [DecidableEq ι] {B : Blake3} {J : PolicyJson} {ids : ι ↪ Str} {w : Mesh ι}
  {e : MeshEvent ι}

/-- What a quiet event does to a site in order: nothing, or one of three things. -/
theorem quiet_cases (hw : Converging B J ids w) (he : Quiet e) (i : ι) :
    w.step B J ids e i = w i ∨
    (∃ p, e = .pull i p ∧ (w i).task = none ∧ w.step B J ids e i = { w i with
      task := some ⟨p, (w p).store.factsSince ((w i).store.getCursor (ids p)) factSyncBatch,
        (w i).store.getCursor (ids p), []⟩ }) ∨
    (∃ p rec rest maxSeq failed, (w i).task = some ⟨p, rec :: rest, maxSeq, failed⟩ ∧
      (w.step B J ids e i).task = some ⟨p, rest, max maxSeq rec.seq, failed⟩ ∧
      (w.step B J ids e i).store.replicationCursors = (w i).store.replicationCursors) ∨
    ∃ p maxSeq failed, (w i).task = some ⟨p, [], maxSeq, failed⟩ ∧
      w.step B J ids e i =
        { w i with store := (w i).store.setCursor (ids p) maxSeq, task := none } := by
  rcases step_cases B J ids w e with hid | ⟨j, n, hstep, hchange⟩
  · exact .inl (congrFun hid i)
  · by_cases hj : i = j
    · subst hj
      rw [hstep, update_self]
      cases hchange with
      | mutate => exact he.elim
      | pull i p hp ht => exact .inr (.inl ⟨p, rfl, ht, rfl⟩)
      | applied i p nowMs rec rest maxSeq failed ht s hs =>
        have hcursors := (Store.frame_applyFactD B (w i).store nowMs rec).2.1
        rw [Store.applyFactD_of_ok hs] at hcursors
        exact .inr (.inr (.inl ⟨p, rec, rest, maxSeq, failed, ht, rfl, hcursors⟩))
      | undecodable i p nowMs rec rest maxSeq failed ht err hs =>
        -- every fact of a clean page can be applied
        obtain ⟨s', hs'⟩ := ((hw.clean i).page _ ht).2 rec List.mem_cons_self B (w i).store nowMs
          rec.ts rec.seq
        rw [show (⟨rec.seq, rec.ts, rec.fact⟩ : FactRecord) = rec from rfl, hs] at hs'
        cases hs'
      | failed => exact he.elim
      | finish i p maxSeq failed ht =>
        exact .inr (.inr (.inr ⟨p, maxSeq, failed, ht, rfl⟩))
      | abandon => exact he.elim
    · rw [hstep, update_of_ne hj]
      exact .inl rfl

/-- A cursor never moves back. -/
theorem cursor_le_step (hw : Converging B J ids w) (he : Quiet e) (i : ι) (p : Str) :
    (w i).store.getCursor p ≤ (w.step B J ids e i).store.getCursor p := by
  rcases quiet_cases hw he i with h | ⟨q, -, -, h⟩ | ⟨q, rec, rest, maxSeq, failed, -, -, h⟩ |
    ⟨q, maxSeq, failed, -, h⟩
  · rw [h]
  · rw [h]
  · rw [Store.getCursor, Store.getCursor, h]
  · rw [h]
    simp only [Store.getCursor_setCursor]
    split_ifs with hp
    · rw [hp]
      exact le_max_left _ _
    · exact le_rfl

/-- An idle site that is behind gets a page to work on. -/
theorem working_pull {i p : ι} (hp : p ≠ i) (hidle : (w i).task = none)
    (hbehind : (w i).store.getCursor (ids p) < (w p).store.factLog.length) :
    Working i p ((w i).store.getCursor (ids p)) (w.step B J ids (.pull i p)) := by
  have hpage : (w p).store.factsSince ((w i).store.getCursor (ids p)) factSyncBatch ≠ [] := by
    rw [Store.factsSince_eq]
    intro hnil
    have hlen := congrArg List.length hnil
    rw [List.length_take, List.length_drop, Store.length_factRecords, List.length_nil,
      factSyncBatch] at hlen
    omega
  have hstep : w.step B J ids (.pull i p) i = { w i with
      task := some ⟨p, (w p).store.factsSince ((w i).store.getCursor (ids p)) factSyncBatch,
        (w i).store.getCursor (ids p), []⟩ } := by
    simp only [step, if_neg hp, update_self, Node.pull, hidle, Option.isSome_none,
      Bool.false_eq_true, hpage, or_self, if_false]
  refine ⟨_, congrArg Node.task hstep, rfl, fun rec hrec => ?_, fun hnil => absurd hnil hpage⟩
  exact of_decide_eq_true (List.mem_filter.1 (List.mem_of_mem_take hrec)).2

/-- A site that is working goes on with its page, or has set its cursor. -/
theorem working_step (hw : Converging B J ids w) (he : Quiet e) {i p : ι} {k : ℕ}
    (h : Working i p k w) :
    Passed ids i p k (w.step B J ids e) ∨
      Working i p k (w.step B J ids e) ∧ left i (w.step B J ids e) ≤ left i w := by
  obtain ⟨t, ht, rfl, hpending, hmax⟩ := h
  rcases quiet_cases hw he i with
    h | ⟨q, -, hidle, -⟩ | ⟨q, rec, rest, maxSeq, failed, htask, h, -⟩ |
    ⟨q, maxSeq, failed, htask, h⟩
  · refine .inr ⟨⟨t, ?_, rfl, hpending, hmax⟩, ?_⟩
    · rw [h, ht]
    · simp only [left, h, le_refl]
  · rw [hidle] at ht
    cases ht
  · obtain rfl := Option.some.inj (htask.symm.trans ht)
    rw [List.forall_mem_cons] at hpending
    refine .inr ⟨⟨_, h, rfl, hpending.2, fun _ => lt_max_of_lt_right hpending.1⟩, ?_⟩
    simp [left, h, htask]
  · obtain rfl := Option.some.inj (htask.symm.trans ht)
    refine .inl ?_
    rw [Passed, h]
    simp only [Store.getCursor_setCursor, if_true]
    exact lt_max_of_lt_right (hmax rfl)

/-- The next fact of its page is applied. -/
theorem left_applyNext (hw : Converging B J ids w) {i p : ι} {k : ℕ} (h : Working i p k w)
    (hleft : 0 < left i w) (nowMs : ℤ) :
    left i (w.step B J ids (.applyNext i nowMs)) < left i w := by
  obtain ⟨⟨q, pending, maxSeq, failed⟩, ht, -, -, -⟩ := h
  cases pending with
  | nil => simp [left, ht] at hleft
  | cons rec rest =>
    obtain ⟨s', hs'⟩ := ((hw.clean i).page _ ht).2 rec List.mem_cons_self B (w i).store nowMs
      rec.ts rec.seq
    have hs : (w i).store.applyFact B nowMs rec = .ok s' := hs'
    simp [left, step, Node.applyNext, ht, hs]

/-- The cursor is set when the page is through. -/
theorem passed_finish {i p : ι} {k : ℕ} (h : Working i p k w) (hleft : left i w = 0) :
    Passed ids i p k (w.step B J ids (.finish i)) := by
  obtain ⟨⟨q, pending, maxSeq, failed⟩, ht, rfl, -, hmax⟩ := h
  cases pending with
  | nil =>
    simp only [Passed, step, update_self, Node.finish, ht, Store.getCursor_setCursor,
      if_true]
    exact lt_max_of_lt_right (hmax rfl)
  | cons rec rest => simp [left, ht] at hleft

end

/-! ### A quiet time -/

section

variable [DecidableEq ι] {B : Blake3} {J : PolicyJson} {ids : ι ↪ Str} {w₀ : Mesh ι}
  {schedule : ℕ → MeshEvent ι}

/-- The states of a mesh, from `w₀` on. -/
abbrev after (B : Blake3) (J : PolicyJson) (ids : ι ↪ Str) (w₀ : Mesh ι)
    (schedule : ℕ → MeshEvent ι) : ℕ → Mesh ι :=
  states (step B J ids) w₀ schedule

/-- So the sites keep converging. -/
theorem converging_after (h₀ : Converging B J ids w₀) (hquiet : ∀ n, Quiet (schedule n)) (n : ℕ) :
    Converging B J ids (after B J ids w₀ schedule n) :=
  forall_states h₀ (fun n h => converging_step B J ids h (hquiet n).applySucceeds) n

/-- The logs stay as they are. -/
theorem factLog_after (hquiet : ∀ n, Quiet (schedule n)) (n : ℕ) (p : ι) :
    (after B J ids w₀ schedule n p).store.factLog = (w₀ p).store.factLog := by
  induction n with
  | zero => rfl
  | succ n ih =>
    rw [after, states, factLog_step, ih]
    intro i m heq
    have := hquiet n
    rw [heq] at this
    exact this

variable (h₀ : Converging B J ids w₀) (hfair : Fair (after B J ids w₀ schedule) schedule)
include h₀ hfair

/-- A page is worked off, and then the cursor is set past it. -/
theorem working_leadsTo_passed (i p : ι) (k : ℕ) :
    LeadsTo (after B J ids w₀ schedule) (Working i p k) (Passed ids i p k) := by
  have hkeep := fun n (h : Working i p k (after B J ids w₀ schedule n)) =>
    working_step (converging_after h₀ hfair.quiet n) (hfair.quiet n) h
  refine leadsTo_of_rank (left i) fun r => ?_
  have hstays : ∀ n, Working i p k (after B J ids w₀ schedule n) ∧
      left i (after B J ids w₀ schedule n) = r →
      (Working i p k (after B J ids w₀ schedule (n + 1)) ∧
        left i (after B J ids w₀ schedule (n + 1)) = r) ∨
      (Passed ids i p k (after B J ids w₀ schedule (n + 1)) ∨
        Working i p k (after B J ids w₀ schedule (n + 1)) ∧
          left i (after B J ids w₀ schedule (n + 1)) < r) := by
    rintro n ⟨hworking, rfl⟩
    rcases hkeep n hworking with hpassed | ⟨hworking', hle⟩
    · exact .inr (.inl hpassed)
    · rcases hle.eq_or_lt with heq | hlt
      · exact .inl ⟨hworking', heq⟩
      · exact .inr (.inr ⟨hworking', hlt⟩)
  rcases Nat.eq_zero_or_pos r with rfl | hpos
  · -- nothing is left of the page
    refine leadsTo_of_helpful hstays (fun n h he => .inl ?_) (hfair.finishes i)
    rw [after, states, he]
    exact passed_finish h.1 h.2
  · refine leadsTo_of_helpful hstays (fun n h he => ?_) (hfair.applies i)
    obtain ⟨nowMs, he⟩ := he
    have hlt := left_applyNext (converging_after h₀ hfair.quiet n) h.1 (h.2 ▸ hpos) nowMs
    rcases hkeep n h.1 with hpassed | ⟨hworking, -⟩
    · exact .inl hpassed
    · refine .inr ⟨hworking, ?_⟩
      rw [after, states, he, ← h.2]
      exact hlt

/-- A site that is behind gets past where it is. -/
theorem behind_leadsTo_passed {i p : ι} (hp : p ≠ i) {k : ℕ}
    (hk : k < (w₀ p).store.factLog.length) :
    LeadsTo (after B J ids w₀ schedule) (fun w => (w i).store.getCursor (ids p) = k)
      (Passed ids i p k) := by
  have hpulled : LeadsTo (after B J ids w₀ schedule)
      (fun w => (w i).store.getCursor (ids p) = k)
      (fun w => Passed ids i p k w ∨ Working i p k w) := by
    refine leadsTo_of_helpful (fun n h => ?_) (fun n h he => .inr ?_) (hfair.pulls i p hp)
    · have hle := cursor_le_step (converging_after h₀ hfair.quiet n) (hfair.quiet n) i (ids p)
      rw [h] at hle
      rcases hle.eq_or_lt with heq | hlt
      · exact .inl heq.symm
      · exact .inr (.inl hlt)
    · have hbehind : (after B J ids w₀ schedule n i).store.getCursor (ids p) <
          (after B J ids w₀ schedule n p).store.factLog.length := by
        rw [factLog_after hfair.quiet, h]
        exact hk
      have hworking := working_pull (B := B) (J := J) hp he.2 hbehind
      rw [h] at hworking
      rw [after, states, he.1]
      exact hworking
  refine hpulled.trans fun n h => ?_
  rcases h with hpassed | hworking
  · exact ⟨n, le_rfl, hpassed⟩
  · exact working_leadsTo_passed h₀ hfair i p k n hworking

/-- Every cursor comes to the end of its peer's log. -/
theorem exists_cursor_eq {i p : ι} (hp : p ≠ i) :
    ∃ n, (after B J ids w₀ schedule n i).store.getCursor (ids p) = (w₀ p).store.factLog.length := by
  have hbound : ∀ n, (after B J ids w₀ schedule n i).store.getCursor (ids p) ≤
      (w₀ p).store.factLog.length := by
    intro n
    have h := ((converging_after h₀ hfair.quiet n).cursors i).bound p
    rwa [logs, factLog_after hfair.quiet] at h
  have hleads : LeadsTo (after B J ids w₀ schedule) (fun _ => True)
      (fun w => (w i).store.getCursor (ids p) = (w₀ p).store.factLog.length) := by
    refine leadsTo_of_rank
      (fun w => (w₀ p).store.factLog.length - (w i).store.getCursor (ids p)) fun r n h => ?_
    rcases (hbound n).eq_or_lt with heq | hlt
    · exact ⟨n, le_rfl, .inl heq⟩
    · obtain ⟨m, hm, hpassed⟩ := behind_leadsTo_passed h₀ hfair hp hlt n rfl
      refine ⟨m, hm, .inr ⟨trivial, ?_⟩⟩
      have hrank := h.2
      have hpast : (after B J ids w₀ schedule n i).store.getCursor (ids p) <
        (after B J ids w₀ schedule m i).store.getCursor (ids p) := hpassed
      omega
  obtain ⟨n, -, hn⟩ := hleads 0 trivial
  exact ⟨n, hn⟩

/-- And all of them stay there. -/
theorem eventually_synced [Finite ι] :
    ∃ n, ∀ m, n ≤ m → Synced ids (after B J ids w₀ schedule m) := by
  let AtEnd (k : { k : ι × ι // k.2 ≠ k.1 }) (w : Mesh ι) : Prop :=
    (w k.1.1).store.getCursor (ids k.1.2) = (w₀ k.1.2).store.factLog.length
  have hkeep : ∀ k n, AtEnd k (after B J ids w₀ schedule n) →
      AtEnd k (after B J ids w₀ schedule (n + 1)) := by
    intro k n h
    have hle := cursor_le_step (converging_after h₀ hfair.quiet n) (hfair.quiet n) k.1.1
      (ids k.1.2)
    have hbound := ((converging_after h₀ hfair.quiet (n + 1)).cursors k.1.1).bound k.1.2
    rw [logs, factLog_after hfair.quiet] at hbound
    rw [show _ = _ from h] at hle
    exact le_antisymm hbound hle
  obtain ⟨n, hn⟩ := eventually_forall hkeep fun k => exists_cursor_eq h₀ hfair k.2
  refine ⟨n, fun m hm i p hp => ?_⟩
  rw [factLog_after hfair.quiet]
  exact hn m hm ⟨(i, p), hp⟩

end

/-- Two stores that return the same objects, the same listing pages and the same users. -/
structure ReadAlike (J : PolicyJson) (s s' : Store) : Prop where
  objects : ∀ bucket key, s.getObject bucket key = s'.getObject bucket key
  pages : ∀ bucket after pre pageSize,
    s.listObjects bucket after pre pageSize = s'.listObjects bucket after pre pageSize
  users : ∀ accessKey, s.getUser J accessKey = s'.getUser J accessKey

/-- In a mesh in order whose cursors are at the ends of the logs, all sites read alike. -/
theorem Converging.readAlike {B : Blake3} {J : PolicyJson} {ids : ι ↪ Str} {w : Mesh ι}
    (hinv : Converging B J ids w) (hsync : Synced ids w)
    (hone : ∀ p q, OneMutationPerStamp (w.logs p) (w.logs q)) (i j : ι) :
    ReadAlike J (w i).store (w j).store := by
  have hheard := heard_of_synced hinv.cursors hsync
  obtain ⟨hobj, husr⟩ := hheard i ▸ hinv.reflecting i
  obtain ⟨hobj', husr'⟩ := hheard j ▸ hinv.reflecting j
  have hget := Store.getObject_congr (hobj.unique hobj' ?_)
  · refine ⟨hget, Store.listObjects_congr hget, Store.getUser_congr (husr.unique husr' ?_)⟩
    rintro e ⟨p, he⟩ e' ⟨q, he'⟩ k v v' hv hv' hts
    obtain ⟨hsub, hstamp⟩ := Store.subject_of_userEntry hv
    obtain ⟨hsub', hstamp'⟩ := Store.subject_of_userEntry hv'
    rw [(hone p q).entry_eq he he' (hstamp.symm.trans (hts.trans hstamp')) hsub hsub', hv'] at hv
    exact (Prod.mk.inj (Option.some.inj hv)).2.symm
  · rintro e ⟨p, he⟩ e' ⟨q, he'⟩ k v v' hv hv' hts
    obtain ⟨hsub, hstamp⟩ := Store.subject_of_objectEntry hv
    obtain ⟨hsub', hstamp'⟩ := Store.subject_of_objectEntry hv'
    rw [(hone p q).entry_eq he he' (hstamp.symm.trans (hts.trans hstamp')) hsub hsub', hv'] at hv
    exact (Prod.mk.inj (Option.some.inj hv)).2.symm

/-- **The mesh comes to agree.**  After any run in which no `apply_fact` fails, let there be no
more mutations, failures and crashes, and let every site pull from every peer and go on with its
page again and again, in whatever order.  From some moment on every cursor is at the end of its
peer's log, and, where one timestamp carries one mutation of a key, all sites return the same
objects, the same listing pages and the same users. -/
theorem mesh_comes_to_agree [DecidableEq ι] [Finite ι] (B : Blake3) (J : PolicyJson) (ids : ι ↪ Str)
    (es : List (MeshEvent ι)) (hok : ∀ e ∈ es, ApplySucceeds e) (schedule : ℕ → MeshEvent ι)
    (hfair : Fair (after B J ids (run B J ids es) schedule) schedule)
    (hone : ∀ p q, OneMutationPerStamp ((run B J ids es).logs p) ((run B J ids es).logs q)) :
    ∃ n, ∀ m, n ≤ m → Synced ids (after B J ids (run B J ids es) schedule m) ∧
      ∀ i j, ReadAlike J (after B J ids (run B J ids es) schedule m i).store
        (after B J ids (run B J ids es) schedule m j).store := by
  have h₀ : Converging B J ids (run B J ids es) :=
    invariant_at_end (P := Converging B J ids) (C := fun _ e => ApplySucceeds e)
      (fun _ _ => converging_step B J ids) (converging_init B J ids)
      fun p hp => hok p.2 (mem_of_mem_trace hp)
  obtain ⟨n, hn⟩ := eventually_synced h₀ hfair
  refine ⟨n, fun m hm => ⟨hn m hm, ?_⟩⟩
  refine (converging_after h₀ hfair.quiet m).readAlike (hn m hm) fun p q => ?_
  rw [logs, logs, factLog_after hfair.quiet, factLog_after hfair.quiet]
  exact hone p q

/-! ### Two sites that take turns -/

section

variable [DecidableEq ι]

/-- A page of at most one fact is through after three events. -/
theorem idle_of_short_page {B : Blake3} {J : PolicyJson} {ids : ι ↪ Str} {w : Mesh ι} {i p : ι}
    (hp : p ≠ i) (hidle : (w i).task = none) (hshort : (w p).store.factLog.length ≤ 1) (nowMs : ℤ) :
    ((((w.step B J ids (.pull i p)).step B J ids (.applyNext i nowMs)).step B J ids
      (.finish i)) i).task = none := by
  have hlen :
      ((w p).store.factsSince ((w i).store.getCursor (ids p)) factSyncBatch).length ≤ 1 := by
    rw [Store.factsSince_eq, List.length_take, List.length_drop, Store.length_factRecords]
    omega
  simp only [step, if_neg hp, update_self, Node.pull]
  generalize (w p).store.factsSince ((w i).store.getCursor (ids p)) factSyncBatch = page at hlen
  cases page with
  | nil => simp [Node.applyNext, Node.finish, hidle]
  | cons rec rest =>
    obtain rfl : rest = [] := List.eq_nil_of_length_eq_zero (by simpa using hlen)
    simp only [hidle, Option.isSome_none, Bool.false_eq_true, List.cons_ne_self,
      or_self, if_false,
      Node.applyNext]
    cases (w i).store.applyFact B nowMs rec <;> rfl

/-- Events of one site leave the tasks of the others alone. -/
theorem task_of_others {B : Blake3} {J : PolicyJson} {ids : ι ↪ Str} {w : Mesh ι} {i j p : ι}
    (hj : j ≠ i) (nowMs : ℤ) :
    ((((w.step B J ids (.pull i p)).step B J ids (.applyNext i nowMs)).step B J ids
      (.finish i)) j).task = (w j).task := by
  simp only [step, update_of_ne hj]
  split_ifs
  · rfl
  · rw [update_of_ne hj]

end

/-- Two sites that take turns. -/
def turns (n : ℕ) : MeshEvent (Fin 2) :=
  match n % 6 with
  | 0 => .pull 0 1
  | 1 => .applyNext 0 0
  | 2 => .finish 0
  | 3 => .pull 1 0
  | 4 => .applyNext 1 0
  | _ => .finish 1

/-- The schedule repeats every six events. -/
theorem turns_mul_add (n j : ℕ) : turns (6 * n + j) = turns j := by
  simp only [turns, Nat.mul_add_mod]

/-- One delete, at the second of two sites. -/
def oneDelete : List (MeshEvent (Fin 2)) := [.mutate 1 (.deleteObject 1 [98] [107])]

/-- The schedule is quiet. -/
theorem quiet_turns (n : ℕ) : Quiet (turns n) := by
  unfold turns
  split <;> trivial

/-- The two sites after the delete and `n` events of their turns. -/
def turned (n : ℕ) : Mesh (Fin 2) :=
  after Blake3.sample PolicyJson.sample twoNames
    (run Blake3.sample PolicyJson.sample twoNames oneDelete) turns n

/-- The schedule goes on event by event. -/
theorem turned_succ (n j : ℕ) : turned (6 * n + (j + 1)) =
    (turned (6 * n + j)).step Blake3.sample PolicyJson.sample twoNames (turns j) := by
  rw [← turns_mul_add n j]
  rfl

/-- No more than the one fact is logged. -/
theorem length_factLog_turned (n : ℕ) (b : Fin 2) : (turned n b).store.factLog.length ≤ 1 := by
  rw [turned, factLog_after quiet_turns]
  revert b
  decide

/-- At the beginning and in the middle of each round both sites are idle. -/
theorem idle_turned (n : ℕ) (b : Fin 2) :
    (turned (6 * n) b).task = none ∧ (turned (6 * n + 3) b).task = none := by
  have hhalf : ∀ m, (∀ b, (turned (6 * m) b).task = none) →
      ∀ b, (turned (6 * m + 3) b).task = none := by
    intro m h
    rw [turned_succ, turned_succ, turned_succ, Fin.forall_fin_two]
    constructor
    · exact idle_of_short_page (by decide) (h 0) (length_factLog_turned _ _) 0
    · exact (task_of_others (by decide) 0).trans (h 1)
  suffices h : ∀ b, (turned (6 * n) b).task = none from ⟨h b, hhalf n h b⟩
  induction n with
  | zero => exact Fin.forall_fin_two.2 ⟨rfl, rfl⟩
  | succ n ih =>
    rw [Nat.mul_succ, turned_succ, turned_succ, turned_succ, Fin.forall_fin_two]
    constructor
    · exact (task_of_others (by decide) 0).trans (hhalf n ih 0)
    · exact idle_of_short_page (by decide) (hhalf n ih 1) (length_factLog_turned _ _) 0

/-- What is done in each round is done again and again. -/
theorem infinitelyOften_turned {P : Mesh (Fin 2) → MeshEvent (Fin 2) → Prop} (j : ℕ)
    (h : ∀ n, P (turned (6 * n + j)) (turns j)) : InfinitelyOften turned turns P := by
  intro n
  refine ⟨6 * n + j, by omega, ?_⟩
  rw [turns_mul_add]
  exact h n

/-- The sites that take turns are fair. -/
theorem fair_turns : Fair turned turns where
  quiet := quiet_turns
  applies := Fin.forall_fin_two.2
    ⟨infinitelyOften_turned 1 fun _ => ⟨0, rfl⟩, infinitelyOften_turned 4 fun _ => ⟨0, rfl⟩⟩
  finishes := Fin.forall_fin_two.2
    ⟨infinitelyOften_turned 2 fun _ => rfl, infinitelyOften_turned 5 fun _ => rfl⟩
  pulls := Fin.forall_fin_two.2
    ⟨Fin.forall_fin_two.2 ⟨fun h => absurd rfl h, fun _ =>
        infinitelyOften_turned 0 fun n => ⟨rfl, (idle_turned n 0).1⟩⟩,
      Fin.forall_fin_two.2 ⟨fun _ => infinitelyOften_turned 3 fun n => ⟨rfl, (idle_turned n 1).2⟩,
        fun h => absurd rfl h⟩⟩

/-- One mutation cannot share its stamp. -/
theorem oneMutationPerStamp_oneDelete : ∀ p q, OneMutationPerStamp
    ((run Blake3.sample PolicyJson.sample twoNames oneDelete).logs p)
    ((run Blake3.sample PolicyJson.sample twoNames oneDelete).logs q) := by
  decide

/-- Two sites, one delete: the sites come to agree on it. -/
theorem mesh_comes_to_agree_two :
    ∃ n, ∀ m, n ≤ m → Synced twoNames (turned m) ∧
      ∀ i j, ReadAlike PolicyJson.sample (turned m i).store (turned m j).store :=
  mesh_comes_to_agree Blake3.sample PolicyJson.sample twoNames oneDelete
    (by decide) turns fair_turns
    oneMutationPerStamp_oneDelete

end Mesh
end Shardscape
