/-
# Facts below the cursor

`src/main.rs`, `sync_facts_once`: the loop over a page goes on past a fact whose
`apply_fact` failed, and then moves the cursor to the greatest sequence number it
did apply.  A fact that failed before one that succeeded is below the cursor from
then on, and nothing reads facts below the cursor again (`skipped_fact_lost`).

The invariant relates each site to the logs of its peers: everything up to a
cursor is applied, and the page under way is a stretch of the peer's log whose
beginning has been tried.  It holds in every run in which no cursor is set past a
fact that failed on its page (`cursor_sound`), crashes and repeated deliveries
included.
-/

import Shardscape.Replication.Sync
import Shardscape.Store.Samples

namespace Shardscape

open Lib

variable {ι : Type*}

namespace Store

/-- Logs only grow, and a row of the longer log at an old position is an old
row. -/
theorem mem_factRecords_of_grown {log log' : List (ℤ × Fact)} (h : log <+: log')
    {rec : FactRecord} (hrec : rec ∈ factRecords log') (hle : rec.seq ≤ log.length) :
    rec ∈ factRecords log := by
  obtain ⟨new, rfl⟩ := h
  obtain ⟨hpos, he⟩ := mem_factRecords.1 hrec
  rw [List.getElem?_append_left (by omega)] at he
  exact mem_factRecords.2 ⟨hpos, he⟩

/-- The records of a longer log begin with the old ones. -/
theorem factRecords_grown {log log' : List (ℤ × Fact)} (h : log <+: log') :
    factRecords log <+: factRecords log' := by
  obtain ⟨new, rfl⟩ := h
  rw [factRecords_append]
  exact List.prefix_append _ _

end Store

/-- A page under way, after its first facts up to sequence number `k` were tried:
what is left is the stretch of the log after `k`, and every fact up to `k` was
applied or failed on this page. -/
structure PageInv (log : List (ℤ × Fact)) (applied : List (ι × FactRecord)) (t : SyncTask ι)
    (k : ℕ) : Prop where
  fits : k + t.pending.length ≤ log.length
  stretch : t.pending = ((Store.factRecords log).drop k).take t.pending.length
  max_le : t.maxSeq ≤ k
  tried : ∀ rec ∈ Store.factRecords log, rec.seq ≤ k → rec.seq ∈ t.failed ∨ (t.peer, rec) ∈ applied

/-- The cursors of a site and its page, against the logs of the peers. -/
structure CursorInv (ids : ι → Str) (logs : ι → List (ℤ × Fact)) (n : Node ι) : Prop where
  bound : ∀ p, n.store.getCursor (ids p) ≤ (logs p).length
  sound : ∀ p, ∀ rec ∈ Store.factRecords (logs p), rec.seq ≤ n.store.getCursor (ids p) →
    (p, rec) ∈ n.applied
  logged : ∀ p rec, (p, rec) ∈ n.applied → rec ∈ Store.factRecords (logs p)
  page : ∀ t, n.task = some t → ∃ k, PageInv (logs t.peer) n.applied t k

/-! ### Logs grow -/

/-- A page stays a page of the log as it grows. -/
theorem PageInv.grow {log log' : List (ℤ × Fact)} {applied : List (ι × FactRecord)}
    {t : SyncTask ι} {k : ℕ} (h : PageInv log applied t k) (hlog : log <+: log') :
    PageInv log' applied t k where
  fits := h.fits.trans hlog.length_le
  stretch := by
    obtain ⟨new, hnew⟩ := Store.factRecords_grown hlog
    have hlen : k + t.pending.length ≤ (Store.factRecords log).length := by
      simpa using h.fits
    rw [← hnew, List.drop_append_of_le_length (by omega), List.take_append_of_le_length
      (by rw [List.length_drop]; omega)]
    exact h.stretch
  max_le := h.max_le
  tried rec hrec hle := by
    have hk := h.fits
    exact h.tried rec (Store.mem_factRecords_of_grown hlog hrec (by omega)) hle

/-- So the cursors stay right. -/
theorem CursorInv.grow {ids : ι → Str} {logs logs' : ι → List (ℤ × Fact)} {n : Node ι}
    (h : CursorInv ids logs n) (hlog : ∀ p, logs p <+: logs' p) : CursorInv ids logs' n where
  bound p := (h.bound p).trans (hlog p).length_le
  sound p rec hrec hle :=
    h.sound p rec (Store.mem_factRecords_of_grown (hlog p) hrec (hle.trans (h.bound p))) hle
  logged p rec hrec := (Store.factRecords_grown (hlog p)).subset (h.logged p rec hrec)
  page t ht := by
    obtain ⟨k, hk⟩ := h.page t ht
    exact ⟨k, hk.grow (hlog t.peer)⟩

/-! ### One step of the page -/

/-- The page just fetched. -/
theorem PageInv.pull {ids : ι → Str} {logs : ι → List (ℤ × Fact)} {n : Node ι}
    (h : CursorInv ids logs n) (p : ι) {peerStore : Store} (hlog : peerStore.factLog = logs p) :
    PageInv (logs p) n.applied ⟨p, peerStore.factsSince (n.store.getCursor (ids p)) factSyncBatch,
      n.store.getCursor (ids p), []⟩ (n.store.getCursor (ids p)) := by
  have hbound := h.bound p
  rw [Store.factsSince_eq, hlog]
  refine ⟨?_, ?_, le_rfl, fun rec hrec hle => .inr (h.sound p rec hrec hle)⟩
  · simp only [List.length_take, List.length_drop, Store.length_factRecords]
    omega
  · simp [List.length_take, List.take_eq_take_iff]

/-- The next fact of the page is the next row of the log, and the rest is the page
one row on. -/
theorem PageInv.next {log : List (ℤ × Fact)} {applied : List (ι × FactRecord)} {p : ι}
    {rec : FactRecord} {rest : List FactRecord} {maxSeq : ℕ} {failed : List ℕ} {k : ℕ}
    (h : PageInv log applied ⟨p, rec :: rest, maxSeq, failed⟩ k) :
    rec ∈ Store.factRecords log ∧ rec.seq = k + 1 ∧
      rest = ((Store.factRecords log).drop (k + 1)).take rest.length := by
  have hstretch : rec :: rest = ((Store.factRecords log).drop k).take (rest.length + 1) := h.stretch
  have hk : k < (Store.factRecords log).length := by
    have := h.fits
    simp only [List.length_cons, Store.length_factRecords] at this ⊢
    omega
  rw [List.drop_eq_getElem_cons hk, List.take_succ_cons, List.cons.injEq] at hstretch
  obtain ⟨hrec, hrest⟩ := hstretch
  have hget : (Store.factRecords log)[k]? = some rec := by
    rw [hrec]
    exact List.getElem?_eq_getElem hk
  refine ⟨List.mem_of_getElem? hget, ?_, hrest⟩
  rw [Store.getElem?_factRecords, Option.map_eq_some_iff] at hget
  obtain ⟨e, -, rfl⟩ := hget
  rfl

/-- One fact further: it was applied, or it failed. -/
theorem PageInv.advance {log : List (ℤ × Fact)} {applied applied' : List (ι × FactRecord)} {p : ι}
    {rec : FactRecord} {rest : List FactRecord} {maxSeq maxSeq' : ℕ} {failed failed' : List ℕ}
    {k : ℕ} (h : PageInv log applied ⟨p, rec :: rest, maxSeq, failed⟩ k)
    (happ : applied ⊆ applied') (hfail : failed ⊆ failed') (hmax : maxSeq' ≤ max maxSeq rec.seq)
    (hrec : rec.seq ∈ failed' ∨ (p, rec) ∈ applied') :
    PageInv log applied' ⟨p, rest, maxSeq', failed'⟩ (k + 1) := by
  obtain ⟨hmem, hseq, hrest⟩ := h.next
  have hfits := h.fits
  have hle := h.max_le
  simp only [List.length_cons] at hfits hle
  refine ⟨by simp only; omega, hrest, by simp only; omega, fun rec' hrec' hk => ?_⟩
  rcases Nat.lt_or_ge k rec'.seq with hlt | hge
  · -- the only fact with this number is the one just tried
    have heq : rec' = rec := by
      have h₁ := (Store.mem_factRecords.1 hrec').2
      have h₂ := (Store.mem_factRecords.1 hmem).2
      have hs : rec'.seq = rec.seq := by omega
      rw [hs, h₂, Option.some.injEq, Prod.mk.injEq] at h₁
      cases rec
      cases rec'
      simp only at hs h₁
      rw [hs, h₁.1, h₁.2]
    rw [heq]
    exact hrec
  · exact (h.tried rec' hrec' hge).imp (fun hf => hfail hf) fun ha => happ ha

/-! ### One step of a site -/

/-- A site whose cursors stay, whatever it applies. -/
theorem CursorInv.sameCursors {ids : ι → Str} {logs : ι → List (ℤ × Fact)} {n n' : Node ι}
    (h : CursorInv ids logs n)
    (hcur : n'.store.replicationCursors = n.store.replicationCursors)
    (happ : n.applied ⊆ n'.applied)
    (hlogged : ∀ p rec, (p, rec) ∈ n'.applied → rec ∈ Store.factRecords (logs p))
    (hpage : ∀ t, n'.task = some t → ∃ k, PageInv (logs t.peer) n'.applied t k) :
    CursorInv ids logs n' := by
  have hget : ∀ p, n'.store.getCursor p = n.store.getCursor p := by
    intro p
    rw [Store.getCursor, hcur, Store.getCursor]
  refine ⟨fun p => (hget _).le.trans (h.bound p), fun p rec hrec hle => ?_, hlogged, hpage⟩
  exact happ (h.sound p rec hrec (hle.trans (hget _).le))

/-- A site that sets the cursor of the peer its page is from, none of whose facts up to there
failed. -/
theorem CursorInv.finish {ids : ι ↪ Str} {logs : ι → List (ℤ × Fact)} {n : Node ι} {p : ι}
    {maxSeq : ℕ} {failed : List ℕ} (h : CursorInv ids logs n)
    (ht : n.task = some ⟨p, [], maxSeq, failed⟩) (hsafe : ∀ m ∈ failed, maxSeq < m) :
    CursorInv ids logs { n with store := n.store.setCursor (ids p) maxSeq, task := none } := by
  obtain ⟨k, hk⟩ := h.page _ ht
  have hfits := hk.fits
  have hle := hk.max_le
  simp only [List.length_nil] at hfits hle
  refine ⟨fun q => ?_, fun q rec hrec hseq => ?_, h.logged, by simp⟩
  · rw [Store.getCursor_setCursor]
    split_ifs with hq
    · obtain rfl := ids.injective hq
      exact max_le (h.bound q) (by omega)
    · exact h.bound q
  · rw [Store.getCursor_setCursor] at hseq
    split_ifs at hseq with hq
    · obtain rfl := ids.injective hq
      rcases le_max_iff.1 hseq with hold | hnew
      · exact h.sound q rec hrec hold
      · refine (hk.tried rec hrec (by omega)).resolve_left fun hfail => ?_
        have hlt := hsafe rec.seq hfail
        omega
    · exact h.sound q rec hrec hseq

namespace Mesh

/-- The logs of a mesh. -/
def logs (w : Mesh ι) (p : ι) : List (ℤ × Fact) := (w p).store.factLog

/-- The page an event sets the cursor for. -/
def finishing (w : Mesh ι) : MeshEvent ι → Option (SyncTask ι)
  | .finish i => (w i).task.filter fun t => t.pending.isEmpty
  | _ => none

/-- No cursor is set past a fact that failed on its page. -/
def CursorSafe (w : Mesh ι) (e : MeshEvent ι) : Prop :=
  ∀ t ∈ w.finishing e, ∀ n ∈ t.failed, t.maxSeq < n

instance (w : Mesh ι) (e : MeshEvent ι) : Decidable (CursorSafe w e) :=
  inferInstanceAs (Decidable (∀ t ∈ w.finishing e, ∀ n ∈ t.failed, t.maxSeq < n))

/-- Every site satisfies the invariant against the logs of the mesh. -/
def Cursors (ids : ι ↪ Str) (w : Mesh ι) : Prop := ∀ i, CursorInv ids w.logs (w i)

/-- At first all cursors are at zero. -/
theorem cursors_init (ids : ι ↪ Str) : Cursors ids (init ids) := by
  intro i
  refine ⟨fun p => Nat.zero_le _, fun p rec hrec => ?_, fun p rec hrec => ?_, fun t ht => ?_⟩
  · exact absurd hrec (by simp [logs, init, Store.new, Store.factRecords])
  · exact absurd hrec (by simp [init])
  · exact absurd ht (by simp [init])

/-- A site's log only grows. -/
theorem Change.log_grows {B : Blake3} {J : PolicyJson} {ids : ι ↪ Str} {w : Mesh ι}
    {e : MeshEvent ι} {i : ι} {n : Node ι} (h : Change B J ids w e i n) :
    (w i).store.factLog <+: n.store.factLog := by
  cases h with
  | mutate i m =>
    rw [(Store.frame_mutate B J (w i).store m).1]
    exact List.prefix_append _ _
  | pull => exact List.prefix_rfl
  | applied i p nowMs rec rest maxSeq failed ht s hs =>
    rw [← Store.applyFactD_of_ok hs, (Store.frame_applyFactD B (w i).store nowMs rec).1]
  | undecodable => exact List.prefix_rfl
  | failed i p stage rec rest maxSeq failed ht =>
    rw [(Store.frame_applyFactFailed (w i).store rec stage).2.2.1]
  | finish => exact List.prefix_rfl
  | abandon => exact List.prefix_rfl

/-- One event keeps the site it changes in order, against the logs before it. -/
theorem Change.cursorInv {B : Blake3} {J : PolicyJson} {ids : ι ↪ Str} {w : Mesh ι}
    {e : MeshEvent ι} {i : ι} {n : Node ι} (h : Change B J ids w e i n)
    (hinv : CursorInv ids w.logs (w i)) (hsafe : CursorSafe w e) : CursorInv ids w.logs n := by
  cases h with
  | mutate i m =>
    obtain ⟨-, hcur⟩ := Store.frame_mutate B J (w i).store m
    exact hinv.sameCursors hcur (List.Subset.refl _) hinv.logged hinv.page
  | pull i p hp ht =>
    refine hinv.sameCursors rfl (List.Subset.refl _) hinv.logged fun t htask => ?_
    obtain rfl := Option.some.inj htask
    exact ⟨_, PageInv.pull hinv p rfl⟩
  | applied i p nowMs rec rest maxSeq failed ht s hs =>
    obtain ⟨-, hcur, -⟩ := Store.frame_applyFactD B (w i).store nowMs rec
    rw [Store.applyFactD_of_ok hs] at hcur
    obtain ⟨k, hk⟩ := hinv.page _ ht
    refine hinv.sameCursors hcur (List.subset_cons_self _ _) (fun p' rec' hrec' => ?_)
      fun t htask => ?_
    · rcases List.mem_cons.1 hrec' with heq | hmem
      · obtain ⟨rfl, rfl⟩ := Prod.mk.inj heq
        exact hk.next.1
      · exact hinv.logged p' rec' hmem
    · obtain rfl := Option.some.inj htask
      exact ⟨k + 1, hk.advance (List.subset_cons_self _ _) (List.Subset.refl _) le_rfl
        (.inr List.mem_cons_self)⟩
  | undecodable i p nowMs rec rest maxSeq failed ht err hs =>
    obtain ⟨k, hk⟩ := hinv.page _ ht
    refine hinv.sameCursors rfl (List.Subset.refl _) hinv.logged fun t htask => ?_
    obtain rfl := Option.some.inj htask
    exact ⟨k + 1, hk.advance (List.Subset.refl _) (List.subset_cons_self _ _)
      (le_max_left _ _) (.inl List.mem_cons_self)⟩
  | failed i p stage rec rest maxSeq failed ht =>
    obtain ⟨-, -, -, hcur⟩ := Store.frame_applyFactFailed (w i).store rec stage
    obtain ⟨k, hk⟩ := hinv.page _ ht
    refine hinv.sameCursors hcur (List.Subset.refl _) hinv.logged fun t htask => ?_
    obtain rfl := Option.some.inj htask
    exact ⟨k + 1, hk.advance (List.Subset.refl _) (List.subset_cons_self _ _)
      (le_max_left _ _) (.inl List.mem_cons_self)⟩
  | finish i p maxSeq failed ht =>
    exact hinv.finish ht fun m hm =>
      hsafe ⟨p, [], maxSeq, failed⟩ (by simp [finishing, ht]) m hm
  | abandon i => exact ⟨hinv.bound, hinv.sound, hinv.logged, by simp [Node.abandon]⟩

variable [DecidableEq ι]

/-- Every log only grows. -/
theorem logs_grow_step (B : Blake3) (J : PolicyJson) (ids : ι ↪ Str) (w : Mesh ι)
    (e : MeshEvent ι) (p : ι) : w.logs p <+: (w.step B J ids e).logs p := by
  rcases step_cases B J ids w e with hid | ⟨i, n, hstep, hc⟩
  · rw [hid]
  · rw [hstep, logs, logs]
    by_cases hp : p = i
    · subst hp
      rw [Function.update_self]
      exact hc.log_grows
    · rw [Function.update_of_ne hp]

/-- One event keeps the invariant of the mesh. -/
theorem cursors_step (B : Blake3) (J : PolicyJson) (ids : ι ↪ Str) {w : Mesh ι} {e : MeshEvent ι}
    (h : Cursors ids w) (hsafe : CursorSafe w e) : Cursors ids (w.step B J ids e) := by
  intro j
  have hold : CursorInv ids w.logs (w.step B J ids e j) :=
    forall_step h (fun i n hc => hc.cursorInv (h i) hsafe) j
  exact hold.grow (logs_grow_step B J ids w e)

/-- Every fact a cursor has passed is applied. -/
def NoFactLost (ids : ι ↪ Str) (w : Mesh ι) : Prop :=
  ∀ i p, ∀ rec ∈ Store.factRecords (w p).store.factLog,
    rec.seq ≤ (w i).store.getCursor (ids p) → (p, rec) ∈ (w i).applied

/-- **No lost fact.**  In every run in which no cursor is set past a fact that
failed on its page, every fact of a peer up to the stored cursor has been applied,
in every state reached. -/
theorem cursor_sound (B : Blake3) (J : PolicyJson) (ids : ι ↪ Str) (es : List (MeshEvent ι))
    (hsafe : ∀ p ∈ trace (step B J ids) (init ids) es, CursorSafe p.1 p.2) :
    (∀ p ∈ trace (step B J ids) (init ids) es, NoFactLost ids p.1) ∧
      NoFactLost ids (run B J ids es) := by
  have hstep : ∀ (w : Mesh ι) (e : MeshEvent ι), Cursors ids w → CursorSafe w e →
      Cursors ids (w.step B J ids e) := fun _ _ => cursors_step B J ids
  have hpassed := invariant_of_trace hstep (cursors_init ids) hsafe
  have hend := invariant_at_end hstep (cursors_init ids) hsafe
  exact ⟨fun p hp i q => (hpassed p hp i).sound q, fun i q => (hend i).sound q⟩

/-- Two deletes at one site, pulled by the other. -/
def pulledDeletes : List (MeshEvent (Fin 2)) :=
  [.mutate 1 (.deleteObject 1 [98] [107]), .mutate 1 (.deleteObject 2 [98] [108]),
    .pull 0 1]

/-- The hypothesis of `cursor_sound` is met by a page that is applied whole. -/
theorem cursor_sound_pulledDeletes :
    NoFactLost twoNames (run Blake3.sample PolicyJson.sample twoNames
      (pulledDeletes ++ [.applyNext 0 0, .applyNext 0 0, .finish 0])) :=
  (cursor_sound Blake3.sample PolicyJson.sample twoNames _ (by decide)).2

/-- **A skipped fact is lost**: the first delete fails on a database error, the
second is applied, and the cursor passes both. -/
theorem skipped_fact_lost :
    ¬ ∀ es : List (MeshEvent (Fin 2)),
      NoFactLost twoNames (run Blake3.sample PolicyJson.sample twoNames es) := by
  intro h
  have hlost := h (pulledDeletes ++ [.failNext 0 .nothing, .applyNext 0 0, .finish 0])
    0 1 ⟨1, 1, .objectDelete [98] [107]⟩ (by decide) (by decide)
  revert hlost
  decide

end Mesh
end Shardscape
