/-
# Agreement of the mesh

`src/store.rs`, `apply_fact`, and `src/main.rs`, `sync_facts_once`: the tests
`fact_sync_converges_object_and_delete`, `lww_newer_clock_wins_regardless_of_apply_order`
and `tombstone_not_resurrected_by_older_put` try single orders of two or three facts;
here every order of every run is covered.

At every site each object row and each user row is the winner among the facts the
site has heard: its own log and what it applied from its peers (`Reflecting`), in
whatever order, however often, at whatever clock readings.  When every cursor is at
the end of the peer's log all sites have heard the same facts, and where one
timestamp carries one mutation of a key, the facts heard determine what is read
(`mesh_agreement`).

Rows are compared as they are read: a local put stores the shard id its caller
passed where a peer computes it, and a local user row holds another text of the
same policy.
-/

import Shardscape.Replication.Cursor
import Shardscape.Store.Listing

namespace Shardscape

open Lib

variable {ι : Type*}

/-- What a fact is about: an object, or a user. -/
def Fact.subject : Fact → Option ((Str × Str) ⊕ Str)
  | .objectPut bucket key _ _ _ => some (.inl (bucket, key))
  | .objectDelete bucket key => some (.inl (bucket, key))
  | .blockAnnounce _ _ _ _ => none
  | .userPut accessKey _ _ => some (.inr accessKey)

/-- `apply_fact` never fails on the fact by itself. -/
def Fact.Decodes (f : Fact) : Prop :=
  ∀ (B : Blake3) (s : Store) (nowMs ts : ℤ) (seq : ℕ), ∃ s',
    s.applyFact B nowMs ⟨seq, ts, f⟩ = .ok s'

namespace Store

/-- An object row without its shard id, which no read returns. -/
def unsharded (row : ObjectRow) : ObjectRow := { row with shardId := 0 }

/-- What a read returns of a user row, and its stamp. -/
def userView (J : PolicyJson) (row : UserRow) : Str × Option Policy × ℤ :=
  (row.secretKey, J.parse row.policy, row.updatedAt)

/-- The object row a logged fact stands for. -/
def objectEntry (B : Blake3) (e : ℤ × Fact) : Option ((Str × Str) × ObjectRow) :=
  (objectWrite B ⟨0, e.1, e.2⟩).map fun kv => (kv.1, unsharded kv.2)

/-- The user row a logged fact stands for. -/
def userEntry (J : PolicyJson) (e : ℤ × Fact) : Option (Str × Str × Option Policy × ℤ) :=
  (userWrite ⟨0, e.1, e.2⟩).map fun kv => (kv.1, userView J kv.2)

/-- An object entry is about its key, and carries the fact's timestamp. -/
theorem subject_of_objectEntry {B : Blake3} {e : ℤ × Fact} {k : Str × Str} {v : ObjectRow}
    (h : objectEntry B e = some (k, v)) : e.2.subject = some (.inl k) ∧ v.updatedAt = e.1 := by
  obtain ⟨ts, fact⟩ := e
  obtain ⟨⟨k', row⟩, hw, heq⟩ := Option.map_eq_some_iff.1 h
  obtain ⟨rfl, rfl⟩ := Prod.mk.inj heq
  cases fact with
  | objectPut bucket key blocks size etag =>
    obtain ⟨decoded, -, hrow⟩ := Option.map_eq_some_iff.1 hw
    obtain ⟨rfl, rfl⟩ := Prod.mk.inj hrow
    exact ⟨rfl, rfl⟩
  | objectDelete bucket key =>
    obtain ⟨rfl, rfl⟩ := Prod.mk.inj (Option.some.inj hw)
    exact ⟨rfl, rfl⟩
  | blockAnnounce hash loc fid size => cases hw
  | userPut accessKey secretKey policy => cases hw

/-- A user entry is about its access key, and carries the fact's timestamp. -/
theorem subject_of_userEntry {J : PolicyJson} {e : ℤ × Fact} {k : Str}
    {v : Str × Option Policy × ℤ} (h : userEntry J e = some (k, v)) :
    e.2.subject = some (.inr k) ∧ v.2.2 = e.1 := by
  obtain ⟨ts, fact⟩ := e
  obtain ⟨⟨k', row⟩, hw, heq⟩ := Option.map_eq_some_iff.1 h
  obtain ⟨rfl, rfl⟩ := Prod.mk.inj heq
  cases fact with
  | userPut accessKey secretKey policy =>
    obtain ⟨rfl, rfl⟩ := Prod.mk.inj (Option.some.inj hw)
    exact ⟨rfl, rfl⟩
  | _ => cases hw

/-- Every object and user row is the winner among the facts `S`. -/
def Reflecting (B : Blake3) (J : PolicyJson) (S : Set (ℤ × Fact)) (s : Store) : Prop :=
  Table.Reflects ObjectRow.updatedAt unsharded (objectEntry B) S s.objects ∧
    Table.Reflects (fun v => v.2.2) (userView J) (userEntry J) S s.users

/-- A fact of a peer is heard. -/
theorem Reflecting.applyFact {B : Blake3} {J : PolicyJson} {S : Set (ℤ × Fact)} {s s' : Store}
    (h : Reflecting B J S s) {nowMs : ℤ} {rec : FactRecord}
    (hs : s.applyFact B nowMs rec = .ok s') : Reflecting B J (insert (rec.ts, rec.fact) S) s' := by
  rw [← applyFactD_of_ok hs]
  refine ⟨?_, ?_⟩
  · rw [objects_applyFactD]
    exact h.1.upsertWrite (fun _ => rfl) rfl
  · rw [users_applyFactD]
    exact h.2.upsertWrite (fun _ => rfl) rfl

/-- A local mutation is heard through the fact it logs. -/
theorem Reflecting.mutate {B : Blake3} {J : PolicyJson} {S : Set (ℤ × Fact)} {s : Store}
    (h : Reflecting B J S s) (m : Mutation) :
    Reflecting B J (insert (s.mutationFact J m) S) (s.mutate B J m) := by
  cases m with
  | insertObject ts bucket shardId key blocks size etag =>
    refine ⟨h.1.upsertNewer (fun _ => rfl) ?_, h.2.insert_of_none rfl⟩
    simp [objectEntry, objectWrite, mutationFact, unsharded, objectRow]
  | deleteObject ts bucket key => exact ⟨h.1.upsertNewer (fun _ => rfl) rfl, h.2.insert_of_none rfl⟩
  | createUser ts accessKey secretKey policy =>
    refine ⟨h.1.insert_of_none rfl, h.2.upsertNewer (fun _ => rfl) ?_⟩
    simp [userEntry, userWrite, mutationFact, userView, J.parse_toText, J.parse_toValueText]
  | storeLocalBlock ts hash fid size => exact ⟨h.1.insert_of_none rfl, h.2.insert_of_none rfl⟩

/-- What a mutation logs can be applied. -/
theorem decodes_mutationFact (J : PolicyJson) (s : Store) (m : Mutation) :
    (s.mutationFact J m).2.Decodes := by
  intro B s' nowMs ts seq
  cases m <;> simp [mutationFact, applyFact]

/-- Stores whose rows look alike read alike. -/
theorem getObject_congr {s s' : Store}
    (h : ∀ k, (s.objects.lookup k).map unsharded = (s'.objects.lookup k).map unsharded)
    (bucket key : Str) : s.getObject bucket key = s'.getObject bucket key := by
  have hread : ∀ t : Store, t.getObject bucket key =
      ((t.objects.lookup (bucket, key)).map unsharded).bind readRow := by
    intro t
    rw [getObject, Option.bind_map]
    rfl
  rw [hread, hread, h]

/-- `get_user` depends on what the rows show. -/
theorem getUser_congr {J : PolicyJson} {s s' : Store}
    (h : ∀ k, (s.users.lookup k).map (userView J) = (s'.users.lookup k).map (userView J))
    (accessKey : Str) : s.getUser J accessKey = s'.getUser J accessKey := by
  have hread : ∀ t : Store, t.getUser J accessKey =
      match (t.users.lookup accessKey).map (userView J) with
      | none => .ok none
      | some (secretKey, some policy, _) => .ok (some (secretKey, policy))
      | some (_, none, _) => .error .json := by
    intro t
    rw [getUser]
    cases t.users.lookup accessKey with
    | none => rfl
    | some row =>
      simp only [Option.map_some, userView]
      cases J.parse row.policy <;> rfl
  rw [hread, hread, h]

end Store

namespace Node

/-- The facts a site has heard: those it logged, and those it applied. -/
def heard (n : Node ι) : Set (ℤ × Fact) :=
  { e | e ∈ n.store.factLog ∨ ∃ p rec, (p, rec) ∈ n.applied ∧ e = (rec.ts, rec.fact) }

/-- A site with only decodable facts, none of which has failed. -/
structure Clean (n : Node ι) : Prop where
  log : ∀ e ∈ n.store.factLog, e.2.Decodes
  page : ∀ t, n.task = some t → t.failed = [] ∧ ∀ rec ∈ t.pending, rec.fact.Decodes

end Node

namespace Mesh

/-- An event in which no `apply_fact` fails on a database error. -/
def ApplySucceeds : MeshEvent ι → Bool
  | .failNext _ _ => false
  | _ => true

/-- Sites in order, each reflecting the facts it has heard. -/
structure Converging (B : Blake3) (J : PolicyJson) (ids : ι ↪ Str) (w : Mesh ι) : Prop where
  cursors : Cursors ids w
  clean : ∀ i, (w i).Clean
  reflecting : ∀ i, (w i).store.Reflecting B J (w i).heard

/-- New sites have heard nothing and tell nothing. -/
theorem converging_init (B : Blake3) (J : PolicyJson) (ids : ι ↪ Str) :
    Converging B J ids (init ids) where
  cursors := cursors_init ids
  clean i := ⟨by simp [init, Store.new], by simp [init]⟩
  reflecting i := by
    have hempty : (init ids i).heard = ∅ := by
      ext e
      simp [Node.heard, init, Store.new]
    exact ⟨Table.Reflects.empty hempty, Table.Reflects.empty hempty⟩

variable {ids : ι ↪ Str}

/-- A clean mesh never sets a cursor past a failed fact. -/
theorem Converging.cursorSafe {B : Blake3} {J : PolicyJson} {w : Mesh ι} (h : Converging B J ids w)
    (e : MeshEvent ι) : CursorSafe w e := by
  intro t ht n hn
  cases e with
  | finish i =>
    have htask : (w i).task = some t := (Option.filter_eq_some_iff.1 ht).1
    rw [((h.clean i).page t htask).1] at hn
    exact absurd hn (by simp)
  | _ => exact absurd ht (by simp [finishing])

/-- Without failures no page leaves a fact out. -/
theorem Change.clean {B : Blake3} {J : PolicyJson} {w : Mesh ι} {e : MeshEvent ι} {i : ι}
    {n : Node ι} (h : Change B J ids w e i n) (hinv : ∀ j, (w j).Clean) (he : ApplySucceeds e) :
    n.Clean := by
  cases h with
  | mutate i m =>
    refine ⟨fun e he => ?_, (hinv i).page⟩
    rw [(Store.frame_mutate B J (w i).store m).1, List.mem_append, List.mem_singleton] at he
    rcases he with he | rfl
    · exact (hinv i).log e he
    · exact Store.decodes_mutationFact J (w i).store m
  | pull i p hp ht =>
    refine ⟨(hinv i).log, fun t htask => ?_⟩
    obtain rfl := Option.some.inj htask
    refine ⟨rfl, fun rec hrec => ?_⟩
    rw [Store.factsSince_eq] at hrec
    have hlog := List.mem_of_mem_drop (List.mem_of_mem_take hrec)
    exact (hinv p).log _ (List.mem_of_getElem? (Store.mem_factRecords.1 hlog).2)
  | applied i p nowMs rec rest maxSeq failed ht s hs =>
    obtain ⟨hfail, hdec⟩ := (hinv i).page _ ht
    refine ⟨?_, fun t htask => ?_⟩
    · rw [← Store.applyFactD_of_ok hs, (Store.frame_applyFactD B (w i).store nowMs rec).1]
      exact (hinv i).log
    · obtain rfl := Option.some.inj htask
      exact ⟨hfail, fun rec' hrec' => hdec rec' (List.mem_cons_of_mem _ hrec')⟩
  | undecodable i p nowMs rec rest maxSeq failed ht err hs =>
    obtain ⟨s', hs'⟩ := ((hinv i).page _ ht).2 rec List.mem_cons_self B (w i).store nowMs rec.ts
      rec.seq
    rw [show (⟨rec.seq, rec.ts, rec.fact⟩ : FactRecord) = rec from rfl, hs] at hs'
    cases hs'
  | failed i p stage rec rest maxSeq failed ht => exact absurd he Bool.false_ne_true
  | finish i p maxSeq failed ht => exact ⟨(hinv i).log, by simp⟩
  | abandon i => exact ⟨(hinv i).log, by simp [Node.abandon]⟩

/-- The tables reflect what was heard, after every event. -/
theorem Change.reflecting {B : Blake3} {J : PolicyJson} {w : Mesh ι} {e : MeshEvent ι} {i : ι}
    {n : Node ι} (h : Change B J ids w e i n) (hinv : (w i).store.Reflecting B J (w i).heard) :
    n.store.Reflecting B J n.heard := by
  cases h with
  | mutate i m =>
    have hheard : Node.heard { w i with store := (w i).store.mutate B J m } =
        insert ((w i).store.mutationFact J m) (w i).heard := by
      ext e
      simp only [Node.heard, Set.mem_ofPred_eq, Set.mem_insert_iff,
        (Store.frame_mutate B J (w i).store m).1, List.mem_append, List.mem_singleton]
      tauto
    rw [hheard]
    exact hinv.mutate m
  | applied i p nowMs rec rest maxSeq failed ht s hs =>
    have hlog : s.factLog = (w i).store.factLog := by
      rw [← Store.applyFactD_of_ok hs, (Store.frame_applyFactD B (w i).store nowMs rec).1]
    have hheard : Node.heard ⟨s, some ⟨p, rest, max maxSeq rec.seq, failed⟩,
        (p, rec) :: (w i).applied⟩ = insert (rec.ts, rec.fact) (w i).heard := by
      ext e
      simp only [Node.heard, Set.mem_ofPred_eq, Set.mem_insert_iff, hlog, List.mem_cons,
        Prod.mk.injEq]
      constructor
      · rintro (he | ⟨q, r, ⟨rfl, rfl⟩ | hqr, rfl⟩)
        · exact .inr (.inl he)
        · exact .inl rfl
        · exact .inr (.inr ⟨q, r, hqr, rfl⟩)
      · rintro (rfl | he | ⟨q, r, hqr, rfl⟩)
        · exact .inr ⟨p, rec, .inl ⟨rfl, rfl⟩, rfl⟩
        · exact .inl he
        · exact .inr ⟨q, r, .inr hqr, rfl⟩
    rw [hheard]
    exact hinv.applyFact hs
  | failed i p stage rec rest maxSeq failed ht =>
    obtain ⟨hobj, husr, hlog, -⟩ := Store.frame_applyFactFailed (w i).store rec stage
    simp only [Store.Reflecting, Node.heard, hobj, husr, hlog]
    exact hinv
  | pull | undecodable | finish | abandon => exact hinv

/-- One event in which `apply_fact` does not fail. -/
theorem converging_step [DecidableEq ι] (B : Blake3) (J : PolicyJson) (ids : ι ↪ Str) {w : Mesh ι}
    {e : MeshEvent ι} (h : Converging B J ids w) (he : ApplySucceeds e) :
    Converging B J ids (w.step B J ids e) := by
  refine ⟨cursors_step B J ids h.cursors (h.cursorSafe e), ?_, ?_⟩
  · exact forall_step h.clean fun i n hc => hc.clean h.clean he
  · exact forall_step (P := fun n => n.store.Reflecting B J n.heard) h.reflecting fun i n hc =>
      hc.reflecting (h.reflecting i)

/-- Each site's cursor for every other site is that site's last sequence
number. -/
def Synced (ids : ι ↪ Str) (w : Mesh ι) : Prop :=
  ∀ i p, p ≠ i → (w i).store.getCursor (ids p) = (w p).store.factLog.length

/-- No two different mutations of one object key or one access key carry the same
timestamp, one taken from each of two logs. -/
def OneMutationPerStamp (log log' : List (ℤ × Fact)) : Prop :=
  ∀ e ∈ log, ∀ e' ∈ log', e.1 = e'.1 → e.2.subject.isSome → e.2.subject = e'.2.subject →
    e.2 = e'.2

instance (log log' : List (ℤ × Fact)) : Decidable (OneMutationPerStamp log log') :=
  inferInstanceAs (Decidable (∀ e ∈ log, ∀ e' ∈ log', e.1 = e'.1 → e.2.subject.isSome →
    e.2.subject = e'.2.subject → e.2 = e'.2))

/-- Entries of one stamp about one thing are one. -/
theorem OneMutationPerStamp.entry_eq {log log' : List (ℤ × Fact)}
    (h : OneMutationPerStamp log log') {e e' : ℤ × Fact} (he : e ∈ log) (he' : e' ∈ log')
    (hts : e.1 = e'.1) {x : (Str × Str) ⊕ Str} (hx : e.2.subject = some x)
    (hx' : e'.2.subject = some x) : e = e' :=
  Prod.ext hts (h e he e' he' hts (by rw [hx]; rfl) (hx.trans hx'.symm))

/-- In a synced mesh every site has heard every fact. -/
theorem heard_of_synced {w : Mesh ι} (h : Cursors ids w) (hsync : Synced ids w) (i : ι) :
    (w i).heard = { e | ∃ p, e ∈ (w p).store.factLog } := by
  ext e
  constructor
  · rintro (he | ⟨p, rec, hrec, rfl⟩)
    · exact ⟨i, he⟩
    · exact ⟨p, List.mem_of_getElem? (Store.mem_factRecords.1 ((h i).logged p rec hrec)).2⟩
  · rintro ⟨p, he⟩
    by_cases hp : p = i
    · exact .inl (hp ▸ he)
    · obtain ⟨n, hn⟩ := List.mem_iff_getElem?.1 he
      have hrec : (⟨n + 1, e.1, e.2⟩ : FactRecord) ∈ Store.factRecords (w.logs p) :=
        Store.mem_factRecords.2 ⟨Nat.le_add_left 1 n, hn⟩
      have hle : n + 1 ≤ (w i).store.getCursor (ids p) :=
        (Store.seq_le_of_mem_factRecords hrec).trans (hsync i p hp).ge
      exact .inr ⟨p, _, (h i).sound p _ hrec hle, rfl⟩

/-- **Agreement of the mesh.**  After every run in which no `apply_fact` fails, at
any clock readings: if each cursor is at the end of its peer's log, and no two
different mutations of a key carry the same timestamp, then all sites return the
same objects, the same listing pages and the same users. -/
theorem mesh_agreement [DecidableEq ι] (B : Blake3) (J : PolicyJson) (ids : ι ↪ Str)
    (es : List (MeshEvent ι)) (hok : ∀ e ∈ es, ApplySucceeds e)
    (hsync : Synced ids (run B J ids es))
    (hone : ∀ p q, OneMutationPerStamp ((run B J ids es).logs p) ((run B J ids es).logs q))
    (i j : ι) :
    (∀ bucket key, (run B J ids es i).store.getObject bucket key =
        (run B J ids es j).store.getObject bucket key) ∧
      (∀ bucket after pre pageSize, (run B J ids es i).store.listObjects bucket after pre pageSize =
        (run B J ids es j).store.listObjects bucket after pre pageSize) ∧
      ∀ accessKey, (run B J ids es i).store.getUser J accessKey =
        (run B J ids es j).store.getUser J accessKey := by
  have hinv : Converging B J ids (run B J ids es) := by
    refine invariant_at_end (P := Converging B J ids) (C := fun _ e => ApplySucceeds e)
      (fun _ _ => converging_step B J ids) (converging_init B J ids) fun p hp => ?_
    exact hok p.2 (mem_of_mem_trace hp)
  generalize run B J ids es = w at hsync hone hinv
  have hheard : ∀ k, (w k).heard = { e | ∃ p, e ∈ (w p).store.factLog } :=
    heard_of_synced hinv.cursors hsync
  obtain ⟨hobj, husr⟩ := hheard i ▸ hinv.reflecting i
  obtain ⟨hobj', husr'⟩ := hheard j ▸ hinv.reflecting j
  have hget : ∀ bucket key,
      (w i).store.getObject bucket key = (w j).store.getObject bucket key := by
    refine Store.getObject_congr (hobj.unique hobj' ?_)
    rintro e ⟨p, he⟩ e' ⟨q, he'⟩ k v v' hv hv' hts
    obtain ⟨hsub, hstamp⟩ := Store.subject_of_objectEntry hv
    obtain ⟨hsub', hstamp'⟩ := Store.subject_of_objectEntry hv'
    have heq := (hone p q).entry_eq he he' (hstamp.symm.trans (hts.trans hstamp')) hsub hsub'
    rw [heq, hv', Option.some.injEq, Prod.mk.injEq] at hv
    exact hv.2.symm
  refine ⟨hget, Store.listObjects_congr hget, Store.getUser_congr (husr.unique husr' ?_)⟩
  rintro e ⟨p, he⟩ e' ⟨q, he'⟩ k v v' hv hv' hts
  obtain ⟨hsub, hstamp⟩ := Store.subject_of_userEntry hv
  obtain ⟨hsub', hstamp'⟩ := Store.subject_of_userEntry hv'
  have heq := (hone p q).entry_eq he he' (hstamp.symm.trans (hts.trans hstamp')) hsub hsub'
  rw [heq, hv', Option.some.injEq, Prod.mk.injEq] at hv
  exact hv.2.symm

/-- A put at each of two sites, the later one first delivered, and both pulled. -/
def crossingPuts : List (MeshEvent (Fin 2)) :=
  [.mutate 1 (.insertObject 9 [98] 0 [107] [] 0 [2]),
    .mutate 0 (.insertObject 5 [98] 0 [107] [] 0 [1]), .pull 0 1, .pull 1 0,
    .applyNext 0 0, .applyNext 1 0, .finish 1, .finish 0]

/-- The hypotheses of `mesh_agreement` are satisfiable: two puts of one key that
cross each other. -/
theorem mesh_agreement_crossingPuts :
    (run Blake3.sample PolicyJson.sample twoNames crossingPuts 1).store.getObject [98] [107] =
      (run Blake3.sample PolicyJson.sample twoNames crossingPuts 0).store.getObject [98] [107] :=
  (mesh_agreement Blake3.sample PolicyJson.sample twoNames crossingPuts (by decide)
    (by unfold Synced; decide) (by decide) 1 0).1 [98] [107]

end Mesh
end Shardscape
