/-
# The mesh over the wire

`src/store.rs`: `append_fact_tx`, `facts_since`; `src/main.rs`: `noise_get_facts`,
`/internal/facts/{after}` of `handle_internal_request`, `sync_facts_once`.

In `Shardscape.Replication.Sync` a log is a list of facts, and a pull hands over a page of it.  In
the code a log is a table of JSON texts, and a pull is a request with the cursor in its path,
answered by parsing the texts of the page, writing one text of them all, and parsing that.  The mesh
that does it so (`WireMesh`) is the same mesh, in every run (`wire_mesh_refines`): every fact a site
logs can be read again, by itself and by its peers, and is read as what it was.

Of a mutation it takes what its types say: the strings are UTF-8 and the integers `i64`.
-/

import Shardscape.Replication.Cursor
import Shardscape.Wire.Calls

namespace Shardscape

open Lib

variable {ι : Type*}

/-! ### A log of texts -/

namespace Store

/-- The arguments of `append_fact_tx` in a mutation. -/
def mutationValue (s : Store) : Mutation → ℤ × FactValue
  | .insertObject ts bucket _ key blocks size etag =>
    (ts, .objectPut bucket key (blocks.map hexEncode) size etag)
  | .deleteObject ts bucket key => (ts, .objectDelete bucket key)
  | .createUser ts accessKey secretKey policy =>
    (ts, .userPut accessKey secretKey policy.toJson.toValue)
  | .storeLocalBlock ts hash fid size =>
    (ts, .blockAnnounce (hexEncode hash) s.localLocationId (hexEncode fid) size)

/-- The strings of a mutation are UTF-8, and its integers `i64`. -/
def Mutation.Typed : Mutation → Prop
  | .insertObject ts bucket _ key _ size etag =>
    Json.IsI64 ts ∧ validUtf8 bucket = true ∧ validUtf8 key = true ∧ Json.IsI64 size ∧
      validUtf8 etag = true
  | .deleteObject ts bucket key => Json.IsI64 ts ∧ validUtf8 bucket = true ∧ validUtf8 key = true
  | .createUser ts accessKey secretKey policy =>
    Json.IsI64 ts ∧ validUtf8 accessKey = true ∧ validUtf8 secretKey = true ∧
      policy.Checked validUtf8
  | .storeLocalBlock ts _ _ size => Json.IsI64 ts ∧ Json.IsI64 size

/-- What is logged is the fact of the tables. -/
theorem stored_mutationValue (C : JsonCodec) (s : Store) (m : Mutation) :
    ((s.mutationValue m).1, (s.mutationValue m).2.stored C) = s.mutationFact (.serde C) m := by
  cases m <;> rfl

end Store

/-- Hexadecimal digits are UTF-8. -/
theorem validUtf8_hexEncode (bs : Bytes) : validUtf8 (hexEncode bs) = true := by
  have hdigit : ∀ n, n < 16 → (hexDigit n).val < 0x80 := by
    intro n hn
    interval_cases n <;> decide
  induction bs with
  | nil => rfl
  | cons b bs ih =>
    rw [hexEncode, validUtf8_ascii (hdigit _ (by omega)),
      validUtf8_ascii (hdigit _ (Nat.mod_lt _ (by omega)))]
    exact ih

/-- What is logged can be read. -/
theorem Store.typed_mutationValue {s : Store} {m : Mutation} (h : m.Typed)
    (hid : validUtf8 s.localLocationId = true) :
    Json.IsI64 (s.mutationValue m).1 ∧ (s.mutationValue m).2.Typed validUtf8 := by
  cases m with
  | insertObject ts bucket shardId key blocks size etag =>
    obtain ⟨hts, hbucket, hkey, hsize, hetag⟩ := h
    refine ⟨hts, hbucket, hkey, ?_, hsize, hetag⟩
    rw [List.forall_mem_map]
    exact fun b _ => validUtf8_hexEncode b
  | deleteObject ts bucket key => exact h
  | createUser ts accessKey secretKey policy =>
    obtain ⟨hts, haccess, hsecret, hpolicy⟩ := h
    exact ⟨hts, haccess, hsecret,
      (Policy.readable_canon validUtf8_fieldNames hpolicy).mono (by decide)⟩
  | storeLocalBlock ts hash fid size =>
    exact ⟨h.1, validUtf8_hexEncode hash, hid, validUtf8_hexEncode fid, h.2⟩

/-- `facts_since` on the rows of `fact_log`: each payload is parsed, and one that cannot be is an
error. -/
def factsSinceText (C : JsonCodec) (rows : List (ℤ × Str)) (after : ℤ) (limit : ℕ) :
    Option (List RecordValue) :=
  Json.readAll (fun e : (ℤ × Str) × ℕ =>
      (FactValue.fromPayload C e.1.2).map fun f => ⟨e.2, e.1.1, f⟩)
    (((rows.zipIdx 1).filter fun e => after < e.2).take limit)

/-- `/internal/facts/{after}`: the body for a target, an error of the store being no facts. -/
def serveFacts (C : JsonCodec) (H : Http) (rows : List (ℤ × Str)) (target : Str) : Option Bytes :=
  match (H.arrives target).bind InternalRequest.ofTarget with
  | some (.facts after) => some (factsBody C ((factsSinceText C rows after factSyncBatch).getD []))
  | _ => none

/-- `noise_get_facts`. -/
def pullFacts (C : JsonCodec) (H : Http) (rows : List (ℤ × Str)) (after : ℕ) :
    Option (List FactRecord) :=
  ((serveFacts C H rows (PeerCall.facts after).target).bind (readFacts C)).map
    (·.map (RecordValue.stored C))

/-- The rows of a log: texts of facts that can be read. -/
def LoggedAs (C : JsonCodec) (rows : List (ℤ × Str)) (log : List (ℤ × Fact)) : Prop :=
  ∃ values : List (ℤ × FactValue),
    rows = values.map (fun v => (v.1, v.2.payload C)) ∧
      log = values.map (fun v => (v.1, v.2.stored C)) ∧
      ∀ v ∈ values, Json.IsI64 v.1 ∧ v.2.Typed validUtf8

/-- An empty log. -/
theorem loggedAs_nil (C : JsonCodec) : LoggedAs C [] [] := ⟨[], rfl, rfl, by simp⟩

variable {rows : List (ℤ × Str)}

/-- A fact is logged as its text. -/
theorem LoggedAs.concat {C : JsonCodec} {log : List (ℤ × Fact)} (h : LoggedAs C rows log) {ts : ℤ}
    {f : FactValue} (hts : Json.IsI64 ts) (hf : f.Typed validUtf8) :
    LoggedAs C (rows ++ [(ts, f.payload C)]) (log ++ [(ts, f.stored C)]) := by
  obtain ⟨values, rfl, rfl, htyped⟩ := h
  refine ⟨values ++ [(ts, f)], by simp, by simp, ?_⟩
  rw [List.forall_mem_append, List.forall_mem_singleton]
  exact ⟨htyped, hts, hf⟩

/-- The rows of the page after a cursor. -/
theorem LoggedAs.factsSinceText {C : JsonCodec} {values : List (ℤ × FactValue)}
    (hrows : rows = values.map (fun v => (v.1, v.2.payload C)))
    (htyped : ∀ v ∈ values, Json.IsI64 v.1 ∧ v.2.Typed validUtf8) (after : ℤ) (limit : ℕ) :
    Shardscape.factsSinceText C rows after limit =
      some ((((values.zipIdx 1).filter fun e => after < e.2).take limit).map
        fun e => ⟨e.2, e.1.1, e.1.2⟩) := by
  have hpage : ((rows.zipIdx 1).filter fun e => after < (e.2 : ℤ)).take limit =
      (((values.zipIdx 1).filter fun e => after < (e.2 : ℤ)).take limit).map
        fun e => ((e.1.1, e.1.2.payload C), e.2) := by
    rw [hrows, List.zipIdx_map, List.filter_map, List.map_take]
    rfl
  rw [Shardscape.factsSinceText, hpage]
  refine Json.readAll_map fun e he => ?_
  have hmem : e ∈ values.zipIdx 1 := List.mem_of_mem_filter (List.mem_of_mem_take he)
  have hvalue : e.1 ∈ values := (List.mem_iff_getElem?.2 ⟨e.2 - 1, by
    simpa using (List.mem_zipIdx_iff_le_and_getElem?_sub.1 hmem).2⟩)
  simp only [FactValue.fromPayload_payload C validUtf8_fieldNames (htyped _ hvalue).2,
    Option.map_some]

/-- **A pull hands over the page of the log.** -/
theorem LoggedAs.pullFacts {C : JsonCodec} (H : Http) {s : Store} (h : LoggedAs C rows s.factLog)
    (hcount : s.factLog.length < 2 ^ 63) {after : ℕ} (hafter : after < 2 ^ 63) :
    Shardscape.pullFacts C H rows after = some (s.factsSince after factSyncBatch) := by
  obtain ⟨values, hrows, hlog, htyped⟩ := h
  have hlen : values.length < 2 ^ 63 := by rwa [hlog, List.length_map] at hcount
  have harrives := PeerCall.ofTarget_target H (c := .facts after)
    ⟨by omega, by exact_mod_cast hafter⟩
  rw [PeerCall.request] at harrives
  simp only [Shardscape.pullFacts, serveFacts, harrives,
    LoggedAs.factsSinceText hrows htyped, Option.getD_some, Option.bind_some]
  rw [readFacts_factsBody, Option.map_some, List.map_map]
  · -- the two pages, over the same values
    rw [Store.factsSince, Store.factRecords, hlog, List.zipIdx_map, List.map_map, List.filter_map,
      ← List.map_take]
    simp only [Function.comp_def, RecordValue.stored, Int.toNat_natCast, Nat.cast_lt]
    rfl
  · rw [List.forall_mem_map]
    intro e he
    have hmem : e ∈ values.zipIdx 1 := List.mem_of_mem_filter (List.mem_of_mem_take he)
    obtain ⟨hle, hget⟩ := List.mem_zipIdx_iff_le_and_getElem?_sub.1 hmem
    have hlt := (List.getElem?_eq_some_iff.1 hget).1
    obtain ⟨hts, hf⟩ := htyped e.1 (List.mem_of_getElem? hget)
    exact ⟨⟨by simp only; omega, by simp only; omega⟩, hts, hf⟩

/-! ### The mesh -/

/-- A site with the rows of its `fact_log`. -/
structure WireNode (ι : Type*) where
  node : Node ι
  rows : List (ℤ × Str) := []

/-- A mesh of sites with logs of texts. -/
abbrev WireMesh (ι : Type*) := ι → WireNode ι

/-- A pull over the network: a page that is not handed over is a failed link. -/
def Node.pullOver (C : JsonCodec) (H : Http) (n : Node ι) (peer : ι) (peerId : Str)
    (peerRows : List (ℤ × Str)) : Node ι :=
  let after := n.store.getCursor peerId
  match pullFacts C H peerRows after with
  | none => n
  | some facts =>
    if n.task.isSome ∨ facts = [] then n
    else { n with task := some { peer := peer, pending := facts, maxSeq := after } }

namespace WireMesh

/-- The mesh before anything happened. -/
def init (ids : ι ↪ Str) : WireMesh ι := fun i => { node := { store := Store.new (ids i) } }

variable [DecidableEq ι]

/-- A site that does something, its rows apart. -/
def update (w : WireMesh ι) (i : ι) (f : Node ι → Node ι) : WireMesh ι :=
  Function.update w i { w i with node := f (w i).node }

/-- One event.  The log of facts of a store is read by nothing here. -/
def step (B : Blake3) (C : JsonCodec) (H : Http) (ids : ι ↪ Str) (w : WireMesh ι) :
    MeshEvent ι → WireMesh ι
  | .mutate i m =>
    let logged := (w i).node.store.mutationValue m
    Function.update w i
      { node := { (w i).node with store := (w i).node.store.mutate B (.serde C) m }
        rows := (w i).rows ++ [(logged.1, logged.2.payload C)] }
  | .pull i peer =>
    if peer = i then w else w.update i fun n => n.pullOver C H peer (ids peer) (w peer).rows
  | .applyNext i nowMs => w.update i fun n => n.applyNext B nowMs
  | .failNext i stage => w.update i fun n => n.failNext stage
  | .finish i => w.update i fun n => n.finish ids
  | .abandon i => w.update i fun n => n.abandon

/-- A run. -/
def run (B : Blake3) (C : JsonCodec) (H : Http) (ids : ι ↪ Str) (es : List (MeshEvent ι)) :
    WireMesh ι :=
  es.foldl (step B C H ids) (init ids)

end WireMesh

/-- The mutations of an event are typed. -/
def MeshEvent.Typed : MeshEvent ι → Prop
  | .mutate _ m => m.Typed
  | _ => True

/-- Every sequence number at a site is at most `n`, and its name is a string. -/
structure Node.Bounded (bound : ℕ) (n : Node ι) : Prop where
  log : n.store.factLog.length ≤ bound
  cursors : ∀ p, n.store.getCursor p ≤ bound
  task : ∀ t, n.task = some t → t.maxSeq ≤ bound ∧ ∀ rec ∈ t.pending, rec.seq ≤ bound
  name : validUtf8 n.store.localLocationId = true

/-- A larger bound. -/
theorem Node.Bounded.mono {n : Node ι} {a b : ℕ} (h : n.Bounded a) (hle : a ≤ b) : n.Bounded b where
  log := h.log.trans hle
  cursors p := (h.cursors p).trans hle
  task t ht := ⟨(h.task t ht).1.trans hle, fun rec hrec => ((h.task t ht).2 rec hrec).trans hle⟩
  name := h.name

/-- A page over the network is a page. -/
theorem Node.pullOver_eq {C : JsonCodec} (H : Http) {n : Node ι} {peer : ι} {peerId : Str}
    {s : Store} (h : LoggedAs C rows s.factLog) (hcount : s.factLog.length < 2 ^ 63)
    (hcursor : n.store.getCursor peerId < 2 ^ 63) :
    n.pullOver C H peer peerId rows = n.pull peer peerId s := by
  simp only [Node.pullOver, h.pullFacts H hcount hcursor, Node.pull]

namespace Mesh

/-- An event adds one to a log at most. -/
theorem Change.bounded {B : Blake3} {J : PolicyJson} {ids : ι ↪ Str} {w : Mesh ι} {e : MeshEvent ι}
    {i : ι} {n : Node ι} (h : Change B J ids w e i n) {bound : ℕ} (hw : ∀ j, (w j).Bounded bound) :
    n.Bounded (bound + 1) := by
  have hmono : ∀ j, (w j).Bounded (bound + 1) := fun j => (hw j).mono (Nat.le_succ bound)
  cases h with
  | mutate i m =>
    obtain ⟨hlog, hcursors⟩ := Store.frame_mutate B J (w i).store m
    refine ⟨?_, fun p => ?_, (hmono i).task, ?_⟩
    · simp only [hlog, List.length_append, List.length_singleton]
      exact Nat.succ_le_succ (hw i).log
    · simp only [Store.getCursor, hcursors]
      exact (hmono i).cursors p
    · have hname : ((w i).store.mutate B J m).localLocationId = (w i).store.localLocationId := by
        cases m <;> rfl
      simp only [hname]
      exact (hw i).name
  | pull i p hp ht =>
    refine ⟨(hmono i).log, (hmono i).cursors, fun t htask => ?_, (hw i).name⟩
    obtain rfl := Option.some.inj htask
    refine ⟨(hmono i).cursors _, fun rec hrec => ?_⟩
    have hmem : rec ∈ Store.factRecords (w p).store.factLog :=
      List.mem_of_mem_filter (List.mem_of_mem_take hrec)
    exact (Store.seq_le_of_mem_factRecords hmem).trans (hmono p).log
  | applied i p nowMs rec rest maxSeq failed ht s hs =>
    obtain ⟨hmax, hpending⟩ := (hmono i).task _ ht
    obtain ⟨hlog, hcursors, hname⟩ := Store.frame_applyFactD B (w i).store nowMs rec
    rw [Store.applyFactD_of_ok hs] at hlog hcursors hname
    rw [List.forall_mem_cons] at hpending
    refine ⟨?_, fun q => ?_, fun t htask => ?_, ?_⟩
    · simp only [hlog]
      exact (hmono i).log
    · simp only [Store.getCursor, hcursors]
      exact (hmono i).cursors q
    · obtain rfl := Option.some.inj htask
      exact ⟨max_le hmax hpending.1, hpending.2⟩
    · simp only [hname]
      exact (hw i).name
  | undecodable i p nowMs rec rest maxSeq failed ht err hs =>
    obtain ⟨hmax, hpending⟩ := (hmono i).task _ ht
    refine ⟨(hmono i).log, (hmono i).cursors, fun t htask => ?_, (hw i).name⟩
    obtain rfl := Option.some.inj htask
    exact ⟨hmax, (List.forall_mem_cons.1 hpending).2⟩
  | failed i p stage rec rest maxSeq failed ht =>
    obtain ⟨hmax, hpending⟩ := (hmono i).task _ ht
    obtain ⟨-, -, hlog, hcursors⟩ := Store.frame_applyFactFailed (w i).store rec stage
    refine ⟨?_, fun q => ?_, fun t htask => ?_, ?_⟩
    · simp only [hlog]
      exact (hmono i).log
    · simp only [Store.getCursor, hcursors]
      exact (hmono i).cursors q
    · obtain rfl := Option.some.inj htask
      exact ⟨hmax, (List.forall_mem_cons.1 hpending).2⟩
    · have hname : ((w i).store.applyFactFailed rec stage).localLocationId =
          (w i).store.localLocationId := by
        unfold Store.applyFactFailed
        split
        · split <;> rfl
        · rfl
      simp only [hname]
      exact (hw i).name
  | finish i p maxSeq failed ht =>
    have hmax := ((hmono i).task _ ht).1
    refine ⟨(hmono i).log, fun q => ?_, fun t htask => ?_, (hw i).name⟩
    · rw [Store.getCursor_setCursor]
      split_ifs
      · exact max_le ((hmono i).cursors _) hmax
      · exact (hmono i).cursors q
    · cases htask
  | abandon i =>
    refine ⟨(hmono i).log, (hmono i).cursors, fun t htask => ?_, (hw i).name⟩
    cases htask

end Mesh

namespace WireMesh

/-- The mesh of texts and the mesh of facts, after some events. -/
structure Refines (C : JsonCodec) (bound : ℕ) (w : WireMesh ι) (v : Mesh ι) : Prop where
  node : ∀ i, (w i).node = v i
  logged : ∀ i, LoggedAs C (w i).rows (v i).store.factLog
  bounded : ∀ i, (v i).Bounded bound

/-- Before anything happened the logs are empty in both. -/
theorem refines_init (C : JsonCodec) (ids : ι ↪ Str) (hids : ∀ i, validUtf8 (ids i) = true) :
    Refines C 0 (init ids) (Mesh.init ids) where
  node _ := rfl
  logged _ := loggedAs_nil C
  bounded i := ⟨le_rfl, fun _ => le_rfl, fun _ ht => (by cases ht), hids i⟩

variable [DecidableEq ι]

/-- A site that does the same in both. -/
theorem node_update {w : WireMesh ι} {v : Mesh ι} (h : ∀ i, (w i).node = v i) (i : ι)
    {f : Node ι → Node ι} {n : Node ι} (hf : f (v i) = n) (j : ι) :
    (w.update i f j).node = Function.update v i n j := by
  rw [update]
  by_cases hj : j = i
  · subst hj
    rw [Function.update_self, Function.update_self, ← hf, ← h j]
  · rw [Function.update_of_ne hj, Function.update_of_ne hj]
    exact h j

/-- A change of a site's tables logs no text. -/
theorem rows_update (w : WireMesh ι) (i : ι) (f : Node ι → Node ι) (j : ι) :
    (w.update i f j).rows = (w j).rows := by
  rw [update]
  by_cases hj : j = i
  · subst hj
    rw [Function.update_self]
  · rw [Function.update_of_ne hj]

/-- One event. -/
theorem Refines.step {B : Blake3} {C : JsonCodec} (H : Http) {ids : ι ↪ Str} {bound : ℕ}
    {w : WireMesh ι} {v : Mesh ι} (h : Refines C bound w v) (hbound : bound < 2 ^ 63)
    {e : MeshEvent ι} (he : e.Typed) :
    Refines C (bound + 1) (w.step B C H ids e) (v.step B (.serde C) ids e) := by
  have hbounded : ∀ j, (v.step B (.serde C) ids e j).Bounded (bound + 1) :=
    Mesh.forall_step (fun j => (h.bounded j).mono (Nat.le_succ bound))
      fun i n hc => hc.bounded h.bounded
  -- all but a mutation keep the rows
  have hkept : (∀ i m, e ≠ .mutate i m) → (∀ j, (w.step B C H ids e j).rows = (w j).rows) →
      ∀ j, LoggedAs C (w.step B C H ids e j).rows (v.step B (.serde C) ids e j).store.factLog := by
    intro hne hrows j
    rw [hrows, Mesh.factLog_step hne]
    exact h.logged j
  cases e with
  | mutate i m =>
    have hstored := Store.stored_mutationValue C (v i).store m
    obtain ⟨hts, hf⟩ := Store.typed_mutationValue he (h.bounded i).name
    refine ⟨fun j => ?_, fun j => ?_, hbounded⟩
    · simp only [WireMesh.step, Mesh.step]
      by_cases hj : j = i
      · subst hj
        rw [Function.update_self, Function.update_self, h.node j]
      · rw [Function.update_of_ne hj, Function.update_of_ne hj]
        exact h.node j
    · simp only [WireMesh.step, Mesh.step]
      by_cases hj : j = i
      · subst hj
        rw [Function.update_self, Function.update_self]
        simp only [(Store.frame_mutate B (.serde C) (v j).store m).1, ← hstored, h.node j]
        exact (h.logged j).concat hts hf
      · rw [Function.update_of_ne hj, Function.update_of_ne hj]
        exact h.logged j
  | pull i peer =>
    by_cases hp : peer = i
    · have hw : w.step B C H ids (.pull i peer) = w := if_pos hp
      have hv : v.step B (.serde C) ids (.pull i peer) = v := if_pos hp
      rw [hw, hv]
      exact ⟨h.node, h.logged, fun j => (h.bounded j).mono (Nat.le_succ bound)⟩
    · have hw : w.step B C H ids (.pull i peer) =
          w.update i fun n => n.pullOver C H peer (ids peer) (w peer).rows := if_neg hp
      have hv : v.step B (.serde C) ids (.pull i peer) =
          Function.update v i ((v i).pull peer (ids peer) (v peer).store) := if_neg hp
      refine ⟨fun j => ?_, hkept (fun _ _ => by simp) fun j => ?_, hbounded⟩
      · rw [hw, hv]
        refine node_update h.node i (Node.pullOver_eq H (h.logged peer) ?_ ?_) j
        · exact lt_of_le_of_lt (h.bounded peer).log hbound
        · exact lt_of_le_of_lt ((h.bounded i).cursors _) hbound
      · rw [hw, rows_update]
  | applyNext i nowMs =>
    exact ⟨node_update h.node i rfl, hkept (fun _ _ => by simp) (rows_update w i _), hbounded⟩
  | failNext i stage =>
    exact ⟨node_update h.node i rfl, hkept (fun _ _ => by simp) (rows_update w i _), hbounded⟩
  | finish i =>
    exact ⟨node_update h.node i rfl, hkept (fun _ _ => by simp) (rows_update w i _), hbounded⟩
  | abandon i =>
    exact ⟨node_update h.node i rfl, hkept (fun _ _ => by simp) (rows_update w i _), hbounded⟩

/-- Any number of events. -/
theorem refines_run (B : Blake3) (C : JsonCodec) (H : Http) (ids : ι ↪ Str)
    (hids : ∀ i, validUtf8 (ids i) = true) {es : List (MeshEvent ι)} (hes : ∀ e ∈ es, e.Typed)
    (hlen : es.length ≤ 2 ^ 63) :
    Refines C es.length (run B C H ids es) (Mesh.run B (.serde C) ids es) := by
  induction es using List.reverseRecOn with
  | nil => exact refines_init C ids hids
  | append_singleton es e ih =>
    rw [List.forall_mem_append, List.forall_mem_singleton] at hes
    rw [List.length_append, List.length_singleton] at hlen ⊢
    rw [run, Mesh.run, List.foldl_append, List.foldl_append]
    exact (ih hes.1 (by omega)).step H (by omega) hes.2

/-- **The mesh of texts is the mesh of facts.**  After every run, with whatever failures and
crashes, each site that logs, serves and pulls its facts as JSON has the tables, and works on the
page, that it has with the facts themselves; and the next pull between any two sites hands over the
page of the log. -/
theorem wire_mesh_refines (B : Blake3) (C : JsonCodec) (H : Http) (ids : ι ↪ Str)
    (hids : ∀ i, validUtf8 (ids i) = true) (es : List (MeshEvent ι)) (hes : ∀ e ∈ es, e.Typed)
    (hlen : es.length < 2 ^ 63) :
    (∀ i, (run B C H ids es i).node = Mesh.run B (.serde C) ids es i) ∧
      ∀ i p, pullFacts C H (run B C H ids es p).rows
          ((run B C H ids es i).node.store.getCursor (ids p)) =
        some ((Mesh.run B (.serde C) ids es p).store.factsSince
          ((Mesh.run B (.serde C) ids es i).store.getCursor (ids p)) factSyncBatch) := by
  have h := refines_run B C H ids hids hes hlen.le
  refine ⟨h.node, fun i p => ?_⟩
  rw [h.node i]
  refine (h.logged p).pullFacts H ?_ ?_
  · exact lt_of_le_of_lt (h.bounded p).log hlen
  · exact lt_of_le_of_lt ((h.bounded i).cursors _) hlen

/-- One mutation of each kind at the second site, and a pull of its facts by the first, which
applies the first two, fails at the third and applies the fourth. -/
def pulledFacts : List (MeshEvent (Fin 2)) :=
  [.mutate 1 (.storeLocalBlock 1 blockOfA (text "local") 1),
    .mutate 1 (.insertObject 2 [98] 7 [107] [blockOfA] 1 [101]),
    .mutate 1 (.createUser 3 [117] [115] allowAll), .mutate 1 (.deleteObject 4 [98] [107]),
    .pull 0 1, .applyNext 0 0, .applyNext 0 0, .failNext 0 .nothing, .applyNext 0 0, .finish 0]

/-- Four facts, one of each kind, are read by the peer as they were logged. -/
theorem wire_mesh_refines_pulledFacts :
    let texts := run Blake3.sample .compact .hyper twoNames pulledFacts
    let facts := Mesh.run Blake3.sample (.serde .compact) twoNames pulledFacts
    (∀ i, (texts i).node = facts i) ∧
    (∀ i p, pullFacts .compact .hyper (texts p).rows
        ((texts i).node.store.getCursor (twoNames p)) =
      some ((facts p).store.factsSince ((facts i).store.getCursor (twoNames p)) factSyncBatch)) ∧
    (facts 1).store.factLog.length = 4 ∧ (facts 0).store.getCursor (twoNames 1) = 4 := by
  have htyped : ∀ e ∈ pulledFacts, e.Typed := by
    simp only [pulledFacts, List.forall_mem_cons, MeshEvent.Typed, Store.Mutation.Typed]
    exact ⟨by decide, by decide, ⟨by decide, by decide, by decide, checked_allowAll⟩, by decide,
      trivial, trivial, trivial, trivial, trivial, trivial, by simp⟩
  obtain ⟨hnodes, hpulls⟩ := wire_mesh_refines Blake3.sample .compact .hyper twoNames (by decide)
    pulledFacts htyped (by decide)
  exact ⟨hnodes, hpulls, rfl, rfl⟩

end WireMesh

end Shardscape
