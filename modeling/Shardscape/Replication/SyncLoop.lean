/-
# Does the fact sync stop?

`src/main.rs`, the inner loop of `sync_facts_once`: for one peer, pages are pulled and applied
until a page is empty or short, or reading the cursor, pulling the page or setting the cursor
fails.

The cursor moves to the greatest number that was applied.  If nothing of a full page could be
applied it stays where it is, and the next iteration asks for the same page: while `apply_fact`
keeps failing on that page the loop does not come to its end (`iteration_of_stuck`), and no other
peer has its turn.  It takes a page of 500 facts that do not decode, or a database that fails
under every `apply_fact` but not under `set_cursor`, which writes nothing if there is a cursor row
already (`unapplied_page_never_stops`).  That is the only way: the loop makes progress exactly if
no iteration finds a full page of failures (`sync_progress_iff`).

The steps of an iteration are those of `Shardscape.Replication.Sync`, put together as the loop
does it.
-/

import Shardscape.Lib.Loop
import Shardscape.Replication.Sync
import Shardscape.Store.Samples

namespace Shardscape

open Lib

variable {ι : Type*}

/-- The hexadecimal texts of a fact can be decoded. -/
def Fact.HexDecodes : Fact → Prop
  | .objectPut _ _ blocks _ _ => (hexDecodeAll blocks).isSome
  | .blockAnnounce hash _ fid _ => (hexDecode hash).isSome ∧ (hexDecode fid).isSome
  | _ => True

/-- It is what `apply_fact` fails on by itself. -/
theorem Store.applyFact_ok_iff (B : Blake3) (s : Store) (nowMs : ℤ) (rec : FactRecord) :
    (∃ s', s.applyFact B nowMs rec = .ok s') ↔ rec.fact.HexDecodes := by
  obtain ⟨seq, ts, fact⟩ := rec
  cases fact with
  | objectPut bucket key blocks size etag =>
    simp only [Store.applyFact, Fact.HexDecodes]
    cases hexDecodeAll blocks <;> simp
  | objectDelete bucket key => exact iff_of_true ⟨_, rfl⟩ trivial
  | blockAnnounce hash locationId fid size =>
    simp only [Store.applyFact, Fact.HexDecodes]
    cases hexDecode hash <;> cases hexDecode fid <;> simp
  | userPut accessKey secretKey policy => exact iff_of_true ⟨_, rfl⟩ trivial

/-- What the calls of a sync come to, by the number of the store call: failures of the database
on the cursor and under `apply_fact`, readings of the clock, and failures of the
`noise_get_facts` that comes after a call. -/
structure SyncCalls where
  cursorFails : ℕ → Bool
  pullFails : ℕ → Bool
  applyFails : ℕ → Option ApplyStage
  nowMs : ℕ → ℤ

/-- The site between two iterations, and the number of store calls so far. -/
structure SyncLoop (ι : Type*) where
  node : Node ι
  calls : ℕ := 0

namespace Node

variable (B : Blake3) (W : SyncCalls)

/-- `apply_fact` on the next fact of the page. -/
def tryNext (c : ℕ) (n : Node ι) : Node ι :=
  match W.applyFails c with
  | some stage => n.failNext stage
  | none => n.applyNext B (W.nowMs c)

/-- The loop over the facts of a page, `k` of them. -/
def applyPage : ℕ → ℕ → Node ι → Node ι
  | 0, _, n => n
  | k + 1, c, n => applyPage k (c + 1) (n.tryNext B W c)

end Node

namespace SyncLoop

/-- A sync starts. -/
def start (s : Store) : SyncLoop ι where
  node := { store := s }

section

variable (B : Blake3) (W : SyncCalls) (ids : ι → Str) (peer : ι) (peerStore : Store)

/-- The stored cursor. -/
def cursor (x : SyncLoop ι) : ℕ := x.node.store.getCursor (ids peer)

/-- The page after the cursor. -/
def page (x : SyncLoop ι) : List FactRecord :=
  peerStore.factsSince (x.cursor ids peer) factSyncBatch

/-- One iteration, and whether there is another. -/
def turn (x : SyncLoop ι) : SyncLoop ι × Bool :=
  if W.cursorFails x.calls then (⟨x.node, x.calls + 1⟩, false)
  else if W.pullFails x.calls then (⟨x.node, x.calls + 1⟩, false)
  else
    let n := x.node.pull peer (ids peer) peerStore
    match n.task with
    | none => (⟨n, x.calls + 1⟩, false)
    | some task =>
      let n' := n.applyPage B W task.pending.length (x.calls + 1)
      let c := x.calls + 1 + task.pending.length
      if W.cursorFails c then (⟨n'.abandon, c + 1⟩, false)
      else (⟨n'.finish ids, c + 1⟩, decide (factSyncBatch ≤ task.pending.length))

/-- An idle site that has pulled the page and tried its facts. -/
def tried (x : SyncLoop ι) : Node ι :=
  ({ x.node with
    task := some ⟨peer, x.page ids peer peerStore, x.cursor ids peer, []⟩ } : Node ι).applyPage
      B W (x.page ids peer peerStore).length (x.calls + 1)

/-- `apply_fact` succeeds on `rec` in call `c`. -/
def Applies (c : ℕ) (rec : FactRecord) : Prop := W.applyFails c = none ∧ rec.fact.HexDecodes

/-- A full page, none of whose facts can be applied; reading the cursor, pulling the page and
setting the cursor do not fail. -/
structure Stuck (x : SyncLoop ι) : Prop where
  full : (x.page ids peer peerStore).length = factSyncBatch
  failing : ∀ i rec, (x.page ids peer peerStore)[i]? = some rec → ¬ Applies W (x.calls + 1 + i) rec
  read : W.cursorFails x.calls = false
  pulled : W.pullFails x.calls = false
  set : W.cursorFails (x.calls + 1 + factSyncBatch) = false

/-- **The sync makes progress**: the loop ends, and every iteration but the last moves the stored
cursor on. -/
structure Progress (s : Store) : Prop where
  ends : ∃ n, iteration (turn B W ids peer peerStore) n (start s) = none
  advances : ∀ n x, iteration (turn B W ids peer peerStore) n (start s) = some x →
    x.cursor ids peer < (turn B W ids peer peerStore x).1.cursor ids peer ∨
      (turn B W ids peer peerStore x).2 = false

end

/-! ### A page -/

variable {B : Blake3} {W : SyncCalls} {ids : ι → Str} {peer : ι} {peerStore : Store}

/-- One fact: the page is one shorter, the cursors stay, and `max_seq` tells whether it was
applied. -/
theorem tryNext_spec {n : Node ι} {rec : FactRecord} {rest : List FactRecord} {maxSeq : ℕ}
    {failed : List ℕ} (htask : n.task = some ⟨peer, rec :: rest, maxSeq, failed⟩) (c : ℕ) :
    ∃ maxSeq' failed', (n.tryNext B W c).task = some ⟨peer, rest, maxSeq', failed'⟩ ∧
      (n.tryNext B W c).store.replicationCursors = n.store.replicationCursors ∧
      (Applies W c rec → maxSeq' = max maxSeq rec.seq) ∧
      (¬ Applies W c rec → maxSeq' = maxSeq) := by
  unfold Node.tryNext
  cases hfails : W.applyFails c with
  | some stage =>
    have hnot : ¬ Applies W c rec := by
      rintro ⟨hsucceeds, -⟩
      rw [hfails] at hsucceeds
      cases hsucceeds
    refine ⟨maxSeq, rec.seq :: failed, ?_, ?_, fun h => absurd h hnot, fun _ => rfl⟩
    · simp only [Node.failNext, htask]
    · simp only [Node.failNext, htask]
      exact (Store.frame_applyFactFailed n.store rec stage).2.2.2
  | none =>
    dsimp only
    have happlies : Applies W c rec ↔ ∃ s', n.store.applyFact B (W.nowMs c) rec = .ok s' := by
      rw [Store.applyFact_ok_iff, Applies, and_iff_right hfails]
    cases happly : n.store.applyFact B (W.nowMs c) rec with
    | ok s =>
      have hcursors := (Store.frame_applyFactD B n.store (W.nowMs c) rec).2.1
      rw [Store.applyFactD_of_ok happly] at hcursors
      refine ⟨max maxSeq rec.seq, failed, ?_, ?_, fun _ => rfl, fun h => ?_⟩
      · simp only [Node.applyNext, htask, happly]
      · simpa only [Node.applyNext, htask, happly] using hcursors
      · exact absurd (happlies.2 ⟨s, happly⟩) h
    | error e =>
      refine ⟨maxSeq, rec.seq :: failed, ?_, ?_, fun h => ?_, fun _ => rfl⟩
      · simp only [Node.applyNext, htask, happly]
      · simp only [Node.applyNext, htask, happly]
      · obtain ⟨s, hs⟩ := happlies.1 h
        rw [happly] at hs
        cases hs

/-- A page: `max_seq` is at least every number that was applied, and moves for no other reason. -/
theorem applyPage_spec (facts : List FactRecord) {n : Node ι} {maxSeq : ℕ} {failed : List ℕ}
    (htask : n.task = some ⟨peer, facts, maxSeq, failed⟩) (c : ℕ) :
    ∃ maxSeq' failed', (n.applyPage B W facts.length c).task = some ⟨peer, [], maxSeq', failed'⟩ ∧
      (n.applyPage B W facts.length c).store.replicationCursors = n.store.replicationCursors ∧
      maxSeq ≤ maxSeq' ∧
      (∀ i rec, facts[i]? = some rec → Applies W (c + i) rec → rec.seq ≤ maxSeq') ∧
      ((∀ i rec, facts[i]? = some rec → ¬ Applies W (c + i) rec) → maxSeq' = maxSeq) := by
  induction facts generalizing n maxSeq failed c with
  | nil => exact ⟨maxSeq, failed, htask, rfl, le_rfl, fun i rec h => by simp at h, fun _ => rfl⟩
  | cons rec rest ih =>
    obtain ⟨maxSeq₁, failed₁, htask₁, hcursors₁, hyes, hno⟩ :=
      tryNext_spec (B := B) (W := W) htask c
    obtain ⟨maxSeq₂, failed₂, htask₂, hcursors₂, hle, happlied, hnone⟩ := ih htask₁ (c + 1)
    have hle₁ : maxSeq ≤ maxSeq₁ := by
      by_cases happlies : Applies W c rec
      · rw [hyes happlies]
        exact le_max_left _ _
      · exact (hno happlies).ge
    refine ⟨maxSeq₂, failed₂, htask₂, hcursors₂.trans hcursors₁, hle₁.trans hle, ?_, ?_⟩
    · intro i rec' hget happlies
      cases i with
      | zero =>
        obtain rfl := Option.some.inj hget
        exact (le_max_right maxSeq rec.seq).trans ((hyes happlies).ge.trans hle)
      | succ i =>
        refine happlied i rec' hget ?_
        rwa [Nat.add_assoc, Nat.add_comm 1 i]
    · intro hall
      rw [hnone fun i rec' hget => ?_, hno (hall 0 rec rfl)]
      rw [Nat.add_assoc, Nat.add_comm 1 i]
      exact hall (i + 1) rec' hget

/-! ### An iteration -/

variable {x : SyncLoop ι}

/-- The facts of a page are past the cursor. -/
theorem cursor_lt_of_mem_page {rec : FactRecord} (h : rec ∈ x.page ids peer peerStore) :
    x.cursor ids peer < rec.seq := by
  have hmem := List.mem_filter.1 (List.mem_of_mem_take h)
  exact of_decide_eq_true hmem.2

/-- A page that is not empty lies in the log. -/
theorem cursor_lt_length (h : x.page ids peer peerStore ≠ []) :
    x.cursor ids peer < peerStore.factLog.length := by
  obtain ⟨rec, hrec⟩ := List.exists_mem_of_ne_nil _ h
  have hmem := List.mem_filter.1 (List.mem_of_mem_take hrec)
  exact (cursor_lt_of_mem_page hrec).trans_le (Store.seq_le_of_mem_factRecords hmem.1)

/-- The page is pulled and tried, and then the cursor is set: what `turn` does if there is one. -/
theorem turn_of_page (hidle : x.node.task = none) (hread : W.cursorFails x.calls = false)
    (hpulled : W.pullFails x.calls = false) (hpage : x.page ids peer peerStore ≠ []) :
    turn B W ids peer peerStore x =
      if W.cursorFails (x.calls + 1 + (x.page ids peer peerStore).length) then
        (⟨(tried B W ids peer peerStore x).abandon,
          x.calls + 1 + (x.page ids peer peerStore).length + 1⟩, false)
      else
        (⟨(tried B W ids peer peerStore x).finish ids,
          x.calls + 1 + (x.page ids peer peerStore).length + 1⟩,
          decide (factSyncBatch ≤ (x.page ids peer peerStore).length)) := by
  have hpull : x.node.pull peer (ids peer) peerStore = { x.node with
      task := some ⟨peer, x.page ids peer peerStore, x.cursor ids peer, []⟩ } := by
    refine if_neg ?_
    rintro (hbusy | hempty)
    · rw [hidle] at hbusy
      cases hbusy
    · exact hpage hempty
  simp only [turn, hread, hpulled, hpull, Bool.false_eq_true, if_false]
  rfl

/-- Without a cursor, an answer of the peer or a page, the iteration is the last. -/
theorem turn_of_no_page (hidle : x.node.task = none)
    (h : W.cursorFails x.calls = true ∨ W.pullFails x.calls = true ∨
      x.page ids peer peerStore = []) :
    turn B W ids peer peerStore x = (⟨x.node, x.calls + 1⟩, false) := by
  unfold turn
  split_ifs with hread hpulled
  · rfl
  · rfl
  · have hpull : x.node.pull peer (ids peer) peerStore = x.node :=
      if_pos (.inr ((h.resolve_left hread).resolve_left hpulled))
    simp only [hpull, hidle]

/-- Of the page that was tried, `max_seq` is past the cursor iff something was applied. -/
theorem tried_spec (B : Blake3) (W : SyncCalls) (ids : ι → Str) (peer : ι) (peerStore : Store)
    (x : SyncLoop ι) :
    ∃ maxSeq failed, (tried B W ids peer peerStore x).task = some ⟨peer, [], maxSeq, failed⟩ ∧
      (tried B W ids peer peerStore x).store.getCursor (ids peer) = x.cursor ids peer ∧
      x.cursor ids peer ≤ maxSeq ∧
      (x.cursor ids peer < maxSeq ↔ ∃ i rec, (x.page ids peer peerStore)[i]? = some rec ∧
        Applies W (x.calls + 1 + i) rec) := by
  obtain ⟨maxSeq, failed, htask, hcursors, hle, happlied, hnone⟩ :=
    applyPage_spec (B := B) (W := W) (x.page ids peer peerStore) (n := { x.node with
      task := some ⟨peer, x.page ids peer peerStore, x.cursor ids peer, []⟩ }) rfl (x.calls + 1)
  refine ⟨maxSeq, failed, htask, ?_, hle, ?_, ?_⟩
  · rw [Store.getCursor, tried, hcursors]
    rfl
  · intro hlt
    by_contra hnot
    refine hlt.ne (hnone fun i rec hget happlies => hnot ⟨i, rec, hget, happlies⟩).symm
  · rintro ⟨i, rec, hget, happlies⟩
    exact (cursor_lt_of_mem_page (List.mem_of_getElem? hget)).trans_le
      (happlied i rec hget happlies)

/-- `set_cursor` at the end of a page. -/
theorem finish_spec (ids : ι → Str) {n : Node ι} {maxSeq : ℕ} {failed : List ℕ}
    (htask : n.task = some ⟨peer, [], maxSeq, failed⟩) :
    (n.finish ids).task = none ∧
      (n.finish ids).store.getCursor (ids peer) = max (n.store.getCursor (ids peer)) maxSeq := by
  have hfinish : n.finish ids =
      { n with store := n.store.setCursor (ids peer) maxSeq, task := none } := by
    simp only [Node.finish, htask]
  rw [hfinish]
  exact ⟨rfl, by rw [Store.getCursor_setCursor, if_pos rfl]⟩

/-- **One iteration** of an idle site is the last, or finds a full page: then the cursor moves on,
within the log, unless the page is stuck, and does not go back in any case. -/
theorem turn_cases (B : Blake3) (W : SyncCalls) (ids : ι → Str) (peer : ι) (peerStore : Store)
    (hidle : x.node.task = none) :
    (turn B W ids peer peerStore x).1.node.task = none ∧
      ((¬ Stuck W ids peer peerStore x ∧ (turn B W ids peer peerStore x).2 = false) ∨
      (turn B W ids peer peerStore x).2 = true ∧ x.cursor ids peer < peerStore.factLog.length ∧
        x.cursor ids peer ≤ (turn B W ids peer peerStore x).1.cursor ids peer ∧
        (x.cursor ids peer < (turn B W ids peer peerStore x).1.cursor ids peer ↔
          ¬ Stuck W ids peer peerStore x)) := by
  by_cases hlast : W.cursorFails x.calls = true ∨ W.pullFails x.calls = true ∨
      x.page ids peer peerStore = []
  · rw [turn_of_no_page hidle hlast]
    refine ⟨hidle, .inl ⟨fun hstuck => ?_, rfl⟩⟩
    rcases hlast with hread | hpulled | hempty
    · rw [hstuck.read] at hread
      cases hread
    · rw [hstuck.pulled] at hpulled
      cases hpulled
    · have hfull := hstuck.full
      rw [hempty] at hfull
      cases hfull
  · rw [not_or, not_or, Bool.not_eq_true, Bool.not_eq_true] at hlast
    obtain ⟨hread, hpulled, hpage⟩ := hlast
    obtain ⟨maxSeq, failed, htask, hcursor, hle, hmoves⟩ := tried_spec B W ids peer peerStore x
    rw [turn_of_page hidle hread hpulled hpage]
    split_ifs with hset
    · -- the cursor could not be set
      refine ⟨rfl, .inl ⟨fun hstuck => ?_, rfl⟩⟩
      rw [hstuck.full, hstuck.set] at hset
      cases hset
    · rw [Bool.not_eq_true] at hset
      obtain ⟨hdone, hmoved⟩ := finish_spec ids htask
      rw [hcursor, max_eq_right hle] at hmoved
      refine ⟨hdone, ?_⟩
      rcases Nat.lt_or_ge (x.page ids peer peerStore).length factSyncBatch with hshort | hfull
      · exact .inl ⟨fun hstuck => hshort.ne hstuck.full, decide_eq_false (not_le.2 hshort)⟩
      · have hlen : (x.page ids peer peerStore).length = factSyncBatch :=
          le_antisymm (List.length_take_le _ _) hfull
        refine .inr ⟨decide_eq_true hfull, cursor_lt_length hpage, hle.trans_eq hmoved.symm, ?_⟩
        refine (iff_of_eq (congrArg (x.cursor ids peer < ·) hmoved)).trans (hmoves.trans ?_)
        constructor
        · rintro ⟨i, rec, hget, happlies⟩ hstuck
          exact hstuck.failing i rec hget happlies
        · intro hstuck
          by_contra hnone
          exact hstuck ⟨hlen, fun i rec hget happlies => hnone ⟨i, rec, hget, happlies⟩, hread,
            hpulled, hlen ▸ hset⟩

/-! ### The loop -/

/-- A site is idle where an iteration starts. -/
theorem idle_of_iteration {s : Store} {n : ℕ}
    (h : iteration (turn B W ids peer peerStore) n (start s) = some x) : x.node.task = none :=
  invariant_of_iteration (P := fun x : SyncLoop ι => x.node.task = none)
    (fun _ hidle => (turn_cases B W ids peer peerStore hidle).1) h rfl

/-- **When the fact sync makes progress.**  It does exactly if no iteration finds a full page of
which nothing can be applied. -/
theorem sync_progress_iff (B : Blake3) (W : SyncCalls) (ids : ι → Str) (peer : ι)
    (peerStore s : Store) :
    Progress B W ids peer peerStore s ↔
      ∀ n x, iteration (turn B W ids peer peerStore) n (start s) = some x →
        ¬ Stuck W ids peer peerStore x := by
  constructor
  · intro hprogress n x hx hstuck
    have hturn := turn_cases B W ids peer peerStore (idle_of_iteration hx)
    rcases hturn with ⟨-, ⟨hnot, -⟩ | ⟨hgo, -, -, hmoves⟩⟩
    · exact hnot hstuck
    · rcases hprogress.advances n x hx with hadvances | hlast
      · exact hmoves.1 hadvances hstuck
      · rw [hgo] at hlast
        cases hlast
  · intro hnever
    refine ⟨exists_iteration_eq_none (fun x => peerStore.factLog.length - x.cursor ids peer)
      fun n x hx hgo => ?_, fun n x hx => ?_⟩
    · have hturn := turn_cases B W ids peer peerStore (idle_of_iteration hx)
      rcases hturn with ⟨-, ⟨-, hlast⟩ | ⟨-, hlt, -, hmoves⟩⟩
      · rw [hgo] at hlast
        cases hlast
      · have hmoved := hmoves.2 (hnever n x hx)
        omega
    · have hturn := turn_cases B W ids peer peerStore (idle_of_iteration hx)
      rcases hturn with ⟨-, ⟨-, hlast⟩ | ⟨-, -, -, hmoves⟩⟩
      · exact .inr hlast
      · exact .inl (hmoves.2 (hnever n x hx))

/-- **A loop that finds the same page of failures again and again does not end**, and the cursor
stays where it is. -/
theorem iteration_of_stuck {c : ℕ}
    (hstuck : ∀ x : SyncLoop ι, x.cursor ids peer = c → Stuck W ids peer peerStore x) (n : ℕ)
    (hidle : x.node.task = none) (hcursor : x.cursor ids peer = c) :
    ∃ x', iteration (turn B W ids peer peerStore) n x = some x' ∧ x'.cursor ids peer = c := by
  induction n generalizing x with
  | zero => exact ⟨x, rfl, hcursor⟩
  | succ n ih =>
    obtain ⟨hidle', ⟨hnot, -⟩ | ⟨hgo, -, hle, hmoves⟩⟩ := turn_cases B W ids peer peerStore hidle
    · exact absurd (hstuck x hcursor) hnot
    · have hstays := not_lt.1 (mt hmoves.1 (not_not.2 (hstuck x hcursor)))
      rw [iteration, if_pos hgo]
      exact ih hidle' ((le_antisymm hstays hle).trans hcursor)

/-- The database fails under every `apply_fact`, as it does on a full disk.  Reading the cursor
does not fail, nor does a `set_cursor` that finds the row and has nothing to write. -/
def noneApplies : SyncCalls where
  cursorFails _ := false
  pullFails _ := false
  applyFails _ := some .nothing
  nowMs _ := 0

/-- A peer with 501 deletes in its log. -/
def busyPeer : Store :=
  { Store.new [98] with
    factLog := List.replicate (1 + factSyncBatch) (1, .objectDelete [98] [107]) }

/-- A site that has synced the first of them: it has a cursor row for the peer. -/
def syncedOnce : Store := (Store.new [97]).setCursor [98] 1

/-- The 500 deletes past the cursor are a full page. -/
theorem stuck_noneApplies (hcursor : x.cursor ids peer = 1) :
    Stuck noneApplies ids peer busyPeer x where
  full := by
    rw [page, hcursor, Store.factsSince_eq, List.length_take, List.length_drop,
      Store.length_factRecords, busyPeer, List.length_replicate, Nat.add_sub_cancel_left, min_self]
  failing := by
    rintro i rec - ⟨⟨⟩, -⟩
  read := rfl
  pulled := rfl
  set := rfl

/-- **The sync never stops** while nothing of a full page can be applied: iteration after iteration
starts with the cursor at 1, and `set_cursor` finds its row and leaves it as it is. -/
theorem unapplied_page_never_stops :
    syncedOnce.replicationCursors.lookup [98] = some 1 ∧
      (∀ n, ∃ x : SyncLoop Unit,
        iteration (turn Blake3.sample noneApplies (fun _ => [98]) () busyPeer) n
          (start syncedOnce) = some x ∧ x.cursor (fun _ => [98]) () = 1) ∧
      ¬ Progress Blake3.sample noneApplies (fun _ => [98]) () busyPeer syncedOnce := by
  have hgoes : ∀ n, ∃ x : SyncLoop Unit,
      iteration (turn Blake3.sample noneApplies (fun _ => [98]) () busyPeer) n
        (start syncedOnce) = some x ∧ x.cursor (fun _ => [98]) () = 1 :=
    fun n => iteration_of_stuck (fun _ => stuck_noneApplies) n rfl rfl
  refine ⟨rfl, hgoes, fun hprogress => ?_⟩
  obtain ⟨n, hn⟩ := hprogress.ends
  obtain ⟨x, hx, -⟩ := hgoes n
  rw [hn] at hx
  cases hx

end SyncLoop
end Shardscape
