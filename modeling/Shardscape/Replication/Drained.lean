/-
# The drainer loses no entry

`src/storage.rs`, `drain_replication_queue`, `defer_entry` and `plan_replication`;
`src/store.rs`, `get_replication_queue`, `dequeue_replication`, `defer_replication` and
`replication_backoff_ms`.

A page of the queue is worked off entry by entry, and what becomes of an entry depends on the
locations of its block, the peers and what fetches and promotions come to: it is dropped, put
off, or the block is fetched.  `Store.Outcome` is what a turn can do, as a statement about the
rows of the entry's block alone, so that it survives the turns of the others
(`Store.Elsewhere`).  `drain_keeps_entries` is what follows for a whole cycle.
-/

import Shardscape.Collector.Locations
import Shardscape.Lib.CallLog

namespace Shardscape

open Lib Lib.Prog

variable {Blob : BlobStore} {ε : Type}

/-- The backoff doubles up to six hours; the bound on the shift is never felt. -/
theorem replicationBackoffMs_eq (attempts : ℕ) :
    replicationBackoffMs attempts = min (60000 * 2 ^ attempts) (6 * 60 * 60 * 1000) := by
  rw [replicationBackoffMs, replicationBackoffBaseMs, replicationBackoffCapMs]
  split_ifs with hzero
  · rw [hzero]
    decide
  · rcases le_total attempts 40 with hle | hle
    · rw [min_eq_left hle]
    · -- both are past the cap
      have hpow : (2 : ℤ) ^ 40 ≤ 2 ^ attempts := pow_le_pow_right₀ (by norm_num) hle
      rw [min_eq_right hle, min_eq_right (by norm_num), min_eq_right (by omega)]

/-- `now_millis`, from the clock reading the site takes next. -/
def Site.stampMs (s : Site Blob) : ℤ := s.stamp.tdiv 1000

/-- The row of an entry that is put off, at a time of the clock. -/
def QueueRow.deferred (row : QueueRow) (nowMs : ℤ) : QueueRow where
  nextAttemptAt := nowMs + min (60000 * 2 ^ row.attempts) (6 * 60 * 60 * 1000)
  attempts := row.attempts + 1
  enqueuedAt := row.enqueuedAt

/-- The block was put off in this execution: the clock is read in the state `st`, and the
deferral is the next call. -/
def DeferredAt (log : List (Call × Site Blob)) (h : Bytes) (st : Site Blob) : Prop :=
  [(.nowMicros, st), (.deferReplication h, { st with tick := st.tick + 1 })] <:+: log

/-- The block was given by the peer at `url`. -/
def FetchedFrom (log : List (Call × Site Blob)) (h : Bytes) (url : Str) : Prop :=
  ∃ st data, (Call.fetch url h, st) ∈ log ∧ st.oracle.fetch st.tick = .ok data

namespace Store

variable {s s' s'' : Store} {h : Bytes}

/-! ### What a turn leaves alone -/

/-- Nothing changes but the entries of this site for the blocks in `P`, and their locations. -/
structure Elsewhere (P : Bytes → Prop) (s s' : Store) : Prop where
  id : s'.localLocationId = s.localLocationId
  rows : ∀ k : Str × Bytes, (k.1 = s.localLocationId → ¬ P k.2) →
    s'.replicationQueue.lookup k = s.replicationQueue.lookup k
  listed : ∀ h, ¬ P h → ∀ loc, s'.Listed h loc ↔ s.Listed h loc

variable {P P' : Bytes → Prop}

/-- Nothing changes by doing nothing. -/
theorem Elsewhere.refl (P : Bytes → Prop) (s : Store) : Elsewhere P s s where
  id := rfl
  rows _ _ := rfl
  listed _ _ _ := Iff.rfl

/-- More blocks may be left out. -/
theorem Elsewhere.mono (h : Elsewhere P s s') (hP : ∀ h, P h → P' h) : Elsewhere P' s s' where
  id := h.id
  rows k hk := h.rows k fun hid hp => hk hid (hP _ hp)
  listed x hx := h.listed x fun hp => hx (hP _ hp)

/-- Changes of the same blocks add up. -/
theorem Elsewhere.trans (h : Elsewhere P s s') (h' : Elsewhere P s' s'') : Elsewhere P s s'' where
  id := h'.id.trans h.id
  rows k hk := (h'.rows k fun hid => hk (hid.trans h.id)).trans (h.rows k hk)
  listed x hx loc := (h'.listed x hx loc).trans (h.listed x hx loc)

/-- To drop an entry changes no other. -/
theorem elsewhere_dequeueReplication (s : Store) (hash : Bytes) :
    Elsewhere (· = hash) s (s.dequeueReplication hash) where
  id := rfl
  rows k hk := by
    rw [dequeueReplication, Table.lookup_erase, if_neg]
    rintro rfl
    exact hk rfl rfl
  listed _ _ _ := Iff.rfl

/-- To put an entry off changes no other. -/
theorem elsewhere_deferReplication (s : Store) (nowMs : ℤ) (entry : ReplicationEntry) :
    Elsewhere (· = entry.hash) s (s.deferReplication nowMs entry) where
  id := rfl
  rows k hk := by
    rw [deferReplication, Table.lookup_modify, if_neg]
    rintro rfl
    exact hk rfl rfl
  listed _ _ _ := Iff.rfl

/-- To store a block changes no other. -/
theorem elsewhere_storeLocalBlock (s : Store) (ts : ℤ) (hash fid : Bytes) (size : ℤ) :
    Elsewhere (· = hash) s (s.storeLocalBlock ts hash fid size) where
  id := rfl
  rows _ _ := rfl
  listed x hx loc := by
    rw [listed_storeLocalBlock]
    exact or_iff_right fun hself => hx hself.1

/-! ### What becomes of an entry -/

/-- The row of this site's entry for a block. -/
def entryRow (s : Store) (h : Bytes) : Option QueueRow :=
  s.replicationQueue.lookup (s.localLocationId, h)

/-- **What a turn does** to the entry of a block, and when. -/
inductive Outcome (peers : List (Str × Str)) (log : List (Call × Site Blob)) (h : Bytes)
    (s s' : Store) : Prop where
  | dropped (why : s.HoldsLocally h ∨ ∀ loc, ¬ s.Listed h loc) (row : s'.entryRow h = none)
      (listed : ∀ loc, s'.Listed h loc ↔ s.Listed h loc)
  | deferred (st : Site Blob) (asked : DeferredAt log h st)
      (row : s'.entryRow h = (s.entryRow h).map fun row => row.deferred st.stampMs)
      (listed : ∀ loc, s'.Listed h loc ↔ s.Listed h loc)
  | fetched (peer url : Str) (known : (peer, url) ∈ peers) (holder : s.Listed h peer)
      (given : FetchedFrom log h url) (row : s'.entryRow h = none) (held : s'.HoldsLocally h)

variable {peers : List (Str × Str)} {log log' : List (Call × Site Blob)}

/-- A dropped entry is gone. -/
theorem entryRow_dequeueReplication (s : Store) (hash : Bytes) :
    (s.dequeueReplication hash).entryRow hash = none := by
  rw [entryRow, dequeueReplication, Table.lookup_erase, if_pos rfl]

/-- An entry that is put off counts one attempt more. -/
theorem entryRow_deferReplication {s : Store} {entry : ReplicationEntry}
    (hrow : ∀ row, s.entryRow entry.hash = some row → row.attempts = entry.attempts) (nowMs : ℤ) :
    (s.deferReplication nowMs entry).entryRow entry.hash =
      (s.entryRow entry.hash).map fun row => row.deferred nowMs := by
  rw [entryRow, deferReplication, Table.lookup_modify, if_pos rfl]
  refine Option.map_congr fun row hmem => ?_
  rw [replicationBackoffMs_eq, ← hrow row hmem]
  rfl

/-- The entry of a block is left alone by the turns of others. -/
theorem Elsewhere.entryRow (he : Elsewhere P s s') (hP : ¬ P h) : s'.entryRow h = s.entryRow h := by
  rw [Store.entryRow, Store.entryRow, he.id]
  exact he.rows _ fun _ => hP

/-- So is the copy this site has of it. -/
theorem Elsewhere.holdsLocally_iff (he : Elsewhere P s s') (hP : ¬ P h) :
    s'.HoldsLocally h ↔ s.HoldsLocally h := by
  rw [Store.holdsLocally_iff_listed, Store.holdsLocally_iff_listed, he.id]
  exact he.listed h hP _

namespace Outcome

variable (ho : Outcome peers log h s s')
include ho

/-- An entry keeps what its turn came to while other blocks have theirs. -/
theorem frame (hlog : log <:+: log') {s₀ s₁ : Store}
    (hbefore : Elsewhere P s₀ s) (hafter : Elsewhere P s' s₁) (hP : ¬ P h) :
    Outcome peers log' h s₀ s₁ := by
  have hrow₀ := hbefore.entryRow hP
  have hrow₁ := hafter.entryRow hP
  have hheld₀ := hbefore.holdsLocally_iff hP
  have hheld₁ := hafter.holdsLocally_iff hP
  cases ho with
  | dropped why row listed =>
    refine .dropped ?_ (hrow₁.trans row) fun loc => ?_
    · simpa only [hheld₀, hbefore.listed h hP] using why
    · rw [hafter.listed h hP, listed, hbefore.listed h hP]
  | deferred st asked row listed =>
    refine .deferred st (asked.trans hlog) ?_ fun loc => ?_
    · rw [hrow₁, row, hrow₀]
    · rw [hafter.listed h hP, listed, hbefore.listed h hP]
  | fetched peer url known holder given row held =>
    obtain ⟨st, data, hcall, hdata⟩ := given
    exact .fetched peer url known ((hbefore.listed h hP peer).1 holder)
      ⟨st, data, hlog.subset hcall, hdata⟩ (hrow₁.trans row) (hheld₁.2 held)

/-- More calls were made than those. -/
theorem later (hlog : log <:+: log') :
    Outcome peers log' h s s' :=
  ho.frame hlog (.refl (fun _ => False) _) (.refl _ _) id

/-- No turn loses an entry. -/
theorem kept (hid : s'.localLocationId = s.localLocationId)
    (hqueued : s.Queued h) : s'.Queued h ∨ s'.HoldsLocally h ∨ ∀ loc, ¬ s'.Listed h loc := by
  cases ho with
  | dropped why row listed =>
    rcases why with hheld | hnone
    · refine .inr (.inl ?_)
      rw [holdsLocally_iff_listed, hid, listed]
      exact hheld
    · exact .inr (.inr fun loc hloc => hnone loc ((listed loc).1 hloc))
  | deferred st asked row listed =>
    obtain ⟨old, hold⟩ := hqueued
    exact .inl ⟨_, row.trans (congrArg (Option.map _) hold)⟩
  | fetched peer url known holder given row held => exact .inr (.inl held)

/-- An entry that stays has been put off. -/
theorem deferred_of_row {row row' : QueueRow}
    (hrow : s.entryRow h = some row) (hrow' : s'.entryRow h = some row') :
    ∃ st, DeferredAt log h st ∧ row' = row.deferred st.stampMs := by
  cases ho with
  | dropped why hnone listed => cases hnone.symm.trans hrow'
  | deferred st asked hput listed =>
    refine ⟨st, asked, ?_⟩
    rw [hrow', hrow, Option.map_some, Option.some.injEq] at hput
    exact hput
  | fetched peer url known holder given hnone held => cases hnone.symm.trans hrow'

/-- A block becomes local by a fetch. -/
theorem fetched_of_held
    (hid : s'.localLocationId = s.localLocationId) (hheld : s'.HoldsLocally h) :
    s.HoldsLocally h ∨
      ∃ peer url, (peer, url) ∈ peers ∧ s.Listed h peer ∧ FetchedFrom log h url := by
  rw [holdsLocally_iff_listed, hid] at hheld
  cases ho with
  | dropped why row listed => exact .inl ((listed _).1 hheld)
  | deferred st asked row listed => exact .inl ((listed _).1 hheld)
  | fetched peer url known holder given row held =>
    exact .inr ⟨peer, url, known, holder, given⟩

end Outcome
end Store

/-! ### One turn -/

namespace Store

variable {s : Store} {h : Bytes} {peers : List (Str × Str)}

/-- The locations found are those that are listed. -/
theorem mem_map_getBlockFids {loc : Str} :
    loc ∈ ((s.getBlockFids h).getD []).map Prod.fst ↔ s.Listed h loc := by
  rw [Listed, ← mem_getBlockFids, List.mem_map]
  constructor
  · rintro ⟨⟨_, fid⟩, hmem, rfl⟩
    exact ⟨fid, hmem⟩
  · rintro ⟨fid, hmem⟩
    exact ⟨(loc, fid), hmem, rfl⟩

/-- An entry is dropped for a reason. -/
theorem plan_drop (hplan : planReplication ((s.getBlockFids h).getD []) s.localLocationId peers =
    .drop) : s.HoldsLocally h ∨ ∀ loc, ¬ s.Listed h loc := by
  simp only [planReplication] at hplan
  split_ifs at hplan with hdrop hnone
  rcases hdrop with hempty | hlocal
  · refine .inr fun loc hlisted => ?_
    have hmem := mem_map_getBlockFids.2 hlisted
    rw [List.isEmpty_iff.1 hempty] at hmem
    exact absurd hmem List.not_mem_nil
  · exact .inl (mem_map_getBlockFids.1 hlocal)

/-- The candidates are peers the block is listed at, and it is not held here. -/
theorem plan_fetchFrom {candidates : List (Str × Str)}
    (hplan : planReplication ((s.getBlockFids h).getD []) s.localLocationId peers =
      .fetchFrom candidates) :
    ¬ s.HoldsLocally h ∧ ∀ c ∈ candidates, c ∈ peers ∧ s.Listed h c.1 := by
  simp only [planReplication] at hplan
  split_ifs at hplan with hdrop hnone
  rw [ReplicationPlan.fetchFrom.injEq] at hplan
  refine ⟨fun hheld => hdrop (.inr (mem_map_getBlockFids.2 hheld)), fun c hc => ?_⟩
  rw [← hplan, List.mem_filter, decide_eq_true_eq] at hc
  exact ⟨hc.1, mem_map_getBlockFids.1 hc.2⟩

end Store

namespace Site

variable {s : Site Blob} {peers : List (Str × Str)}

/-- A query is one call. -/
@[simp] theorem wpLog_db {α : Type} {Q : List (Call × Site Blob) → Except ε α → Site Blob → Prop}
    (l : Call) (f : Store → α) :
    wpLog (db l f : SProg Blob ε α) Q s ↔ Q [(l, s)] (.ok (f s.store)) s := Iff.rfl

/-- A question to the outside is one call. -/
@[simp] theorem wpLog_ask {α : Type} {Q : List (Call × Site Blob) → Except ε α → Site Blob → Prop}
    (l : Call) (f : Site Blob → ℕ → α) :
    wpLog (ask l f : SProg Blob ε α) Q s ↔
      Q [(l, s)] (.ok (f s s.tick)) { s with tick := s.tick + 1 } := Iff.rfl

/-- The candidates are asked in turn, and what one gives is the result. -/
theorem wpLog_fetchFirst (hash : Bytes) (candidates : List (Str × Str)) (s : Site Blob) :
    wpLog (fetchFirst hash candidates : SProg Blob ε (Option Bytes))
      (fun log r s' => s'.store = s.store ∧ ∃ found, r = .ok found ∧
        (found.isSome → ∃ c ∈ candidates, FetchedFrom log hash c.2)) s := by
  induction candidates generalizing s with
  | nil =>
    refine ⟨rfl, none, rfl, fun h => ?_⟩
    cases h
  | cons c candidates ih =>
    refine wpLog_bind.2 ((wpLog_ask _ _).2 ?_)
    dsimp only
    cases hdata : s.oracle.fetch s.tick with
    | ok data =>
      refine ⟨rfl, some data, rfl, fun _ => ⟨c, List.mem_cons_self, s, data, ?_, hdata⟩⟩
      exact List.mem_cons_self
    | error e =>
      refine wpLog_mono (ih { s with tick := s.tick + 1 }) ?_
      rintro log r s' ⟨hstore, found, rfl, hfrom⟩
      refine ⟨hstore, found, rfl, fun hfound => ?_⟩
      obtain ⟨c', hc', st, data', hcall, hdata'⟩ := hfrom hfound
      exact ⟨c', List.mem_cons_of_mem _ hc', st, data', List.mem_cons_of_mem _ hcall, hdata'⟩

/-- A promotion that fails leaves the store alone, one that succeeds records the block. -/
theorem wp_promoteBlockLocally (hash data : Bytes) (hheld : ¬ s.store.HoldsLocally hash) :
    wp (promoteBlockLocally hash data : SProg Blob Str Unit)
      (fun r s' => (r = .ok () ∧
          ∃ ts fid, s'.store = s.store.storeLocalBlock ts hash fid data.length) ∨
        (∃ e, r = .error e) ∧ s'.store = s.store) s := by
  refine wp_bind.2 ((wp_db _ _).2 ?_)
  dsimp only
  rw [Store.getLocalBlockFid_eq_none_iff.2 hheld]
  refine wp_bind.2 (wp_bind.2 ((wp_call _ _).2 ?_))
  dsimp only
  cases s.oracle.putFails s.tick with
  | some e => exact .inr ⟨⟨e, rfl⟩, rfl⟩
  | none => exact .inl ⟨rfl, _, _, rfl⟩

/-- A turn is over: it is the block of the entry that anything became of. -/
structure EntryDone (peers : List (Str × Str)) (h : Bytes) (s : Store)
    (log : List (Call × Site Blob)) (r : Except ε Unit) (s' : Site Blob) : Prop where
  ok : r = .ok ()
  elsewhere : Store.Elsewhere (· = h) s s'.store
  outcome : Store.Outcome peers log h s s'.store

/-- What was done to an entry stays done while the others are worked on. -/
theorem EntryDone.later {h : Bytes} {s₀ : Store} {log log' : List (Call × Site Blob)}
    {r : Except ε Unit} {s' : Site Blob} (hdone : EntryDone peers h s₀ log r s')
    (hlog : log <:+: log') : EntryDone peers h s₀ log' r s' where
  ok := hdone.ok
  elsewhere := hdone.elsewhere
  outcome := hdone.outcome.later hlog

/-- An entry is put off. -/
theorem wpLog_deferReplication (peers : List (Str × Str)) {entry : ReplicationEntry} {s₀ : Store}
    (hstore : s.store = s₀)
    (hrow : ∀ row, s₀.entryRow entry.hash = some row → row.attempts = entry.attempts) :
    wpLog (deferReplication entry : SProg Blob ε Unit) (EntryDone peers entry.hash s₀) s := by
  subst hstore
  exact ⟨rfl, Store.elsewhere_deferReplication _ _ entry, .deferred s List.infix_rfl
    (Store.entryRow_deferReplication hrow _) fun _ => Iff.rfl⟩

/-- The entry of a block that was fetched goes. -/
theorem wpLog_dequeueReplication {h peer url : Bytes} (hpeer : (peer, url) ∈ peers) {s₀ : Store}
    (hlisted : s₀.Listed h peer) {log : List (Call × Site Blob)} (hfrom : FetchedFrom log h url)
    {ts size : ℤ} {fid : Bytes} (hstore : s.store = s₀.storeLocalBlock ts h fid size) :
    wpLog (dequeueReplication h : SProg Blob ε Unit) (fun _ => EntryDone peers h s₀ log) s := by
  have hstored := Store.elsewhere_storeLocalBlock s₀ ts h fid size
  have hheld := (Store.holdsLocally_storeLocalBlock s₀ ts h fid size h).2 (.inl rfl)
  rw [← hstore] at hstored hheld
  exact ⟨rfl, hstored.trans (Store.elsewhere_dequeueReplication _ _),
    .fetched peer url hpeer hlisted hfrom (Store.entryRow_dequeueReplication _ _) hheld⟩

/-- **One turn.** -/
theorem wpLog_drainEntry (peers : List (Str × Str)) {entry : ReplicationEntry} (s : Site Blob)
    (hrow : ∀ row, s.store.entryRow entry.hash = some row → row.attempts = entry.attempts) :
    wpLog (drainEntry s.store.localLocationId peers entry : SProg Blob ε Unit)
      (EntryDone peers entry.hash s.store) s := by
  refine wpLog_bind.2 ((wpLog_db _ _).2 ?_)
  dsimp only
  cases hplan : planReplication ((s.store.getBlockFids entry.hash).getD []) s.store.localLocationId
      peers with
  | drop =>
    exact ⟨rfl, Store.elsewhere_dequeueReplication _ _, .dropped (Store.plan_drop hplan)
      (Store.entryRow_dequeueReplication _ _) fun _ => Iff.rfl⟩
  | defer =>
    refine wpLog_mono (wpLog_deferReplication peers rfl hrow) fun log r s' hdone => ?_
    exact hdone.later (List.suffix_append _ _).isInfix
  | fetchFrom candidates =>
    obtain ⟨hheld, hcandidates⟩ := Store.plan_fetchFrom hplan
    refine wpLog_bind.2 (wpLog_mono (wpLog_fetchFirst _ _ _) ?_)
    rintro log r s₁ ⟨hstore₁, found, rfl, hfrom⟩
    cases found with
    | none =>
      refine wpLog_mono (wpLog_deferReplication peers hstore₁ hrow) fun log' r s' hdone => ?_
      exact hdone.later ((List.suffix_append _ _).trans (List.suffix_append _ _)).isInfix
    | some data =>
      obtain ⟨c, hc, st, d, hcall, hd⟩ := hfrom rfl
      obtain ⟨hpeer, hlisted⟩ := hcandidates c hc
      rw [← hstore₁] at hheld
      refine wpLog_bind.2 (wpLog_attempt.2
        (wpLog_mono (wpLog_of_wp (wp_promoteBlockLocally _ data hheld)) ?_))
      rintro log' r s₂ (⟨rfl, ts, fid, hstore₂⟩ | ⟨⟨e, rfl⟩, hstore₂⟩)
      · rw [hstore₁] at hstore₂
        refine wpLog_mono (wpLog_dequeueReplication hpeer hlisted ⟨st, d, hcall, hd⟩ hstore₂) ?_
        intro log'' r s' hdone
        exact hdone.later
          ((List.prefix_append _ _).isInfix.trans (List.suffix_append _ _).isInfix)
      · refine wpLog_mono (wpLog_deferReplication peers (hstore₂.trans hstore₁) hrow) ?_
        intro log'' r s' hdone
        exact hdone.later ((List.suffix_append _ _).trans ((List.suffix_append _ _).trans
          (List.suffix_append _ _))).isInfix

/-! ### A cycle -/

/-- The turns of a page: each entry has its outcome, and nothing else changes. -/
theorem wpLog_drainEntries (peers : List (Str × Str)) {localId : Str}
    {entries : List ReplicationEntry} (hnodup : (entries.map ReplicationEntry.hash).Nodup)
    {s : Site Blob} (hid : s.store.localLocationId = localId)
    (hrows : ∀ e ∈ entries, ∀ row, s.store.entryRow e.hash = some row →
      row.attempts = e.attempts) :
    wpLog (forEach (drainEntry localId peers) entries : SProg Blob ε Unit)
      (fun log r s' => r = .ok () ∧
        Store.Elsewhere (· ∈ entries.map ReplicationEntry.hash) s.store s'.store ∧
        ∀ e ∈ entries, Store.Outcome peers log e.hash s.store s'.store) s := by
  induction entries generalizing s with
  | nil => exact ⟨rfl, .refl _ _, fun e he => absurd he List.not_mem_nil⟩
  | cons e entries ih =>
    rw [List.map_cons, List.nodup_cons] at hnodup
    obtain ⟨hrow, hrows⟩ := List.forall_mem_cons.1 hrows
    subst hid
    refine wpLog_bind.2 (wpLog_mono (wpLog_drainEntry peers s hrow) ?_)
    rintro log r s₁ ⟨rfl, helse₁, hout₁⟩
    -- the entries that are left are as they were
    have hother : ∀ e' ∈ entries, ¬ e'.hash = e.hash := by
      intro e' he' heq
      exact hnodup.1 (heq ▸ List.mem_map_of_mem he')
    have hrows₁ : ∀ e' ∈ entries, ∀ row, s₁.store.entryRow e'.hash = some row →
        row.attempts = e'.attempts := by
      intro e' he' row hrow'
      rw [helse₁.entryRow (hother e' he')] at hrow'
      exact hrows e' he' row hrow'
    refine wpLog_mono (ih hnodup.2 helse₁.id hrows₁) ?_
    rintro log' r s₂ ⟨rfl, helse₂, hout₂⟩
    refine ⟨rfl, ?_, List.forall_mem_cons.2 ⟨?_, fun e' he' => ?_⟩⟩
    · refine (helse₁.mono fun h hh => ?_).trans (helse₂.mono fun h hh => ?_)
      · exact List.mem_cons.2 (.inl hh)
      · exact List.mem_cons_of_mem _ hh
    · exact hout₁.frame (List.prefix_append _ _).isInfix (.refl _ _) helse₂ hnodup.1
    · exact (hout₂ e' he').frame (List.suffix_append _ _).isInfix helse₁ (.refl _ _)
        (hother e' he')

/-- **No entry is lost.**  `nowMs` is when the page is read, `log` the calls of the cycle. -/
structure DrainKeeps (s s' : Site Blob) (nowMs : ℤ) (log : List (Call × Site Blob)) : Prop where
  /-- An entry stays, or its block is held, or nobody is known to hold it. -/
  kept : ∀ h, s.store.Queued h →
    s'.store.Queued h ∨ s'.store.HoldsLocally h ∨ ∀ loc, ¬ s'.store.Listed h loc
  /-- An entry of the page that stays has been put off. -/
  deferred : ∀ e ∈ s.store.getReplicationQueue nowMs, ∀ row', s'.store.entryRow e.hash = some row' →
    ∃ row st, s.store.entryRow e.hash = some row ∧ DeferredAt log e.hash st ∧
      row' = row.deferred st.stampMs
  /-- Entries of other sites, entries not due and entries beyond the page are as before. -/
  unchanged : ∀ k : Str × Bytes, (k.1 ≠ s.store.localLocationId ∨
      (∃ row, s.store.replicationQueue.lookup k = some row ∧ nowMs < row.nextAttemptAt) ∨
      ∀ e ∈ s.store.getReplicationQueue nowMs, e.hash ≠ k.2) →
    s'.store.replicationQueue.lookup k = s.store.replicationQueue.lookup k
  /-- A block becomes local by a fetch from a peer it is listed at. -/
  fetched : ∀ h, s'.store.HoldsLocally h → s.store.HoldsLocally h ∨
    ∃ peer url, (peer, url) ∈ s.store.getPeers ∧ s.store.Listed h peer ∧ FetchedFrom log h url

/-- What the outcomes of a page come to. -/
theorem drainKeeps_of_outcomes {s s' : Site Blob} {nowMs : ℤ} {log : List (Call × Site Blob)}
    (helse : Store.Elsewhere
      (· ∈ (s.store.getReplicationQueue nowMs).map ReplicationEntry.hash) s.store s'.store)
    (hout : ∀ e ∈ s.store.getReplicationQueue nowMs,
      Store.Outcome s.store.getPeers log e.hash s.store s'.store) :
    DrainKeeps s s' nowMs log where
  kept h hqueued := by
    by_cases hpage : h ∈ (s.store.getReplicationQueue nowMs).map ReplicationEntry.hash
    · obtain ⟨e, he, rfl⟩ := List.mem_map.1 hpage
      exact (hout e he).kept helse.id hqueued
    · obtain ⟨row, hrow⟩ := hqueued
      exact .inl ⟨row, (helse.entryRow hpage).trans hrow⟩
  deferred e he row' hrow' := by
    have hrow := (Store.row_of_mem_getReplicationQueue he).1
    obtain ⟨st, hasked, hput⟩ := (hout e he).deferred_of_row hrow hrow'
    exact ⟨_, st, hrow, hasked, hput⟩
  unchanged k hk := by
    refine helse.rows k fun hid hmem => ?_
    obtain ⟨e, he, hhash⟩ := List.mem_map.1 hmem
    have hkey : k = (s.store.localLocationId, e.hash) := Prod.ext hid hhash.symm
    obtain ⟨hrow, hdue⟩ := Store.row_of_mem_getReplicationQueue he
    rcases hk with hne | ⟨row, hlookup, hlate⟩ | hbeyond
    · exact hne hid
    · rw [hkey, hrow, Option.some.injEq] at hlookup
      rw [← hlookup] at hlate
      exact absurd hdue (not_le.2 hlate)
    · exact hbeyond e he hhash
  fetched h hheld := by
    by_cases hpage : h ∈ (s.store.getReplicationQueue nowMs).map ReplicationEntry.hash
    · obtain ⟨e, he, rfl⟩ := List.mem_map.1 hpage
      exact (hout e he).fetched_of_held helse.id hheld
    · exact .inl ((helse.holdsLocally_iff hpage).1 hheld)

/-- **A drain loses no entry**, whatever is queued, known and registered, and whatever fetches and
promotions come to, while the disk guard does not trip. -/
theorem drain_keeps_entries (cfg : GcConfig) (s : Site Blob)
    (hguard : s.oracle.guardTrip s.tick = none) :
    ((drainReplicationQueue cfg s.store.localLocationId : SProg Blob ε Unit).exec s).2 = .ok () ∧
      DrainKeeps s
        ((drainReplicationQueue cfg s.store.localLocationId : SProg Blob ε Unit).exec s).1
        ({ s with tick := s.tick + 1 } : Site Blob).stampMs
        ((drainReplicationQueue cfg s.store.localLocationId : SProg Blob ε Unit).callLog s) := by
  have hdrain : wpLog (drainReplicationQueue cfg s.store.localLocationId : SProg Blob ε Unit)
      (fun log r s' => r = .ok () ∧
        DrainKeeps s s' ({ s with tick := s.tick + 1 } : Site Blob).stampMs log) s := by
    refine wpLog_bind.2 ((wpLog_ask _ _).2 ?_)
    rw [hguard]
    refine wpLog_bind.2 (wpLog_bind.2 (wpLog_bind.2 ((wpLog_ask _ _).2 ((wpLog_pure _).2
      ((wpLog_db _ _).2 ?_)))))
    dsimp only
    have hnodup := s.store.nodup_getReplicationQueue
      ({ s with tick := s.tick + 1 } : Site Blob).stampMs
    have hrows : ∀ nowMs, ∀ e ∈ s.store.getReplicationQueue nowMs,
        ∀ row, s.store.entryRow e.hash = some row → row.attempts = e.attempts := by
      intro nowMs e he row hrow
      rw [Store.entryRow, (Store.row_of_mem_getReplicationQueue he).1, Option.some.injEq] at hrow
      rw [← hrow]
    cases hpage : s.store.getReplicationQueue _ with
    | nil =>
      refine ⟨rfl, drainKeeps_of_outcomes (.refl _ _) fun e he => ?_⟩
      exact absurd (hpage ▸ he) List.not_mem_nil
    | cons entry entries =>
      refine wpLog_bind.2 ((wpLog_db _ _).2 ?_)
      rw [← hpage]
      refine wpLog_mono (wpLog_drainEntries _ hnodup rfl (hrows _)) ?_
      rintro log r s' ⟨rfl, helse, hout⟩
      refine ⟨rfl, drainKeeps_of_outcomes helse fun e he => ?_⟩
      exact (hout e he).later (((List.suffix_append _ _).trans (List.suffix_append _ _)).trans
        (List.suffix_append _ _)).isInfix
  exact hdrain

/-- A site with three blocks to pull: one at a peer, one at a site that is not known, and one that
is nowhere. -/
def drainedSite : Site localBlob where
  store := [[1], [2], [3]].foldl (fun st h => st.enqueueReplication 0 h [text "a"])
    ((((Store.new (text "a")).recordPeer 0 (text "p") (text "u")).upsertBlockLocation [1] (text "p")
      [] 1 1).upsertBlockLocation [2] (text "q") [] 1 1)
  blobs := (∅ : Table Bytes Bytes)
  clock := ⟨0⟩
  oracle :=
    { micros := id
      fetch := fun _ => .ok [7]
      guardTrip := fun _ => none
      putFails := fun _ => none }

/-- `drain_keeps_entries` there: all three are due. -/
theorem drain_keeps_entries_three :
    (drainedSite.store.getReplicationQueue 0).length = 3 ∧
      DrainKeeps drainedSite
        ((drainReplicationQueue ⟨300⟩ (text "a") : SProg localBlob Str Unit).exec drainedSite).1 0
        ((drainReplicationQueue ⟨300⟩ (text "a") : SProg localBlob Str Unit).callLog drainedSite) :=
  ⟨by decide, (drain_keeps_entries ⟨300⟩ drainedSite rfl).2⟩

end Site
end Shardscape
