/-
# Acknowledged writes and the cluster clock

`src/clock.rs` and the mutators of `src/store.rs`.  `ClusterClock` adds an offset
to the system time "to ensure causal consistency across locations even with system
clock drift", and `refresh_clock_offset` of `main.rs` moves that offset in either
direction.  A mutation is stamped with the sum, never pushed past a stamp the site
has already issued or applied, and the upsert keeps the stored row unless the stamp
is strictly greater, while the call returns `Ok` in every case.

A run mixes local mutations, facts of peers and offset updates (`SiteEvent`).
`acknowledged_iff` says exactly when every mutation acknowledged in a run is what
the very next read returns: when each is stamped later than every mutation of its
key that the site issued or applied before, or the key already reads as what it
writes.  Two writes in one microsecond are enough to break it
(`not_acknowledged`).
-/

import Shardscape.Clock
import Shardscape.Lib.Run
import Shardscape.Store.Facts
import Shardscape.Store.Samples

namespace Shardscape

open Lib

/-- A block hash as the callers of `insert_object` pass it: 32 bytes. -/
abbrev BlockHash := { b : Bytes // b.length = 32 }

/-- What happens at one site: a mutation at a `SystemTime` reading, a fact of a
peer, an offset update. -/
inductive SiteEvent where
  | insertObject (sys : ℤ) (bucket : Str) (shardId : ℤ) (key : Str) (blocks : List BlockHash)
      (size : ℤ) (etag : Str)
  | deleteObject (sys : ℤ) (bucket key : Str)
  | createUser (sys : ℤ) (accessKey secretKey : Str) (policy : Policy)
  | storeLocalBlock (sys : ℤ) (hash fid : Bytes) (size : ℤ)
  | applyFact (nowMs : ℤ) (rec : FactRecord)
  | setOffset (offsetMs : ℤ)
  | refreshOffset (clusterTimeMicros rttMicros localNowMicros : ℤ)

/-- A site and its clock; `stamps` records the object mutations it has issued or
applied, with their timestamps, and no code reads it. -/
structure ClockedSite where
  store : Store
  clock : ClusterClock
  stamps : List ((Str × Str) × ℤ) := []

namespace ClockedSite

/-- One event. -/
def step (B : Blake3) (J : PolicyJson) (st : ClockedSite) : SiteEvent → ClockedSite
  | .insertObject sys bucket shardId key blocks size etag =>
    let ts := st.clock.nowMicros sys
    { st with
      store := st.store.insertObject ts bucket shardId key (blocks.map (·.1)) size etag
      stamps := ((bucket, key), ts) :: st.stamps }
  | .deleteObject sys bucket key =>
    let ts := st.clock.nowMicros sys
    { st with
      store := st.store.deleteObject B ts bucket key
      stamps := ((bucket, key), ts) :: st.stamps }
  | .createUser sys accessKey secretKey policy =>
    { st with store := st.store.createUser J (st.clock.nowMicros sys) accessKey secretKey policy }
  | .storeLocalBlock sys hash fid size =>
    { st with store := st.store.storeLocalBlock (st.clock.nowMicros sys) hash fid size }
  | .applyFact nowMs rec =>
    { st with
      store := st.store.applyFactD B nowMs rec
      stamps := match Store.objectWrite B rec with
        | some (k, row) => (k, row.updatedAt) :: st.stamps
        | none => st.stamps }
  | .setOffset offsetMs => { st with clock := st.clock.setOffset offsetMs }
  | .refreshOffset cluster rtt localNow =>
    { st with clock := st.clock.refreshOffset cluster rtt localNow }

/-- The object mutation of an event at `st`: its key, its timestamp, and what a
read of the key should return next. -/
def mutation (st : ClockedSite) :
    SiteEvent → Option ((Str × Str) × ℤ × Option (List Bytes × ℤ × Str))
  | .insertObject sys bucket _ key blocks size etag =>
    some ((bucket, key), st.clock.nowMicros sys, some (blocks.map (·.1), size, etag))
  | .deleteObject sys bucket key => some ((bucket, key), st.clock.nowMicros sys, none)
  | _ => none

/-- The read that follows a mutation returns what it wrote. -/
def ReadsBack (B : Blake3) (J : PolicyJson) (st : ClockedSite) (e : SiteEvent) : Prop :=
  ∀ k ts written, st.mutation e = some (k, ts, written) →
    (st.step B J e).store.getObject k.1 k.2 = written

/-- The mutation is stamped later than every mutation of its key before it, or the
key already reads as what it writes. -/
def Supersedes (st : ClockedSite) (e : SiteEvent) : Prop :=
  ∀ k ts written, st.mutation e = some (k, ts, written) →
    (∀ t, (k, t) ∈ st.stamps → t < ts) ∨ st.store.getObject k.1 k.2 = written

/-- Every row is stamped with the latest mutation of its key. -/
def Stamped (st : ClockedSite) : Prop :=
  Table.Reflects id ObjectRow.updatedAt some { e | e ∈ st.stamps } st.store.objects

/-- A site with no data. -/
def new (localLocationId : Str) (offsetMs : ℤ) : ClockedSite where
  store := Store.new localLocationId
  clock := ⟨offsetMs⟩

/-- A new database has no stamps. -/
theorem stamped_new (loc : Str) (offsetMs : ℤ) : (new loc offsetMs).Stamped :=
  Table.Reflects.empty (by ext e; simp [new])

/-- Writing an object row, and recording its stamp. -/
theorem Stamped.putObjectRow {st st' : ClockedSite} (h : st.Stamped) {bucket key : Str}
    {row : ObjectRow} (hobj : st'.store.objects = (st.store.putObjectRow bucket key row).objects)
    (hst : st'.stamps = ((bucket, key), row.updatedAt) :: st.stamps) : st'.Stamped := by
  have hset : { e | e ∈ st'.stamps } =
      insert ((bucket, key), row.updatedAt) { e | e ∈ st.stamps } := by
    ext e
    simp [hst]
  rw [Stamped, hset, hobj]
  exact Table.Reflects.upsertNewer h (fun _ => rfl) rfl

/-- Neither the objects nor the stamps change. -/
theorem Stamped.congr {st st' : ClockedSite} (h : st.Stamped)
    (hobj : st'.store.objects = st.store.objects) (hst : st'.stamps = st.stamps) :
    st'.Stamped := by
  rw [Stamped, hobj, hst]
  exact h

variable {st : ClockedSite}

/-- The row of a key carries one of its stamps. -/
theorem Stamped.mem_stamps (h : st.Stamped) {k : Str × Str} {row : ObjectRow}
    (hrow : st.store.objects.lookup k = some row) : (k, row.updatedAt) ∈ st.stamps := by
  obtain ⟨e, he, hk⟩ := (h k).1 row.updatedAt (by rw [hrow, Option.map_some])
  exact Option.some.inj hk ▸ he

/-- No stamp of a key is later than its row's. -/
theorem Stamped.exists_le (h : st.Stamped) {k : Str × Str} {t : ℤ} (ht : (k, t) ∈ st.stamps) :
    ∃ row, st.store.objects.lookup k = some row ∧ t ≤ row.updatedAt := by
  obtain ⟨t', ht', hle⟩ := (h k).2 t ⟨(k, t), ht, rfl⟩
  obtain ⟨row, hrow, rfl⟩ := Option.map_eq_some_iff.1 ht'
  exact ⟨row, hrow, hle⟩

/-- Every event keeps the rows stamped with the latest mutation. -/
theorem stamped_step (B : Blake3) (J : PolicyJson) (h : st.Stamped) (e : SiteEvent) :
    (st.step B J e).Stamped := by
  cases e with
  | insertObject sys bucket shardId key blocks size etag => exact h.putObjectRow rfl rfl
  | deleteObject sys bucket key => exact h.putObjectRow rfl rfl
  | createUser sys accessKey secretKey policy => exact h.congr rfl rfl
  | storeLocalBlock sys hash fid size => exact h.congr rfl rfl
  | applyFact nowMs rec =>
    have hobj := Store.objects_applyFactD B st.store nowMs rec
    cases hw : Store.objectWrite B rec with
    | none =>
      rw [hw] at hobj
      exact h.congr hobj (by simp only [step, hw])
    | some kv =>
      rw [hw] at hobj
      exact h.putObjectRow hobj (by simp only [step, hw])
  | setOffset offsetMs => exact h.congr rfl rfl
  | refreshOffset cluster rtt localNow => exact h.congr rfl rfl

/-- What a mutation does: it hands its key's register a row with its stamp that
reads as what it writes. -/
theorem mutation_spec (B : Blake3) (J : PolicyJson) {e : SiteEvent} {k : Str × Str} {ts : ℤ}
    {written : Option (List Bytes × ℤ × Str)} (h : st.mutation e = some (k, ts, written)) :
    ∃ row : ObjectRow, row.updatedAt = ts ∧ Store.readRow row = written ∧
      (st.step B J e).store.objects.lookup k =
        Lww.merge ObjectRow.updatedAt (st.store.objects.lookup k) row := by
  cases e with
  | insertObject sys bucket shardId key blocks size etag =>
    simp only [mutation, Option.some.injEq, Prod.mk.injEq] at h
    obtain ⟨rfl, rfl, rfl⟩ := h
    refine ⟨_, rfl, Store.readRow_live (fun b hb => ?_) size etag shardId _,
      (Store.lookup_putObjectRow _ _ _ _ _).trans (if_pos rfl)⟩
    obtain ⟨b', -, rfl⟩ := List.mem_map.1 hb
    exact b'.2
  | deleteObject sys bucket key =>
    simp only [mutation, Option.some.injEq, Prod.mk.injEq] at h
    obtain ⟨rfl, rfl, rfl⟩ := h
    exact ⟨_, rfl, Store.readRow_tombstone B key _,
      (Store.lookup_putObjectRow _ _ _ _ _).trans (if_pos rfl)⟩
  | createUser _ _ _ _ => simp [mutation] at h
  | storeLocalBlock _ _ _ _ => simp [mutation] at h
  | applyFact _ _ => simp [mutation] at h
  | setOffset _ => simp [mutation] at h
  | refreshOffset _ _ _ => simp [mutation] at h

/-- One step from a state whose rows are stamped: the mutation reads back exactly
when it supersedes. -/
theorem readsBack_iff_supersedes (B : Blake3) (J : PolicyJson) (hst : st.Stamped) (e : SiteEvent) :
    st.ReadsBack B J e ↔ st.Supersedes e := by
  refine forall_congr' fun k => forall_congr' fun ts => forall_congr' fun written =>
    imp_congr_right fun hm => ?_
  obtain ⟨row, hts, hread, hstep⟩ := mutation_spec B J hm
  rcases Lww.merge_cases ObjectRow.updatedAt (st.store.objects.lookup k) row with
    ⟨htaken, hold⟩ | ⟨old, hold, hle, hkept⟩
  · -- the write is taken: nothing heard before reaches its stamp
    have hread' : (st.step B J e).store.getObject k.1 k.2 = written := by
      rw [Store.getObject, hstep, htaken, Option.bind_some, hread]
    refine iff_of_true hread' (Or.inl fun t ht => ?_)
    obtain ⟨old, hlook, hle⟩ := hst.exists_le ht
    exact hts ▸ hle.trans_lt (hold old hlook)
  · -- the write is ignored: the read still returns the old row
    have hsame : (st.step B J e).store.getObject k.1 k.2 = st.store.getObject k.1 k.2 := by
      rw [Store.getObject, Store.getObject, hstep, hkept]
    rw [hsame]
    refine ⟨Or.inr, fun h => h.resolve_left fun hlt => ?_⟩
    exact absurd (hlt _ (hst.mem_stamps hold)) (hts ▸ hle).not_gt

/-- **Acknowledged writes, exactly when.**  In every run of a site from an empty
store, every insert and delete is what the next read of its key returns if and only
if each is stamped later than every mutation of its key the site has issued or
applied before, or finds the key already reading as what it writes. -/
theorem acknowledged_iff (B : Blake3) (J : PolicyJson) (loc : Str) (offsetMs : ℤ)
    (es : List SiteEvent) :
    (∀ p ∈ trace (step B J) (new loc offsetMs) es, ReadsBack B J p.1 p.2) ↔
      ∀ p ∈ trace (step B J) (new loc offsetMs) es, Supersedes p.1 p.2 := by
  have hst : ∀ p ∈ trace (step B J) (new loc offsetMs) es, Stamped p.1 :=
    invariant_of_trace (P := Stamped) (C := fun _ _ => True) (fun _ e h _ => stamped_step B J h e)
      (stamped_new loc offsetMs) fun _ _ => trivial
  exact forall_congr' fun p => forall_congr' fun hp =>
    readsBack_iff_supersedes B J (hst p hp) p.2

/-- The system time an event reads to stamp a mutation. -/
def systemTime : SiteEvent → Option ℤ
  | .insertObject sys .. => some sys
  | .deleteObject sys .. => some sys
  | .createUser sys .. => some sys
  | .storeLocalBlock sys .. => some sys
  | _ => none

/-- Two inserts of one key in one microsecond, no offset ever set. -/
def hastyInserts : List SiteEvent :=
  [.insertObject 7 [98] 0 [107] [] 0 [1], .insertObject 7 [98] 0 [107] [] 0 [2]]

/-- **An acknowledged insert is lost** though the system time never goes back: the
second of two inserts in one microsecond returns, and the next read gives the
first. -/
theorem not_acknowledged :
    ¬ ∀ es : List SiteEvent, (es.filterMap systemTime).Pairwise (· ≤ ·) →
      ∀ p ∈ trace (step Blake3.sample PolicyJson.sample) (new [97] 0) es,
        ReadsBack Blake3.sample PolicyJson.sample p.1 p.2 := by
  intro h
  have hmem : (_, SiteEvent.insertObject 7 [98] 0 [107] [] 0 [2]) ∈
      trace (step Blake3.sample PolicyJson.sample) (new [97] 0) hastyInserts :=
    List.mem_cons_of_mem _ List.mem_cons_self
  have hread := h hastyInserts (by decide) _ hmem _ _ _ rfl
  revert hread
  decide

end ClockedSite
end Shardscape
