/-
# The last copy

The invariant along every run (`inv_step`), and what it gives: in every run in which
time does not go back, every fact is applied everywhere within the grace period and
every step is careful, no sweep deletes the last copy of a block that some site
names (`no_last_copy_deleted`).

Without care it does.  `copy_object` writes a manifest from the row it finds and
needs no bytes: in `copiedRun false` a site copies an object whose block it has not
fetched yet, after the origin has deleted the object and marked its block.  The mark
is older than the copy, and runs out before the copy is due at the origin
(`last_copy_deleted`).
-/

import Shardscape.Backend.Samples
import Shardscape.Collector.LastCopyRequests
import Shardscape.Collector.LastCopySweep

namespace Shardscape
namespace Cluster

open Lib StorageBackend

variable {ι : Type} [DecidableEq ι] {Blob : BlobStore} {S : StorageBackend}
  {c : Cluster ι Blob} {e : ClusterEvent ι}

/-- The invariant, of a cluster. -/
abbrev Sound (S : StorageBackend) (c : Cluster ι Blob) : Prop :=
  Inv S.blake3 S.gc c.ledger c.stores

/-- A step is opened. -/
theorem inv_opened (h : Sound S c) (hnow : c.ledger.now ≤ e.micros) :
    Inv S.blake3 S.gc (c.opened e) c.stores where
  origin := h.origin
  heard := h.heard
  answers j rec k row b hw hdel hb := by
    refine (h.answers j rec k row b hw hdel hb).later hnow fun j' rec' _ _ hw' => if_neg ?_
    have := Store.seq_le_of_mem_factRecords hw'.1
    omega
  parts := h.parts
  times j n := by
    show (if j = e.site ∧ (c.stores j).factLog.length < n then e.micros
      else c.ledger.loggedAt j n) ≤ e.micros
    split_ifs
    · exact le_rfl
    · exact (h.times j n).trans hnow
  known := h.known

/-- An event moves the database of one site. -/
theorem stores_step (S : StorageBackend) (c : Cluster ι Blob) (e : ClusterEvent ι) :
    (c.step S e).stores = moved c.stores e.site (e.toAct.after S c.sites).store := by
  funext j
  by_cases hj : j = e.site
  · subst hj
    rw [moved_self, stores]
    exact congrArg Site.store (Function.update_self ..)
  · rw [moved_of_ne hj]
    exact congrArg Site.store (Function.update_of_ne hj ..)

/-- What a sweep does to the tables. -/
theorem swept_after (hact : e.act = .sweep false) (hfits : S.gc.Fits e.micros) :
    SweptTo S.gc (e.micros / 1000 : ℕ) (c.stores e.site) (e.toAct.after S c.sites).store := by
  have hact' : e.toAct.act = .sweep false := hact
  unfold ActEvent.after
  rw [hact']
  exact wp_sweepOrphanedBlocks (s := e.toAct.before c.sites) (fun _ => rfl) hfits

/-- **A careful step keeps the invariant.** -/
theorem inv_step (h : Sound S c) (hnow : c.ledger.now ≤ e.micros) (hfits : S.gc.Fits e.micros)
    (hcare : c.Careful S e) : Sound S (c.step S e) := by
  have hopen := inv_opened h hnow
  have hsite : c.stores e.site = (e.toAct.before c.sites).store := rfl
  have hact : e.toAct.act = e.act := rfl
  unfold Sound
  rw [stores_step]
  unfold Careful at hcare
  unfold step ActEvent.after
  rw [hact]
  cases hact : e.act with
  | request r =>
    rw [hact] at hcare
    exact wp_serve hopen hsite (fun _ => rfl) hcare
  | get bucket key range => exact hopen.kept hsite (wp_getObject bucket key range)
  | pull peer =>
    dsimp only
    unfold ActEvent.pulled
    split_ifs with hself
    · rw [noted_nil]
      exact hopen.quiet (Quiet.refl _)
    · exact hopen.pullPage hself _
  | drain =>
    rw [hact] at hcare
    exact hopen.kept hsite (wp_drainReplicationQueue S.gc _ (Option.isNone_iff_eq_none.1 hcare))
  | sweep force =>
    rw [hact] at hcare
    obtain rfl : force = false := hcare
    exact hopen.swept (wp_sweepOrphanedBlocks (s := e.toAct.before c.sites) (fun _ => rfl) hfits)
  | recordPeer locationId apiUrl => exact hopen.kept hsite (wp_recordPeer locationId apiUrl)

omit [DecidableEq ι] in
/-- A fresh cluster. -/
theorem inv_fresh {ids : ι ↪ Str} (hnew : ∀ i, c.stores i = Store.new (ids i))
    (hledger : c.ledger = {}) : Sound S c := by
  have hno : ∀ j rec k row, ¬ Wrote S.blake3 c.stores j rec k row := by
    rintro j rec k row ⟨hrec, -⟩
    rw [hnew] at hrec
    exact nomatch hrec
  refine ⟨fun j k row hrow => ?_, fun j j' rec k row hw => (hno _ _ _ _ hw).elim,
    fun j rec k row b hw => (hno _ _ _ _ hw).elim, fun j b hb => ?_, fun j n => ?_,
    fun j j' n hn => ?_⟩
  · rw [hnew] at hrow
    exact nomatch hrow
  · obtain ⟨k, row, hrow, -⟩ := hb
    rw [hnew] at hrow
    exact nomatch hrow
  · rw [hledger]
  · rw [hledger] at hn
    exact nomatch hn

/-- A step deletes the last copy of a block that some site names. -/
def LastCopyLost (c c' : Cluster ι Blob) (h : Bytes) : Prop :=
  c.NamedSomewhere h ∧ c.HeldSomewhere h ∧ ¬ c'.HeldSomewhere h

/-- **No sweep deletes the last copy** of a block that a live row or a part names at
any site, in every run of careful steps in which time does not go back, facts are applied
everywhere within the grace period, and grace periods end within the range of `i64`. -/
theorem no_last_copy_deleted (S : StorageBackend) (ids : ι ↪ Str) (c₀ : Cluster ι Blob)
    (hnew : ∀ i, c₀.stores i = Store.new (ids i)) (hledger : c₀.ledger = {})
    (es : List (ClusterEvent ι)) (hfits : ∀ e ∈ es, S.gc.Fits e.micros)
    (htime : ∀ p ∈ trace (step S) c₀ es, p.1.ledger.now ≤ p.2.micros)
    (htimely : ∀ p ∈ trace (step S) c₀ es, Timely S.gc p.1 p.2.micros)
    (hcare : ∀ p ∈ trace (step S) c₀ es, p.1.Careful S p.2) :
    ∀ p ∈ trace (step S) c₀ es, p.2.act = .sweep false →
      ∀ h, ¬ LastCopyLost p.1 (p.1.step S p.2) h := by
  have hstep : ∀ (c : Cluster ι Blob) (e : ClusterEvent ι), Sound S c →
      (c.ledger.now ≤ e.micros ∧ S.gc.Fits e.micros ∧ c.Careful S e) → Sound S (c.step S e) := by
    rintro c e h ⟨hnow, hfit, hcareful⟩
    exact inv_step h hnow hfit hcareful
  have hsound := invariant_of_trace hstep (inv_fresh hnew hledger)
    fun p hp => ⟨htime p hp, hfits p.2 (mem_of_mem_trace hp), hcare p hp⟩
  rintro p hp hact h ⟨⟨j, hname⟩, -, hlost⟩
  have hopen := inv_opened (hsound p hp) (htime p hp)
  -- the ledger of the step agrees with that of the cluster on what is logged
  have hdue : ∀ i j, i ≠ j → ∀ rec ∈ Store.factRecords (p.1.stores j).factLog,
      due S.gc ((p.1.opened p.2).loggedAt j rec.seq) ≤ ((p.1.opened p.2).now / 1000 : ℕ) →
        (j, rec.seq) ∈ (p.1.opened p.2).applied i := by
    intro i j hij rec hrec hle
    have hat : (p.1.opened p.2).loggedAt j rec.seq = p.1.ledger.loggedAt j rec.seq :=
      if_neg fun hc => absurd (Store.seq_le_of_mem_factRecords hrec) (by omega)
    rw [hat] at hle
    exact htimely p hp i j hij rec hrec hle
  obtain ⟨q, hq⟩ := hopen.held_of_swept
    (swept_after hact (hfits p.2 (mem_of_mem_trace hp))) hdue hname
  exact hlost ⟨q, by rwa [stores_step]⟩

/-! ### Two runs -/

instance (c : Cluster ι Blob) (h : Bytes) [Fintype ι] : Decidable (c.NamedSomewhere h) :=
  decidable_of_iff (∃ i, h ∈ (c.stores i).computeLiveBlockSet)
    (exists_congr fun _ => Store.mem_computeLiveBlockSet)

instance (c : Cluster ι Blob) (h : Bytes) [Fintype ι] : Decidable (c.HeldSomewhere h) :=
  inferInstanceAs (Decidable (∃ i, (c.stores i).HoldsLocally h))

instance (c c' : Cluster ι Blob) (h : Bytes) [Fintype ι] : Decidable (LastCopyLost c c' h) :=
  inferInstanceAs (Decidable (_ ∧ _ ∧ ¬ _))

instance (cfg : GcConfig) (c : Cluster ι Blob) (micros : ℕ) [Fintype ι] :
    Decidable (Timely cfg c micros) :=
  inferInstanceAs (Decidable (∀ i j, i ≠ j → ∀ rec ∈ Store.factRecords (c.stores j).factLog,
    due cfg (c.ledger.loggedAt j rec.seq) ≤ (micros / 1000 : ℕ) →
      (j, rec.seq) ∈ c.ledger.applied i))

instance (S : StorageBackend) (c : Cluster ι Blob) (e : ClusterEvent ι) :
    Decidable (c.Careful S e) := by
  unfold Careful
  split <;> infer_instance

/-- Two fresh sites, `a` and `b`. -/
def twoSites : Cluster (Fin 2) localBlob where
  sites i := { freshSite with store := Store.new (twoNames i) }

/-- A step of a site, `t` seconds after the start. -/
def event (i : Fin 2) (t : ℕ) (act : SiteAct (Fin 2)) : ClusterEvent (Fin 2) where
  site := i
  micros := t * 1000000
  act := act

/-- The object `k`, with one block. -/
def putK : Request := .putObject (text "bucket") (text "k") (some [.ok [97]])

/-- The object `k` copied to `l`. -/
def copyK : Request :=
  .copyObject (.bucket (text "bucket") (text "k")) (text "bucket") (text "l")

/-- Site `a` stores the object and `b` hears of it.  If `b` `drains`, it has recorded `a` and
fetches the block, and `a` hears of that.  Then `a` deletes the object and marks its block,
`b` copies the object, and hears of its deletion. -/
def copiedRun (drains : Bool) : List (ClusterEvent (Fin 2)) :=
  [event 0 0 (.request putK), event 1 10 (.pull 0)] ++
  (if drains then
    [event 1 11 (.recordPeer (text "a") (text "http://a")),
      { event 1 12 .drain with fetch := fun _ => .ok [97] }, event 0 14 (.pull 1)]
  else []) ++
  [event 0 20 (.request (.deleteObject (text "bucket") (text "k"))), event 0 30 (.sweep false),
    event 1 35 (.request copyK), event 1 300 (.pull 0)]

/-- Where `b` has fetched the block before it copies the object, the sweep of `a` at 331 seconds
deletes one copy of it, and not the last: `b` names the block and holds it. -/
theorem no_last_copy_deleted_fetched :
    let c := (copiedRun true).foldl (step sample) twoSites
    let c' := c.step sample (event 0 331 (.sweep false))
    (c.stores 0).HoldsLocally blockOfA ∧
      ¬ (c'.stores 0).HoldsLocally blockOfA ∧
      blockOfA ∈ (c'.stores 1).computeLiveBlockSet ∧
      ¬ LastCopyLost c c' blockOfA := by
  refine ⟨by decide +kernel, by decide +kernel, by decide +kernel,
    no_last_copy_deleted sample twoNames twoSites
    (fun _ => rfl) rfl (copiedRun true ++ [event 0 331 (.sweep false)]) ?_ ?_ ?_ ?_
    (_, event 0 331 (.sweep false)) ?_ rfl _⟩
  · decide +kernel
  · decide +kernel
  · decide +kernel
  · decide +kernel
  · rw [trace_append]
    exact List.mem_append_right _ List.mem_cons_self

/-- **A sweep deletes the last copy.**  Every fact is applied at the other site
within the grace period of 300 seconds, that of the copy too: it is logged at 35,
and pulled at 334.  At 331 the mark of `a` has run out, and the only copy of the
block that `b` names goes. -/
theorem last_copy_deleted :
    (∀ p ∈ trace (step sample) twoSites
        (copiedRun false ++ [event 0 331 (.sweep false), event 0 334 (.pull 1)]),
      p.1.ledger.now ≤ p.2.micros ∧ Timely sample.gc p.1 p.2.micros) ∧
    (∃ p ∈ trace (step sample) twoSites
        (copiedRun false ++ [event 0 331 (.sweep false), event 0 334 (.pull 1)]),
      p.2.act = .sweep false ∧ LastCopyLost p.1 (p.1.step sample p.2) blockOfA) ∧
    Timely sample.gc ((copiedRun false ++ [event 0 331 (.sweep false), event 0 334 (.pull 1)]).foldl
      (step sample) twoSites) (10 ^ 12) := by
  refine ⟨?_, ⟨((copiedRun false).foldl (step sample) twoSites, event 0 331 (.sweep false)), ?_,
    rfl, ?_⟩, ?_⟩
  · decide +kernel
  · rw [trace_append]
    exact List.mem_append_right _ List.mem_cons_self
  · decide +kernel
  · decide +kernel

end Cluster
end Shardscape
