/-
# Rows that outlive their blocks

`delete_local_block` (`src/store.rs`) removes this site's location row and, with the
last one, the block row.  No fact says so, and the rows that other sites have for this
one stay.  So when every site has deleted a block and has heard of everything, its rows
are gone only if no other site has ever heard of it (`rows_vanish_iff`): a block that
was announced to a peer leaves its rows there for ever (`stale_rows`).
-/

import Shardscape.Backend.Samples
import Shardscape.Collector.FleetRows

namespace Shardscape
namespace Fleet

open Lib

variable {ι κ : Type} [DecidableEq ι] [DecidableEq κ] {Blob : BlobStore}
variable (S : StorageBackend) (J : PolicyJson) (cfg : ι → SiteConfig) (ids : ι ↪ Str)

/-- Every site has heard of everything the others have logged. -/
def CaughtUp (w : Sites ι κ Blob) : Prop :=
  ∀ i j, i ≠ j → (w.stores i).getCursor (ids j) = (w.stores j).factLog.length

/-- No site has a row for `h`. -/
def Forgotten (w : Sites ι κ Blob) (h : Bytes) : Prop :=
  ∀ i, ¬ (w.stores i).Recorded h ∧ ∀ loc, ¬ (w.stores i).Listed h loc

/-- **When rows vanish.**  In whatever state the fleet comes to by pulls, when no site holds `h`
any more and all have heard of everything, the rows of `h` are gone exactly if no site
ever stored it, or there is only one site. -/
theorem rows_vanish_iff (s : ι → Site Blob) (hs : ∀ i, (s i).store = Store.new (ids i))
    (es : List (SitesEvent ι κ)) (hpulls : ∀ e ∈ es, e.hears = false) (h : Bytes)
    (hgone : ∀ i, ¬ ((es.foldl (Sites.step S J cfg) (Sites.start s)).stores i).HoldsLocally h)
    (hcaught : CaughtUp ids (es.foldl (Sites.step S J cfg) (Sites.start s))) :
    Forgotten (es.foldl (Sites.step S J cfg) (Sites.start s)) h ↔
      (∀ i, ¬ ((es.foldl (Sites.step S J cfg) (Sites.start s)).stores i).Announced h) ∨
        Subsingleton ι := by
  have hinv : Inv ids (es.foldl (Sites.step S J cfg) (Sites.start s)).stores :=
    (invariant_at_end (P := Sound ids) (C := fun _ e => e.hears = false)
      (fun _ _ hw he => hw.step he) (sound_start s hs)
      fun p hp => hpulls p.2 (mem_of_mem_trace hp)).2
  generalize es.foldl (Sites.step S J cfg) (Sites.start s) = w at hgone hcaught hinv
  have hempty : (∀ i loc, ¬ (w.stores i).Listed h loc) → Forgotten w h := fun hno i =>
    ⟨fun hrec => ((hinv.matched i h).1 hrec).elim (hno i), hno i⟩
  constructor
  · intro hforgot
    by_contra hno
    obtain ⟨hann, hmany⟩ := not_or.1 hno
    obtain ⟨j, ha⟩ := not_forall_not.1 hann
    -- another site has heard of it
    obtain ⟨i, hij⟩ : ∃ i, i ≠ j := by
      by_contra hall
      exact hmany ⟨fun a b => (not_exists_not.1 hall a).trans (not_exists_not.1 hall b).symm⟩
    obtain ⟨e, he, loc, hloc⟩ := ha
    obtain ⟨n, hn⟩ := List.mem_iff_getElem?.1 he
    have hrec : (⟨n + 1, e.1, e.2⟩ : FactRecord) ∈ Store.factRecords (w.stores j).factLog :=
      Store.mem_factRecords.2 ⟨Nat.succ_pos n, hn⟩
    refine (hforgot i).2 loc ((hinv.heard i j hij).rows _ hrec ?_ h loc hloc)
    rw [hcaught i j hij]
    exact Store.seq_le_of_mem_factRecords hrec
  · rintro (hnone | hone) <;> refine hempty fun i loc hl => ?_
    · obtain ⟨j, -, ha⟩ := hinv.listed i h loc hl
      exact hnone j ha
    · obtain ⟨j, rfl, -⟩ := hinv.listed i h loc hl
      rw [Subsingleton.elim j i, ← hinv.own i] at hl
      exact hgone i hl

/-! ### Runs -/

/-- Fresh sites of these names. -/
def freshSites (ids : ι ↪ Str) (i : ι) : Site localBlob :=
  { freshSite with store := Store.new (ids i) }

/-- What they tell each other of themselves. -/
def freshConfig (ids : ι ↪ Str) (i : ι) : SiteConfig := ⟨ids i, []⟩

/-- Where a run of theirs ends. -/
def fleetAfter (ids : ι ↪ Str) (es : List (SitesEvent ι Unit)) : Sites ι Unit localBlob :=
  es.foldl (Sites.step StorageBackend.sample (PolicyJson.withShort allowAll) (freshConfig ids))
    (Sites.start (freshSites ids))

/-- A job of the site `i`, run to its end. -/
def whole (i : ι) (job : Job) : List (SitesEvent ι Unit) :=
  .begin i () job :: List.replicate 20 (.step i ())

/-- The site `i` stores an object of one byte. -/
def puts (i : ι) (key : Str) : List (SitesEvent ι Unit) :=
  .createUser i 0 (text "u") (text "secret") allowAll ::
    whole i (.s3 (some (text "u")) (.putObject (text "b") key (some [.ok [97]])))

/-- The site `i` deletes its object and sweeps. -/
def forgets (i : ι) (key : Str) : List (SitesEvent ι Unit) :=
  whole i (.s3 (some (text "u")) (.deleteObject (text "b") key)) ++ whole i (.sweep true)

instance (w : Sites (Fin 2) Unit localBlob) : Decidable (CaughtUp twoNames w) :=
  inferInstanceAs (Decidable (∀ i j, i ≠ j → _ = _))

/-- A site by itself stores a block and deletes it. -/
def forgetsAlone : List (SitesEvent Unit Unit) := puts () (text "k") ++ forgets () (text "k")

/-- It has announced the block, and has no row of it any more. -/
theorem rows_vanish_alone :
    ((fleetAfter (.punit (text "a")) forgetsAlone).stores ()).Announced blockOfA ∧
      Forgotten (fleetAfter (.punit (text "a")) forgetsAlone) blockOfA := by
  have hannounced :
      ((fleetAfter (.punit (text "a")) forgetsAlone).stores ()).Announced blockOfA := by
    decide +kernel
  refine ⟨hannounced, (rows_vanish_iff StorageBackend.sample (PolicyJson.withShort allowAll)
    (freshConfig (.punit (text "a"))) (.punit (text "a")) _ (fun _ => rfl) forgetsAlone ?_ _ ?_
    fun i j hij => absurd rfl hij).2 (Or.inr inferInstance)⟩
  · decide
  · decide +kernel

/-- `a` forgets its block, and `b` hears of everything. -/
def heardLate : List (SitesEvent (Fin 2) Unit) :=
  puts 0 (text "k") ++ forgets 0 (text "k") ++ [.pull 1 0 0]

/-- **Stale rows.**  Nobody holds the block any more, both sites have heard of
everything, and `b` has its rows. -/
theorem stale_rows :
    (∀ e ∈ heardLate, e.hears = false) ∧
      (∀ i, ((fleetAfter twoNames heardLate).stores i).Announced blockOfA ↔ i = 0) ∧
      (∀ i, ¬ ((fleetAfter twoNames heardLate).stores i).HoldsLocally blockOfA) ∧
      CaughtUp twoNames (fleetAfter twoNames heardLate) ∧
      ((fleetAfter twoNames heardLate).stores 1).Recorded blockOfA ∧
      ((fleetAfter twoNames heardLate).stores 1).Listed blockOfA (twoNames 0) := by
  refine ⟨by decide, ?_, ?_, ?_, ?_, ?_⟩
  all_goals decide +kernel

end Fleet
end Shardscape
