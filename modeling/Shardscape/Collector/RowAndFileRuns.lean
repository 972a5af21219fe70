/-
# Writers against the sweep, in runs

Any number of threads store and promote blocks and sweep, call by call.  In every
run whose calls exclude each other as `Shardscape.Collector.RowAndFile` asks, every
block with a row has its file, wherever the run passes (`rows_have_files`).  Where
they do not, a block stored again while it is being swept loses its file and keeps its
row, and `get_block` does not ask a peer for a block that has a row
(`row_without_file`).
-/

import Shardscape.Collector.ForcedSweep
import Shardscape.Collector.RowAndFile

namespace Shardscape
namespace RowAndFile

open Lib

variable {κ : Type} [DecidableEq κ]

/-- What the threads run: `store_block` and `promote_local` on good bytes, and
sweeps. -/
def starts (Good : Bytes → Bytes → Prop) (B : Blake3) (_ : κ)
    (p : Site.SProg localBlob Str Unit) : Prop :=
  (∃ d size, Good (B.hash d) d ∧ p = (fun _ => ()) <$> Site.storeBlock B d size) ∨
    (∃ h d, Good h d ∧ p = Site.promoteBlockLocally h d) ∨
    ∃ cfg force, p = Site.sweepOrphanedBlocks cfg force

/-- Nothing is running, and no thread is in a phase. -/
def outset (s : Site localBlob) : Site.Threads κ localBlob Str (κ → Phase) :=
  Conf.idle (s, fun _ => .idle)

/-- One move. -/
def move (Good : Bytes → Bytes → Prop) (c : Site.Threads κ localBlob Str (κ → Phase))
    (m : Move κ Call (Site localBlob) Str) : Site.Threads κ localBlob Str (κ → Phase) :=
  c.move (discipline Good) m

/-- Every block with a row has a file of good bytes. -/
def RowsHaveFiles (Good : Bytes → Bytes → Prop) (s : Site localBlob) : Prop :=
  ∀ h, s.store.HoldsLocally h → ∃ d, file s h = some d ∧ Good h d

/-- **Rows have their files**, wherever a run passes and where it ends, if no file is
put that is about to be deleted, and no row is deleted whose file has just been put. -/
theorem rows_have_files (Good : Bytes → Bytes → Prop) (B : Blake3) (s : Site localBlob)
    (hs : RowsHaveFiles Good s) (ms : List (Move κ Call (Site localBlob) Str))
    (hstart : ∀ m ∈ ms, m.Starts (starts Good B))
    (hmeets : ∀ p ∈ trace (move Good) (outset s) ms, p.1.Meets (discipline Good) p.2) :
    (∀ p ∈ trace (move Good) (outset s) ms, RowsHaveFiles Good p.1.world.1) ∧
      RowsHaveFiles Good (ms.foldl (move Good) (outset s)).world.1 := by
  have hinit : Conf.Sound (discipline Good) (fun _ _ _ => True) (outset (κ := κ) s) :=
    ⟨⟨hs, fun _ _ h => (nomatch h), fun _ _ _ h => (nomatch h), fun _ _ _ h => (nomatch h)⟩,
      fun _ => trivial⟩
  obtain ⟨hpass, hend⟩ := Conf.sound_run (starts Good B) (fun _ _ _ _ _ h => h)
    (fun i p w hp _ => by
      rcases hp with ⟨d, size, hgood, rfl⟩ | ⟨h, d, hgood, rfl⟩ | ⟨cfg, force, rfl⟩
      · exact (keeps_storeBlock hgood).seq (fun _ => keeps_pure _) w
      · exact keeps_promoteBlockLocally hgood w
      · exact keeps_sweepOrphanedBlocks cfg force w) hinit hstart hmeets
  exact ⟨fun p hp => (hpass p hp).1.row, hend.1.row⟩

/-! ### Two runs -/

instance [Fintype κ] (Good : Bytes → Bytes → Prop) (i : κ) (l : Call) (w : World κ) :
    Decidable ((discipline Good).cond i l w) := by
  show Decidable (Exclusive l w)
  unfold Exclusive
  split <;> infer_instance

/-- Any bytes. -/
def anyBytes (_ _ : Bytes) : Prop := True

/-- A forced sweep of an orphan, and the storing of the same block again, after `reap`
calls of the sweep. -/
def storedAgain (reap : ℕ) : List (Move Bool Call (Site localBlob) Str) :=
  .spawn false (Site.sweepOrphanedBlocks StorageBackend.sample.gc true) ::
    .spawn true ((fun _ => ()) <$> Site.storeBlock StorageBackend.sample.blake3 [97] 1) ::
    (List.replicate reap (Move.step false) ++ List.replicate 4 (Move.step true) ++
      List.replicate 10 (Move.step false))

/-- The run starts stores of good blocks, and sweeps. -/
theorem starts_storedAgain (reap : ℕ) : ∀ m ∈ storedAgain reap,
    m.Starts (starts anyBytes StorageBackend.sample.blake3) := by
  intro m hm
  simp only [storedAgain, List.mem_cons, List.mem_append, List.mem_replicate] at hm
  rcases hm with rfl | rfl | (⟨-, rfl⟩ | ⟨-, rfl⟩) | ⟨-, rfl⟩
  · exact Or.inr (Or.inr ⟨_, _, rfl⟩)
  · exact Or.inl ⟨_, _, trivial, rfl⟩
  · trivial
  · trivial
  · trivial

/-- The orphan has its file. -/
theorem rowsHaveFiles_orphaned : RowsHaveFiles anyBytes Race.orphaned := by
  intro h hh
  have hheld : ∀ h ∈ Race.orphaned.store.listLocalBlockHashes,
      (file Race.orphaned h).isSome = true := by decide +kernel
  obtain ⟨d, hd⟩ := Option.isSome_iff_exists.1 (hheld h (Store.mem_listLocalBlockHashes.2 hh))
  exact ⟨d, hd, trivial⟩

/-- Where the run ends. -/
def afterStoredAgain (reap : ℕ) : Site.Threads Bool localBlob Str (Bool → Phase) :=
  (storedAgain reap).foldl (move anyBytes) (outset Race.orphaned)

/-- The block is stored again after the sweep is done with it. -/
theorem rows_have_files_afterwards : RowsHaveFiles anyBytes (afterStoredAgain 10).world.1 := by
  refine (rows_have_files anyBytes StorageBackend.sample.blake3 Race.orphaned
    rowsHaveFiles_orphaned (storedAgain 10) (starts_storedAgain 10) ?_).2
  decide +kernel

/-- **A row without its file.**  The block is stored again between the deletion of its
row and that of its file; when both are done, it has a row and no file. -/
theorem row_without_file :
    RowsHaveFiles anyBytes Race.orphaned ∧
      (∀ m ∈ storedAgain 8, m.Starts (starts anyBytes StorageBackend.sample.blake3)) ∧
      (∀ i, ((afterStoredAgain 8).threads i).result = some (.ok ())) ∧
      (afterStoredAgain 8).world.1.store.HoldsLocally blockOfA ∧
      file (afterStoredAgain 8).world.1 blockOfA = none := by
  refine ⟨rowsHaveFiles_orphaned, starts_storedAgain 8, ?_, ?_, ?_⟩
  · intro i
    cases i <;> rfl
  · decide +kernel
  · decide +kernel

end RowAndFile
end Shardscape
