/-
# When the order of facts matters

`docs/ARCHITECTURE.md`, "Replication — the LWW fact log": facts carry the origin's
timestamp, so application order does not affect the result.

It does, on ties.  The upsert of a row takes a write only when its timestamp is
strictly greater, so of two different rows under one timestamp the one applied
first stays (`applyFacts_tie`), and two sites that apply them in opposite orders
disagree for good.  `applyFacts_order_iff` is the exact condition: wherever two
facts of the list write different rows of one key under one timestamp, a third
fact or the row already stored beats them both.
-/

import Shardscape.Store.Facts
import Shardscape.Store.Samples

namespace Shardscape
namespace Store

open Lib

/-- The same rows of `objects` and of `users`. -/
def SameRows (s s' : Store) : Prop :=
  (∀ k, s.objects.lookup k = s'.objects.lookup k) ∧ ∀ k, s.users.lookup k = s'.users.lookup k

/-- No two facts of `l` dispute an object row or a user row of `s`. -/
def UndisputedFacts (B : Blake3) (s : Store) (l : List FactRecord) : Prop :=
  Table.Undisputed ObjectRow.updatedAt (objectWrite B) s.objects l ∧
    Table.Undisputed UserRow.updatedAt userWrite s.users l

/-- **Order independence, exactly when.**  From any store, every reordering of a
list of facts (at any clock readings) leaves the same object and user rows if and
only if the facts dispute no row. -/
theorem applyFacts_order_iff (B : Blake3) (s : Store) (l : List (ℤ × FactRecord)) :
    (∀ l' : List (ℤ × FactRecord), (l'.map Prod.snd).Perm (l.map Prod.snd) →
        SameRows (s.applyFacts B l') (s.applyFacts B l)) ↔
      UndisputedFacts B s (l.map Prod.snd) := by
  simp only [SameRows, objects_applyFacts, users_applyFacts, UndisputedFacts]
  rw [← Table.upsertAll_perm_iff, ← Table.upsertAll_perm_iff]
  constructor
  · intro h
    -- any list of records is the records of a list read at some clock
    have hrec : ∀ l' : List FactRecord, (l'.map fun r => ((0 : ℤ), r)).map Prod.snd = l' :=
      fun l' => by simp
    refine ⟨fun l' hp k => ?_, fun l' hp k => ?_⟩
    · have := (h (l'.map fun r => (0, r)) (by rwa [hrec])).1 k
      rwa [hrec] at this
    · have := (h (l'.map fun r => (0, r)) (by rwa [hrec])).2 k
      rwa [hrec] at this
  · rintro ⟨ho, hu⟩ l' hp
    exact ⟨ho _ hp, hu _ hp⟩

/-- Two puts of one key in the same microsecond, with different etags. -/
def tiedPuts : List FactRecord :=
  [⟨1, 5, .objectPut [98] [107] [] 0 [1]⟩, ⟨1, 5, .objectPut [98] [107] [] 0 [2]⟩]

/-- **Applied in two orders, tied puts leave two different rows**: each order
keeps the put it hears first. -/
theorem applyFacts_tie :
    ¬ ∀ (s : Store) (l l' : List (ℤ × FactRecord)), (l'.map Prod.snd).Perm (l.map Prod.snd) →
      SameRows (s.applyFacts Blake3.sample l') (s.applyFacts Blake3.sample l) := by
  intro h
  have hrows := (h (Store.new [97]) (tiedPuts.map fun r => (0, r))
    (tiedPuts.reverse.map fun r => (0, r)) (by decide)).1 ([98], [107])
  revert hrows
  decide

end Store
end Shardscape
