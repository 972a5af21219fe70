/-
# A request against the sweep

`docs/ARCHITECTURE.md`, "Garbage collection", and the comment in `store_block` say
that the grace period covers the window between the storing of a block and the
writing of the manifest that protects it.  Here one request that receives a body
runs side by side with scheduled sweeps, call by call.

The ghost remembers which blocks the request has looked up, whether its row is
written, whether the sweep that is running took its live set before that, and the
reading of that sweep.  A block is `Kept` once the request relies on it: it is held,
its mark has not run out at the reading of such a sweep, and once the row is written
it is named.  Requests never touch the marks of the collector, and sweeps spare what
is kept (`RequestStep`, `SweepStep`), under a condition on the calls (`Cond`): a sweep
whose live set is older than the row finds no block of the request due.
-/

import Shardscape.Backend.Handlers

namespace Shardscape

open Lib

variable {Blob : BlobStore}

/-- The two sides. -/
inductive Actor where
  | request
  | sweep
  deriving DecidableEq

/-- What the run has come to: the oracle's count when the request began, the blocks it
has looked up in `store_block`, whether its row is written, whether the sweep that is
running took its live set before that, and the milliseconds that sweep has read. -/
structure RaceGhost where
  start : Option ℕ := none
  looked : List Bytes := []
  written : Bool := false
  stale : Bool := false
  read : Option ℤ := none

/-- A site with the ghost. -/
abbrev Race (Blob : BlobStore) := Site Blob × RaceGhost

/-- The ghost after a call: a request begins with the disk guard, looks its blocks up
and ends with its row; a sweep begins with the live set and then reads the clock. -/
def raceRecord (i : Actor) (g : RaceGhost) (l : Call) (s : Site Blob) : RaceGhost :=
  match i, l with
  | .request, .diskGuard => { g with start := some s.tick }
  | .request, .getLocalBlockFid h => { g with looked := h :: g.looked }
  | .request, .insertObject _ _ => { g with written := true }
  | .request, .insertPart _ _ _ => { g with written := true }
  | .sweep, .computeLiveBlockSet => { g with stale := !g.written, read := none }
  | .sweep, .systemTime => { g with read := some (s.oracle.micros s.tick / 1000 : ℕ) }
  | _, _ => g

namespace Race

/-- A live manifest or a part names `h`. -/
def Named (s : Store) (h : Bytes) : Prop := s.NamedByObject h ∨ s.NamedByPart h

/-- At the reading `now` the mark of `h`, if there is one, has not run out. -/
def NotDue (s : Store) (now : ℤ) (h : Bytes) : Prop :=
  ∀ t ∈ s.pendingDeletions.lookup h, now < t

/-- If the sweep that is running took its live set before the row was written and has
read the clock, then `h` was not due at its reading. -/
def Spared (w : Race Blob) (h : Bytes) : Prop :=
  w.2.stale = true → ∀ now ∈ w.2.read, NotDue w.1.store now h

/-- The request can rely on `h`. -/
structure Kept (w : Race Blob) (h : Bytes) : Prop where
  looked : h ∈ w.2.looked
  held : w.1.store.HoldsLocally h
  spared : Spared w h
  named : w.2.written = true → Named w.1.store h

/-- The condition on the calls: no block the request looks up is due at the reading of a
sweep that took its live set before the row was written, whichever of the two, the
look-up or the reading, comes first. -/
def Cond (i : Actor) (l : Call) (w : Race Blob) : Prop :=
  match i, l with
  | .request, .getLocalBlockFid h => Spared w h
  | .sweep, .systemTime => w.2.stale = true →
      ∀ h ∈ w.2.looked, NotDue w.1.store (w.1.oracle.micros w.1.tick / 1000 : ℕ) h
  | _, _ => True

instance (s : Store) (now : ℤ) (h : Bytes) : Decidable (NotDue s now h) :=
  inferInstanceAs (Decidable (∀ t ∈ s.pendingDeletions.lookup h, now < t))

instance (w : Race Blob) (h : Bytes) : Decidable (Spared w h) :=
  inferInstanceAs (Decidable (w.2.stale = true → ∀ now ∈ w.2.read, NotDue w.1.store now h))

instance (i : Actor) (l : Call) (w : Race Blob) : Decidable (Cond i l w) := by
  unfold Cond
  split <;> infer_instance

/-- The clock does not go back, its deadlines are in range, and what a sweep has read is
past. -/
structure Inv (cfg : GcConfig) (w : Race Blob) : Prop where
  mono : Monotone w.1.oracle.micros
  fits : ∀ n, cfg.Fits (w.1.oracle.micros n)
  past : ∀ now ∈ w.2.read, ∀ n, w.1.tick ≤ n → now ≤ (w.1.oracle.micros n / 1000 : ℕ)

/-- What a call of the sweep may do. -/
structure SweepStep (w w' : Race Blob) : Prop where
  objects : w'.1.store.objects = w.1.store.objects
  parts : w'.1.store.parts = w.1.store.parts
  looked : w'.2.looked = w.2.looked
  written : w'.2.written = w.2.written
  spared : ∀ h ∈ w.2.looked, Spared w h → Spared w' h
  kept : ∀ h, Kept w h → Kept w' h

/-- What a call of the request may do. -/
structure RequestStep (w w' : Race Blob) : Prop where
  pending : w'.1.store.pendingDeletions = w.1.store.pendingDeletions
  stale : w'.2.stale = w.2.stale
  read : w'.2.read = w.2.read
  written : w.2.written = true → w'.2.written = true ∧
    w'.1.store.objects = w.1.store.objects ∧ w'.1.store.parts = w.1.store.parts

/-- Sweeps may do nothing. -/
theorem SweepStep.refl (w : Race Blob) : SweepStep w w :=
  ⟨rfl, rfl, rfl, rfl, fun _ _ h => h, fun _ h => h⟩

/-- Sweeps may step after one another. -/
theorem SweepStep.trans {w w' w'' : Race Blob} (h : SweepStep w w') (h' : SweepStep w' w'') :
    SweepStep w w'' :=
  ⟨h'.objects.trans h.objects, h'.parts.trans h.parts, h'.looked.trans h.looked,
    h'.written.trans h.written, fun b hb hs => h'.spared b (h.looked ▸ hb) (h.spared b hb hs),
    fun b hb => h'.kept b (h.kept b hb)⟩

/-- Requests may do nothing. -/
theorem RequestStep.refl (w : Race Blob) : RequestStep w w :=
  ⟨rfl, rfl, rfl, fun h => ⟨h, rfl, rfl⟩⟩

/-- Requests may step after one another. -/
theorem RequestStep.trans {w w' w'' : Race Blob} (h : RequestStep w w')
    (h' : RequestStep w' w'') : RequestStep w w'' where
  pending := h'.pending.trans h.pending
  stale := h'.stale.trans h.stale
  read := h'.read.trans h.read
  written hw := by
    obtain ⟨hw', hobj, hparts⟩ := h.written hw
    obtain ⟨hw'', hobj', hparts'⟩ := h'.written hw'
    exact ⟨hw'', hobj'.trans hobj, hparts'.trans hparts⟩

/-- The discipline of the race: each side relies on what the other does. -/
def discipline (Blob : BlobStore) (cfg : GcConfig) :
    Discipline Actor Call (Site Blob) RaceGhost where
  record i g l s _ := raceRecord i g l s
  cond := Cond
  inv := Inv cfg
  rely
    | .request => SweepStep
    | .sweep => RequestStep
  guar
    | .request => RequestStep
    | .sweep => SweepStep
  rely_refl
    | .request => SweepStep.refl
    | .sweep => RequestStep.refl
  rely_trans
    | .request => fun _ _ _ => SweepStep.trans
    | .sweep => fun _ _ _ => RequestStep.trans
  guar_rely := by
    intro i j w w' hne _ _ h
    cases i <;> cases j <;> first | exact h | exact absurd rfl hne

/-- A side keeps to the discipline. -/
abbrev Safe (cfg : GcConfig) {ε α : Type} (i : Actor)
    (p : Site.SProg Blob ε α) (Q : Except ε α → Race Blob → Prop) (w : Race Blob) : Prop :=
  (discipline Blob cfg).Safe i p Q w

end Race
end Shardscape
