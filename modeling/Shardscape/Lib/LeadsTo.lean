/-
# What must happen

An infinite run of a step function is a schedule of events taken one after the other.  `LeadsTo`
says of its states that whenever one satisfies `P`, one at that time or later satisfies `Q`.  It is
proved from helpful events: if a run stays in `P` until it is in `Q`, a helpful event in `P` gives
`Q`, and helpful events come again and again, then `P` leads to `Q` (`leadsTo_of_helpful`); and by
induction on a rank (`leadsTo_of_rank`).  What finitely many conditions come to and keep, they come
to together (`eventually_forall`).
-/

import Shardscape.Lib.Run
import Mathlib.Data.Fintype.Order

namespace Shardscape
namespace Lib

variable {σ α : Type*}

/-- The states of an infinite run. -/
def states (step : σ → α → σ) (s : σ) (schedule : ℕ → α) : ℕ → σ
  | 0 => s
  | n + 1 => step (states step s schedule n) (schedule n)

/-- What every step keeps holds throughout. -/
theorem forall_states {step : σ → α → σ} {s : σ} {schedule : ℕ → α} {P : σ → Prop} (h₀ : P s)
    (hstep : ∀ n, P (states step s schedule n) → P (step (states step s schedule n) (schedule n)))
    (n : ℕ) : P (states step s schedule n) := by
  induction n with
  | zero => exact h₀
  | succ n ih => exact hstep n ih

section

variable {x : ℕ → σ} {schedule : ℕ → α} {P Q R : σ → Prop} {E : σ → α → Prop}

/-- Again and again a step is such that `E`. -/
def InfinitelyOften (x : ℕ → σ) (schedule : ℕ → α) (E : σ → α → Prop) : Prop :=
  ∀ n, ∃ m, n ≤ m ∧ E (x m) (schedule m)

/-- Whenever `P`, then `Q` at that time or later. -/
def LeadsTo (x : ℕ → σ) (P Q : σ → Prop) : Prop := ∀ n, P (x n) → ∃ m, n ≤ m ∧ Q (x m)

/-- One after the other. -/
theorem LeadsTo.trans (h : LeadsTo x P Q) (h' : LeadsTo x Q R) : LeadsTo x P R := by
  intro n hn
  obtain ⟨m, hm, hQ⟩ := h n hn
  obtain ⟨k, hk, hR⟩ := h' m hQ
  exact ⟨k, hm.trans hk, hR⟩

/-- **Helpful events.**  A run that stays in `P` until it is in `Q`, and is in `Q` after a helpful
event, comes to `Q`. -/
theorem leadsTo_of_helpful (hkeep : ∀ n, P (x n) → P (x (n + 1)) ∨ Q (x (n + 1)))
    (hhelp : ∀ n, P (x n) → E (x n) (schedule n) → Q (x (n + 1)))
    (hoften : InfinitelyOften x schedule E) : LeadsTo x P Q := by
  intro n hn
  obtain ⟨m, hm, hE⟩ := hoften n
  -- up to the helpful event the run is in `P`, or it has been in `Q`
  have hstays : ∀ d, P (x (n + d)) ∨ ∃ k, n ≤ k ∧ Q (x k) := by
    intro d
    induction d with
    | zero => exact .inl hn
    | succ d ih =>
      rcases ih with hP | hQ
      · rcases hkeep _ hP with hP | hQ
        · exact .inl hP
        · exact .inr ⟨n + d + 1, by omega, hQ⟩
      · exact .inr hQ
  rcases hstays (m - n) with hP | hQ
  · rw [Nat.add_sub_cancel' hm] at hP
    exact ⟨m + 1, by omega, hhelp m hP hE⟩
  · exact hQ

/-- **Induction on a rank.** -/
theorem leadsTo_of_rank (rank : σ → ℕ)
    (h : ∀ k, LeadsTo x (fun s => P s ∧ rank s = k) fun s => Q s ∨ P s ∧ rank s < k) :
    LeadsTo x P Q := by
  have hrank : ∀ k n, P (x n) → rank (x n) = k → ∃ m, n ≤ m ∧ Q (x m) := by
    intro k
    induction k using Nat.strongRecOn with
    | ind k ih =>
      intro n hP hk
      obtain ⟨m, hm, hQ | ⟨hP', hlt⟩⟩ := h k n ⟨hP, hk⟩
      · exact ⟨m, hm, hQ⟩
      · obtain ⟨m', hm', hQ⟩ := ih _ hlt m hP' rfl
        exact ⟨m', hm.trans hm', hQ⟩
  exact fun n hP => hrank _ n hP rfl

/-- What a run comes to and keeps. -/
theorem forall_ge_of_kept (hkeep : ∀ n, P (x n) → P (x (n + 1))) {n : ℕ} (h : P (x n)) {m : ℕ}
    (hm : n ≤ m) : P (x m) := by
  induction m, hm using Nat.le_induction with
  | base => exact h
  | succ m _ ih => exact hkeep m ih

/-- **Finitely many conditions** that a run comes to and keeps hold together from some time on. -/
theorem eventually_forall {κ : Type*} [Finite κ] {P : κ → σ → Prop}
    (hkeep : ∀ k n, P k (x n) → P k (x (n + 1))) (h : ∀ k, ∃ n, P k (x n)) :
    ∃ n, ∀ m, n ≤ m → ∀ k, P k (x m) := by
  choose time htime using h
  obtain ⟨bound, hbound⟩ := Set.finite_range time |>.bddAbove
  refine ⟨bound, fun m hm k => forall_ge_of_kept (hkeep k) (htime k) ?_⟩
  exact (hbound ⟨k, rfl⟩).trans hm

end

end Lib
end Shardscape
