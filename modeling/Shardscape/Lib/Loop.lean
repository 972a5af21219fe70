/-
# Loops that go on or stop

A loop is its body: the state after one iteration, and whether there is another.
`iteration body n s` is the state in which iteration `n` starts, if the loop gets that far.
A loop ends if some measure falls in every iteration that is not the last
(`exists_iteration_eq_none`).

`LeavesWith body s r` says that the loop ends and what it leaves.  What holds of every start
from which it does is shown by induction from its last iteration backwards
(`LeavesWith.induction`), so a loop that goes on from each state of some set does not end
(`not_leavesWith`).
-/

import Mathlib.Order.Basic

namespace Shardscape
namespace Lib

variable {σ : Type*} {body : σ → σ × Bool}

/-- The state in which iteration `n` starts, counted from `s`. -/
def iteration (body : σ → σ × Bool) : ℕ → σ → Option σ
  | 0, s => some s
  | n + 1, s => if (body s).2 then iteration body n (body s).1 else none

/-- An invariant holds where an iteration starts. -/
theorem invariant_of_iteration {P : σ → Prop} (hbody : ∀ s, P s → P (body s).1) {n : ℕ} {s s' : σ}
    (h : iteration body n s = some s') (hs : P s) : P s' := by
  induction n generalizing s with
  | zero =>
    obtain rfl := Option.some.inj h
    exact hs
  | succ n ih =>
    rw [iteration] at h
    split_ifs at h
    exact ih h (hbody s hs)

/-- **A loop ends** if a measure falls while it goes on; this need only hold where iterations
start. -/
theorem exists_iteration_eq_none (measure : σ → ℕ) {s : σ}
    (hfall : ∀ n s', iteration body n s = some s' → (body s').2 = true →
      measure (body s').1 < measure s') : ∃ n, iteration body n s = none := by
  induction hm : measure s using Nat.strongRecOn generalizing s with
  | ind m ih =>
    by_cases hgo : (body s).2 = true
    · have hless := hfall 0 s rfl hgo
      rw [hm] at hless
      have hrest : ∀ n s', iteration body n (body s).1 = some s' → (body s').2 = true →
          measure (body s').1 < measure s' :=
        fun n s' h => hfall (n + 1) s' (by rw [iteration, if_pos hgo, h])
      obtain ⟨n, hn⟩ := ih _ hless hrest rfl
      exact ⟨n + 1, by rw [iteration, if_pos hgo, hn]⟩
    · exact ⟨1, by rw [iteration, if_neg hgo]⟩

/-! ### What a loop leaves -/

/-- The loop, started in `s`, ends, and its last iteration leaves `r`. -/
def LeavesWith (body : σ → σ × Bool) (s r : σ) : Prop :=
  ∃ n s', iteration body n s = some s' ∧ body s' = (r, false)

/-- The iteration is the last. -/
theorem leavesWith_last {s r : σ} (h : body s = (r, false)) : LeavesWith body s r :=
  ⟨0, s, rfl, h⟩

/-- There is another iteration. -/
theorem leavesWith_step {s s' r : σ} (hs : body s = (s', true)) (h : LeavesWith body s' r) :
    LeavesWith body s r := by
  obtain ⟨n, s'', hn, hlast⟩ := h
  refine ⟨n + 1, s'', ?_, hlast⟩
  rw [iteration, hs, if_pos rfl]
  exact hn

/-- The rest of a loop that ends. -/
theorem LeavesWith.of_step {s s' r : σ} (h : LeavesWith body s r) (hs : body s = (s', true)) :
    LeavesWith body s' r := by
  obtain ⟨n, s'', hn, hlast⟩ := h
  cases n with
  | zero =>
    obtain rfl := Option.some.inj hn
    rw [hs] at hlast
    exact absurd (congrArg Prod.snd hlast).symm Bool.false_ne_true
  | succ n =>
    rw [iteration, hs, if_pos rfl] at hn
    exact ⟨n, s'', hn, hlast⟩

/-- **Induction from the last iteration** back to where the loop was started. -/
theorem LeavesWith.induction {P : σ → Prop} {s r : σ} (h : LeavesWith body s r)
    (last : ∀ s, body s = (r, false) → P s)
    (step : ∀ s s', body s = (s', true) → P s' → P s) : P s := by
  obtain ⟨n, s'', hn, hlast⟩ := h
  induction n generalizing s with
  | zero =>
    obtain rfl := Option.some.inj hn
    exact last s hlast
  | succ n ih =>
    rw [iteration] at hn
    split_ifs at hn with hgo
    exact step s (body s).1 (Prod.ext rfl hgo) (ih hn)

/-- **A loop does not end** if it goes on from every state of a set, and stays in it. -/
theorem not_leavesWith {P : σ → Prop} (hbody : ∀ s, P s → (body s).2 = true ∧ P (body s).1)
    {s : σ} (hs : P s) (r : σ) : ¬ LeavesWith body s r := by
  intro h
  refine h.induction (P := fun s => ¬ P s) (fun s hlast hP => ?_) (fun s s' hgo ih hP => ih ?_) hs
  · have hgoes := (hbody s hP).1
    rw [hlast] at hgoes
    exact Bool.false_ne_true hgoes
  · have hkept := (hbody s hP).2
    rwa [hgo] at hkept

end Lib
end Shardscape
