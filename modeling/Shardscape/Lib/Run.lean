/-
# Runs of a step function

A system is a step function on states; a run is a list of events taken one after
the other.  `trace` lists the states a run passes, each with the event taken from
it, so a condition on every step of a run is a condition on the members of its
trace.  `invariant_of_trace` and `invariant_at_end` are the induction every safety
proof uses: what holds at the start and is kept by each step that meets the
condition holds wherever a run of such steps passes, and where it ends.
-/

import Mathlib.Data.List.Basic

namespace Shardscape
namespace Lib

variable {σ α : Type*} {step : σ → α → σ}

/-- The states a run passes, each with the event taken from it. -/
def trace (step : σ → α → σ) : σ → List α → List (σ × α)
  | _, [] => []
  | s, a :: as => (s, a) :: trace step (step s a) as

/-- No event, no state on the way. -/
@[simp] theorem trace_nil (s : σ) : trace step s [] = [] := rfl

/-- Every event is seen with the state before it. -/
@[simp] theorem trace_cons (s : σ) (a : α) (as : List α) :
    trace step s (a :: as) = (s, a) :: trace step (step s a) as := rfl

/-- The trace of two runs one after the other. -/
theorem trace_append (s : σ) (as bs : List α) :
    trace step s (as ++ bs) = trace step s as ++ trace step (as.foldl step s) bs := by
  induction as generalizing s with
  | nil => rfl
  | cons a as ih =>
    rw [List.cons_append, trace_cons, trace_cons, ih, List.cons_append, List.foldl_cons]

/-- The events of a trace are those of the run. -/
theorem mem_of_mem_trace {s : σ} {as : List α} {p : σ × α} (h : p ∈ trace step s as) :
    p.2 ∈ as := by
  induction as generalizing s with
  | nil => exact absurd h (by simp)
  | cons a as ih =>
    rcases List.mem_cons.1 h with rfl | h
    · exact List.mem_cons_self
    · exact List.mem_cons_of_mem a (ih h)

/-- A step of a run is in its trace. -/
theorem mem_trace_append_cons (s : σ) (as : List α) (a : α) (bs : List α) :
    (as.foldl step s, a) ∈ trace step s (as ++ a :: bs) := by
  rw [trace_append]
  exact List.mem_append_right _ List.mem_cons_self

/-- Where a run ends, an invariant holds that each of its steps keeps. -/
theorem invariant_at_end {P : σ → Prop} {C : σ → α → Prop}
    (hstep : ∀ s a, P s → C s a → P (step s a))
    {s : σ} {as : List α} (h₀ : P s) (hC : ∀ p ∈ trace step s as, C p.1 p.2) :
    P (as.foldl step s) := by
  induction as generalizing s with
  | nil => exact h₀
  | cons a as ih =>
    rw [trace_cons, List.forall_mem_cons] at hC
    exact ih (hstep s a h₀ hC.1) hC.2

/-- Wherever a run passes, an invariant holds that each of its steps keeps. -/
theorem invariant_of_trace {P : σ → Prop} {C : σ → α → Prop}
    (hstep : ∀ s a, P s → C s a → P (step s a)) {s : σ} {as : List α} (h₀ : P s)
    (hC : ∀ p ∈ trace step s as, C p.1 p.2) : ∀ p ∈ trace step s as, P p.1 := by
  induction as generalizing s with
  | nil => simp
  | cons a as ih =>
    rw [trace_cons, List.forall_mem_cons] at hC
    rw [trace_cons, List.forall_mem_cons]
    exact ⟨h₀, ih (hstep s a h₀ hC.1) hC.2⟩

end Lib
end Shardscape
