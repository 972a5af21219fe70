/-
# Conditions on the calls of an execution

`Along C p s` says of the one execution of `p` from `s` that every call in it meets a
condition `C`, which sees the label of the call and the state it finds.  `Ensures C p Q s`
is the precondition calculus under such a condition: `Q` holds where `p` ends if the
calls on the way all meet `C` (`Ensures.wp`).
-/

import Shardscape.Lib.Prog

namespace Shardscape
namespace Lib
namespace Prog

variable {ℓ σ ε ε' α β : Type}

/-- Every call of the execution from `s` meets `C`. -/
def Along (C : ℓ → σ → Prop) : Prog ℓ σ ε α → σ → Prop
  | .ret _, _ => True
  | .fail _, _ => True
  | .step l eff next, s => C l s ∧ Along C (next s) (eff s)

instance {C : ℓ → σ → Prop} [∀ l s, Decidable (C l s)] :
    ∀ (p : Prog ℓ σ ε α) (s : σ), Decidable (Along C p s)
  | .ret _, _ => isTrue trivial
  | .fail _, _ => isTrue trivial
  | .step l eff next, s =>
    have := instDecidableAlong (C := C) (next s) (eff s)
    inferInstanceAs (Decidable (C l s ∧ Along C (next s) (eff s)))

/-- `Q` holds where the program ends, if every call on the way meets `C`. -/
def Ensures (C : ℓ → σ → Prop) : Prog ℓ σ ε α → (Except ε α → σ → Prop) → σ → Prop
  | .ret a, Q, s => Q (.ok a) s
  | .fail e, Q, s => Q (.error e) s
  | .step l eff next, Q, s => C l s → Ensures C (next s) Q (eff s)

variable {C : ℓ → σ → Prop} {p : Prog ℓ σ ε α} {Q Q' : Except ε α → σ → Prop} {s : σ}

/-- The calculus is about executions. -/
theorem Ensures.wp (h : Ensures C p Q s) (hC : Along C p s) : p.wp Q s := by
  induction p generalizing s with
  | ret a => exact h
  | fail e => exact h
  | step l eff next ih => exact ih s (h hC.1) hC.2

/-- A condition that every call meets in every state. -/
theorem along_of_forall (h : ∀ l s, C l s) : Along C p s := by
  induction p generalizing s with
  | ret a => trivial
  | fail e => trivial
  | step l eff next ih => exact ⟨h l s, ih s⟩

/-- What holds of all executions holds of these. -/
theorem ensures_of_wp (h : p.wp Q s) : Ensures C p Q s := by
  induction p generalizing s with
  | ret a => exact h
  | fail e => exact h
  | step l eff next ih => exact fun _ => ih s h

/-- A weaker postcondition. -/
theorem Ensures.mono (h : Ensures C p Q s) (hQ : ∀ r s', Q r s' → Q' r s') : Ensures C p Q' s := by
  induction p generalizing s with
  | ret a => exact hQ _ _ h
  | fail e => exact hQ _ _ h
  | step l eff next ih => exact fun hC => ih s (h hC)

/-- A sequence, from its two parts. -/
theorem Ensures.bind {p : Prog ℓ σ ε β} {k : β → Prog ℓ σ ε α}
    (h : Ensures C p (fun r s' => match r with
      | .ok b => Ensures C (k b) Q s'
      | .error e => Q (.error e) s') s) : Ensures C (p >>= k) Q s := by
  induction p generalizing s with
  | ret b => exact h
  | fail e => exact h
  | step l eff next ih => exact fun hC => ih s (h hC)

/-- An error that is caught is a result. -/
theorem Ensures.attempt {p : Prog ℓ σ ε' α} {Q : Except ε (Except ε' α) → σ → Prop}
    (h : Ensures C p (fun r s' => Q (.ok r) s') s) :
    Ensures C (attempt p : Prog ℓ σ ε (Except ε' α)) Q s := by
  induction p generalizing s with
  | ret a => exact h
  | fail e => exact h
  | step l eff next ih => exact fun hC => ih s (h hC)

/-- The error is another one, nothing else changes. -/
theorem Ensures.mapErr {f : ε' → ε} {p : Prog ℓ σ ε' α}
    (h : Ensures C p (fun r s' => Q (r.mapError f) s') s) : Ensures C (mapErr f p) Q s := by
  induction p generalizing s with
  | ret a => exact h
  | fail e => exact h
  | step l eff next ih => exact fun hC => ih s (h hC)

/-- A loop over a list, with an invariant. -/
theorem Ensures.forEach {body : β → Prog ℓ σ ε Unit} {Q : Except ε Unit → σ → Prop} (P : σ → Prop)
    (hQ : ∀ r s', P s' → Q r s') (hbody : ∀ b s, P s → Ensures C (body b) (fun _ s' => P s') s)
    {l : List β} (h : P s) : Ensures C (forEach body l) Q s := by
  induction l generalizing s with
  | nil => exact hQ _ _ h
  | cons b bs ih =>
    refine Ensures.bind ((hbody b s h).mono fun r s' hs' => ?_)
    cases r with
    | ok _ => exact ih hs'
    | error e => exact hQ _ _ hs'

end Prog
end Lib
end Shardscape
