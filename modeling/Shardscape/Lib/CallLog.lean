/-
# The calls of an execution

`callLog p s` lists the calls of the one execution of `p` from `s`, each with the state it
finds, and `wpLog` is the precondition calculus that sees them: where `Lib.Along` says
something of every call, here a program can be said to have made one.
-/

import Shardscape.Lib.Prog

namespace Shardscape
namespace Lib
namespace Prog

variable {ℓ σ ε ε' α β : Type}

/-- The calls of the execution from `s`, each with the state it finds. -/
def callLog : Prog ℓ σ ε α → σ → List (ℓ × σ)
  | .ret _, _ => []
  | .fail _, _ => []
  | .step l eff next, s => (l, s) :: callLog (next s) (eff s)

/-- `Q` holds of the calls a program makes and of the result and the state it ends with. -/
def wpLog (p : Prog ℓ σ ε α) (Q : List (ℓ × σ) → Except ε α → σ → Prop) (s : σ) : Prop :=
  Q (p.callLog s) (p.exec s).2 (p.exec s).1

variable {p : Prog ℓ σ ε α} {Q Q' : List (ℓ × σ) → Except ε α → σ → Prop} {s : σ}

/-- To return makes no call. -/
@[simp] theorem wpLog_pure (a : α) : wpLog (pure a : Prog ℓ σ ε α) Q s ↔ Q [] (.ok a) s := Iff.rfl

/-- A weaker postcondition. -/
theorem wpLog_mono (h : wpLog p Q s) (hQ : ∀ log r s', Q log r s' → Q' log r s') : wpLog p Q' s :=
  hQ _ _ _ h

/-- What is not about the calls. -/
theorem wpLog_of_wp {Q : Except ε α → σ → Prop} (h : p.wp Q s) : wpLog p (fun _ => Q) s := h

/-- A sequence, from its two parts. -/
theorem wpLog_bind {p : Prog ℓ σ ε β} {k : β → Prog ℓ σ ε α} :
    wpLog (p >>= k) Q s ↔ wpLog p (fun log r s' => match r with
      | .ok b => wpLog (k b) (fun log' => Q (log ++ log')) s'
      | .error e => Q log (.error e) s') s := by
  induction p generalizing s Q with
  | ret b => exact Iff.rfl
  | fail e => exact Iff.rfl
  | step l eff next ih => exact ih s (Q := fun log => Q ((l, s) :: log))

/-- An error that is caught is a result, after the same calls. -/
theorem wpLog_attempt {p : Prog ℓ σ ε' α} {Q : List (ℓ × σ) → Except ε (Except ε' α) → σ → Prop} :
    wpLog (attempt p : Prog ℓ σ ε (Except ε' α)) Q s ↔
      wpLog p (fun log r s' => Q log (.ok r) s') s := by
  induction p generalizing s Q with
  | ret b => exact Iff.rfl
  | fail e => exact Iff.rfl
  | step l eff next ih => exact ih s (Q := fun log => Q ((l, s) :: log))

end Prog
end Lib
end Shardscape
