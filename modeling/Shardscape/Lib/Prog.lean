/-
# Programs over shared state

A program that reaches its shared state only through atomic calls is a tree: it
returns, it fails, or it makes one call, which changes the state and whose answer
picks the rest of the program.  Calls carry a label, so that a run can be
described by the calls made in it.

The same tree is read in two ways.  `exec` runs it to its end with nothing in
between, and `wp` is the precondition calculus for that.  Programs whose calls are
interleaved with those of others are the subject of `Shardscape.Lib.Interleave`.
-/

import Mathlib.Logic.Basic
import Mathlib.Data.Prod.Basic

namespace Shardscape
namespace Lib

/-- A program: it returns, fails, or makes one labelled call.  `next` sees the
state the call found. -/
inductive Prog (ℓ σ ε α : Type) where
  | ret (a : α)
  | fail (e : ε)
  | step (label : ℓ) (eff : σ → σ) (next : σ → Prog ℓ σ ε α)

namespace Prog

variable {ℓ σ ε ε' α β γ : Type}

/-- One program after the other; a failure ends both. -/
def bind : Prog ℓ σ ε α → (α → Prog ℓ σ ε β) → Prog ℓ σ ε β
  | ret a, k => k a
  | fail e, _ => fail e
  | step l eff next, k => step l eff fun s => (next s).bind k

instance : Monad (Prog ℓ σ ε) where
  pure := ret
  bind := bind

/-- To return what was computed adds nothing. -/
theorem bind_ret (p : Prog ℓ σ ε α) : p.bind ret = p := by
  induction p with
  | ret a => rfl
  | fail e => rfl
  | step l eff next ih => exact congrArg (step l eff) (funext ih)

/-- Sequences associate. -/
theorem bind_bind (p : Prog ℓ σ ε α) (f : α → Prog ℓ σ ε β) (g : β → Prog ℓ σ ε γ) :
    (p.bind f).bind g = p.bind fun a => (f a).bind g := by
  induction p with
  | ret a => rfl
  | fail e => rfl
  | step l eff next ih => exact congrArg (step l eff) (funext ih)

instance : LawfulMonad (Prog ℓ σ ε) :=
  LawfulMonad.mk' _ bind_ret (fun _ _ => rfl) bind_bind

/-- A call that changes the state and answers. -/
def call (l : ℓ) (f : σ → σ × α) : Prog ℓ σ ε α :=
  step l (fun s => (f s).1) fun s => ret (f s).2

/-- A call that only answers. -/
def query (l : ℓ) (f : σ → α) : Prog ℓ σ ε α := step l id fun s => ret (f s)

/-- A call that only changes the state. -/
def modify (l : ℓ) (f : σ → σ) : Prog ℓ σ ε Unit := step l f fun _ => ret ()

/-- A program with its failure handed back as a result. -/
def attempt : Prog ℓ σ ε α → Prog ℓ σ ε' (Except ε α)
  | ret a => ret (.ok a)
  | fail e => ret (.error e)
  | step l eff next => step l eff fun s => (next s).attempt

/-- Another form of the failure. -/
def mapErr (f : ε → ε') : Prog ℓ σ ε α → Prog ℓ σ ε' α
  | ret a => ret a
  | fail e => fail (f e)
  | step l eff next => step l eff fun s => (next s).mapErr f

/-- A result already at hand. -/
def ofExcept : Except ε α → Prog ℓ σ ε α
  | .ok a => ret a
  | .error e => fail e

/-- The body of a loop over a list. -/
def forEach (body : β → Prog ℓ σ ε Unit) : List β → Prog ℓ σ ε Unit
  | [] => ret ()
  | b :: bs => (body b).bind fun _ => forEach body bs

/-- What a program has come to, once it has. -/
def result : Prog ℓ σ ε α → Option (Except ε α)
  | ret a => some (.ok a)
  | fail e => some (.error e)
  | step _ _ _ => none

/-! ### Running to the end -/

/-- The state and the result of running a program to its end. -/
def exec : Prog ℓ σ ε α → σ → σ × Except ε α
  | ret a, s => (s, .ok a)
  | fail e, s => (s, .error e)
  | step _ eff next, s => (next s).exec (eff s)

/-- `Q` holds of the result and the state a program ends with. -/
def wp (p : Prog ℓ σ ε α) (Q : Except ε α → σ → Prop) (s : σ) : Prop :=
  Q (p.exec s).2 (p.exec s).1

variable {Q : Except ε α → σ → Prop} {s : σ}

/-- The result is the value. -/
@[simp] theorem wp_ret (a : α) : wp (ret a : Prog ℓ σ ε α) Q s ↔ Q (.ok a) s := Iff.rfl

/-- The same, as programs write it. -/
@[simp] theorem wp_pure (a : α) : wp (pure a : Prog ℓ σ ε α) Q s ↔ Q (.ok a) s := Iff.rfl

/-- The result is the error. -/
@[simp] theorem wp_fail (e : ε) : wp (fail e : Prog ℓ σ ε α) Q s ↔ Q (.error e) s := Iff.rfl

/-- A call has its effect and goes on with its answer. -/
@[simp] theorem wp_call (l : ℓ) (f : σ → σ × α) :
    wp (call l f : Prog ℓ σ ε α) Q s ↔ Q (.ok (f s).2) (f s).1 := Iff.rfl

/-- A query leaves the state. -/
@[simp] theorem wp_query (l : ℓ) (f : σ → α) :
    wp (query l f : Prog ℓ σ ε α) Q s ↔ Q (.ok (f s)) s := Iff.rfl

/-- A change has no answer. -/
@[simp] theorem wp_modify (l : ℓ) (f : σ → σ) {Q : Except ε Unit → σ → Prop} :
    wp (modify l f : Prog ℓ σ ε Unit) Q s ↔ Q (.ok ()) (f s) := Iff.rfl

/-- A result at hand is the result. -/
@[simp] theorem wp_ofExcept (r : Except ε α) : wp (ofExcept r : Prog ℓ σ ε α) Q s ↔ Q r s := by
  cases r <;> exact Iff.rfl

/-- A sequence, run to its end. -/
theorem exec_bind (p : Prog ℓ σ ε β) (k : β → Prog ℓ σ ε α) (s : σ) :
    (p >>= k).exec s = match p.exec s with
      | (s', .ok b) => (k b).exec s'
      | (s', .error e) => (s', .error e) := by
  induction p generalizing s with
  | ret b => rfl
  | fail e => rfl
  | step l eff next ih => exact ih s (eff s)

/-- A sequence, from its two parts. -/
theorem wp_bind {p : Prog ℓ σ ε β} {k : β → Prog ℓ σ ε α} :
    wp (p >>= k) Q s ↔ wp p (fun r s' => match r with
      | .ok b => wp (k b) Q s'
      | .error e => Q (.error e) s') s := by
  induction p generalizing s with
  | ret b => exact Iff.rfl
  | fail e => exact Iff.rfl
  | step l eff next ih => exact ih s

/-- An error that is caught is a result. -/
theorem wp_attempt {p : Prog ℓ σ ε' α} {Q : Except ε (Except ε' α) → σ → Prop} :
    wp (attempt p : Prog ℓ σ ε (Except ε' α)) Q s ↔ wp p (fun r s' => Q (.ok r) s') s := by
  induction p generalizing s with
  | ret b => exact Iff.rfl
  | fail e => exact Iff.rfl
  | step l eff next ih => exact ih s

/-- The error is another one. -/
theorem wp_mapErr {f : ε' → ε} {p : Prog ℓ σ ε' α} :
    wp (mapErr f p) Q s ↔ wp p (fun r s' => Q (r.mapError f) s') s := by
  induction p generalizing s with
  | ret b => exact Iff.rfl
  | fail e => exact Iff.rfl
  | step l eff next ih => exact ih s

/-- A weaker postcondition. -/
theorem wp_mono {p : Prog ℓ σ ε α} {Q' : Except ε α → σ → Prop} (h : wp p Q s)
    (hQ : ∀ r s', Q r s' → Q' r s') : wp p Q' s :=
  hQ _ _ h

/-- Two postconditions at once. -/
theorem wp_and {p : Prog ℓ σ ε α} {Q' : Except ε α → σ → Prop} (h : wp p Q s) (h' : wp p Q' s) :
    wp p (fun r s' => Q r s' ∧ Q' r s') s :=
  ⟨h, h'⟩

/-- A loop over a list, with an invariant over what is left to do. -/
theorem wp_forEach {body : β → Prog ℓ σ ε Unit} {Q : Except ε Unit → σ → Prop}
    (P : List β → σ → Prop) (hnil : ∀ s, P [] s → Q (.ok ()) s)
    (hbody : ∀ b bs s, P (b :: bs) s → wp (body b) (fun r s' => match r with
      | .ok _ => P bs s'
      | .error e => Q (.error e) s') s)
    {l : List β} (h : P l s) : wp (forEach body l) Q s := by
  induction l generalizing s with
  | nil => exact hnil s h
  | cons b bs ih =>
    refine wp_bind.2 (wp_mono (hbody b bs s h) fun r s' hr => ?_)
    cases r with
    | ok a => exact ih hr
    | error e => exact hr

end Prog
end Lib
end Shardscape
