/-
# Invariants kept call by call

`Keeps C I p Q` says of a program that every call that is made in a state of `I` and meets the
condition `C` leads to a state of `I`, and that the program ends with a result in `Q`.  What
happens between two calls does not matter as long as it stays in `I`, so threads that keep one
invariant can run side by side (`Conf.Kept.advance`), and a condition on the answers they get (`C`)
may be used for what they do with them, unlike in `Shardscape.Lib.Calls`.
-/

import Shardscape.Lib.Calls

namespace Shardscape
namespace Lib

variable {κ ℓ σ ε ε' α β : Type}

namespace Prog

/-- Calls that meet `C` keep `I`, and the result is in `Q`. -/
def Keeps (C : ℓ → σ → Prop) (I : σ → Prop) :
    Prog ℓ σ ε α → (Except ε α → Prop) → Prop
  | .ret a, Q => Q (.ok a)
  | .fail e, Q => Q (.error e)
  | .step l eff next, Q => ∀ s, I s → C l s → I (eff s) ∧ Keeps C I (next s) Q

/-- The result is in `R` if there is one. -/
def onOk (R : α → Prop) : Except ε α → Prop
  | .ok a => R a
  | .error _ => True

variable {C : ℓ → σ → Prop} {I : σ → Prop}

variable {p : Prog ℓ σ ε α}

/-- A weaker condition on the result. -/
theorem Keeps.mono {Q Q' : Except ε α → Prop} (h : p.Keeps C I Q) (hQ : ∀ r, Q r → Q' r) :
    p.Keeps C I Q' := by
  induction p with
  | ret a => exact hQ _ h
  | fail e => exact hQ _ h
  | step l eff next ih => exact fun s hs hC => ⟨(h s hs hC).1, ih s (h s hs hC).2⟩

variable {k : β → Prog ℓ σ ε α} {Q : Except ε α → Prop}

/-- A sequence, from its two parts. -/
theorem Keeps.bind {p : Prog ℓ σ ε β}
    (h : p.Keeps C I fun r => match r with
      | .ok b => (k b).Keeps C I Q
      | .error e => Q (.error e)) : (p >>= k).Keeps C I Q := by
  induction p with
  | ret b => exact h
  | fail e => exact h
  | step l eff next ih => exact fun s hs hC => ⟨(h s hs hC).1, ih s (h s hs hC).2⟩

/-- A sequence whose second part uses what is known of the result of the first. -/
theorem Keeps.seq {p : Prog ℓ σ ε β} {R : β → Prop} (h : p.Keeps C I (onOk R))
    (hfail : ∀ e, Q (.error e)) (hk : ∀ b, R b → (k b).Keeps C I Q) : (p >>= k).Keeps C I Q := by
  refine Keeps.bind (h.mono fun r hr => ?_)
  cases r with
  | ok b => exact hk b hr
  | error e => exact hfail e

/-- A sequence of which nothing is asked if it fails. -/
theorem Keeps.andThen {p : Prog ℓ σ ε β} {R : β → Prop} {R' : α → Prop} (h : p.Keeps C I (onOk R))
    (hk : ∀ b, R b → (k b).Keeps C I (onOk R')) : (p >>= k).Keeps C I (onOk R') :=
  h.seq (fun _ => trivial) hk

/-- An error that is caught is a result. -/
theorem Keeps.attempt {Q : Except ε' (Except ε α) → Prop} (h : p.Keeps C I fun r => Q (.ok r)) :
    p.attempt.Keeps C I Q := by
  induction p with
  | ret a => exact h
  | fail e => exact h
  | step l eff next ih => exact fun s hs hC => ⟨(h s hs hC).1, ih s (h s hs hC).2⟩

/-- The error is another one; of errors nothing is asked. -/
theorem Keeps.mapErr {f : ε → ε'} {R : α → Prop} (h : p.Keeps C I (onOk R)) :
    (p.mapErr f).Keeps C I (onOk R) := by
  induction p with
  | ret a => exact h
  | fail e => trivial
  | step l eff next ih => exact fun s hs hC => ⟨(h s hs hC).1, ih s (h s hs hC).2⟩

/-- A result at hand takes no call. -/
theorem Keeps.ofExcept {r : Except ε α} (h : Q r) :
    (Prog.ofExcept r : Prog ℓ σ ε α).Keeps C I Q := by
  cases r <;> exact h

/-- A loop over a list. -/
theorem Keeps.forEach {body : β → Prog ℓ σ ε Unit} {l : List β}
    (hbody : ∀ b ∈ l, (body b).Keeps C I (onOk fun _ => True)) :
    (Prog.forEach body l).Keeps C I (onOk fun _ => True) := by
  induction l with
  | nil => trivial
  | cons b bs ih =>
    refine Keeps.seq (hbody b List.mem_cons_self) (fun _ => trivial) fun _ _ => ?_
    exact ih fun b' hb' => hbody b' (List.mem_cons_of_mem b hb')

/-- Calls that are described, each of which keeps the invariant. -/
theorem Calls.keeps {P : ℓ → σ → σ → Prop} (h : p.Calls (fun _ => True) P anyResult)
    (hI : ∀ l s s', P l s s' → I s → I s') :
    p.Keeps C I (onOk fun _ => True) := by
  induction p with
  | ret a => trivial
  | fail e => trivial
  | step l eff next ih =>
    intro s hs _
    obtain ⟨hcall, hnext⟩ := h s trivial
    exact ⟨hI l s _ hcall hs, ih s hnext⟩

/-! ### Errors -/

/-- Every error the program can end with is in `E`. -/
def Errors (E : ε → Prop) : Prog ℓ σ ε α → Prop
  | .ret _ => True
  | .fail e => E e
  | .step _ _ next => ∀ s, Errors E (next s)

variable {E : ε → Prop}

/-- The errors of a sequence are those of its parts. -/
theorem Errors.bind {p : Prog ℓ σ ε β} (h : p.Errors E) (hk : ∀ b, (k b).Errors E) :
    (p >>= k).Errors E := by
  induction p with
  | ret b => exact hk b
  | fail e => exact h
  | step l eff next ih => exact fun s => ih s (h s)

end Prog

namespace Conf

variable {C : ℓ → σ → Prop} {I : σ → Prop} {Q : Except ε Unit → Prop}

/-- The state is in `I`, every thread keeps it there, and ends with a result in `Q`. -/
def Kept (C : ℓ → σ → Prop) (I : σ → Prop) (Q : Except ε Unit → Prop) (c : Plain κ ℓ σ ε) :
    Prop :=
  I c.world.1 ∧ ∀ i, (c.threads i).Keeps C I Q

variable [DecidableEq κ]

/-- **One move.**  The call that is made meets `C`, and a program that is started keeps `I`. -/
theorem Kept.advance {c : Plain κ ℓ σ ε} {m : Move κ ℓ σ ε} (h : c.Kept C I Q)
    (hcall : ∀ i l, m = .step i → c.nextCall i = some l → C l c.world.1)
    (hspawn : ∀ i p, m = .spawn i p → p.Keeps C I Q) : (c.advance m).Kept C I Q := by
  obtain ⟨hI, hthreads⟩ := h
  cases m with
  | step i =>
    have hi := hthreads i
    have hC := hcall i
    simp only [Conf.advance, move]
    unfold nextCall at hC
    cases hp : c.threads i with
    | ret a => exact ⟨hI, hthreads⟩
    | fail e => exact ⟨hI, hthreads⟩
    | step l eff next =>
      rw [hp] at hi hC
      obtain ⟨hI', hnext⟩ := hi c.world.1 hI (hC l rfl rfl)
      refine ⟨hI', fun j => ?_⟩
      by_cases hj : j = i
      · simpa [hj] using hnext
      · simpa [hj] using hthreads j
  | spawn i p =>
    have hkeep : ∀ j, (Function.update c.threads i p j).Keeps C I Q := by
      intro j
      by_cases hj : j = i
      · simpa [hj] using hspawn i p rfl
      · simpa [hj] using hthreads j
    simp only [Conf.advance, move]
    cases hp : c.threads i with
    | ret a => exact ⟨hI, hkeep⟩
    | fail e => exact ⟨hI, hkeep⟩
    | step l eff next => exact ⟨hI, hthreads⟩

end Conf

end Lib
end Shardscape
