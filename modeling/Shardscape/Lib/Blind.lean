/-
# Programs that cannot tell two states apart

For a relation between states, `Blind R p` says that every call of `p` answers the same
in related states and leaves related states.  Two runs of such a program from related
states make the same calls and end with the same result (`Blind.exec`), so what the
states differ in cannot be learnt from it.

A program may be blind without its result being of any use to the next, and the other
way round: `Parallel R p` only asks that the states stay related, whatever the results.
-/

import Shardscape.Lib.Prog

namespace Shardscape
namespace Lib
namespace Prog

variable {ℓ σ ε ε' α β γ : Type} {R : σ → σ → Prop}

/-- Every call answers the same in related states, and leaves related states. -/
def Blind (R : σ → σ → Prop) : Prog ℓ σ ε α → Prop
  | .ret _ => True
  | .fail _ => True
  | .step _ eff next => ∀ s t, R s t → R (eff s) (eff t) ∧ next s = next t ∧ (next s).Blind R

/-- Related states stay related. -/
def Parallel (R : σ → σ → Prop) (p : Prog ℓ σ ε α) : Prop :=
  ∀ s t, R s t → R (p.exec s).1 (p.exec t).1

variable {p : Prog ℓ σ ε α}

/-- **Two runs of a blind program** end with the same result, in related states. -/
theorem Blind.exec (h : p.Blind R) {s t : σ} (hst : R s t) :
    (p.exec s).2 = (p.exec t).2 ∧ R (p.exec s).1 (p.exec t).1 := by
  induction p generalizing s t with
  | ret a => exact ⟨rfl, hst⟩
  | fail e => exact ⟨rfl, hst⟩
  | step l eff next ih =>
    obtain ⟨heff, hnext, hblind⟩ := h s t hst
    have hrest := ih s hblind heff
    -- the second run goes on with the same program
    show ((next s).exec (eff s)).2 = ((next t).exec (eff t)).2 ∧
      R ((next s).exec (eff s)).1 ((next t).exec (eff t)).1
    rw [← hnext]
    exact hrest

/-- What two blind runs make of related states is related again. -/
theorem Blind.parallel (h : p.Blind R) : p.Parallel R :=
  fun _ _ hst => (h.exec hst).2

/-- A value is returned without a look at the state. -/
theorem blind_pure (a : α) : (pure a : Prog ℓ σ ε α).Blind R := trivial

/-- So is an error. -/
theorem blind_fail (e : ε) : (.fail e : Prog ℓ σ ε α).Blind R := trivial

/-- A call that changes the state and answers. -/
theorem blind_call {l : ℓ} {f : σ → σ × α}
    (h : ∀ s t, R s t → R (f s).1 (f t).1 ∧ (f s).2 = (f t).2) :
    (call l f : Prog ℓ σ ε α).Blind R :=
  fun s t hst => ⟨(h s t hst).1, congrArg ret (h s t hst).2, trivial⟩

/-- A call that only answers. -/
theorem blind_query {l : ℓ} {f : σ → α} (h : ∀ s t, R s t → f s = f t) :
    (query l f : Prog ℓ σ ε α).Blind R :=
  fun s t hst => ⟨hst, congrArg ret (h s t hst), trivial⟩

/-- A call that only changes the state. -/
theorem blind_modify {l : ℓ} {f : σ → σ} (h : ∀ s t, R s t → R (f s) (f t)) :
    (modify l f : Prog ℓ σ ε Unit).Blind R :=
  fun s t hst => ⟨h s t hst, rfl, trivial⟩

variable {k : β → Prog ℓ σ ε α}

/-- A sequence is blind if its parts are. -/
theorem Blind.bind {p : Prog ℓ σ ε β} (h : p.Blind R) (hk : ∀ b, (k b).Blind R) :
    (p >>= k).Blind R := by
  induction p with
  | ret b => exact hk b
  | fail e => trivial
  | step l eff next ih =>
    intro s t hst
    obtain ⟨heff, hnext, hblind⟩ := h s t hst
    exact ⟨heff, congrArg (Prog.bind · k) hnext, ih s hblind⟩

/-- The result may be worked on. -/
theorem Blind.map {p : Prog ℓ σ ε β} (h : p.Blind R) (f : β → α) : (f <$> p).Blind R :=
  h.bind fun _ => trivial

/-- Errors may be caught. -/
theorem Blind.attempt (h : p.Blind R) :
    (p.attempt : Prog ℓ σ ε' (Except ε α)).Blind R := by
  induction p with
  | ret a => trivial
  | fail e => trivial
  | step l eff next ih =>
    intro s t hst
    obtain ⟨heff, hnext, hblind⟩ := h s t hst
    exact ⟨heff, congrArg Prog.attempt hnext, ih s hblind⟩

/-- Errors may be renamed. -/
theorem Blind.mapErr (h : p.Blind R) (f : ε → ε') : (p.mapErr f).Blind R := by
  induction p with
  | ret a => trivial
  | fail e => trivial
  | step l eff next ih =>
    intro s t hst
    obtain ⟨heff, hnext, hblind⟩ := h s t hst
    exact ⟨heff, congrArg (Prog.mapErr f) hnext, ih s hblind⟩

/-- A result at hand is one of the two. -/
theorem blind_ofExcept (r : Except ε α) : (ofExcept r : Prog ℓ σ ε α).Blind R := by
  cases r <;> trivial

/-- What is made of the result changes nothing. -/
theorem exec_andThen {p : Prog ℓ σ ε β} (hk : ∀ b, ∃ a, k b = .ret a) (s : σ) :
    ((p >>= k).exec s).1 = (p.exec s).1 := by
  induction p generalizing s with
  | ret b =>
    obtain ⟨a, ha⟩ := hk b
    show ((k b).exec s).1 = s
    rw [ha]
    rfl
  | fail e => rfl
  | step l eff next ih => exact ih s (eff s)

/-- What only works on the result adds nothing to the state. -/
theorem Parallel.andThen {p : Prog ℓ σ ε β} (h : p.Parallel R) (hk : ∀ b, ∃ a, k b = .ret a) :
    (p >>= k).Parallel R := by
  intro s t hst
  rw [exec_andThen hk, exec_andThen hk]
  exact h s t hst

/-- A loop over a list. -/
theorem blind_forEach {body : β → Prog ℓ σ ε Unit} (h : ∀ b, (body b).Blind R) (l : List β) :
    (forEach body l).Blind R := by
  induction l with
  | nil => trivial
  | cons b bs ih => exact (h b).bind fun _ => ih

/-- A loop over a list with an accumulator. -/
theorem blind_foldlM {body : γ → β → Prog ℓ σ ε γ} (h : ∀ a b, (body a b).Blind R) (l : List β)
    (a : γ) : (l.foldlM body a).Blind R := by
  induction l generalizing a with
  | nil => trivial
  | cons b bs ih =>
    rw [List.foldlM_cons]
    exact (h a b).bind fun a' => ih a'

end Prog
end Lib
end Shardscape
