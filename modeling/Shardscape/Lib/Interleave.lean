/-
# Interleaved programs

Programs running side by side over one shared state, one call at a time, in any
order.  A `Conf` is the shared state, a ghost that records what the proof needs to
remember, and the rest of the program of each thread; a finished thread may be
given a new program.

A `Discipline` says what each thread may rely on the others for and what it
guarantees them.  `Safe` is a thread keeping its side, call by call, and
`Conf.Sound` a configuration in which all do; `sound_move` is the step lemma and
`sound_run` what follows for runs.  A condition on the calls (`cond`) restricts the
runs that are talked about.
-/

import Shardscape.Lib.Prog
import Shardscape.Lib.Run
import Mathlib.Logic.Function.Basic

namespace Shardscape
namespace Lib

variable {κ ℓ σ γ ε α β : Type}

/-- How the threads `κ` share the state: the ghost update of a call, which sees the
thread, the label and the states around it, the condition on calls, the invariant,
and what each thread relies on and guarantees. -/
structure Discipline (κ ℓ σ γ : Type) where
  record : κ → γ → ℓ → σ → σ → γ
  cond : κ → ℓ → σ × γ → Prop
  inv : σ × γ → Prop
  rely : κ → σ × γ → σ × γ → Prop
  guar : κ → σ × γ → σ × γ → Prop
  rely_refl : ∀ i w, rely i w w
  rely_trans : ∀ i w w' w'', rely i w w' → rely i w' w'' → rely i w w''
  guar_rely : ∀ i j w w', i ≠ j → inv w → inv w' → guar i w w' → rely j w w'

namespace Discipline

variable (D : Discipline κ ℓ σ γ)

/-- The world after a call of thread `i`. -/
def after (i : κ) (l : ℓ) (eff : σ → σ) (w : σ × γ) : σ × γ :=
  (eff w.1, D.record i w.2 l w.1 (eff w.1))

/-- From `w` on, whatever moves of the others come between, every call of the
program keeps the invariant and the thread's guarantee, and `Q` holds where the
program ends. -/
def Safe (i : κ) : Prog ℓ σ ε α → (Except ε α → σ × γ → Prop) → σ × γ → Prop
  | .ret a, Q, w => Q (.ok a) w
  | .fail e, Q, w => Q (.error e) w
  | .step l eff next, Q, w => ∀ w', D.rely i w w' → D.inv w' → D.cond i l w' →
      D.inv (D.after i l eff w') ∧ D.guar i w' (D.after i l eff w') ∧
        Safe i (next w'.1) Q (D.after i l eff w')

variable {D} {i : κ}

variable {p : Prog ℓ σ ε α} {Q : Except ε α → σ × γ → Prop}

/-- Moves of the others do no harm. -/
theorem Safe.rely {w w' : σ × γ} (h : D.Safe i p Q w) (hw : D.rely i w w')
    (hQ : ∀ r, Q r w → Q r w') : D.Safe i p Q w' := by
  cases p with
  | ret a => exact hQ _ h
  | fail e => exact hQ _ h
  | step l eff next =>
    intro w'' hw'' hinv hcond
    exact h w'' (D.rely_trans i _ _ _ hw hw'') hinv hcond

variable {w : σ × γ}

/-- A program that has come to its end meets its postcondition. -/
theorem Safe.of_result (h : D.Safe i p Q w) {r : Except ε α} (hr : p.result = some r) : Q r w := by
  cases p with
  | ret a => exact Option.some.inj hr ▸ h
  | fail e => exact Option.some.inj hr ▸ h
  | step l eff next => exact nomatch hr

/-- The same call, before a program that is safe wherever the one after it was. -/
theorem Safe.step {ε' α' : Type} {l : ℓ} {eff : σ → σ} {next : σ → Prog ℓ σ ε α}
    {next' : σ → Prog ℓ σ ε' α'} {Q' : Except ε' α' → σ × γ → Prop}
    (h : D.Safe i (.step l eff next) Q w)
    (hnext : ∀ s w', D.Safe i (next s) Q w' → D.Safe i (next' s) Q' w') :
    D.Safe i (.step l eff next') Q' w := by
  intro w' hw hinv hcond
  obtain ⟨hinv', hguar, hrest⟩ := h w' hw hinv hcond
  exact ⟨hinv', hguar, hnext w'.1 _ hrest⟩

/-- A weaker postcondition. -/
theorem Safe.mono {Q Q' : Except ε α → σ × γ → Prop} (h : D.Safe i p Q w)
    (hQ : ∀ r w, Q r w → Q' r w) : D.Safe i p Q' w := by
  induction p generalizing w with
  | ret a => exact hQ _ _ h
  | fail e => exact hQ _ _ h
  | step l eff next ih => exact Safe.step h fun s _ hnext => ih s hnext

/-- A sequence, from its two parts. -/
theorem Safe.bind {p : Prog ℓ σ ε β} {k : β → Prog ℓ σ ε α}
    (h : D.Safe i p (fun r w' => match r with
      | .ok b => D.Safe i (k b) Q w'
      | .error e => Q (.error e) w') w) : D.Safe i (p >>= k) Q w := by
  induction p generalizing w with
  | ret b => exact h
  | fail e => exact h
  | step l eff next ih => exact Safe.step h fun s _ hnext => ih s hnext

/-- An error that is caught is a result. -/
theorem Safe.attempt {ε' : Type} {Q : Except ε' (Except ε α) → σ × γ → Prop}
    (h : D.Safe i p (fun r w' => Q (.ok r) w') w) : D.Safe i p.attempt Q w := by
  induction p generalizing w with
  | ret b => exact h
  | fail e => exact h
  | step l eff next ih => exact Safe.step h fun s _ hnext => ih s hnext

/-- The error is another one, and the calls are the same. -/
theorem Safe.mapErr {ε' : Type} {f : ε → ε'} {Q : Except ε' α → σ × γ → Prop}
    (h : D.Safe i p (fun r w' => Q (r.mapError f) w') w) :
    D.Safe i (p.mapErr f) Q w := by
  induction p generalizing w with
  | ret b => exact h
  | fail e => exact h
  | step l eff next ih => exact Safe.step h fun s _ hnext => ih s hnext

/-- A result at hand takes no call. -/
theorem Safe.ofExcept {r : Except ε α} (h : Q r w) : D.Safe i (Prog.ofExcept r) Q w := by
  cases r <;> exact h

/-- A loop over a list, with an assertion over what is left to do that the moves
of the others keep. -/
theorem Safe.forEach {body : β → Prog ℓ σ ε Unit} {Q : Except ε Unit → σ × γ → Prop}
    (P : List β → σ × γ → Prop) (hnil : ∀ w, P [] w → Q (.ok ()) w)
    (hbody : ∀ b bs w, P (b :: bs) w → D.Safe i (body b) (fun r w' => match r with
      | .ok _ => P bs w'
      | .error e => Q (.error e) w') w) {l : List β} (h : P l w) :
    D.Safe i (Prog.forEach body l) Q w := by
  induction l generalizing w with
  | nil => exact hnil w h
  | cons b bs ih =>
    refine Safe.bind ((hbody b bs w h).mono fun r w' hr => ?_)
    cases r with
    | ok a => exact ih hr
    | error e => exact hr

end Discipline

/-! ### Configurations -/

/-- The shared state with its ghost, and what is left of each thread. -/
structure Conf (κ ℓ σ γ ε : Type) where
  world : σ × γ
  threads : κ → Prog ℓ σ ε Unit

/-- What can happen next: a thread makes its next call, or a finished thread is
given a program. -/
inductive Move (κ ℓ σ ε : Type) where
  | step (i : κ)
  | spawn (i : κ) (p : Prog ℓ σ ε Unit)

/-- A spawned program is one of those its thread may run. -/
def Move.Starts (start : κ → Prog ℓ σ ε Unit → Prop) : Move κ ℓ σ ε → Prop
  | .step _ => True
  | .spawn i p => start i p

namespace Conf

/-- Nothing is running. -/
def idle (w : σ × γ) : Conf κ ℓ σ γ ε := ⟨w, fun _ => .ret ()⟩

variable [DecidableEq κ]

/-- One move. -/
def move (D : Discipline κ ℓ σ γ) (c : Conf κ ℓ σ γ ε) : Move κ ℓ σ ε → Conf κ ℓ σ γ ε
  | .step i =>
    match c.threads i with
    | .step l eff next =>
      ⟨D.after i l eff c.world, Function.update c.threads i (next c.world.1)⟩
    | _ => c
  | .spawn i p =>
    match c.threads i with
    | .step _ _ _ => c
    | _ => ⟨c.world, Function.update c.threads i p⟩

/-- The call of a move meets the condition. -/
def Meets (D : Discipline κ ℓ σ γ) (c : Conf κ ℓ σ γ ε) : Move κ ℓ σ ε → Prop
  | .step i =>
    match c.threads i with
    | .step l _ _ => D.cond i l c.world
    | _ => True
  | .spawn _ _ => True

instance (D : Discipline κ ℓ σ γ) [∀ i l w, Decidable (D.cond i l w)] (c : Conf κ ℓ σ γ ε)
    (m : Move κ ℓ σ ε) : Decidable (Meets D c m) :=
  match m with
  | .spawn _ _ => isTrue trivial
  | .step i =>
    match hp : c.threads i with
    | .step l _ _ => decidable_of_iff (D.cond i l c.world) (by rw [Meets, hp])
    | .ret _ => isTrue (by rw [Meets, hp]; trivial)
    | .fail _ => isTrue (by rw [Meets, hp]; trivial)

/-- The invariant holds and every thread is safe. -/
def Sound (D : Discipline κ ℓ σ γ) (Q : κ → Except ε Unit → σ × γ → Prop)
    (c : Conf κ ℓ σ γ ε) : Prop :=
  D.inv c.world ∧ ∀ i, D.Safe i (c.threads i) (Q i) c.world

/-- **One move keeps a configuration sound**, if the postconditions survive the
moves of the others and every program a thread may run is safe where the invariant
holds. -/
theorem sound_move {D : Discipline κ ℓ σ γ} {Q : κ → Except ε Unit → σ × γ → Prop}
    (start : κ → Prog ℓ σ ε Unit → Prop)
    (hQ : ∀ i r w w', D.rely i w w' → Q i r w → Q i r w')
    (hstart : ∀ i p w, start i p → D.inv w → D.Safe i p (Q i) w) (c : Conf κ ℓ σ γ ε)
    (m : Move κ ℓ σ ε) (h : Sound D Q c) (hs : m.Starts start) (hm : Meets D c m) :
    Sound D Q (c.move D m) := by
  obtain ⟨hinv, hsafe⟩ := h
  cases m with
  | step i =>
    have hi := hsafe i
    simp only [move, Meets] at hm ⊢
    cases hp : c.threads i with
    | ret a => exact ⟨hinv, hsafe⟩
    | fail e => exact ⟨hinv, hsafe⟩
    | step l eff next =>
      rw [hp] at hm hi
      obtain ⟨hinv', hguar, hnext⟩ := hi c.world (D.rely_refl i _) hinv hm
      refine ⟨hinv', fun j => ?_⟩
      by_cases hj : j = i
      · subst hj
        simpa using hnext
      · have hr := D.guar_rely i j _ _ (Ne.symm hj) hinv hinv' hguar
        simpa [hj] using (hsafe j).rely hr fun r => hQ j r _ _ hr
  | spawn i p =>
    have hspawn : Sound D Q ⟨c.world, Function.update c.threads i p⟩ := by
      refine ⟨hinv, fun j => ?_⟩
      by_cases hj : j = i
      · subst hj
        simpa using hstart j p c.world hs hinv
      · simpa [hj] using hsafe j
    simp only [move]
    cases hp : c.threads i with
    | ret a => exact hspawn
    | fail e => exact hspawn
    | step l eff next => exact ⟨hinv, hsafe⟩

/-- **A run keeps a configuration sound**, in every state it passes and where it
ends. -/
theorem sound_run {D : Discipline κ ℓ σ γ} {Q : κ → Except ε Unit → σ × γ → Prop}
    (start : κ → Prog ℓ σ ε Unit → Prop)
    (hQ : ∀ i r w w', D.rely i w w' → Q i r w → Q i r w')
    (hstart : ∀ i p w, start i p → D.inv w → D.Safe i p (Q i) w) {c : Conf κ ℓ σ γ ε}
    {ms : List (Move κ ℓ σ ε)} (h : Sound D Q c) (hs : ∀ m ∈ ms, m.Starts start)
    (hm : ∀ p ∈ trace (move D) c ms, Meets D p.1 p.2) :
    (∀ p ∈ trace (move D) c ms, Sound D Q p.1) ∧ Sound D Q (ms.foldl (move D) c) := by
  have hstep : ∀ c m, Sound D Q c → (m.Starts start ∧ Meets D c m) → Sound D Q (move D c m) :=
    fun c m h hc => sound_move start hQ hstart c m h hc.1 hc.2
  have hall : ∀ p ∈ trace (move D) c ms, p.2.Starts start ∧ Meets D p.1 p.2 :=
    fun p hp => ⟨hs p.2 (mem_of_mem_trace hp), hm p hp⟩
  exact ⟨invariant_of_trace hstep h hall, invariant_at_end hstep h hall⟩

end Conf
end Lib
end Shardscape
