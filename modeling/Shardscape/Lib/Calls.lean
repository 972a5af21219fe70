/-
# What the calls of a program do

`Calls I P p Q` describes a program by its calls alone: in whatever states they come
to be made, as long as each satisfies `I`, every call has `P`, which sees its label
and the states around it, and the program ends with a result in `Q`.  Nothing is
said of what happens between two calls, so no move of another thread can disturb it,
and what holds of the calls of every thread holds of every step of a run
(`calls_run`).

`Shardscape.Lib.Interleave` is the finer tool, for threads that rely on what they
have seen; here no thread relies on anything.
-/

import Shardscape.Lib.Along
import Shardscape.Lib.Interleave

namespace Shardscape
namespace Lib

variable {κ ℓ σ ε ε' α β γ : Type}

namespace Prog

/-- Every call made in a state of `I` has `P`, and the result is in `Q`. -/
def Calls (I : σ → Prop) (P : ℓ → σ → σ → Prop) :
    Prog ℓ σ ε α → (Except ε α → Prop) → Prop
  | .ret a, Q => Q (.ok a)
  | .fail e, Q => Q (.error e)
  | .step l eff next, Q => ∀ s, I s → P l s (eff s) ∧ Calls I P (next s) Q

/-- Any result. -/
def anyResult : Except ε α → Prop := fun _ => True

variable {I I' : σ → Prop} {P P' : ℓ → σ → σ → Prop}

variable {p : Prog ℓ σ ε α}

/-- A weaker description. -/
theorem Calls.mono {Q Q' : Except ε α → Prop} (h : p.Calls I P Q) (hI : ∀ s, I' s → I s)
    (hP : ∀ l s s', P l s s' → P' l s s') (hQ : ∀ r, Q r → Q' r) :
    p.Calls I' P' Q' := by
  induction p with
  | ret a => exact hQ _ h
  | fail e => exact hQ _ h
  | step l eff next ih =>
    intro s hs
    exact ⟨hP _ _ _ (h s (hI s hs)).1, ih s (h s (hI s hs)).2⟩

variable {Q : Except ε α → Prop}

/-- A sequence, from its two parts. -/
theorem Calls.bind {p : Prog ℓ σ ε β} {k : β → Prog ℓ σ ε α}
    (h : p.Calls I P fun r => match r with
      | .ok b => (k b).Calls I P Q
      | .error e => Q (.error e)) : (p >>= k).Calls I P Q := by
  induction p with
  | ret b => exact h
  | fail e => exact h
  | step l eff next ih => exact fun s hs => ⟨(h s hs).1, ih s (h s hs).2⟩

/-- A sequence whose first part may end as it will. -/
theorem Calls.seq {p : Prog ℓ σ ε β} {k : β → Prog ℓ σ ε α} (h : p.Calls I P anyResult)
    (hfail : ∀ e, Q (.error e)) (hk : ∀ b, (k b).Calls I P Q) :
    (p >>= k).Calls I P Q := by
  refine Calls.bind (h.mono (fun _ hs => hs) (fun _ _ _ hP => hP) fun r _ => ?_)
  cases r with
  | ok b => exact hk b
  | error e => exact hfail e

/-- An error that is caught is a result, and the calls are the same. -/
theorem Calls.attempt {Q : Except ε' (Except ε α) → Prop} (h : p.Calls I P fun r => Q (.ok r)) :
    p.attempt.Calls I P Q := by
  induction p with
  | ret a => exact h
  | fail e => exact h
  | step l eff next ih => exact fun s hs => ⟨(h s hs).1, ih s (h s hs).2⟩

/-- The error is another one, and the calls are the same. -/
theorem Calls.mapErr {f : ε → ε'} {Q : Except ε' α → Prop}
    (h : p.Calls I P fun r => Q (r.mapError f)) : (p.mapErr f).Calls I P Q := by
  induction p with
  | ret a => exact h
  | fail e => exact h
  | step l eff next ih => exact fun s hs => ⟨(h s hs).1, ih s (h s hs).2⟩

/-- A result at hand takes no call. -/
theorem Calls.ofExcept {r : Except ε α} (h : Q r) :
    (Prog.ofExcept r : Prog ℓ σ ε α).Calls I P Q := by
  cases r <;> exact h

/-- A loop over a list. -/
theorem Calls.forEach {body : β → Prog ℓ σ ε Unit} {l : List β}
    (hbody : ∀ b ∈ l, (body b).Calls I P anyResult) :
    (Prog.forEach body l).Calls I P anyResult := by
  induction l with
  | nil => trivial
  | cons b bs ih =>
    refine Calls.seq (hbody b List.mem_cons_self) (fun _ => trivial) fun _ => ?_
    exact ih fun b' hb' => hbody b' (List.mem_cons_of_mem b hb')

/-- A loop over a list with an accumulator. -/
theorem Calls.foldlM {body : γ → β → Prog ℓ σ ε γ} {l : List β} {a : γ}
    (hbody : ∀ a, ∀ b ∈ l, (body a b).Calls I P anyResult) :
    (l.foldlM body a).Calls I P anyResult := by
  induction l generalizing a with
  | nil => trivial
  | cons b bs ih =>
    rw [List.foldlM_cons]
    refine Calls.seq (hbody a b List.mem_cons_self) (fun _ => trivial) fun a' => ?_
    exact ih fun a'' b' hb' => hbody a'' b' (List.mem_cons_of_mem b hb')

/-- What no call changes is the same when the program has run. -/
theorem Calls.exec (h : p.Calls (fun _ => True) P Q) (view : σ → β)
    (hP : ∀ l s s', P l s s' → view s' = view s) (s : σ) :
    view (p.exec s).1 = view s := by
  induction p generalizing s with
  | ret a => rfl
  | fail e => rfl
  | step l eff next ih =>
    obtain ⟨hcall, hnext⟩ := h s trivial
    exact (ih s hnext (eff s)).trans (hP l s (eff s) hcall)

/-- A condition that holds wherever the calls are made holds along every execution. -/
theorem Calls.along {C : ℓ → σ → Prop} (h : p.Calls I P Q) (hI : ∀ l s s', I s → P l s s' → I s')
    (hC : ∀ l s, I s → C l s) {s : σ} (hs : I s) : p.Along C s := by
  induction p generalizing s with
  | ret a => trivial
  | fail e => trivial
  | step l eff next ih =>
    obtain ⟨hcall, hnext⟩ := h s hs
    exact ⟨hC l s hs, ih s hnext (hI l s (eff s) hs hcall)⟩

end Prog

/-! ### Runs -/

/-- The discipline of threads that are described by their calls: it asks nothing and
remembers nothing. -/
def Discipline.free (κ ℓ σ : Type) : Discipline κ ℓ σ Unit where
  record _ _ _ _ _ := ()
  cond _ _ _ := True
  inv _ := True
  rely _ _ _ := True
  guar _ _ _ := True
  rely_refl _ _ := trivial
  rely_trans _ _ _ _ _ _ := trivial
  guar_rely _ _ _ _ _ _ _ _ := trivial

namespace Conf

variable [DecidableEq κ]

/-- A configuration of such threads. -/
abbrev Plain (κ ℓ σ ε : Type) := Conf κ ℓ σ Unit ε

/-- No thread runs yet. -/
def atRest (s : σ) : Plain κ ℓ σ ε := idle (s, ())

/-- One move. -/
def advance (c : Plain κ ℓ σ ε) (m : Move κ ℓ σ ε) : Plain κ ℓ σ ε :=
  c.move (Discipline.free κ ℓ σ) m

/-- The label of the next call of a thread. -/
def nextCall (c : Conf κ ℓ σ γ ε) (i : κ) : Option ℓ :=
  match c.threads i with
  | .step l _ _ => some l
  | _ => none

/-- A move makes the next call of a thread, or leaves the state as it is. -/
theorem advance_cases (c : Plain κ ℓ σ ε) (m : Move κ ℓ σ ε) :
    (∃ i l, m = .step i ∧ c.nextCall i = some l) ∨ (c.advance m).world = c.world := by
  cases m with
  | step i =>
    simp only [advance, move, nextCall]
    cases hp : c.threads i with
    | ret a => exact .inr rfl
    | fail e => exact .inr rfl
    | step l eff next => exact .inl ⟨i, l, rfl, by rw [hp]⟩
  | spawn i p =>
    simp only [advance, move]
    cases hp : c.threads i <;> exact .inr rfl

/-- The state is in `I` and the rest of every thread is described by `P`. -/
def Described (I : σ → Prop) (P : κ → ℓ → σ → σ → Prop) (c : Plain κ ℓ σ ε) : Prop :=
  I c.world.1 ∧ ∀ i, (c.threads i).Calls I (P i) Prog.anyResult

/-- What a move does: the call that is made has `P`. -/
def Does (P : κ → ℓ → σ → σ → Prop) (c : Plain κ ℓ σ ε) (m : Move κ ℓ σ ε) : Prop :=
  ∀ i l, m = .step i → c.nextCall i = some l → P i l c.world.1 (c.advance m).world.1

/-- A thread that is not given a new program goes on as described. -/
theorem calls_advance {c : Plain κ ℓ σ ε} {m : Move κ ℓ σ ε} {i : κ} {P : ℓ → σ → σ → Prop}
    {Q : Except ε Unit → Prop} (h : (c.threads i).Calls (fun _ => True) P Q)
    (hm : ∀ p, m ≠ .spawn i p) : ((c.advance m).threads i).Calls (fun _ => True) P Q := by
  cases m with
  | step j =>
    simp only [advance, move]
    cases hp : c.threads j with
    | ret a => exact h
    | fail e => exact h
    | step l eff next =>
      by_cases hj : i = j
      · subst hj
        rw [hp] at h
        simpa using (h c.world.1 trivial).2
      · simpa [hj] using h
  | spawn j p =>
    have hj : i ≠ j := fun hj => hm p (hj ▸ rfl)
    simp only [advance, move]
    cases hp : c.threads j with
    | ret a => simpa [hj] using h
    | fail e => simpa [hj] using h
    | step l eff next => exact h

omit [DecidableEq κ] in
/-- The next call of a described thread. -/
theorem calls_nextCall {c : Conf κ ℓ σ γ ε} {i : κ} {P : ℓ → σ → σ → Prop}
    {Q : Except ε Unit → Prop} (h : (c.threads i).Calls (fun _ => True) P Q) {l : ℓ}
    (hl : c.nextCall i = some l) (s : σ) : ∃ s', P l s s' := by
  unfold nextCall at hl
  split at hl
  · next l' eff next hp =>
      rw [hp] at h
      obtain rfl : l' = l := Option.some.inj hl
      exact ⟨eff s, (h s trivial).1⟩
  · exact nomatch hl

variable {I : σ → Prop} {P : κ → ℓ → σ → σ → Prop}

/-- One move of a described configuration makes a described call, and leaves a
described configuration. -/
theorem described_advance (start : κ → Prog ℓ σ ε Unit → Prop)
    (hI : ∀ i l s s', I s → P i l s s' → I s')
    (hstart : ∀ i p, start i p → p.Calls I (P i) Prog.anyResult) {c : Plain κ ℓ σ ε}
    {m : Move κ ℓ σ ε} (h : Described I P c) (hs : m.Starts start) :
    Does P c m ∧ Described I P (c.advance m) := by
  obtain ⟨hinv, hcalls⟩ := h
  cases m with
  | step i =>
    have hi := hcalls i
    simp only [Does, Move.step.injEq, nextCall, advance, move]
    cases hp : c.threads i with
    | ret a =>
      refine ⟨?_, hinv, hcalls⟩
      rintro _ _ rfl hl
      simp [hp] at hl
    | fail e =>
      refine ⟨?_, hinv, hcalls⟩
      rintro _ _ rfl hl
      simp [hp] at hl
    | step l eff next =>
      rw [hp] at hi
      obtain ⟨hP, hnext⟩ := hi c.world.1 hinv
      refine ⟨?_, hI i l _ _ hinv hP, fun j => ?_⟩
      · rintro _ l' rfl hl
        rw [hp] at hl
        obtain rfl : l = l' := Option.some.inj hl
        exact hP
      · by_cases hj : j = i
        · subst hj
          simpa using hnext
        · simpa [hj] using hcalls j
  | spawn i p =>
    refine ⟨by rintro _ _ ⟨⟩, ?_⟩
    have hspawn : Described I P ⟨c.world, Function.update c.threads i p⟩ := by
      refine ⟨hinv, fun j => ?_⟩
      by_cases hj : j = i
      · subst hj
        simpa using hstart j p hs
      · simpa [hj] using hcalls j
    simp only [advance, move]
    cases hp : c.threads i with
    | ret a => exact hspawn
    | fail e => exact hspawn
    | step l eff next => exact ⟨hinv, hcalls⟩

/-- **Every call of a run is one that its thread may make.** -/
theorem calls_run (start : κ → Prog ℓ σ ε Unit → Prop) (hI : ∀ i l s s', I s → P i l s s' → I s')
    (hstart : ∀ i p, start i p → p.Calls I (P i) Prog.anyResult) {c : Plain κ ℓ σ ε}
    {ms : List (Move κ ℓ σ ε)} (h : Described I P c) (hs : ∀ m ∈ ms, m.Starts start) :
    ∀ p ∈ trace advance c ms, Does P p.1 p.2 := by
  have hstep : ∀ c m, Described I P c → m.Starts start → Described I P (advance c m) :=
    fun c m h hm => (described_advance start hI hstart h hm).2
  have hall : ∀ p ∈ trace advance c ms, p.2.Starts start :=
    fun p hp => hs p.2 (mem_of_mem_trace hp)
  intro p hp
  exact (described_advance start hI hstart (invariant_of_trace hstep h hall p hp)
    (hall p hp)).1

end Conf
end Lib
end Shardscape
