/-
# Threads that are given their turns

An infinite run of programs side by side, call by call.  A thread that is given its turn again
and again comes to the end of its program, whatever the others do between its calls
(`leadsTo_result`), and it ends with the postcondition for which the program is safe.  If it is
also given new programs again and again, it runs through one after the other, each from its
beginning to its end (`exists_round`).
-/

import Shardscape.Lib.Interleave
import Shardscape.Lib.LeadsTo

namespace Shardscape
namespace Lib
namespace Conf

variable {κ ℓ σ γ ε : Type} [DecidableEq κ] {D : Discipline κ ℓ σ γ}
  {Q₀ : κ → Except ε Unit → σ × γ → Prop} {Q : Except ε Unit → σ × γ → Prop} {i : κ}

variable {c : Conf κ ℓ σ γ ε} {m : Move κ ℓ σ ε}

/-- A move changes nothing in the state, or it is a call, which keeps the guarantee of its
thread. -/
theorem Sound.world_move (h : Sound D Q₀ c) (hm : Meets D c m) :
    (c.move D m).world = c.world ∨
      ∃ j, m = .step j ∧ D.inv (c.move D m).world ∧ D.guar j c.world (c.move D m).world := by
  cases m with
  | step j =>
    have hj := h.2 j
    simp only [Meets, Conf.move] at hm ⊢
    cases hp : c.threads j with
    | ret a => exact .inl rfl
    | fail e => exact .inl rfl
    | step l eff next =>
      rw [hp] at hm hj
      obtain ⟨hinv, hguar, -⟩ := hj c.world (D.rely_refl j _) h.1 hm
      exact .inr ⟨j, rfl, hinv, hguar⟩
  | spawn j p =>
    simp only [Conf.move]
    cases c.threads j <;> exact .inl rfl

/-- A thread that has calls to make waits for its turn. -/
theorem threads_move (h : (c.threads i).result = none) (hm : m ≠ .step i) :
    (c.move D m).threads i = c.threads i := by
  cases m with
  | step j =>
    have hij : i ≠ j := fun hij => hm (hij ▸ rfl)
    simp only [Conf.move]
    cases c.threads j with
    | step l eff next => exact Function.update_of_ne hij ..
    | ret a | fail e => rfl
  | spawn j p =>
    simp only [Conf.move]
    cases hq : c.threads j with
    | step l eff next => rfl
    | ret a | fail e =>
      have hij : i ≠ j := by
        rintro rfl
        simp [hq, Prog.result] at h
      exact Function.update_of_ne hij ..

/-- What is left of a thread is this program, and it is safe. -/
def At (D : Discipline κ ℓ σ γ) (i : κ) (p : Prog ℓ σ ε Unit) (Q : Except ε Unit → σ × γ → Prop)
    (c : Conf κ ℓ σ γ ε) : Prop :=
  c.threads i = p ∧ D.Safe i p Q c.world

/-- A move makes the next call of a thread, or the thread stays where it is. -/
theorem At.move {l : ℓ} {eff : σ → σ} {next : σ → Prog ℓ σ ε Unit}
    (h : At D i (.step l eff next) Q c) (hsound : Sound D Q₀ c) (hm : Meets D c m) :
    (m = .step i → At D i (next c.world.1) Q (c.move D m)) ∧
      (m ≠ .step i → At D i (.step l eff next) Q (c.move D m)) := by
  obtain ⟨hp, hsafe⟩ := h
  refine ⟨?_, fun hne => ⟨(threads_move (by rw [hp]; rfl) hne).trans hp, fun w hw => ?_⟩⟩
  · rintro rfl
    simp only [Meets, hp] at hm
    have hnext := (hsafe c.world (D.rely_refl i _) hsound.1 hm).2.2
    simp only [At, Conf.move, hp]
    exact ⟨Function.update_self .., hnext⟩
  · rcases hsound.world_move hm with hsame | ⟨j, rfl, hinv, hguar⟩
    · exact hsafe w (hsame ▸ hw)
    · have hji : j ≠ i := fun hji => hne (hji ▸ rfl)
      have hrely := D.guar_rely j i _ _ hji hsound.1 hinv hguar
      exact hsafe w (D.rely_trans i _ _ _ hrely hw)

/-- A finished thread stays so until it is given a program. -/
theorem result_move (h : (c.threads i).result.isSome) :
    (∃ p, m = .spawn i p ∧ (c.move D m).threads i = p) ∨
      (∀ p, m ≠ .spawn i p) ∧ ((c.move D m).threads i).result.isSome := by
  cases m with
  | step j =>
    refine .inr ⟨fun p => by simp, ?_⟩
    simp only [Conf.move]
    cases hq : c.threads j with
    | ret a => exact h
    | fail e => exact h
    | step l eff next =>
      have hij : i ≠ j := by
        rintro rfl
        rw [hq] at h
        exact Bool.false_ne_true h
      simpa [hij] using h
  | spawn j q =>
    by_cases hij : i = j
    · subst hij
      refine .inl ⟨q, rfl, ?_⟩
      simp only [Conf.move]
      cases hq : c.threads i with
      | ret a => exact Function.update_self ..
      | fail e => exact Function.update_self ..
      | step l eff next =>
        rw [hq] at h
        exact (Bool.false_ne_true h).elim
    · refine .inr ⟨fun p => by simp [Ne.symm hij], ?_⟩
      simp only [Conf.move]
      cases hq : c.threads j <;> simpa [hij] using h

/-! ### Infinite runs -/

/-- An infinite run that is sound throughout. -/
structure SoundRun (D : Discipline κ ℓ σ γ) (Q₀ : κ → Except ε Unit → σ × γ → Prop)
    (x : ℕ → Conf κ ℓ σ γ ε) (schedule : ℕ → Move κ ℓ σ ε) : Prop where
  step : ∀ n, x (n + 1) = (x n).move D (schedule n)
  sound : ∀ n, Sound D Q₀ (x n)
  meets : ∀ n, Meets D (x n) (schedule n)

variable {x : ℕ → Conf κ ℓ σ γ ε} {schedule : ℕ → Move κ ℓ σ ε}

/-- **A thread that is given its turn again and again comes to its end**, and there its
postcondition holds. -/
theorem SoundRun.leadsTo_result (h : SoundRun D Q₀ x schedule)
    (hturns : InfinitelyOften x schedule fun _ m => m = .step i) (p : Prog ℓ σ ε Unit)
    (Q : Except ε Unit → σ × γ → Prop) :
    LeadsTo x (At D i p Q) fun c => ∃ r, (c.threads i).result = some r ∧ Q r c.world := by
  induction p with
  | ret a => exact fun n hn => ⟨n, le_rfl, .ok a, by rw [hn.1]; rfl, hn.2⟩
  | fail e => exact fun n hn => ⟨n, le_rfl, .error e, by rw [hn.1]; rfl, hn.2⟩
  | step l eff next ih =>
    -- the next call is made, and it does not matter in which state
    have hcall : LeadsTo x (At D i (.step l eff next) Q) fun c => ∃ s, At D i (next s) Q c := by
      refine leadsTo_of_helpful (fun n hn => ?_) (fun n hn hturn => ?_) hturns
      · rw [h.step]
        have hmove := hn.move (h.sound n) (h.meets n)
        by_cases hturn : schedule n = .step i
        · exact .inr ⟨_, hmove.1 hturn⟩
        · exact .inl (hmove.2 hturn)
      · rw [h.step]
        exact ⟨_, (hn.move (h.sound n) (h.meets n)).1 hturn⟩
    refine hcall.trans fun n hn => ?_
    obtain ⟨s, hs⟩ := hn
    exact ih s n hs

/-- A finished thread that is given programs again and again begins one. -/
theorem SoundRun.leadsTo_begun (h : SoundRun D Q₀ x schedule)
    {start : κ → Prog ℓ σ ε Unit → Prop} (hstart : ∀ n, (schedule n).Starts start)
    (hspawns : InfinitelyOften x schedule fun _ m => ∃ p, m = .spawn i p) :
    LeadsTo x (fun c => (c.threads i).result.isSome) fun c => start i (c.threads i) := by
  have hbegun : ∀ n p, schedule n = .spawn i p → start i p := by
    intro n p hn
    have hs := hstart n
    rwa [hn] at hs
  refine leadsTo_of_helpful (fun n hn => ?_) (fun n hn hspawn => ?_) hspawns
  · rw [h.step]
    rcases result_move (D := D) (m := schedule n) hn with ⟨p, hm, hp⟩ | ⟨-, hdone⟩
    · rw [hp]
      exact .inr (hbegun n p hm)
    · exact .inl hdone
  · rw [h.step]
    rcases result_move (D := D) (m := schedule n) hn with ⟨p, hm, hp⟩ | ⟨hno, -⟩
    · rw [hp]
      exact hbegun n p hm
    · obtain ⟨p, hp⟩ := hspawn
      exact absurd hp (hno p)

/-- **Round after round.**  A thread that is given turns and programs again and again begins a
program after any time, and runs it to its end. -/
theorem SoundRun.exists_round (h : SoundRun D Q₀ x schedule)
    {start : κ → Prog ℓ σ ε Unit → Prop} (hstart : ∀ n, (schedule n).Starts start)
    {Q : σ × γ → Except ε Unit → σ × γ → Prop}
    (hsafe : ∀ p w, start i p → D.inv w → D.Safe i p (Q w) w)
    (hturns : InfinitelyOften x schedule fun _ m => m = .step i)
    (hspawns : InfinitelyOften x schedule fun _ m => ∃ p, m = .spawn i p) (n : ℕ) :
    ∃ a b, n ≤ a ∧ a ≤ b ∧ ∃ r, Q (x a).world r (x b).world := by
  obtain ⟨k, hk, r, hr, -⟩ := h.leadsTo_result hturns _ (Q₀ i) n ⟨rfl, (h.sound n).2 i⟩
  obtain ⟨a, ha, hp⟩ := h.leadsTo_begun hstart hspawns k (Option.isSome_of_eq_some hr)
  have hat : At D i ((x a).threads i) (Q (x a).world) (x a) :=
    ⟨rfl, hsafe _ _ hp (h.sound a).1⟩
  obtain ⟨b, hb, r', -, hQ⟩ := h.leadsTo_result hturns _ _ a hat
  exact ⟨a, b, hk.trans ha, hb, r', hQ⟩

end Conf
end Lib
end Shardscape
