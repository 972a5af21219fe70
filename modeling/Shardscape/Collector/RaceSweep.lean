/-
# The side of the sweep

`sweep_orphaned_blocks` against a request.  A block that the sweep reaps is an
orphan of its live set whose mark had run out when it read the clock (`Sweeping`),
and the request relies on no such block (`not_kept`).
-/

import Shardscape.Collector.Race

namespace Shardscape
namespace Race

open Lib Discipline

variable {Blob : BlobStore} {cfg : GcConfig} {α ε : Type} {Q : Except ε α → Race Blob → Prop}
  {w : Race Blob}

/-! ### The calls of the sweep -/

/-- What the sweep knows while it goes through the blocks `left`: its live set is
that of the written row or `stale`, what it has read is on record, and the marks it
read are the marks there are. -/
structure Sweeping (live : List Bytes) (pending : Table Bytes ℤ) (read : Option ℤ)
    (left : List Bytes) (w : Race Blob) : Prop where
  live : w.2.stale = false → w.2.written = true ∧ ∀ h, Named w.1.store h → h ∈ live
  read : w.2.read = read
  pending : ∀ h ∈ left, w.1.store.pendingDeletions.lookup h = pending.lookup h

variable {live : List Bytes} {pending : Table Bytes ℤ} {read : Option ℤ} {now : ℤ}
  {left : List Bytes}

/-- The request does not disturb what the sweep knows. -/
theorem Sweeping.requestStep {w w' : Race Blob} (h : Sweeping live pending read left w)
    (hw : RequestStep w w') : Sweeping live pending read left w' where
  live hst := by
    obtain ⟨hwr, hlive⟩ := h.live (hw.stale ▸ hst)
    obtain ⟨hwr', hobj, hparts⟩ := hw.written hwr
    refine ⟨hwr', fun b hb => hlive b ?_⟩
    rw [Named, Store.NamedByObject, Store.NamedByPart] at hb ⊢
    rwa [hobj, hparts] at hb
  read := hw.read.trans h.read
  pending b hb := by
    rw [hw.pending]
    exact h.pending b hb

variable {left' : List Bytes}

/-- A call of the sweep, from what it does to both sides' assertions. -/
theorem safe_sweeping (hsw : Sweeping live pending read left w) {l : Call}
    {eff : Site Blob → Site Blob} {next : Site Blob → Site.SProg Blob ε α}
    (hl : ∀ g (s : Site Blob), raceRecord .sweep g l s = g)
    (horacle : ∀ s, (eff s).oracle = s.oracle) (htick : ∀ s, s.tick ≤ (eff s).tick)
    (heff : ∀ s g, Inv cfg (s, g) → Sweeping live pending read left (s, g) →
      SweepStep (s, g) (eff s, g) ∧ Sweeping live pending read left' (eff s, g))
    (h : ∀ s g, Inv cfg (s, g) → Sweeping live pending read left' (eff s, g) →
      Safe cfg .sweep (next s) Q (eff s, g)) : Safe cfg .sweep (.step l eff next) Q w := by
  intro w' hw hinv _
  obtain ⟨hstep, hsw'⟩ := heff w'.1 w'.2 hinv (hsw.requestStep hw)
  simp only [after, discipline, hl]
  refine ⟨⟨?_, ?_, fun now hnow n hn => ?_⟩, hstep, h w'.1 w'.2 hinv hsw'⟩
  · rw [horacle]
    exact hinv.mono
  · rw [horacle]
    exact hinv.fits
  · rw [horacle]
    exact hinv.past now hnow n ((htick w'.1).trans hn)

/-- Steps of the sweep keep what it knows, apart from the marks. -/
theorem Sweeping.of_step {s s' : Site Blob} {g : RaceGhost}
    (h : Sweeping live pending read left (s, g)) (hstep : SweepStep (s, g) (s', g))
    (hpending : ∀ b ∈ left', s'.store.pendingDeletions.lookup b = pending.lookup b) :
    Sweeping live pending read left' (s', g) where
  live hst := by
    obtain ⟨hwr, hlive⟩ := h.live hst
    refine ⟨hwr, fun b hb => hlive b ?_⟩
    rw [Named, Store.NamedByObject, Store.NamedByPart] at hb ⊢
    rwa [hstep.objects, hstep.parts] at hb
  read := h.read
  pending := hpending

/-- A call that leaves the manifests alone, adds no mark that is due at the reading of the
sweep, and deletes no block that is kept. -/
theorem SweepStep.frame {s s' : Site Blob} {g : RaceGhost}
    (hobj : s'.store.objects = s.store.objects) (hparts : s'.store.parts = s.store.parts)
    (hpending : ∀ b t, s'.store.pendingDeletions.lookup b = some t →
      s.store.pendingDeletions.lookup b = some t ∨ ∀ now ∈ g.read, now < t)
    (hheld : ∀ b, Kept (s, g) b → s'.store.HoldsLocally b) : SweepStep (s, g) (s', g) := by
  have hspared : ∀ b, Spared (s, g) b → Spared (s', g) b := by
    intro b hb hst now hnow t ht
    rcases hpending b t ht with hold | hnew
    · exact hb hst now hnow t hold
    · exact hnew now hnow
  refine ⟨hobj, hparts, rfl, rfl, fun b _ => hspared b, fun b hb => ?_⟩
  refine ⟨hb.looked, hheld b hb, hspared b hb.spared, fun hw => ?_⟩
  have := hb.named hw
  rw [Named, Store.NamedByObject, Store.NamedByPart] at this ⊢
  rwa [← hobj, ← hparts] at this

/-- A query of the sweep. -/
theorem sweeping_db (hsw : Sweeping live pending read left w) {l : Call}
    (hl : ∀ g (s : Site Blob), raceRecord .sweep g l s = g) {f : Store → α}
    (h : ∀ w', Sweeping live pending read left w' → Q (.ok (f w'.1.store)) w') :
    Safe cfg .sweep (Site.db l f) Q w :=
  safe_sweeping hsw hl (fun _ => rfl) (fun _ => le_rfl)
    (fun _ _ _ hsw' => ⟨SweepStep.refl _, hsw'⟩) fun s g _ hsw' => h (s, g) hsw'

/-- The reading for a mark: it is not before that of the sweep. -/
theorem sweeping_markTime (hsw : Sweeping live pending (some now) left w)
    {Q : Except ε ℕ → Race Blob → Prop}
    (h : ∀ micros w', now ≤ (micros / 1000 : ℕ) → cfg.Fits micros →
      Sweeping live pending (some now) left w' → Q (.ok micros) w') :
    Safe cfg .sweep Site.markTime Q w := by
  refine safe_sweeping hsw (fun _ _ => rfl) (fun _ => rfl) (fun _ => Nat.le_succ _)
    (fun s g _ hsw' => ?_) fun s g hinv hsw' => h _ _ ?_ (hinv.fits s.tick) hsw'
  · have hstep : SweepStep (s, g) ({ s with tick := s.tick + 1 }, g) :=
      SweepStep.frame rfl rfl (fun _ _ h => .inl h) fun _ hb => hb.held
    exact ⟨hstep, hsw'.of_step hstep hsw'.pending⟩
  · exact hinv.past now hsw'.read s.tick le_rfl

variable {hash : Bytes} {Q : Except ε Unit → Race Blob → Prop}

/-- A mark goes, of a block that is not among those left. -/
theorem sweeping_removePendingDeletion (hsw : Sweeping live pending read left w)
    (hleft : ∀ b ∈ left', b ∈ left ∧ b ≠ hash)
    (h : ∀ w', Sweeping live pending read left' w' → Q (.ok ()) w') :
    Safe cfg .sweep (Site.removePendingDeletion hash) Q w := by
  refine safe_sweeping hsw (fun _ _ => rfl) (fun _ => rfl) (fun _ => le_rfl) (fun s g _ hsw' => ?_)
    fun s g _ hsw' => h _ hsw'
  have hstep : SweepStep (s, g) ({ s with store := s.store.removePendingDeletion hash }, g) := by
    refine SweepStep.frame rfl rfl (fun b t ht => .inl ?_) fun _ hb => hb.held
    rw [Store.removePendingDeletion, Table.lookup_erase] at ht
    split_ifs at ht
    exact ht
  refine ⟨hstep, hsw'.of_step hstep fun b hb => ?_⟩
  show (s.store.removePendingDeletion hash).pendingDeletions.lookup b = pending.lookup b
  rw [Store.removePendingDeletion, Table.lookup_erase, if_neg (hleft b hb).2]
  exact hsw'.pending b (hleft b hb).1

/-- A block is marked, until after the reading of the sweep. -/
theorem sweeping_addPendingDeletion {notBefore : ℤ} (hsw : Sweeping live pending (some now) left w)
    (hnew : now < notBefore) (hleft : ∀ b ∈ left', b ∈ left ∧ b ≠ hash)
    (h : ∀ w', Sweeping live pending (some now) left' w' → Q (.ok ()) w') :
    Safe cfg .sweep (Site.addPendingDeletion hash notBefore) Q w := by
  refine safe_sweeping hsw (fun _ _ => rfl) (fun _ => rfl) (fun _ => le_rfl) (fun s g _ hsw' => ?_)
    fun s g _ hsw' => h _ hsw'
  have hstep : SweepStep (s, g)
      ({ s with store := s.store.addPendingDeletion hash notBefore }, g) := by
    refine SweepStep.frame rfl rfl (fun b t ht => ?_) fun _ hb => hb.held
    rw [Store.addPendingDeletion, Table.lookup_insert] at ht
    split_ifs at ht
    · refine .inr fun now' hnow' => ?_
      obtain rfl : now = now' := Option.some.inj (hsw'.read.symm.trans hnow')
      exact Option.some.inj ht ▸ hnew
    · exact .inl ht
  refine ⟨hstep, hsw'.of_step hstep fun b hb => ?_⟩
  show (s.store.addPendingDeletion hash notBefore).pendingDeletions.lookup b = pending.lookup b
  rw [Store.addPendingDeletion, Table.lookup_insert, if_neg (hleft b hb).2]
  exact hsw'.pending b (hleft b hb).1

/-- **An orphan whose mark has run out is not one the request relies on.**  If the live set
is that of the written row, the row does not name the block; if it is older, the block was
not due at the reading. -/
theorem not_kept {s : Site Blob} {g : RaceGhost} {t : ℤ}
    (hsw : Sweeping live pending (some now) left (s, g)) (hmem : hash ∈ left) (hlive : hash ∉ live)
    (hmark : pending.lookup hash = some t) (hout : t ≤ now) : ¬ Kept (s, g) hash := by
  intro hk
  cases hst : g.stale with
  | false =>
    obtain ⟨hwr, hnamed⟩ := hsw.live hst
    exact hlive (hnamed hash (hk.named hwr))
  | true =>
    have hlt := hk.spared hst now hsw.read t ((hsw.pending hash hmem).trans hmark)
    omega

/-- The sweep deletes only what no request keeps. -/
theorem sweeping_deleteLocalBlock {t : ℤ} (hsw : Sweeping live pending (some now) left w)
    (hmem : hash ∈ left) (hlive : hash ∉ live) (hmark : pending.lookup hash = some t)
    (hout : t ≤ now) {Q : Except ε Bool → Race Blob → Prop}
    (h : ∀ a w', Sweeping live pending (some now) left w' → Q (.ok a) w') :
    Safe cfg .sweep (Site.deleteLocalBlock hash) Q w := by
  refine safe_sweeping hsw (fun _ _ => rfl) (fun _ => rfl) (fun _ => le_rfl) (fun s g _ hsw' => ?_)
    fun s g _ hsw' => h _ _ hsw'
  have hstep : SweepStep (s, g) ({ s with store := (s.store.deleteLocalBlock hash).1 }, g) := by
    refine SweepStep.frame rfl rfl (fun _ _ h => .inl h) fun b hb => ?_
    refine (Store.holdsLocally_deleteLocalBlock s.store hash b).2 ⟨?_, hb.held⟩
    rintro rfl
    exact not_kept hsw' hmem hlive hmark hout hb
  exact ⟨hstep, hsw'.of_step hstep hsw'.pending⟩

/-! ### The sweep -/

/-- The live set: of the written row, or `stale`.  What an earlier sweep has read is
forgotten. -/
theorem safe_computeLiveBlockSet {Q : Except ε (List Bytes) → Race Blob → Prop}
    (h : ∀ live w', Sweeping live ∅ none [] w' → Q (.ok live) w') :
    Safe cfg .sweep Site.computeLiveBlockSet Q w := by
  intro w' _ hinv _
  refine ⟨⟨hinv.mono, hinv.fits, fun _ hnow => nomatch hnow⟩, ?_,
    h _ _ ⟨fun hst => ?_, rfl, fun _ hb => nomatch hb⟩⟩
  · exact ⟨rfl, rfl, rfl, rfl, fun _ _ _ _ _ hnow => (nomatch hnow),
      fun _ h => ⟨h.looked, h.held, fun _ _ hnow => (nomatch hnow), h.named⟩⟩
  · refine ⟨?_, fun b hb => Store.mem_computeLiveBlockSet.2 hb⟩
    have hst : (!w'.2.written) = false := hst
    show w'.2.written = true
    simpa using hst

/-- The reading of the clock: by the condition, no block the request has looked up is due
at it. -/
theorem safe_systemTime (hsw : Sweeping live pending read left w)
    {Q : Except ε ℕ → Race Blob → Prop}
    (h : ∀ micros w', cfg.Fits micros →
      Sweeping live pending (some ((micros / 1000 : ℕ) : ℤ)) left w' → Q (.ok micros) w') :
    Safe cfg .sweep Site.systemTime Q w := by
  intro w' hw hinv hcond
  have hsw' := hsw.requestStep hw
  refine ⟨⟨hinv.mono, hinv.fits, fun now hnow n hn => ?_⟩, ?_,
    h _ _ (hinv.fits w'.1.tick) ⟨hsw'.live, rfl, hsw'.pending⟩⟩
  · have hle : w'.1.oracle.micros w'.1.tick ≤ w'.1.oracle.micros n :=
      hinv.mono ((Nat.le_succ _).trans hn)
    rw [← Option.some.inj hnow]
    exact_mod_cast Nat.div_le_div_right hle
  · -- what was looked up is spared, for the reading is the one of the condition
    have hspared : ∀ b ∈ w'.2.looked, w'.2.stale = true → ∀ now ∈ (some
        ((w'.1.oracle.micros w'.1.tick / 1000 : ℕ) : ℤ)), NotDue w'.1.store now b := by
      intro b hb hst now hnow
      rw [← Option.some.inj hnow]
      exact hcond hst b hb
    exact ⟨rfl, rfl, rfl, rfl, fun b hb _ => hspared b hb,
      fun b hb => ⟨hb.looked, hb.held, hspared b hb.looked, hb.named⟩⟩

/-- A block leaves the list when the sweep is done with it. -/
theorem Sweeping.sub (h : Sweeping live pending read left w) (hleft : ∀ b ∈ left', b ∈ left) :
    Sweeping live pending read left' w :=
  ⟨h.live, h.read, fun b hb => h.pending b (hleft b hb)⟩

/-- `reapBlock` on an orphan whose mark has run out. -/
theorem safe_reapBlock {t : ℤ} {rest : List Bytes}
    (hsw : Sweeping live pending (some now) (hash :: rest) w) (hrest : hash ∉ rest)
    (hlive : hash ∉ live) (hmark : pending.lookup hash = some t) (hout : t ≤ now)
    (h : ∀ w', Sweeping live pending (some now) rest w' → Q (.ok ()) w') :
    Safe cfg .sweep (Site.reapBlock hash) Q w := by
  have hunmark : ∀ w', Sweeping live pending (some now) (hash :: rest) w' →
      Safe cfg .sweep (Site.removePendingDeletion hash) Q w' := fun w' hw' =>
    sweeping_removePendingDeletion hw'
      (fun b hb => ⟨List.mem_cons_of_mem _ hb, ne_of_mem_of_not_mem hb hrest⟩) h
  refine Safe.bind (sweeping_db hsw (fun _ _ => rfl) fun w₁ h₁ => ?_)
  cases w₁.1.store.getLocalBlockFid hash with
  | none => exact hunmark w₁ h₁
  | some fid =>
    refine Safe.bind (sweeping_deleteLocalBlock h₁ List.mem_cons_self hlive hmark hout
      fun deleted w₂ h₂ => ?_)
    cases deleted with
    | false => exact hunmark w₂ h₂
    | true =>
      refine Safe.bind (safe_sweeping h₂ (fun _ _ => rfl) (fun _ => rfl)
        (fun _ => le_rfl) (fun s g _ hs => ?_) fun s g _ hs => hunmark _ hs)
      have hstep : SweepStep (s, g) ({ s with blobs := Blob.delete s.blobs hash fid }, g) :=
        SweepStep.frame rfl rfl (fun _ _ h => .inl h) fun _ hb => hb.held
      exact ⟨hstep, hs.of_step hstep hs.pending⟩

/-- One turn of the loop over the local blocks: a block seen for the first time is
marked and left alone, for the grace period is not over at once. -/
theorem safe_sweepBlock (hgrace : 0 < cfg.gcGracePeriodSeconds) (hnow : now < cfg.deadlineAt now)
    {rest : List Bytes} (hsw : Sweeping live pending (some now) (hash :: rest) w)
    (hrest : hash ∉ rest) (h : ∀ w', Sweeping live pending (some now) rest w' → Q (.ok ()) w') :
    Safe cfg .sweep (Site.sweepBlock cfg false live pending now hash) Q w := by
  have hne : ∀ b ∈ rest, b ∈ hash :: rest ∧ b ≠ hash :=
    fun b hb => ⟨List.mem_cons_of_mem _ hb, ne_of_mem_of_not_mem hb hrest⟩
  have hskip : ∀ w', Sweeping live pending (some now) (hash :: rest) w' → Q (.ok ()) w' :=
    fun w' hw' => h w' (hw'.sub fun b hb => (hne b hb).1)
  unfold Site.sweepBlock
  by_cases hlive : hash ∈ live
  · rw [if_pos hlive]
    split_ifs
    · exact sweeping_removePendingDeletion hsw hne h
    · exact hskip w hsw
  rw [if_neg hlive]
  refine Safe.bind ?_
  unfold Site.reapAt
  cases hmark : pending.lookup hash with
  | some t =>
    show Safe cfg .sweep (if false = false ∧ now < t then pure () else Site.reapBlock hash) Q w
    by_cases hlt : now < t
    · rw [if_pos ⟨rfl, hlt⟩]
      exact hskip w hsw
    · rw [if_neg fun hc => hlt hc.2]
      exact safe_reapBlock hsw hrest hlive hmark (not_lt.1 hlt) h
  | none =>
    refine Safe.bind (sweeping_markTime hsw fun micros w₁ hle hfits h₁ => ?_)
    have hlater : now < cfg.notBefore micros := by
      have hpos : 0 < cfg.grace := by unfold GcConfig.grace; omega
      rw [cfg.notBefore_eq, GcConfig.deadlineAt_of_fits hfits]
      omega
    refine Safe.bind (sweeping_addPendingDeletion h₁ hlater hne fun w₂ h₂ => ?_)
    show Safe cfg .sweep
      (if false = false ∧ now < cfg.deadlineAt now then pure () else Site.reapBlock hash) Q w₂
    rw [if_pos ⟨rfl, hnow⟩]
    exact h w₂ h₂

/-- **A scheduled sweep reaps nothing that the request relies on**, wherever the
calls of the request fall. -/
theorem safe_sweepOrphanedBlocks (hgrace : 0 < cfg.gcGracePeriodSeconds) (w : Race Blob) :
    Safe cfg .sweep (Site.sweepOrphanedBlocks cfg false : Site.SProg Blob ε Unit)
      (fun _ _ => True) w := by
  refine Safe.bind (safe_computeLiveBlockSet fun live w₁ h₁ => ?_)
  refine Safe.bind (sweeping_db h₁ (fun _ _ => rfl) fun w₂ h₂ => ?_)
  have hnodup := Store.nodup_listLocalBlockHashes w₂.1.store
  generalize w₂.1.store.listLocalBlockHashes = held at hnodup
  refine Safe.bind (sweeping_db h₂ (fun _ _ => rfl) fun w₃ h₃ => ?_)
  have h₃ : Sweeping live w₃.1.store.getPendingDeletions none held w₃ :=
    ⟨h₃.live, h₃.read, fun _ _ => rfl⟩
  generalize w₃.1.store.getPendingDeletions = pending at h₃
  refine Safe.bind (safe_systemTime h₃ fun micros w₄ hfits h₄ => ?_)
  have hnow : ((micros / 1000 : ℕ) : ℤ) < cfg.deadlineAt (micros / 1000 : ℕ) := by
    have hpos : 0 < cfg.grace := by unfold GcConfig.grace; omega
    rw [GcConfig.deadlineAt_of_fits hfits]
    omega
  dsimp only
  generalize ((micros / 1000 : ℕ) : ℤ) = now at h₄ hnow ⊢
  refine Safe.bind (Safe.forEach
    (fun rest w => rest.Nodup ∧ Sweeping live pending (some now) rest w) (fun w₅ h₅ => ?_)
    (fun b bs w hw => ?_) ⟨hnodup, h₄⟩)
  · refine Safe.forEach (fun _ => Sweeping live pending (some now) [])
      (fun _ _ => trivial) (fun b _ w hw => ?_) h₅.2
    by_cases hheld : b ∈ held
    · rw [if_pos hheld]
      exact hw
    · rw [if_neg hheld]
      exact sweeping_removePendingDeletion hw (fun _ h => absurd h List.not_mem_nil)
        fun _ h => h
  · obtain ⟨hb, hbs⟩ := List.nodup_cons.1 hw.1
    exact safe_sweepBlock hgrace hnow hw.2 hb fun w' hw' => ⟨hbs, hw'⟩

end Race
end Shardscape
