/-
# Fetches that ask for a block in turn

`get_block` (`src/storage.rs`) asks the peers listed for a block it does not hold, and
`/internal/blocks` (`src/main.rs`) answers with `get_block` again.  Location rows outlive
the copies they name (`Shardscape.Collector.StaleRows`), so two sites that list each other
for a block neither has any more ask each other for ever (`fetch_cycle`).  Chains of such
calls stay short as long as a site deletes its copy only while every other site that ever
had one still has it (`fetch_chains_end`).
-/

import Shardscape.Collector.StaleRows

namespace Shardscape

open Lib

variable {ι κ : Type} {Blob : BlobStore}

/-- The peers `get_block` asks for a block: none if the block is held, otherwise those it
knows and lists. -/
def Store.asked (s : Store) (h : Bytes) : List (Str × Str) :=
  match s.getLocalBlockFid h with
  | some _ => []
  | none => s.getPeers.filter fun p => p.1 ∈ ((s.getBlockFids h).getD []).map Prod.fst

/-- A fetch is of `h`, from one of `peers`. -/
def Call.FetchesFrom (peers : List (Str × Str)) (h : Bytes) (l : Call) : Prop :=
  ∀ url hash, l = .fetch url hash → hash = h ∧ url ∈ peers.map Prod.snd

/-- The loop asks only peers that are listed as holders. -/
theorem Site.makes_holderFetches {I : Site Blob → Prop} (locations : List (Str × Bytes))
    (h : Bytes) (peers : List (Str × Str)) :
    Site.Makes I (Call.FetchesFrom (peers.filter fun p => p.1 ∈ locations.map Prod.fst) h)
      (Site.fetchFromHolders locations h peers) := by
  induction peers with
  | nil => exact Site.makes_fail _
  | cons peer rest ih =>
    obtain ⟨id, url⟩ := peer
    unfold Site.fetchFromHolders
    split
    · next hmem =>
        rw [List.filter_cons_of_pos (by simpa using hmem)]
        have hput : ∀ l ∈ Site.putsBlock h, Call.FetchesFrom
            ((id, url) :: rest.filter fun p => p.1 ∈ locations.map Prod.fst) h l := by
          rintro l hl url' hash rfl
          simp [Site.putsBlock] at hl
        refine Site.Makes.seq (p := Site.noiseFetchBlock url h)
          (Site.makes_ask ?_ rfl fun _ _ => trivial) fun r => ?_
        · rintro _ _ ⟨⟩
          exact ⟨rfl, List.mem_cons_self⟩
        · cases r with
          | ok data =>
            refine (Site.makes_promoteBlockLocally hput).attempt.seq fun r => ?_
            cases r with
            | ok _ => exact Site.makes_pure _
            | error _ =>
              refine (Site.makes_enqueueReplication ?_ ?_).seq fun _ => Site.makes_pure _
              · rintro _ _ ⟨⟩
              · rintro _ _ ⟨⟩
          | error e =>
            refine ih.mono (fun _ hs => hs) (fun l s s' hl => ⟨?_, hl.2⟩) fun _ hr => hr
            exact fun url' hash hf =>
              ⟨(hl.1 url' hash hf).1, List.mem_cons_of_mem _ (hl.1 url' hash hf).2⟩
    · next hmem =>
        rw [List.filter_cons_of_neg (by simpa using hmem)]
        exact ih

/-- **Whom `get_block` asks**, as long as the tables do not change under it. -/
theorem Site.makes_blockFetches (s : Store) (h : Bytes) :
    Site.Makes (fun t : Site Blob => t.store = s) (Call.FetchesFrom (s.asked h) h)
      (Site.getBlock h) := by
  refine Site.makes_db_bind nofun rfl ?_
  rintro t rfl
  unfold Store.asked
  cases t.store.getLocalBlockFid h with
  | some fid =>
    refine Site.Makes.seq (fun s _ => ⟨⟨nofun, rfl, rfl, rfl, rfl⟩, trivial⟩) fun r => ?_
    exact Prog.Calls.ofExcept trivial
  | none =>
    refine Site.makes_db_bind nofun rfl fun u hu => ?_
    rw [hu]
    cases t.store.getBlockFids h with
    | none => exact Site.makes_fail _
    | some locations =>
      refine Site.makes_db_bind nofun rfl fun v hv => ?_
      rw [hv]
      exact Site.makes_holderFetches locations h t.store.getPeers

namespace Fleet

/-- `get_block` of `h` at `i` asks `j`: `i` does not hold `h`, and `j` is a peer it knows
and lists for `h`. -/
def Asks (ids : ι ↪ Str) (w : Sites ι κ Blob) (h : Bytes) (i j : ι) : Prop :=
  ids j ∈ ((w.stores i).asked h).map Prod.fst

/-- Whom `get_block` asks has announced the block, at some time. -/
theorem Asks.announced {ids : ι ↪ Str} {w : Sites ι κ Blob} (hinv : Inv ids w.stores) {h : Bytes}
    {i j : ι} (ha : Asks ids w h i j) :
    ¬ (w.stores i).HoldsLocally h ∧ j ≠ i ∧ (w.stores j).Announced h := by
  obtain ⟨⟨loc, url⟩, hpeer, rfl⟩ := List.mem_map.1 ha
  unfold Store.asked at hpeer
  cases hfid : (w.stores i).getLocalBlockFid h with
  | some fid => simp [hfid] at hpeer
  | none =>
    rw [hfid, List.mem_filter, decide_eq_true_iff] at hpeer
    refine ⟨Store.getLocalBlockFid_eq_none_iff.1 hfid, ?_, ?_⟩
    · rintro rfl
      simp [Store.getPeers, hinv.own] at hpeer
    · obtain ⟨⟨loc, fid⟩, hf, hloc⟩ := List.mem_map.1 hpeer.2
      obtain ⟨k, hk, hann⟩ := hinv.listed i h _ (Store.mem_getBlockFids.1 ⟨fid, hf⟩)
      rwa [ids.injective (hloc.symm.trans hk)]

/-- A site had `h` and has it no more. -/
def Gone (σ : ι → Store) (i : ι) (h : Bytes) : Prop := (σ i).Announced h ∧ ¬ (σ i).HoldsLocally h

/-- At most one site had `h` and has it no more. -/
def OneGone (σ : ι → Store) : Prop := ∀ h i j, Gone σ i h → Gone σ j h → i = j

/-- A site deletes its copy only while every other site that ever had one still has
it. -/
def LeavesCopies (w : Sites ι κ Blob) (e : SitesEvent ι κ) : Prop :=
  match w.calls e with
  | some (i, .deleteLocalBlock h) =>
    (w.stores i).HoldsLocally h → ∀ j, j ≠ i → ¬ Gone w.stores j h
  | _ => True

/-- A chain of calls ends at a site that has the block, at the latest after one that has
it no more. -/
theorem OneGone.chain {ids : ι ↪ Str} {w : Sites ι κ Blob} (hone : OneGone w.stores)
    (hinv : Inv ids w.stores) {h : Bytes} {l : List ι} (hl : l.IsChain (Asks ids w h)) :
    l.Nodup ∧ l.length ≤ 3 := by
  match l, hl with
  | [], _ => simp
  | [a], _ => simp
  | [a, b], hl =>
    have hab := ((List.isChain_cons_cons.1 hl).1).announced hinv
    simp [hab.2.1.symm]
  | a :: b :: c :: rest, hl =>
    obtain ⟨hab, hl⟩ := List.isChain_cons_cons.1 hl
    obtain ⟨hbc, hl⟩ := List.isChain_cons_cons.1 hl
    obtain ⟨ha, hba, hb⟩ := hab.announced hinv
    obtain ⟨hb', hcb, hc⟩ := hbc.announced hinv
    have hheld : (w.stores c).HoldsLocally h := by
      by_contra hno
      exact hcb (hone h c b ⟨hc, hno⟩ ⟨hb, hb'⟩)
    cases rest with
    | nil =>
      have hac : a ≠ c := fun hac => ha (hac ▸ hheld)
      simp [hba.symm, hcb.symm, hac]
    | cons d rest =>
      exact absurd hheld (((List.isChain_cons_cons.1 hl).1).announced hinv).1

/-- A site that has a block no more had lost it before, or deletes it now. -/
theorem gone_of_change {σ : ι → Store} {B : Blake3} {i : ι} {l : Option Call} {s : Store}
    (hc : Change B σ i l s) {h : Bytes} (ha : s.Announced h) (hno : ¬ s.HoldsLocally h) :
    Gone σ i h ∨ (l = some (.deleteLocalBlock h) ∧ (σ i).HoldsLocally h) := by
  cases hc with
  | stored hash ts fid size =>
    rw [Store.holdsLocally_storeLocalBlock, not_or] at hno
    obtain ⟨e, he, loc, hloc⟩ := ha
    refine .inl ⟨?_, hno.2⟩
    rcases List.mem_append.1 he with hold | hnew
    · exact ⟨e, hold, loc, hloc⟩
    · obtain rfl := List.mem_singleton.1 hnew
      simp only [Fact.announced, hexDecode_hexEncode, Option.some.injEq, Prod.mk.injEq] at hloc
      exact absurd hloc.1.symm hno.1
  | deleted hash =>
    by_cases hheld : (σ i).HoldsLocally h
    · have hh : h = hash := by
        by_contra hne
        exact hno ((Store.holdsLocally_deleteLocalBlock _ _ _).2 ⟨hne, hheld⟩)
      exact .inr ⟨by rw [hh], hheld⟩
    · exact .inl ⟨ha, hheld⟩
  | unmoved _ _ hun =>
    obtain ⟨new, hlog, hnew⟩ := hun.factLog
    obtain ⟨e, he, loc, hloc⟩ := ha
    refine .inl ⟨⟨e, ?_, loc, hloc⟩, fun hheld => hno ?_⟩
    · rw [hlog] at he
      refine (List.mem_append.1 he).resolve_right fun hin => ?_
      rw [hnew e hin] at hloc
      cases hloc
    · rwa [Store.HoldsLocally, hun.blockLocations, hun.localLocationId]
  | pulled peer nowMs hne =>
    have hp := Store.pulled_pullPage B nowMs (σ i) (σ peer)
    refine .inl ⟨?_, fun hheld => hno ?_⟩
    · rwa [Store.Announced, hp.factLog] at ha
    · rw [Store.holdsLocally_iff_listed, hp.localLocationId]
      exact (hp.listed _ _).2 (.inr hheld)

variable [DecidableEq ι]

/-- One event leaves at most one site without a block it had. -/
theorem OneGone.change {σ : ι → Store} (hone : OneGone σ) {B : Blake3} {i : ι} {l : Option Call}
    {s : Store} (hc : Change B σ i l s)
    (hleaves : ∀ h, l = some (.deleteLocalBlock h) → (σ i).HoldsLocally h →
      ∀ j, j ≠ i → ¬ Gone σ j h) : OneGone (Function.update σ i s) := by
  intro h
  have hother : ∀ k, k ≠ i → Gone (Function.update σ i s) k h → Gone σ k h := by
    intro k hk hg
    rwa [Gone, Function.update_of_ne hk] at hg
  have halone : Gone (Function.update σ i s) i h → ∀ k, k ≠ i → ¬ Gone σ k h := by
    intro hg k hk hgk
    rw [Gone, Function.update_self] at hg
    rcases gone_of_change hc hg.1 hg.2 with hold | ⟨hl, hheld⟩
    · exact hk (hone h k i hgk hold)
    · exact hleaves h hl hheld k hk hgk
  intro j k hj hk
  by_cases hji : j = i <;> by_cases hki : k = i
  · rw [hji, hki]
  · exact absurd (hother k hki hk) (halone (hji ▸ hj) k hki)
  · exact absurd (hother j hji hj) (halone (hki ▸ hk) j hji)
  · exact hone h j k (hother j hji hj) (hother k hki hk)

variable [DecidableEq κ] (S : StorageBackend) (J : PolicyJson) (cfg : ι → SiteConfig)
  (ids : ι ↪ Str)

/-- The fleet is sound and at most one site has lost each block. -/
theorem oneGone_step {w : Sites ι κ Blob} (hw : Sound ids w ∧ OneGone w.stores)
    {e : SitesEvent ι κ} (he : e.hears = false ∧ LeavesCopies w e) :
    Sound ids (w.step S J cfg e) ∧ OneGone (w.step S J cfg e).stores := by
  refine ⟨hw.1.step he.1, ?_⟩
  obtain ⟨-, i, l, s, hstep, hcalls, hc⟩ := step_cases hw.1.1 he.1
  rw [hstep]
  refine hw.2.change hc ?_
  rintro h rfl
  have hleaves := he.2
  rwa [LeavesCopies, hcalls] at hleaves

/-- **Chains of fetches end.**  In every run by pulls in which a site deletes its copy of a block
only while every other site that ever had one still has it, wherever the run passes and
where it ends, no chain of nested `get_block` calls for a block comes back to a site, and
none is longer than three sites. -/
theorem fetch_chains_end (s : ι → Site Blob) (hs : ∀ i, (s i).store = Store.new (ids i))
    (es : List (SitesEvent ι κ)) (hpulls : ∀ e ∈ es, e.hears = false)
    (hleaves : ∀ p ∈ trace (Sites.step S J cfg) (Sites.start s) es, LeavesCopies p.1 p.2) :
    (∀ p ∈ trace (Sites.step S J cfg) (Sites.start s) es, ∀ h (l : List ι),
        l.IsChain (Asks ids p.1 h) → l.Nodup ∧ l.length ≤ 3) ∧
      ∀ h (l : List ι), l.IsChain (Asks ids (es.foldl (Sites.step S J cfg) (Sites.start s)) h) →
        l.Nodup ∧ l.length ≤ 3 := by
  have hstep : ∀ (w : Sites ι κ Blob) e, Sound ids w ∧ OneGone w.stores →
      e.hears = false ∧ LeavesCopies w e →
      Sound ids (w.step S J cfg e) ∧ OneGone (w.step S J cfg e).stores :=
    fun w e hw he => oneGone_step S J cfg ids hw he
  have hfirst : Sound ids (Sites.start s : Sites ι κ Blob) ∧
      OneGone (Sites.start s : Sites ι κ Blob).stores := by
    refine ⟨sound_start s hs, fun h i j hi _ => ?_⟩
    obtain ⟨e, he, -⟩ := hi.1
    rw [show (Sites.start s : Sites ι κ Blob).stores i = Store.new (ids i) from hs i] at he
    exact nomatch he
  have hall : ∀ p ∈ trace (Sites.step S J cfg) (Sites.start s) es,
      p.2.hears = false ∧ LeavesCopies p.1 p.2 :=
    fun p hp => ⟨hpulls p.2 (mem_of_mem_trace hp), hleaves p hp⟩
  refine ⟨fun p hp h l hl => ?_, fun h l hl => ?_⟩
  · have hw := invariant_of_trace hstep hfirst hall p hp
    exact hw.2.chain hw.1.2 hl
  · have hw := invariant_at_end hstep hfirst hall
    exact hw.2.chain hw.1.2 hl

/-! ### Two runs -/

instance (w : Sites (Fin 2) Unit localBlob) (e : SitesEvent (Fin 2) Unit) :
    Decidable (LeavesCopies w e) := by
  unfold LeavesCopies Gone
  split <;> infer_instance

instance (w : Sites (Fin 2) Unit localBlob) (h : Bytes) (i j : Fin 2) :
    Decidable (Asks twoNames w h i j) :=
  inferInstanceAs (Decidable (_ ∈ _))

/-- The two sites hear of each other and of their facts. -/
def meet : List (SitesEvent (Fin 2) Unit) :=
  whole 0 (.internal true (.join (twoNames 1) (text "http://b"))) ++
    whole 1 (.internal true (.join (twoNames 0) (text "http://a"))) ++ [.pull 0 1 0, .pull 1 0 0]

/-- Both have the block; `a` deletes its copy. -/
def oneLeaves : List (SitesEvent (Fin 2) Unit) :=
  puts 0 (text "k") ++ puts 1 (text "l") ++ forgets 0 (text "k") ++ meet

/-- Both delete it. -/
def bothLeave : List (SitesEvent (Fin 2) Unit) :=
  puts 0 (text "k") ++ puts 1 (text "l") ++ forgets 0 (text "k") ++ forgets 1 (text "l") ++ meet

/-- One copy is left: `a` asks `b`, and that is all. -/
theorem fetch_chains_end_oneLeaves :
    [0, 1].IsChain (Asks twoNames (fleetAfter twoNames oneLeaves) blockOfA) ∧
      [(0 : Fin 2), 1].Nodup ∧ [(0 : Fin 2), 1].length ≤ 3 := by
  have hchain : [0, 1].IsChain (Asks twoNames (fleetAfter twoNames oneLeaves) blockOfA) := by
    refine List.isChain_cons_cons.2 ⟨?_, List.IsChain.singleton _⟩
    decide +kernel
  refine ⟨hchain, (fetch_chains_end StorageBackend.sample (PolicyJson.withShort allowAll)
    (freshConfig twoNames) twoNames (freshSites twoNames) (fun _ => rfl) oneLeaves ?_
    ?_).2 blockOfA [0, 1] hchain⟩
  · decide +kernel
  · decide +kernel

/-- **A cycle of fetches.**  Neither has the block any more, and each lists the other:
`a` asks `b`, which asks `a`. -/
theorem fetch_cycle :
    (∀ e ∈ bothLeave, e.hears = false) ∧
      Asks twoNames (fleetAfter twoNames bothLeave) blockOfA 0 1 ∧
      Asks twoNames (fleetAfter twoNames bothLeave) blockOfA 1 0 := by
  refine ⟨?_, ?_, ?_⟩
  all_goals decide +kernel

end Fleet
end Shardscape
