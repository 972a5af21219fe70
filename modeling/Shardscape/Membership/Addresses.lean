/-
# Addresses that go back

A site may be started again with another address; it then joins a peer, which records the
new one.  `gossip_membership` (`src/main.rs`) records what other sites believe over what is
there, and an entry says nothing of its age.  So a peer that has not heard of the change
brings the old address back (`address_goes_back`).

Nothing else does.  As long as no site returns to an address it has given up, and no
`record_peer` replaces an entry by an address that its owner no longer has, a site that has
the newer of two addresses never has the older one again (`addresses_never_regress`).
-/

import Shardscape.Backend.Site
import Shardscape.Membership.Gossip
import Mathlib.Data.Fintype.Basic
import Mathlib.Data.List.Nodup

namespace Shardscape
namespace Membership

open Lib Function

variable {ι κ : Type} [DecidableEq ι] {m : Membership ι} {x p : ι} {u u₁ : Str}

/-! ### What a call does to entries and addresses -/

/-- The entry that a call writes: where, of whom, and the address. -/
def records (m : Membership ι) : MemberCall ι → Option (ι × Str × Str)
  | .registerNode x => (m.addresses x).head?.map fun addr => (x, m.id x, addr)
  | .recordPeer x locationId apiUrl =>
    if locationId = m.id x then none else some (x, locationId, apiUrl)
  | .join peerUrl locationId addr =>
    if locationId.isEmpty ∨ addr.isEmpty then none
    else
      (m.answering peerUrl).bind fun y =>
        if locationId = m.id y then none else some (y, locationId, addr)
  | _ => none

/-- What a recorded peer does to the tables. -/
theorem store_withStore_recordPeer (m : Membership ι) (y : ι) (locationId apiUrl : Str) :
    ((m.withStore y fun s nowMs => s.recordPeer nowMs locationId apiUrl).store = m.store ∧
        locationId = m.id y) ∨
      locationId ≠ m.id y ∧
        ∃ nowMs, (m.withStore y fun s nowMs => s.recordPeer nowMs locationId apiUrl).store =
          update m.store y ((m.store y).upsertNode nowMs locationId apiUrl) := by
  by_cases hself : locationId = (m.store y).localLocationId
  · refine .inl ⟨?_, hself⟩
    simp only [withStore, Store.recordPeer]
    rw [if_pos hself, update_eq_self]
  · refine .inr ⟨hself, m.millis m.tick, ?_⟩
    simp only [withStore, Store.recordPeer]
    rw [if_neg hself]

/-- **What a call does**: a site is started with another address, or an entry is written,
or neither. -/
theorem effect_cases (l : MemberCall ι) (m : Membership ι) :
    (∃ x addr, l = .started x addr ∧ (m.addresses x).head? ≠ some addr ∧
        (l.effect m).store = m.store ∧
        (l.effect m).addresses = update m.addresses x (addr :: m.addresses x)) ∨
      (∃ y locationId url nowMs, m.records l = some (y, locationId, url) ∧
        (l.effect m).store =
          update m.store y ((m.store y).upsertNode nowMs locationId url) ∧
        (l.effect m).addresses = m.addresses) ∨
      (l.effect m).store = m.store ∧ (l.effect m).addresses = m.addresses := by
  cases l with
  | started x addr =>
    unfold MemberCall.effect
    dsimp only
    split_ifs with hsame
    · exact .inr (.inr ⟨rfl, rfl⟩)
    · exact .inl ⟨x, addr, rfl, hsame, rfl, rfl⟩
  | registerNode x =>
    simp only [MemberCall.effect, records]
    cases (m.addresses x).head? with
    | none => exact .inr (.inr ⟨rfl, rfl⟩)
    | some addr => exact .inr (.inl ⟨x, m.id x, addr, m.millis m.tick, rfl, rfl, rfl⟩)
  | recordPeer x locationId apiUrl =>
    simp only [MemberCall.effect, records]
    rcases store_withStore_recordPeer m x locationId apiUrl with ⟨hsame, -⟩ | ⟨hne, nowMs, hstore⟩
    · exact .inr (.inr ⟨hsame, rfl⟩)
    · exact .inr (.inl ⟨x, locationId, apiUrl, nowMs, if_neg hne, hstore, rfl⟩)
  | join peerUrl locationId addr =>
    simp only [MemberCall.effect, records]
    split_ifs
    · exact .inr (.inr ⟨rfl, rfl⟩)
    · cases m.answering peerUrl with
      | none => exact .inr (.inr ⟨rfl, rfl⟩)
      | some y =>
        rcases store_withStore_recordPeer m y locationId addr with ⟨hsame, -⟩ |
          ⟨hne, nowMs, hstore⟩
        · exact .inr (.inr ⟨hsame, rfl⟩)
        · exact .inr (.inl ⟨y, locationId, addr, nowMs, if_neg hne, hstore, rfl⟩)
  | getPeersWithUrls x => exact .inr (.inr ⟨rfl, rfl⟩)
  | clusterConfig peerUrl => exact .inr (.inr ⟨rfl, rfl⟩)
  | nodes peerUrl => exact .inr (.inr ⟨rfl, rfl⟩)

variable {m m' : Membership ι}

omit [DecidableEq ι] in
/-- The names of the sites are in their databases. -/
theorem id_of_store (h : m'.store = m.store) : m'.id = m.id := by
  funext p
  rw [id, id, h]

omit [DecidableEq ι] in
/-- The entries of the sites are in their databases. -/
theorem entry_of_store (h : m'.store = m.store) (x p : ι) :
    m'.entry x p = m.entry x p := by
  rw [entry, entry, id_of_store h, h]

/-- The location ids do not depend on entries. -/
theorem id_of_update {y : ι} {nowMs : ℤ} {locationId url : Str}
    (h : m'.store = update m.store y ((m.store y).upsertNode nowMs locationId url)) :
    m'.id = m.id := by
  funext p
  rw [id, id, h]
  by_cases hp : p = y
  · rw [hp, update_self]
    rfl
  · rw [update_of_ne hp]

/-- An entry after one has been written. -/
theorem entry_of_update {y : ι} {nowMs : ℤ} {locationId url : Str}
    (h : m'.store = update m.store y ((m.store y).upsertNode nowMs locationId url))
    (x p : ι) :
    m'.entry x p = if x = y ∧ m.id p = locationId then some url else m.entry x p := by
  unfold entry
  rw [id_of_update h, h]
  by_cases hx : x = y
  · subst hx
    rw [update_self, Store.upsertNode, Table.lookup_insert]
    by_cases hp : m.id p = locationId
    · rw [if_pos hp, if_pos ⟨rfl, hp⟩]
      rfl
    · rw [if_neg hp, if_neg fun hand => hp hand.2]
  · rw [update_of_ne hx, if_neg fun hand => hx hand.1]

/-! ### The condition -/

/-- If an entry of a peer is replaced by this address, it is the one the peer has now. -/
def Current (m : Membership ι) (y : ι) (locationId url : Str) : Prop :=
  ∀ p, p ≠ y → m.id p = locationId →
    m.entry y p = none ∨ m.entry y p = some url ∨ (m.addresses p).head? = some url

/-- A site does not go back to an address it has given up, and a peer is recorded with an
address it has. -/
def Fresh (m : Membership ι) : MemberCall ι → Prop
  | .started x addr => (m.addresses x).head? = some addr ∨ addr ∉ m.addresses x
  | .recordPeer x locationId apiUrl => m.Current x locationId apiUrl
  | .join peerUrl locationId addr =>
    match m.answering peerUrl with
    | none => True
    | some y => m.Current y locationId addr
  | _ => True

instance [Fintype ι] (m : Membership ι) (y : ι) (locationId url : Str) :
    Decidable (m.Current y locationId url) := by
  unfold Current
  infer_instance

instance decidableAnswering [Fintype ι] (m : Membership ι) (locationId url : Str)
    (answering : Option ι) :
    Decidable (match answering with | none => True | some y => m.Current y locationId url) :=
  match answering with
  | none => instDecidableTrue
  | some y => inferInstanceAs (Decidable (m.Current y locationId url))

instance [Fintype ι] (m : Membership ι) (l : MemberCall ι) : Decidable (m.Fresh l) :=
  match l with
  | .started x addr =>
    inferInstanceAs (Decidable ((m.addresses x).head? = some addr ∨ addr ∉ m.addresses x))
  | .recordPeer x locationId apiUrl => inferInstanceAs (Decidable (m.Current x locationId apiUrl))
  | .join peerUrl locationId addr =>
    inferInstanceAs (Decidable (match m.answering peerUrl with
      | none => True
      | some y => m.Current y locationId addr))
  | .registerNode _ | .getPeersWithUrls _ | .clusterConfig _ | .nodes _ => instDecidableTrue

omit [DecidableEq ι] in
/-- What is written under the condition is the current address, or the first or the same. -/
theorem Fresh.entry {l : MemberCall ι} (h : m.Fresh l) (hids : Injective m.id) {y : ι}
    {locationId url : Str} (hrec : m.records l = some (y, locationId, url)) (p : ι)
    (hp : m.id p = locationId) :
    m.entry y p = none ∨ m.entry y p = some url ∨ (m.addresses p).head? = some url := by
  have hself : ∀ {z : ι} {w : Str × Str}, (if w.1 = m.id z then none else some (z, w)) =
      some (y, locationId, url) → z = y ∧ w = (locationId, url) ∧ p ≠ y := by
    intro z w hw
    split_ifs at hw with hne
    obtain ⟨rfl, rfl⟩ := Prod.mk.inj (Option.some.inj hw)
    exact ⟨rfl, rfl, fun hpy => hne (by rw [← hp, hpy])⟩
  cases l with
  | registerNode x =>
    obtain ⟨addr, haddr, hw⟩ := Option.map_eq_some_iff.1 hrec
    obtain ⟨rfl, hrest⟩ := Prod.mk.inj hw
    obtain ⟨hid, rfl⟩ := Prod.mk.inj hrest
    obtain rfl := hids (hp.trans hid.symm)
    exact .inr (.inr haddr)
  | recordPeer x id' apiUrl =>
    obtain ⟨rfl, hw, hne⟩ := hself (w := (id', apiUrl)) hrec
    obtain ⟨rfl, rfl⟩ := Prod.mk.inj hw
    exact h p hne hp
  | join peerUrl id' addr =>
    unfold records at hrec
    dsimp only at hrec
    split_ifs at hrec
    obtain ⟨z, hz, hw⟩ := Option.bind_eq_some_iff.1 hrec
    obtain ⟨rfl, hw, hne⟩ := hself (w := (id', addr)) hw
    obtain ⟨rfl, rfl⟩ := Prod.mk.inj hw
    unfold Fresh at h
    dsimp only at h
    rw [hz] at h
    exact h p hne hp
  | started x addr => exact nomatch hrec
  | getPeersWithUrls x => exact nomatch hrec
  | clusterConfig peerUrl => exact nomatch hrec
  | nodes peerUrl => exact nomatch hrec

/-! ### One call -/

/-- One address comes before another in a list of addresses, the latest of which is first. -/
def Older (u₁ u₂ : Str) (l : List Str) : Prop :=
  ∃ after before, l = after ++ u₂ :: before ∧ u₁ ∈ before

/-- No two sites have the same location id, and none has had an address twice. -/
structure Proper (m : Membership ι) : Prop where
  ids : Injective m.id
  nodup : ∀ p, (m.addresses p).Nodup

/-- Every call keeps sites and entries in step. -/
theorem Proper.effect {l : MemberCall ι} (h : m.Proper) (hfresh : m.Fresh l) :
    (l.effect m).Proper := by
  rcases effect_cases l m with ⟨x, addr, rfl, hne, hstore, haddr⟩ |
    ⟨y, locationId, url, nowMs, -, hstore, haddr⟩ | ⟨hstore, haddr⟩
  · refine ⟨id_of_store hstore ▸ h.ids, fun p => ?_⟩
    rw [haddr]
    by_cases hp : p = x
    · subst hp
      rw [update_self]
      exact (h.nodup p).cons (hfresh.resolve_left hne)
    · rw [update_of_ne hp]
      exact h.nodup p
  · exact ⟨id_of_update hstore ▸ h.ids, haddr ▸ h.nodup⟩
  · exact ⟨id_of_store hstore ▸ h.ids, haddr ▸ h.nodup⟩

/-- A site has a later address of another than this one. -/
def Passed (m : Membership ι) (x p : ι) (u₁ : Str) : Prop :=
  ∃ u, m.entry x p = some u ∧ Older u₁ u (m.addresses p)

/-- What is older than an address is older than the latest. -/
theorem Older.head {l : List Str} (h : Older u₁ u l) {latest : Str}
    (hlatest : l.head? = some latest) :
    Older u₁ latest l := by
  obtain ⟨after, before, rfl, hold⟩ := h
  cases after with
  | nil =>
    obtain rfl : u = latest := Option.some.inj hlatest
    exact ⟨[], before, rfl, hold⟩
  | cons a after =>
    obtain rfl : a = latest := Option.some.inj hlatest
    exact ⟨[], after ++ u :: before, rfl, List.mem_append_right _ (List.mem_cons_of_mem _ hold)⟩

/-- **One call** under the condition does not bring an older address back. -/
theorem Passed.effect {l : MemberCall ι} (h : m.Passed x p u₁) (hproper : m.Proper)
    (hfresh : m.Fresh l) : (l.effect m).Passed x p u₁ := by
  obtain ⟨u, hentry, hold⟩ := h
  rcases effect_cases l m with ⟨z, addr, rfl, hne, hstore, haddr⟩ |
    ⟨y, id', url, nowMs, hrec, hstore, haddr⟩ | ⟨hstore, haddr⟩
  · -- the list of addresses may have become longer
    refine ⟨u, (entry_of_store hstore x p).trans hentry, ?_⟩
    rw [haddr]
    by_cases hp : p = z
    · subst hp
      obtain ⟨after, before, hl, hmem⟩ := hold
      rw [update_self, hl]
      exact ⟨addr :: after, before, rfl, hmem⟩
    · rw [update_of_ne hp]
      exact hold
  · -- the entry may have been replaced
    rw [Passed, haddr, entry_of_update hstore]
    by_cases hthis : x = y ∧ m.id p = id'
    · rw [if_pos hthis]
      refine ⟨url, rfl, ?_⟩
      obtain ⟨rfl, hid⟩ := hthis
      rcases hfresh.entry hproper.ids hrec p hid with hnone | hsame | hlatest
      · exact nomatch hnone.symm.trans hentry
      · obtain rfl : url = u := Option.some.inj (hsame.symm.trans hentry)
        exact hold
      · exact hold.head hlatest
    · rw [if_neg hthis]
      exact ⟨u, hentry, hold⟩
  · exact ⟨u, (entry_of_store hstore x p).trans hentry, haddr ▸ hold⟩

omit [DecidableEq ι] in
/-- Addresses that are passed are not in use. -/
theorem Passed.entry_ne (h : m.Passed x p u₁) (hproper : m.Proper) : m.entry x p ≠ some u₁ := by
  obtain ⟨u, hentry, after, before, hl, hold⟩ := h
  intro hu₁
  obtain rfl : u = u₁ := Option.some.inj (hentry.symm.trans hu₁)
  have hnodup := hproper.nodup p
  rw [hl] at hnodup
  exact (List.nodup_cons.1 hnodup.of_append_right).1 hold

/-! ### Runs -/

variable [DecidableEq κ]

/-- Programs side by side. -/
abbrev Running (κ ι : Type) := Conf.Plain κ (MemberCall ι) (Membership ι) Unit

/-- The next call of a move meets the condition. -/
def FreshMove (c : Running κ ι) : Move κ (MemberCall ι) (Membership ι) Unit → Prop
  | .step i =>
    match c.nextCall i with
    | some l => c.world.1.Fresh l
    | none => True
  | .spawn _ _ => True

instance [Fintype ι] (c : Running κ ι) (mv : Move κ (MemberCall ι) (Membership ι) Unit) :
    Decidable (FreshMove c mv) := by
  unfold FreshMove
  split
  · split <;> infer_instance
  · infer_instance

/-- What one call under the condition keeps, and the time does not matter for, a move keeps. -/
theorem keeps_move {P : Membership ι → Prop} (hP : ∀ m l, P m → Fresh m l → P (l.effect m))
    (htick : ∀ m n, P m → P { m with tick := n }) {c : Running κ ι}
    {mv : Move κ (MemberCall ι) (Membership ι) Unit} (h : P c.world.1)
    (hmv : c.Does (fun _ => Did) mv ∧ FreshMove c mv) : P (c.advance mv).world.1 := by
  rcases c.advance_cases mv with ⟨i, l, rfl, hl⟩ | hsame
  · rw [hmv.1 i l rfl hl]
    refine htick _ _ (hP _ l h ?_)
    simpa only [FreshMove, hl] using hmv.2
  · rw [hsame]
    exact h

/-- **Addresses do not go back.**  In every run of the sites, whatever the order of their
calls, in which each call meets the condition: if at some time site `x` has the address
`u₂` of site `p`, and `p` had `u₁` before `u₂`, then `x` never has `u₁` afterwards. -/
theorem addresses_never_regress (m : Membership ι) (hm : m.Proper)
    (before after : List (Move κ (MemberCall ι) (Membership ι) Unit))
    (hstart : ∀ mv ∈ before ++ after, mv.Starts fun _ => Runs)
    (hfresh : ∀ q ∈ trace Conf.advance (Conf.atRest m) (before ++ after), FreshMove q.1 q.2)
    (x p : ι) (u₁ u₂ : Str)
    (hentry : (before.foldl Conf.advance (Conf.atRest m)).world.1.entry x p = some u₂)
    (hold : Older u₁ u₂ ((before.foldl Conf.advance (Conf.atRest m)).world.1.addresses p)) :
    ((before ++ after).foldl Conf.advance (Conf.atRest m)).world.1.entry x p ≠ some u₁ := by
  have hdoes : ∀ q ∈ trace Conf.advance (Conf.atRest m) (before ++ after),
      q.1.Does (fun _ => Did) q.2 := by
    refine Conf.calls_run (I := fun _ => True) (fun _ => Runs) (fun _ _ _ _ _ _ => trivial)
      (fun _ _ hruns => does_of_runs hruns) ⟨trivial, fun _ => trivial⟩ hstart
  have hall : ∀ q ∈ trace Conf.advance (Conf.atRest m) (before ++ after),
      q.1.Does (fun _ => Did) q.2 ∧ FreshMove q.1 q.2 := fun q hq => ⟨hdoes q hq, hfresh q hq⟩
  rw [trace_append] at hall
  have hproper : ((before.foldl Conf.advance (Conf.atRest m)).world.1).Proper :=
    invariant_at_end (P := fun c : Running κ ι => c.world.1.Proper)
      (fun c mv hc hmv => keeps_move (fun _ _ h hl => h.effect hl) (fun _ _ h => ⟨h.ids, h.nodup⟩)
        hc hmv) hm fun q hq => hall q (List.mem_append_left _ hq)
  have hpassed := invariant_at_end
    (P := fun c : Running κ ι => c.world.1.Proper ∧ c.world.1.Passed x p u₁)
    (fun c mv hc hmv => keeps_move
      (P := fun m => m.Proper ∧ m.Passed x p u₁)
      (fun _ _ h hl => ⟨h.1.effect hl, h.2.effect h.1 hl⟩)
      (fun _ _ h => ⟨⟨h.1.ids, h.1.nodup⟩, h.2⟩) hc hmv)
    ⟨hproper, u₂, hentry, hold⟩ fun q hq => hall q (List.mem_append_right _ hq)
  rw [List.foldl_append]
  exact hpassed.2.entry_ne hpassed.1

/-! ### Three sites -/

/-- Three sites `X`, `Y` and `P`, none of them started; they answer at the addresses `x`, `y`
and `new`. -/
def threeSites : Membership (Fin 3) where
  store i := Store.new (if i = 0 then text "X" else if i = 1 then text "Y" else text "P")
  addresses _ := []
  answers _ url :=
    if url = text "x" then some 0 else if url = text "y" then some 1
    else if url = text "new" then some 2 else none
  millis _ := 0
  tick := 0

/-- The three sites begin so. -/
theorem proper_threeSites : threeSites.Proper :=
  ⟨by decide +kernel, fun _ => List.nodup_nil⟩

/-- A round of gossip, in the order of the table. -/
def gossips (x : Fin 3) : MProg (Fin 3) Unit := gossipRound x fun l => l

/-- The sites are started, `Y` and `P` join `X`, and `Y` may hear of `P`; then `P` moves. -/
def moving (hears : Bool) : List (MProg (Fin 3) Unit) :=
  [start 0 (text "x") none, start 1 (text "y") (some (text "x")),
    start 2 (text "old") (some (text "x"))] ++
  (if hears then [gossips 1] else []) ++
  [start 2 (text "new") (some (text "x"))]

/-- Programs one after the other. -/
def inTurn (ps : List (MProg (Fin 3) Unit)) :
    List (Move Unit (MemberCall (Fin 3)) (Membership (Fin 3)) Unit) :=
  ps.flatMap fun p => .spawn () p :: List.replicate 12 (Move.step ())

/-- The state after some programs. -/
def afterwards (ps : List (MProg (Fin 3) Unit)) : Running Unit (Fin 3) :=
  (inTurn ps).foldl Conf.advance (Conf.atRest threeSites)

/-- The run starts the given programs. -/
theorem starts_inTurn {ps : List (MProg (Fin 3) Unit)} (h : ∀ p ∈ ps, Runs p) :
    ∀ mv ∈ inTurn ps, mv.Starts fun _ => Runs := by
  intro mv hmv
  obtain ⟨p, hp, hmv⟩ := List.mem_flatMap.1 hmv
  rcases List.mem_cons.1 hmv with rfl | hmv
  · exact h p hp
  · rw [(List.mem_replicate.1 hmv).2]
    trivial

/-- A round of gossip is one of them. -/
theorem runs_gossips (x : Fin 3) : Runs (gossips x) := .gossip x _ fun l => .refl l

/-- So are the steps of a site that moves to another address. -/
theorem runs_moving (hears : Bool) : ∀ p ∈ moving hears, Runs p := by
  simp only [moving, List.forall_mem_append, List.forall_mem_cons]
  refine ⟨⟨⟨.start _ _ _, .start _ _ _, .start _ _ _, by simp⟩, ?_⟩, .start _ _ _, by simp⟩
  cases hears with
  | true => simpa using runs_gossips 1
  | false => simp

/-- Where `Y` has not heard of `P` before, `X` keeps the new address. -/
theorem addresses_never_regress_unheard :
    ((inTurn (moving false) ++ inTurn [gossips 0]).foldl Conf.advance
        (Conf.atRest (κ := Unit) threeSites)).world.1.entry 0 2 ≠ some (text "old") := by
  refine addresses_never_regress threeSites proper_threeSites _ _ ?_ ?_ 0 2 (text "old")
    (text "new") ?_ ?_
  · intro mv hmv
    rcases List.mem_append.1 hmv with hmv | hmv
    · exact starts_inTurn (runs_moving false) mv hmv
    · exact starts_inTurn (by simpa using runs_gossips 0) mv hmv
  · decide +kernel
  · decide +kernel
  · exact ⟨[], [text "old"], by decide +kernel, List.mem_cons_self⟩

/-- **An address that goes back.**  `Y` has heard of `P` at its old address; `P` moves and
tells `X`, and the next round of gossip of `X`, with `P` and then `Y`, brings the old
address back. -/
theorem address_goes_back :
    threeSites.Proper ∧
      (∀ mv ∈ inTurn (moving true ++ [gossips 0]), mv.Starts fun _ => Runs) ∧
      (afterwards (moving true)).world.1.entry 0 2 = some (text "new") ∧
      (afterwards (moving true)).world.1.addresses 2 = [text "new", text "old"] ∧
      (afterwards (moving true ++ [gossips 0])).world.1.entry 0 2 = some (text "old") ∧
      ((afterwards (moving true ++ [gossips 0])).threads ()).result.isSome := by
  refine ⟨proper_threeSites, starts_inTurn ?_, by decide +kernel, by decide +kernel,
    by decide +kernel, by decide +kernel⟩
  rw [List.forall_mem_append]
  exact ⟨runs_moving true, by simpa using runs_gossips 0⟩

end Membership
end Shardscape
