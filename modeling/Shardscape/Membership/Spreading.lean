/-
# Gossip reaches everyone

`src/main.rs`: `gossip_membership` and the loops around it, with the starts, the heartbeats and
the joins of the other programs.

The sites stay where they are: each has one address, and who answers there is the site, from some
time on always.  Tables then only grow, and what they say is true (`Settled`).  A round of gossip
that runs from beginning to end, whatever the others do in between, leaves its site with all that
its peers knew when it began (`safe_gossipRound`).  So if every site gossips again and again, a
site comes to know every site it has a chain of acquaintances to, and from some time on all of
them know each other (`gossip_reaches_everyone`).
-/

import Shardscape.Lib.Turns
import Shardscape.Membership.Addresses
import Mathlib.Logic.Relation

namespace Shardscape
namespace Membership

open Lib Function Discipline

variable {ι κ : Type} [DecidableEq ι]

/-- Where the sites are. -/
structure Directory (ι : Type) where
  id : ι → Str
  addr : ι → Str
  /-- From this time on every site answers at its address. -/
  reachable : ℕ
  id_injective : Injective id
  id_nonempty : ∀ p, (id p).isEmpty = false

namespace Directory

variable (N : Directory ι)

/-- The tables are right, the sites are started with their own addresses, and only they answer
there. -/
structure Settled (m : Membership ι) : Prop where
  id : m.id = N.id
  listed : ∀ x k row, (m.store x).nodes.lookup k = some row →
    ∃ p, k = N.id p ∧ row.apiUrl = N.addr p
  started : ∀ x addr, (m.addresses x).head? = some addr → addr = N.addr x
  answer : ∀ t p y, m.answers t (N.addr p) = some y → y = p
  reachable : ∀ t p, N.reachable ≤ t → m.answers t (N.addr p) = some p

/-- A site knows itself and those in its table. -/
def Knows (m : Membership ι) (x p : ι) : Prop := x = p ∨ m.entry x p = some (N.addr p)

/-- An entry of a table is true. -/
def Entry (e : Str × Str) : Prop := ∃ p, e = (N.id p, N.addr p)

/-- Knowledge grows as time goes by. -/
structure Grows (m m' : Membership ι) : Prop where
  knows : ∀ x p, N.Knows m x p → N.Knows m' x p
  tick : m.tick ≤ m'.tick

/-- A call that tells the truth. -/
def Accurate : MemberCall ι → Prop
  | .started x addr => addr = N.addr x
  | .recordPeer _ locationId apiUrl => N.Entry (locationId, apiUrl)
  | .join _ locationId addr => N.Entry (locationId, addr)
  | _ => True

variable {N} {m m' m'' : Membership ι} {l : MemberCall ι} {x p : ι}

omit [DecidableEq ι] in
/-- Nothing is lost by doing nothing. -/
theorem Grows.refl (m : Membership ι) : N.Grows m m := ⟨fun _ _ h => h, le_rfl⟩

omit [DecidableEq ι] in
/-- Nothing is lost on the way. -/
theorem Grows.trans (h : N.Grows m m') (h' : N.Grows m' m'') : N.Grows m m'' :=
  ⟨fun x p hk => h'.knows x p (h.knows x p hk), h.tick.trans h'.tick⟩

/-! ### One call -/

/-- Who answers does not depend on what is called. -/
theorem answers_effect (l : MemberCall ι) (m : Membership ι) :
    (l.effect m).answers = m.answers := by
  cases l with
  | started x addr =>
    unfold MemberCall.effect
    dsimp only
    split_ifs <;> rfl
  | registerNode x =>
    unfold MemberCall.effect
    dsimp only
    cases (m.addresses x).head? <;> rfl
  | join peerUrl locationId addr =>
    unfold MemberCall.effect
    dsimp only
    split_ifs
    · rfl
    · cases m.answering peerUrl <;> rfl
  | recordPeer x locationId apiUrl => rfl
  | getPeersWithUrls x => rfl
  | clusterConfig peerUrl => rfl
  | nodes peerUrl => rfl

omit [DecidableEq ι] in
/-- What a call that tells the truth writes is true. -/
theorem Settled.entry_of_records (h : N.Settled m) (hl : N.Accurate l) {y : ι} {e : Str × Str}
    (hrec : m.records l = some (y, e)) : N.Entry e := by
  cases l with
  | registerNode x =>
    obtain ⟨addr, haddr, hw⟩ := Option.map_eq_some_iff.1 hrec
    obtain ⟨rfl, rfl⟩ := Prod.mk.inj hw
    exact ⟨x, by rw [h.id, h.started x addr haddr]⟩
  | recordPeer x locationId apiUrl =>
    simp only [records] at hrec
    split_ifs at hrec
    obtain ⟨rfl, rfl⟩ := Prod.mk.inj (Option.some.inj hrec)
    exact hl
  | join peerUrl locationId addr =>
    simp only [records] at hrec
    split_ifs at hrec
    obtain ⟨z, -, hw⟩ := Option.bind_eq_some_iff.1 hrec
    split_ifs at hw
    obtain ⟨rfl, rfl⟩ := Prod.mk.inj (Option.some.inj hw)
    exact hl
  | started x addr => simp [records] at hrec
  | getPeersWithUrls x => simp [records] at hrec
  | clusterConfig peerUrl => simp [records] at hrec
  | nodes peerUrl => simp [records] at hrec

/-- **A call that tells the truth** leaves the tables true and the sites with what they knew. -/
theorem Settled.did (h : N.Settled m) (hl : N.Accurate l) (hdid : Did l m m') :
    N.Settled m' ∧ N.Grows m m' := by
  have hanswers : m'.answers = m.answers := by rw [hdid]; exact answers_effect l m
  have htick : m.tick ≤ m'.tick := by rw [hdid]; exact Nat.le_succ _
  have hstore : m'.store = (l.effect m).store := by rw [hdid]
  have haddr : m'.addresses = (l.effect m).addresses := by rw [hdid]
  -- unless an entry is written, the tables are the same
  have hsame : (l.effect m).store = m.store → (∀ x addr, ((l.effect m).addresses x).head? =
      some addr → addr = N.addr x) → N.Settled m' ∧ N.Grows m m' := by
    intro hs ha
    rw [hs] at hstore
    refine ⟨⟨(id_of_store hstore).trans h.id, hstore ▸ h.listed, haddr ▸ ha, hanswers ▸ h.answer,
      hanswers ▸ h.reachable⟩, fun x p hk => ?_, htick⟩
    rw [Knows, entry_of_store hstore]
    exact hk
  rcases effect_cases l m with ⟨x, addr, rfl, -, hs, ha⟩ |
    ⟨y, locationId, url, nowMs, hrec, hs, ha⟩ | ⟨hs, ha⟩
  · refine hsame hs fun z addr' hz => ?_
    rw [ha] at hz
    by_cases hzx : z = x
    · subst hzx
      rw [update_self] at hz
      exact (Option.some.inj hz).symm.trans hl
    · rw [update_of_ne hzx] at hz
      exact h.started z addr' hz
  · rw [hs] at hstore
    obtain ⟨p, hp⟩ := h.entry_of_records hl hrec
    obtain ⟨rfl, rfl⟩ := Prod.mk.inj hp
    have hid : m'.id = N.id := (id_of_update hstore).trans h.id
    refine ⟨⟨hid, fun x k row hrow => ?_, haddr ▸ ha ▸ h.started, hanswers ▸ h.answer,
      hanswers ▸ h.reachable⟩, fun x q hk => ?_, htick⟩
    · rw [hstore] at hrow
      by_cases hx : x = y
      · subst hx
        rw [update_self, Store.upsertNode, Table.lookup_insert] at hrow
        split_ifs at hrow with hk
        · obtain rfl := Option.some.inj hrow
          exact ⟨p, hk, rfl⟩
        · exact h.listed x k row hrow
      · rw [update_of_ne hx] at hrow
        exact h.listed x k row hrow
    · rw [Knows, entry_of_update hstore]
      split_ifs with hnew
      · have hq : q = p := N.id_injective (h.id ▸ hnew.2)
        exact .inr (by rw [hq])
      · exact hk
  · exact hsame hs fun z addr hz => h.started z addr (by rw [← ha]; exact hz)

/-- A site knows whom it has recorded. -/
theorem Settled.knows_of_recordPeer (h : N.Settled m)
    (hdid : Did (.recordPeer x (N.id p) (N.addr p)) m m') : N.Knows m' x p := by
  by_cases hxp : x = p
  · exact .inl hxp
  · have hne : N.id p ≠ m.id x := by
      rw [h.id]
      exact fun hid => hxp (N.id_injective hid).symm
    rcases store_withStore_recordPeer m x (N.id p) (N.addr p) with ⟨-, hself⟩ | ⟨-, nowMs, hs⟩
    · exact absurd hself hne
    · have hstore : m'.store =
          update m.store x ((m.store x).upsertNode nowMs (N.id p) (N.addr p)) := by
        rw [hdid]
        exact hs
      refine .inr ?_
      rw [entry_of_update hstore, if_pos ⟨rfl, congrFun h.id p⟩]

/-! ### Tables that are sent -/

omit [DecidableEq ι] in
/-- The tables are true. -/
theorem Settled.entry_of_mem_allNodes (h : N.Settled m) {e : Str × Str}
    (he : e ∈ (m.store x).allNodes) : N.Entry e := by
  obtain ⟨row, hrow, rfl⟩ := List.mem_map.1 he
  obtain ⟨p, hk, hu⟩ := h.listed x row.1 row.2 (Table.lookup_eq_some_iff.2 hrow)
  exact ⟨p, by rw [hk, hu]⟩

omit [DecidableEq ι] in
/-- Whom a site knows, itself apart, it lists. -/
theorem Settled.mem_allNodes (h : N.Settled m) (hk : N.Knows m x p) (hne : x ≠ p) :
    (N.id p, N.addr p) ∈ (m.store x).allNodes := by
  obtain ⟨row, hrow, hu⟩ := Option.map_eq_some_iff.1 (hk.resolve_left hne)
  refine List.mem_map.2 ⟨⟨m.id p, row⟩, Table.lookup_eq_some_iff.1 hrow, ?_⟩
  rw [← hu, ← h.id]

omit [DecidableEq ι] in
/-- Whom a site knows is its peer. -/
theorem Settled.mem_getPeers (h : N.Settled m) (hk : N.Knows m x p) (hne : x ≠ p) :
    (N.id p, N.addr p) ∈ (m.store x).getPeers := by
  refine List.mem_filter.2 ⟨h.mem_allNodes hk hne, decide_eq_true fun hid => hne ?_⟩
  have hx : (m.store x).localLocationId = N.id x := congrFun h.id x
  exact (N.id_injective (hid.trans hx)).symm

/-! ### Programs -/

variable (N) (κ) in
/-- Every thread keeps the tables true and takes no knowledge away. -/
def discipline : Discipline κ (MemberCall ι) (Membership ι) Unit where
  record _ _ _ _ _ := ()
  cond _ _ _ := True
  inv w := N.Settled w.1
  rely _ w w' := N.Grows w.1 w'.1
  guar _ w w' := N.Grows w.1 w'.1
  rely_refl _ w := .refl w.1
  rely_trans _ _ _ _ h h' := h.trans h'
  guar_rely _ _ _ _ _ _ _ h := h

variable {i : κ} {w : Membership ι × Unit}

/-- One call, before whatever it leads to. -/
theorem safe_perform {α : Type} {answer : Membership ι → α} (hl : N.Accurate l)
    {Q : Except Unit α → Membership ι × Unit → Prop}
    (hQ : ∀ m m', N.Settled m → N.Settled m' → N.Grows w.1 m → N.Grows m m' → Did l m m' →
      Q (.ok (answer m)) (m', ())) :
    (N.discipline κ).Safe i (perform l answer) Q w := by
  intro w' hrely hinv _
  have hdid : Did l w'.1 { l.effect w'.1 with tick := w'.1.tick + 1 } := rfl
  obtain ⟨hsettled, hgrows⟩ := Settled.did hinv hl hdid
  exact ⟨hsettled, hgrows, hQ w'.1 _ hinv hsettled hrely hgrows rfl⟩

/-- Recording a table: the site comes to know all that is in it. -/
theorem safe_recordAll {view : List (Str × Str)} (hview : ∀ e ∈ view, N.Entry e) {T : ι → Prop}
    (hT : ∀ p, T p → (N.id p, N.addr p) ∈ view ∨ N.Knows w.1 x p) :
    (N.discipline κ).Safe i (Prog.forEach (fun node => recordPeer x node.1 node.2) view)
      (fun r w' => r = .ok () ∧ N.Grows w.1 w'.1 ∧ ∀ p, T p → N.Knows w'.1 x p) w := by
  refine Safe.forEach
    (fun rest w' => N.Grows w.1 w'.1 ∧ (∀ e ∈ rest, N.Entry e) ∧
      ∀ p, T p → (N.id p, N.addr p) ∈ rest ∨ N.Knows w'.1 x p) ?_ ?_ ⟨.refl _, hview, hT⟩
  · rintro w' ⟨hgrows, -, hknown⟩
    exact ⟨rfl, hgrows, fun p hp => (hknown p hp).resolve_left List.not_mem_nil⟩
  · rintro e rest w' ⟨hgrows, hentries, hknown⟩
    obtain ⟨hentry, hrest⟩ := List.forall_mem_cons.1 hentries
    refine safe_perform (l := .recordPeer x e.1 e.2) hentry fun m m' hm _ hgrows₁ hgrows₂ hdid => ?_
    refine ⟨hgrows.trans (hgrows₁.trans hgrows₂), hrest, fun p hp => ?_⟩
    rcases hknown p hp with hmem | hknows
    · rcases List.mem_cons.1 hmem with rfl | hmem
      · exact .inr (hm.knows_of_recordPeer hdid)
      · exact .inl hmem
    · exact .inr (hgrows₂.knows _ _ (hgrows₁.knows _ _ hknows))

variable (N) in
/-- What a round that begins in `m` leaves behind: time has passed and, if all sites could be
reached, the site knows whatever those it knew knew. -/
def Heard (x : ι) (m m' : Membership ι) : Prop :=
  m.tick < m'.tick ∧
    (N.reachable ≤ m.tick → ∀ y p, N.Knows m x y → N.Knows m y p → N.Knows m' x p)

/-- The peers are asked one after the other. -/
theorem safe_gossipMembership {m₀ : Membership ι} {peers : List (Str × Str)}
    (hpeers : ∀ e ∈ peers, N.Entry e) (hgrows : N.Grows m₀ w.1) (htick : m₀.tick < w.1.tick)
    (hall : ∀ y, N.Knows m₀ x y → x ≠ y → (N.id y, N.addr y) ∈ peers) :
    (N.discipline κ).Safe i (gossipMembership x peers) (fun _ w' => N.Heard x m₀ w'.1) w := by
  -- what remains to be heard is from peers that remain to be asked
  refine Safe.forEach
    (fun rest w' => N.Grows m₀ w'.1 ∧ m₀.tick < w'.1.tick ∧ (∀ e ∈ rest, N.Entry e) ∧
      (N.reachable ≤ m₀.tick → ∀ y, N.Knows m₀ x y → x ≠ y →
        (N.id y, N.addr y) ∈ rest ∨ ∀ p, N.Knows m₀ y p → N.Knows w'.1 x p)) ?_ ?_
    ⟨hgrows, htick, hpeers, fun _ y hy hne => .inl (hall y hy hne)⟩
  · rintro w' ⟨hgrows, htick, -, hheard⟩
    refine ⟨htick, fun hreach y p hxy hyp => ?_⟩
    by_cases hne : x = y
    · subst hne
      exact hgrows.knows _ _ hyp
    · exact (hheard hreach y hxy hne).resolve_left List.not_mem_nil p hyp
  · rintro e rest w' ⟨hgrows, htick, hentries, hheard⟩
    obtain ⟨⟨y, rfl⟩, hrest⟩ := List.forall_mem_cons.1 hentries
    refine Safe.bind (safe_perform (l := .nodes (N.addr y)) trivial
      fun m m' hm _ hgrows₁ hgrows₂ _ => ?_)
    have hgrows' : N.Grows m₀ m := hgrows.trans hgrows₁
    have htick' : m₀.tick < m'.tick := htick.trans_le (hgrows₁.trans hgrows₂).tick
    dsimp only
    cases hanswer : m.answering (N.addr y) with
    | none =>
      refine ⟨hgrows'.trans hgrows₂, htick', hrest, fun hreach => ?_⟩
      have hy : m.answering (N.addr y) = some y := hm.reachable _ y (hreach.trans hgrows'.tick)
      simp [hy] at hanswer
    | some z =>
      obtain rfl : z = y := hm.answer _ y z hanswer
      -- the table of the peer has all it knew, and more
      refine (safe_recordAll (T := fun p => N.Knows m₀ x z ∧ N.Knows m₀ z p)
        (fun e he => hm.entry_of_mem_allNodes he) ?_).mono ?_
      · rintro p ⟨hxz, hzp⟩
        by_cases hne : z = p
        · subst hne
          exact .inr (hgrows₂.knows _ _ (hgrows'.knows _ _ hxz))
        · exact .inl (hm.mem_allNodes (hgrows'.knows _ _ hzp) hne)
      · rintro _ w'' ⟨rfl, hgrows₃, hknown⟩
        have hafter : N.Grows m₀ w''.1 := hgrows'.trans (hgrows₂.trans hgrows₃)
        refine ⟨hafter, htick'.trans_le hgrows₃.tick, hrest, fun hreach y hxy hne => ?_⟩
        rcases hheard hreach y hxy hne with hmem | hdone
        · rcases List.mem_cons.1 hmem with heq | hmem
          · obtain rfl : y = z := N.id_injective (Prod.mk.inj heq).1
            exact .inr fun p hyp => hknown p ⟨hxy, hyp⟩
          · exact .inl hmem
        · refine .inr fun p hyp => ?_
          exact (hgrows₁.trans (hgrows₂.trans hgrows₃)).knows _ _ (hdone p hyp)

/-- **A round of gossip**, from its beginning to its end: the site hears all that those it knew
when it began knew then. -/
theorem safe_gossipRound {order : List (Str × Str) → List (Str × Str)}
    (horder : ∀ l, (order l).Perm l) :
    (N.discipline κ).Safe i (gossipRound x order) (fun _ w' => N.Heard x w.1 w'.1) w := by
  refine Safe.bind (safe_perform (l := .getPeersWithUrls x) trivial
    fun m m' hm _ hgrows₁ hgrows₂ hdid => ?_)
  have htick : m.tick < m'.tick := by
    rw [hdid]
    exact Nat.lt_succ_self _
  refine safe_gossipMembership (fun e he => ?_) (hgrows₁.trans hgrows₂)
    (hgrows₁.tick.trans_lt htick) fun y hy hne => ?_
  · exact hm.entry_of_mem_allNodes (List.mem_of_mem_filter ((horder _).mem_iff.1 he))
  · exact (horder _).mem_iff.2 (hm.mem_getPeers (hgrows₁.knows _ _ hy) hne)

/-- A start with the right address, and the address of a peer. -/
theorem safe_start (x : ι) (peer : Option ι) :
    (N.discipline κ).Safe i (start x (N.addr x) (peer.map N.addr)) (fun _ _ => True) w := by
  refine Safe.bind (safe_perform (l := .started x (N.addr x)) rfl
    fun m m' hm _ _ _ _ => ?_)
  cases peer with
  | none => exact safe_perform (l := .registerNode x) trivial fun _ _ _ _ _ _ _ => trivial
  | some q =>
    have hid : N.Entry (m.id x, N.addr x) := ⟨x, by rw [hm.id]⟩
    refine Safe.bind (Safe.bind
      (safe_perform (l := .clusterConfig (N.addr q)) trivial fun m₁ m₁' hm₁ _ _ _ _ => ?_))
    cases hanswer : m₁.answering (N.addr q) with
    | none => trivial
    | some y =>
      obtain rfl : y = q := hm₁.answer _ q y hanswer
      have hpeer : N.Entry (if (m₁.id y).isEmpty then N.addr y else m₁.id y, N.addr y) := by
        rw [hm₁.id, N.id_nonempty]
        exact ⟨y, rfl⟩
      refine Safe.bind (safe_perform (l := .join (N.addr y) (m.id x) (N.addr x)) hid
        fun _ _ _ _ _ _ _ => ?_)
      refine Safe.bind (safe_perform (l := .registerNode x) trivial
        fun _ _ _ _ _ _ _ => ?_)
      exact safe_perform (l := .recordPeer x _ _) hpeer fun _ _ _ _ _ _ _ => trivial

/-! ### Runs -/

variable (N) in
/-- What the threads run: each site has one that gossips; on the others the sites are started
with their addresses, their hearts beat, and requests to join arrive. -/
inductive Settles : ι ⊕ κ → MProg ι Unit → Prop
  | gossip (x : ι) (order : List (Str × Str) → List (Str × Str)) (h : ∀ l, (order l).Perm l) :
      Settles (.inl x) (gossipRound x order)
  | start (k : κ) (x : ι) (peer : Option ι) :
      Settles (.inr k) (start x (N.addr x) (peer.map N.addr))
  | heartbeat (k : κ) (x : ι) : Settles (.inr k) (registerNode x)
  | lateJoin (k : κ) (peerUrl : Str) (p : ι) : Settles (.inr k) (join peerUrl (N.id p) (N.addr p))

/-- Gossip and joins keep what is settled. -/
theorem safe_of_settles {k : ι ⊕ κ} {prog : MProg ι Unit} (h : N.Settles k prog) :
    (N.discipline (ι ⊕ κ)).Safe k prog (fun _ _ => True) w := by
  cases h with
  | gossip x order horder => exact (safe_gossipRound horder).mono fun _ _ _ => trivial
  | start k x peer => exact safe_start x peer
  | heartbeat k x => exact safe_perform (l := .registerNode x) trivial fun _ _ _ _ _ _ _ => trivial
  | lateJoin k peerUrl p =>
    exact safe_perform (l := .join peerUrl (N.id p) (N.addr p)) ⟨p, rfl⟩
      fun _ _ _ _ _ _ _ => trivial

variable [DecidableEq κ]

/-- The states of the sites in an infinite run. -/
def settling (m : Membership ι)
    (schedule : ℕ → Move (ι ⊕ κ) (MemberCall ι) (Membership ι) Unit) : ℕ → Running (ι ⊕ κ) ι :=
  states Conf.advance (Conf.atRest m) schedule

/-- Every site gossips again and again: its thread is given a round, and turns. -/
structure Gossiping (schedule : ℕ → Move (ι ⊕ κ) (MemberCall ι) (Membership ι) Unit) : Prop where
  rounds : ∀ x n, ∃ k, n ≤ k ∧ ∃ p, schedule k = .spawn (.inl x) p
  turns : ∀ x n, ∃ k, n ≤ k ∧ schedule k = .step (.inl x)

variable {schedule : ℕ → Move (ι ⊕ κ) (MemberCall ι) (Membership ι) Unit}

/-- So every configuration of a run is sound. -/
theorem soundRun_settling (hm : N.Settled m) (hstart : ∀ n, (schedule n).Starts N.Settles) :
    Conf.SoundRun (N.discipline (ι ⊕ κ)) (fun _ _ _ => True) (settling m schedule) schedule := by
  have hmeets : ∀ (c : Running (ι ⊕ κ) ι) mv, Conf.Meets (N.discipline (ι ⊕ κ)) c mv := by
    intro c mv
    cases mv with
    | step k =>
      unfold Conf.Meets
      dsimp only
      cases c.threads k <;> trivial
    | spawn k prog => trivial
  refine ⟨fun n => rfl, ?_, fun n => hmeets _ _⟩
  refine forall_states (P := Conf.Sound (N.discipline (ι ⊕ κ)) fun _ _ _ => True)
    ⟨hm, fun _ => trivial⟩ fun n hn => ?_
  exact Conf.sound_move (D := N.discipline (ι ⊕ κ)) N.Settles (fun _ _ _ _ _ _ => trivial)
    (fun _ _ _ hp _ => safe_of_settles hp) _ _ hn (hstart n) (hmeets _ _)

/-- Knowledge grows along a run. -/
theorem grows_settling (hm : N.Settled m) (hstart : ∀ n, (schedule n).Starts N.Settles) {a b : ℕ}
    (hab : a ≤ b) : N.Grows (settling m schedule a).world.1 (settling m schedule b).world.1 := by
  induction b, hab using Nat.le_induction with
  | base => exact .refl _
  | succ b _ ih =>
    have hrun := soundRun_settling hm hstart
    refine ih.trans ?_
    rw [hrun.step]
    rcases (hrun.sound b).world_move (hrun.meets b) with hsame | ⟨_, -, -, hgrows⟩
    · rw [hsame]
      exact .refl _
    · exact hgrows

/-- After any time every site begins a round and comes to its end. -/
theorem exists_heard (hm : N.Settled m) (hstart : ∀ n, (schedule n).Starts N.Settles)
    (hgossip : Gossiping schedule) (x : ι) (n : ℕ) :
    ∃ a b, n ≤ a ∧ a ≤ b ∧
      N.Heard x (settling m schedule a).world.1 (settling m schedule b).world.1 := by
  have hsafe : ∀ prog w, N.Settles (.inl x : ι ⊕ κ) prog → (N.discipline (ι ⊕ κ)).inv w →
      (N.discipline (ι ⊕ κ)).Safe (.inl x) prog (fun _ w' => N.Heard x w.1 w'.1) w := by
    intro prog w hprog _
    cases hprog with
    | gossip x order horder => exact safe_gossipRound horder
  obtain ⟨a, b, ha, hb, -, hheard⟩ := (soundRun_settling hm hstart).exists_round hstart
    (Q := fun w _ w' => N.Heard x w.1 w'.1) hsafe (hgossip.turns x) (hgossip.rounds x) n
  exact ⟨a, b, ha, hb, hheard⟩

/-- Time goes on. -/
theorem exists_tick (hm : N.Settled m) (hstart : ∀ n, (schedule n).Starts N.Settles)
    (hgossip : Gossiping schedule) (x : ι) (n t : ℕ) :
    ∃ k, n ≤ k ∧ t ≤ (settling m schedule k).world.1.tick := by
  induction t with
  | zero => exact ⟨n, le_rfl, Nat.zero_le _⟩
  | succ t ih =>
    obtain ⟨k, hk, ht⟩ := ih
    obtain ⟨a, b, ha, hb, htick, -⟩ := exists_heard hm hstart hgossip x k
    have hlater := (grows_settling hm hstart ha).tick
    exact ⟨b, by omega, by omega⟩

/-- **A chain of acquaintances** becomes an acquaintance. -/
theorem exists_knows (hm : N.Settled m) (hstart : ∀ n, (schedule n).Starts N.Settles)
    (hgossip : Gossiping schedule) {n : ℕ}
    (h : Relation.ReflTransGen (N.Knows (settling m schedule n).world.1) x p) :
    ∃ k, n ≤ k ∧ N.Knows (settling m schedule k).world.1 x p := by
  induction h with
  | refl => exact ⟨n, le_rfl, .inl rfl⟩
  | tail _ hyp ih =>
    obtain ⟨k, hk, hxy⟩ := ih
    obtain ⟨k', hk', htick⟩ := exists_tick hm hstart hgossip x k N.reachable
    obtain ⟨a, b, ha, hb, -, hheard⟩ := exists_heard hm hstart hgossip x k'
    have hka := hk'.trans ha
    refine ⟨b, hk.trans (hka.trans hb), ?_⟩
    exact hheard (htick.trans (grows_settling hm hstart ha).tick) _ _
      ((grows_settling hm hstart hka).knows _ _ hxy)
      ((grows_settling hm hstart (hk.trans hka)).knows _ _ hyp)

/-- **Gossip reaches everyone.**  The sites stay at their addresses and tell the truth about
them, and from some time on they can all be reached; each of them gossips again and again, call by
call among the calls of the others.  Then whatever chains of acquaintances there are at some time,
from some time on their ends know each other. -/
theorem gossip_reaches_everyone [Finite ι] (N : Directory ι) (m : Membership ι)
    (hm : N.Settled m) (schedule : ℕ → Move (ι ⊕ κ) (MemberCall ι) (Membership ι) Unit)
    (hstart : ∀ n, (schedule n).Starts N.Settles) (hgossip : Gossiping schedule) (n : ℕ) :
    ∃ later, ∀ k, later ≤ k → ∀ x p,
      Relation.ReflTransGen (N.Knows (settling m schedule n).world.1) x p →
        N.Knows (settling m schedule k).world.1 x p := by
  let P : ι × ι → Running (ι ⊕ κ) ι → Prop := fun q c =>
    Relation.ReflTransGen (N.Knows (settling m schedule n).world.1) q.1 q.2 →
      N.Knows c.world.1 q.1 q.2
  have hkeep : ∀ q k, P q (settling m schedule k) → P q (settling m schedule (k + 1)) :=
    fun q k hq hpath => (grows_settling hm hstart (Nat.le_succ k)).knows _ _ (hq hpath)
  have hcomes : ∀ q, ∃ k, P q (settling m schedule k) := by
    intro q
    by_cases hpath : Relation.ReflTransGen (N.Knows (settling m schedule n).world.1) q.1 q.2
    · obtain ⟨k, -, hk⟩ := exists_knows hm hstart hgossip hpath
      exact ⟨k, fun _ => hk⟩
    · exact ⟨n, fun hq => absurd hq hpath⟩
  obtain ⟨later, hlater⟩ := eventually_forall hkeep hcomes
  exact ⟨later, fun k hk x p => hlater k hk (x, p)⟩

/-! ### Two leaves -/

/-- Three sites that stay where they are. -/
def three : Directory (Fin 3) where
  id := threeSites.id
  addr i := if i = 0 then text "x" else if i = 1 then text "y" else text "new"
  reachable := 0
  id_injective := proper_threeSites.ids
  id_nonempty := by decide +kernel

/-- The three sites begin settled. -/
theorem settled_threeSites : three.Settled threeSites where
  id := rfl
  listed x k row h := by
    have hnone : (threeSites.store x).nodes.lookup k = none := AList.lookup_empty k
    simp [hnone] at h
  started x addr h := by simp [threeSites] at h
  answer t := show ∀ p y, threeSites.answers 0 (three.addr p) = some y → y = p by decide +kernel
  reachable t p _ := by
    have hall : ∀ p, threeSites.answers 0 (three.addr p) = some p := by decide +kernel
    exact hall p

/-- `X` is started, then `Y` and `P`, which join it. -/
def joining : List (Move (Fin 3 ⊕ Unit) (MemberCall (Fin 3)) (Membership (Fin 3)) Unit) :=
  [none, some 0, some 0].zipIdx.flatMap fun q =>
    .spawn (.inr ()) (start (Fin.ofNat 3 q.2) (three.addr (Fin.ofNat 3 q.2))
    (q.1.map three.addr)) ::
      List.replicate 5 (.step (.inr ()))

/-- The sites gossip, call by call in turn. -/
def gossiping (j : ℕ) : Move (Fin 3 ⊕ Unit) (MemberCall (Fin 3)) (Membership (Fin 3)) Unit :=
  if j < 3 then .spawn (.inl (Fin.ofNat 3 j)) (gossips (Fin.ofNat 3 j))
  else .step (.inl (Fin.ofNat 3 j))

/-- The sites join and then gossip. -/
def leaves (n : ℕ) : Move (Fin 3 ⊕ Unit) (MemberCall (Fin 3)) (Membership (Fin 3)) Unit :=
  (joining[n]?).getD (gossiping (n % 6))

/-- After its start the schedule repeats every six events. -/
theorem leaves_mul_add (n : ℕ) {j : ℕ} (hj : j < 6) : leaves (6 * (n + 3) + j) = gossiping j := by
  have hlength : joining.length = 18 := rfl
  have hnone : joining[6 * (n + 3) + j]? = none := List.getElem?_eq_none (by omega)
  have hmod : (6 * (n + 3) + j) % 6 = j := by omega
  rw [leaves, hnone, hmod, Option.getD_none]

/-- It starts gossip and one other thread, which stops. -/
theorem starts_leaves (n : ℕ) : (leaves n).Starts three.Settles := by
  have hjoining : ∀ mv ∈ joining, mv.Starts three.Settles := by
    intro mv hmv
    obtain ⟨q, -, hmv⟩ := List.mem_flatMap.1 hmv
    rcases List.mem_cons.1 hmv with rfl | hmv
    · exact .start () _ q.1
    · rw [(List.mem_replicate.1 hmv).2]
      trivial
  unfold leaves
  cases hn : joining[n]? with
  | some mv => exact hjoining mv (List.mem_of_getElem? hn)
  | none =>
    show (gossiping (n % 6)).Starts three.Settles
    unfold gossiping
    split_ifs
    · exact .gossip _ _ fun l => .refl l
    · trivial

/-- Every site gossips again and again in it. -/
theorem gossiping_leaves : Gossiping leaves where
  rounds x n := by
    refine ⟨6 * (n + 3) + x, by omega, gossips x, ?_⟩
    rw [leaves_mul_add n (by omega), gossiping, if_pos x.isLt, Fin.ofNat_eq_cast,
      Fin.cast_val_eq_self]
  turns x n := by
    refine ⟨6 * (n + 3) + (x + 3), by omega, ?_⟩
    have hx : Fin.ofNat 3 (x + 3) = x := by ext; simp
    rw [leaves_mul_add n (by omega), gossiping, if_neg (by omega), hx]

instance (N : Directory ι) (m : Membership ι) (x p : ι) : Decidable (N.Knows m x p) :=
  inferInstanceAs (Decidable (x = p ∨ m.entry x p = some (N.addr p)))

/-- Two sites that have joined a third come to know each other. -/
theorem gossip_reaches_everyone_leaves :
    ∃ later, ∀ k, later ≤ k → ∀ x p, three.Knows (settling threeSites leaves k).world.1 x p := by
  obtain ⟨later, hlater⟩ := gossip_reaches_everyone three threeSites settled_threeSites leaves
    starts_leaves gossiping_leaves 18
  have hhub : ∀ x, three.Knows (settling threeSites leaves 18).world.1 x 0 ∧
      three.Knows (settling threeSites leaves 18).world.1 0 x := by decide +kernel
  exact ⟨later, fun k hk x p => hlater k hk x p ((Relation.ReflTransGen.single (hhub x).1).tail
    (hhub p).2)⟩

end Directory
end Membership
end Shardscape
