/-
# Ranged reads in a cluster

Any number of sites do what `Shardscape.Backend.Acts` says, in any order: whole requests, reads
with their read-repair, pulls of a page of a peer's facts, drains, sweeps, and the recording of
peers to fetch from.  A pull brings what the peer itself has logged, so a site may hear of a
manifest from a peer that has never announced its blocks: one that copied the object
(`copy_object` in `src/storage.rs`).  `block_sizes` answers 0 for such blocks, the plan of a
ranged GET skips them, and the response promises bytes that are not in it
(`ranged_read_is_empty`).

That is the only way.  In every run in which each manifest that takes effect at a site names
blocks the site has a row for, every ranged GET that is answered plans exactly the bytes of
its range, at every site and at all times (`ranged_reads_exact`).
-/

import Shardscape.Backend.Samples
import Shardscape.Ranged.Requests

namespace Shardscape

open Lib Lib.Prog StorageBackend

variable {ι : Type} {Blob : BlobStore} {S : StorageBackend} {data : Bytes → Bytes}

/-! ### Exact reads -/

/-- What a plan reads, if every block has its true bytes. -/
def planned (data : Bytes → Bytes) (plan : List (Bytes × ℕ × Option ℕ)) : Bytes :=
  (plan.map fun p => sliceBlockBytes (data p.1) p.2.1 p.2.2).flatten

/-- Every ranged GET that a site answers, whatever the answers it gets, plans exactly the
bytes of its range, and as many as it promises. -/
def RangedExact (Blob : BlobStore) (data : Bytes → Bytes) (st : Store) : Prop :=
  ∀ s : Site Blob, s.store = st → ∀ bucket key range out,
    ((getObject bucket key (some range)).exec s).2 = .ok out →
    ∃ blocks size etag start stop plan contentRange,
      st.getObject bucket key = some (blocks, size, etag) ∧
      resolveRange range (assembled data blocks).length = some (start, stop) ∧
      ((readPlan blocks size (some range)).exec s).2 = .ok (plan, out.contentLength, contentRange) ∧
      planned data plan = ((assembled data blocks).take (stop + 1)).drop start ∧
      out.contentLength = (planned data plan).length

/-- What a GET promises is what its plan does. -/
theorem wp_getObject_planned {s : Site Blob} {bucket key : Str} {range : Option Range} :
    wp (getObject bucket key range) (fun r _ => ∀ out, r = .ok out →
      ∃ blocks size etag plan contentRange,
        s.store.getObject bucket key = some (blocks, size, etag) ∧
        ((readPlan blocks size range).exec s).2 =
          .ok (plan, out.contentLength, contentRange)) s := by
  refine wp_bind.2 ((Site.wp_db _ _).2 ?_)
  cases hget : s.store.getObject bucket key with
  | none => exact fun out h => nomatch h
  | some m =>
    obtain ⟨blocks, size, etag⟩ := m
    refine wp_bind.2 (wp_mono (Q := fun r _ => ((readPlan blocks size range).exec s).2 = r) rfl
      fun r s₁ hplan => ?_)
    cases r with
    | error e => exact fun out h => nomatch h
    | ok r =>
      obtain ⟨plan, contentLength, contentRange⟩ := r
      refine wp_bind.2 (wp_mono (Q := fun _ _ => True) trivial fun r s₂ _ => ?_)
      cases r with
      | error e => exact fun out h => nomatch h
      | ok first =>
        refine wp_bind.2 ((Site.wp_ask _ _).2 (wp_bind.2
          (wp_mono (Q := fun _ _ => True) trivial fun r s₃ _ => ?_)))
        cases r with
        | error e => exact fun out h => nomatch h
        | ok rest =>
          refine (wp_pure _).2 fun out h => ?_
          rw [← Except.ok.inj h]
          exact ⟨blocks, size, etag, plan, contentRange, rfl, hplan⟩

/-- **Accounts make ranged reads exact.** -/
theorem Store.Accounted.rangedExact {st : Store} (h : st.Accounted data) :
    RangedExact Blob data st := by
  rintro s rfl bucket key range out hout
  obtain ⟨blocks, size, etag, plan, contentRange, hget, hplan⟩ := wp_getObject_planned out hout
  obtain ⟨-, hknown, hsize⟩ := h.getObject hget
  have hu64 : asU64 size = (assembled data blocks).length := by rw [hsize, asU64_natCast]
  have hplan' := hplan
  unfold readPlan at hplan'
  dsimp only at hplan'
  rw [hu64] at hplan'
  cases hresolve : resolveRange range (assembled data blocks).length with
  | none =>
    rw [hresolve] at hplan'
    exact nomatch hplan'
  | some p =>
    obtain ⟨start, stop⟩ := p
    rw [hresolve] at hplan'
    have heq := Except.ok.inj hplan'
    rw [Prod.mk.injEq, Prod.mk.injEq] at heq
    obtain ⟨hslices, hlength, -⟩ := heq
    obtain ⟨hle, hlt, -⟩ := resolveRange_select hresolve
    have hexact : planned data plan = ((assembled data blocks).take (stop + 1)).drop start := by
      rw [← hslices]
      show planned data ((sliceBlocksForRange (s.store.blockSizes blocks) start stop).map _) = _
      rw [h.blockSizes hknown, planned, List.map_map]
      refine (congrArg List.flatten (List.map_congr_left fun p _ => rfl)).trans
        (flatten_sliceBlocksForRange hle (blocks.map data)
          (fun j => data ((blocks[j]?).getD [])) fun j hj => ?_)
      rw [List.length_map] at hj
      rw [List.getElem?_eq_getElem hj, Option.getD_some, List.getElem_map]
    refine ⟨blocks, size, etag, start, stop, plan, contentRange, hget,
      hresolve, hplan, hexact, ?_⟩
    rw [← hlength, hexact, List.length_drop, List.length_take]
    omega

/-! ### Runs -/

namespace ActEvent

/-- The page of a pull. -/
def page (c : ι → Site Blob) (e : ActEvent ι) (peer : ι) : List FactRecord :=
  (c peer).store.factsSince
    ((c e.site).store.getCursor (c peer).store.localLocationId) factSyncBatch

/-- The bytes in play are true: a chunk is what its hash stands for, and so is what a peer
sends. -/
def Honest (S : StorageBackend) (data : Bytes → Bytes) (c : ι → Site Blob)
    (e : ActEvent ι) : Prop :=
  match e.act with
  | .request r => ∀ d ∈ r.chunks S, d = data (S.blake3.hash d)
  | .get bucket key range =>
    (getObject bucket key range).Along
      (Site.Truthful (TrueBytes data)) (e.before c)
  | .drain => (drain S (c e.site)).Along (Site.Truthful (TrueBytes data)) (e.before c)
  | _ => True

/-- Every manifest that a pull brings and that takes effect names blocks with a row. -/
def Known (S : StorageBackend) (c : ι → Site Blob) (e : ActEvent ι) : Prop :=
  match e.act with
  | .pull peer => peer ≠ e.site →
      Store.KnowsPage S.blake3 (e.nowMs c) (e.page c peer) (c e.site).store
  | _ => True

variable [DecidableEq ι]

instance (S : StorageBackend) (data : Bytes → Bytes) (c : ι → Site Blob) (e : ActEvent ι) :
    Decidable (e.Honest S data c) := by
  unfold Honest
  split <;> infer_instance

instance (S : StorageBackend) (c : ι → Site Blob) (e : ActEvent ι) : Decidable (e.Known S c) := by
  unfold Known
  split <;> infer_instance

/-- A pull keeps the accounts. -/
theorem accounted_pullPage {s peer : Store} {nowMs : ℤ} (hs : s.Accounted data)
    (hpeer : peer.Accounted data)
    (hknows : Store.KnowsPage S.blake3 nowMs
      (peer.factsSince (s.getCursor peer.localLocationId) factSyncBatch) s) :
    (Store.pullPage S.blake3 nowMs s peer).1.Accounted data := by
  have htrue : ∀ rec ∈ peer.factsSince (s.getCursor peer.localLocationId) factSyncBatch,
      TrueFact data rec.fact := by
    intro rec hrec
    obtain ⟨-, hentry⟩ := Store.mem_factRecords.1 (Store.mem_factsSince.1 hrec).1
    exact hpeer.log _ (List.mem_of_getElem? hentry)
  unfold Store.pullPage
  dsimp only
  split
  · exact hs
  · next rec page hpage =>
      rw [hpage] at htrue hknows
      rw [Store.fst_applyPage]
      exact (hs.applyFacts htrue hknows).frame rfl rfl rfl rfl rfl rfl

/-- **One step keeps the accounts.** -/
theorem accounted_step {c : ι → Site Blob} {e : ActEvent ι} (h : ∀ i, (c i).store.Accounted data)
    (he : e.Honest S data c ∧ e.Known S c) : ∀ i, (e.step S c i).store.Accounted data := by
  have hsite : (e.before c).store.Accounted data := h e.site
  refine step_forall (P := fun _ s => s.store.Accounted data) h ?_
  obtain ⟨hhonest, hknown⟩ := he
  unfold Honest at hhonest
  unfold Known at hknown
  unfold after
  cases hact : e.act with
  | request r =>
    rw [hact] at hhonest
    exact wp_serve_accounted hsite hhonest
  | get bucket key range =>
    rw [hact] at hhonest
    exact (accounted_blocksKept.ensures_getObject bucket key range hsite).wp hhonest
  | pull peer =>
    rw [hact] at hknown
    dsimp only
    unfold pulled
    split_ifs with hself
    · exact hsite
    · exact accounted_pullPage (h e.site) (h peer) (hknown hself)
  | drain =>
    rw [hact] at hhonest
    exact (accounted_blocksKept.ensures_drainReplicationQueue S.gc _ hsite).wp hhonest
  | sweep force => exact (accounted_blocksKept.wp_sweepOrphanedBlocks S.gc force hsite).2
  | recordPeer locationId apiUrl => exact hsite.recordPeer _ locationId apiUrl

/-- **Ranged reads are exact.**  From fresh sites, in every run in which the bytes in play are
true and each manifest that takes effect at a site by a pull names blocks the site has a row
for: at every site, wherever the run passes and where it ends. -/
theorem ranged_reads_exact (S : StorageBackend) (data : Bytes → Bytes) (ids : ι → Str)
    (c : ι → Site Blob) (hnew : ∀ i, (c i).store = Store.new (ids i)) (es : List (ActEvent ι))
    (hhonest : ∀ q ∈ trace (step S) c es, q.2.Honest S data q.1)
    (hknown : ∀ q ∈ trace (step S) c es, q.2.Known S q.1) :
    (∀ q ∈ trace (step S) c es, ∀ i, RangedExact Blob data (q.1 i).store) ∧
      ∀ i, RangedExact Blob data (es.foldl (step S) c i).store := by
  have hstep : ∀ (c : ι → Site Blob) (e : ActEvent ι), (∀ i, (c i).store.Accounted data) →
      e.Honest S data c ∧ e.Known S c → ∀ i, (e.step S c i).store.Accounted data :=
    fun _ _ h he => accounted_step h he
  have hstart : ∀ i, (c i).store.Accounted data := fun i => hnew i ▸ Store.accounted_new (ids i)
  have hall : ∀ q ∈ trace (step S) c es, q.2.Honest S data q.1 ∧ q.2.Known S q.1 :=
    fun q hq => ⟨hhonest q hq, hknown q hq⟩
  exact ⟨fun q hq i => (invariant_of_trace hstep hstart hall q hq i).rangedExact,
    fun i => (invariant_at_end hstep hstart hall i).rangedExact⟩

/-! ### A copy that travels alone -/

/-- Three fresh sites. -/
def threeFresh (i : Fin 3) : Site localBlob :=
  { freshSite with store := Store.new (text (if i = 0 then "a" else if i = 1 then "b" else "c")) }

/-- A step with the answers of a quiet world. -/
def quietly (i : Fin 3) (act : SiteAct (Fin 3)) : ActEvent (Fin 3) := ⟨i, act, freshSite.oracle⟩

/-- A step in which the site `a` answers every fetch with its block. -/
def answered (i : Fin 3) (act : SiteAct (Fin 3)) : ActEvent (Fin 3) :=
  ⟨i, act, { freshSite.oracle with fetch := fun _ => .ok [97] }⟩

/-- Site `a` puts an object of one byte; `c` hears of it and copies it; `b` may hear of `a`, and
then hears of `c`. -/
def copiedOn (hears : Bool) : List (ActEvent (Fin 3)) :=
  [quietly 0 (.request (.putObject (text "x") (text "k") (some [.ok [97]]))), quietly 2 (.pull 0),
    quietly 2 (.request (.copyObject (.bucket (text "x") (text "k")) (text "x") (text "l")))] ++
  (if hears then [quietly 1 (.pull 0)] else []) ++ [quietly 1 (.pull 2)]

/-- Then `c` records `a` as a peer and drains its queue, and `b` records `a` and reads the copy. -/
def fetchedOn : List (ActEvent (Fin 3)) :=
  copiedOn true ++
  [quietly 2 (.recordPeer (text "a") (text "http://a")), answered 2 .drain,
    quietly 1 (.recordPeer (text "a") (text "http://a")),
    answered 1 (.get (text "x") (text "l") (some (.int 0 (some 0))))]

/-- The sites afterwards. -/
def afterCopy (hears : Bool) : Fin 3 → Site localBlob :=
  (copiedOn hears).foldl (step sample) threeFresh

/-- Where `b` has heard of `a`, its ranged reads of the copy are exact, also when the block has
come by a fetch: `c` has it by its drain, and `b` by read-repair. -/
theorem ranged_reads_exact_fetched :
    let c := fetchedOn.foldl (step sample) threeFresh
    (∀ i, (c i).store.HoldsLocally blockOfA) ∧
      (c 1).store.getObject (text "x") (text "l") ≠ none ∧
      ∀ i, RangedExact localBlob (fun _ => [97]) (c i).store := by
  refine ⟨by decide +kernel, by decide +kernel, (ranged_reads_exact sample
    (fun _ => [97]) (fun i : Fin 3 => text (if i = 0 then "a" else if i = 1 then "b" else "c"))
    threeFresh (fun _ => rfl) fetchedOn ?_ ?_).2⟩
  · decide +kernel
  · decide +kernel

/-- **A ranged read that is empty.**  Where `b` has heard of `c` only, it has the manifest of
the copy and no row for its block: the GET of the first byte succeeds, promises one byte and
plans none. -/
theorem ranged_read_is_empty :
    (∀ q ∈ trace (step sample) threeFresh (copiedOn false),
        q.2.Honest sample (fun _ => [97]) q.1) ∧
      (∃ out, ((getObject (text "x") (text "l") (some (.int 0 (some 0)))).exec
          (afterCopy false 1)).2 = .ok out ∧ out.contentLength = 1 ∧ out.body = []) ∧
      ¬ RangedExact localBlob (fun _ => [97]) (afterCopy false 1).store := by
  have hout : ∃ out, ((getObject (text "x") (text "l") (some (.int 0 (some 0)))).exec
      (afterCopy false 1)).2 = .ok out ∧ out.contentLength = 1 ∧ out.body = [] := ⟨_, rfl, rfl, rfl⟩
  refine ⟨by decide +kernel, hout, fun h => ?_⟩
  obtain ⟨out, hok, hlength, -⟩ := hout
  obtain ⟨blocks, size, etag, start, stop, plan, contentRange, hget, -, hplan, -, hplanned⟩ :=
    h _ rfl _ _ _ out hok
  have hrow : (afterCopy false 1).store.getObject (text "x") (text "l") =
      some ([blockOfA], 1, hexEncode [97]) := by decide +kernel
  rw [hrow, Option.some.injEq, Prod.mk.injEq, Prod.mk.injEq] at hget
  obtain ⟨rfl, rfl, rfl⟩ := hget
  have hempty : ((readPlan [blockOfA] 1 (some (.int 0 (some 0)))).exec
      (afterCopy false 1)).2 = .ok ([], 1, some (text "bytes 0-0/1")) := rfl
  rw [hempty, Except.ok.injEq, Prod.mk.injEq] at hplan
  rw [← hplan.1, hlength] at hplanned
  exact absurd hplanned (by decide)

end ActEvent
end Shardscape
