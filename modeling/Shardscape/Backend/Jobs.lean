/-
# The sites, call by call

Any number of sites, each doing any number of jobs call by call: requests of clients behind their
authorization, requests of peers, sweeps, drains, and pages of facts a peer has told it
(`src/storage.rs`, `src/main.rs`).  A site may at any time pull a page of a peer's facts (one turn
of the loop of `sync_facts_once`) and create a user.  A job may be abandoned between two calls when
its site restarts, and clocks may be set at any time (`Sites.step`).

Every job makes the calls its parts make, and each does what its label says (`makes_job`).  So an
event does one of a few things to the site it is at, and nothing to the others
(`Sites.Described.step`).
-/

import Shardscape.Backend.Acts
import Shardscape.Backend.RequestEffects

namespace Shardscape

open Lib

variable {Blob : BlobStore} {ι κ : Type} {S : StorageBackend} {J : PolicyJson}

/-! ### Jobs -/

/-- What a site can be asked to do. -/
inductive Job where
  | s3 (credentials : Option Str) (r : S3Request)
  | internal (secretMatches : Bool) (r : InternalRequest)
  | sweep (force : Bool)
  | drain
  /-- A page of a peer's facts, applied one by one. -/
  | hear (facts : List FactRecord)

/-- What a job answers, with what it was asked. -/
inductive JobAnswer where
  | s3 (credentials : Option Str) (r : S3Request) (result : Except S3Error S3Response)
  | told (r : InternalRequest) (result : Except S3Error InternalResponse)

/-- A program whose outcome is answered. -/
def answering {α : Type} (answer : Except S3Error α → JobAnswer) (p : Site.SProg Blob S3Error α) :
    Site.SProg Blob JobAnswer Unit := do
  let result ← p.attempt
  .fail (answer result)

/-- A program whose outcome is only logged. -/
def silently (p : Site.SProg Blob S3Error Unit) : Site.SProg Blob JobAnswer Unit := do
  let _ ← p.attempt
  pure ()

/-- What a job runs; it stops with its answer. -/
def Job.run (S : StorageBackend) (J : PolicyJson) (cfg : SiteConfig) :
    Job → Site.SProg Blob JobAnswer Unit
  | .s3 credentials r => answering (.s3 credentials r) (S.handle J credentials r)
  | .internal secretMatches r =>
    answering (.told r) (Site.handleInternalRequest cfg S.gc secretMatches r)
  | .sweep force => silently (Site.sweepOrphanedBlocks S.gc force)
  | .drain => silently (Site.drainReplicationQueue S.gc cfg.localLocationId)
  | .hear facts => silently (Prog.forEach (Site.applyFact S.blake3) facts)

/-- The job applies facts that it was told. -/
def Job.hears : Job → Bool
  | .hear _ => true
  | _ => false

section Makes

variable {A : Call → Prop} {I : Site Blob → Prop}

/-- The answer of a job is worked out after its calls. -/
theorem makes_answering {α : Type} {answer : Except S3Error α → JobAnswer}
    {p : Site.SProg Blob S3Error α} (h : Site.Makes I A p) :
    Site.Makes I A (answering answer p) :=
  h.attempt.seq fun _ => Site.makes_fail _

/-- A job without an answer makes the same calls. -/
theorem makes_silently {p : Site.SProg Blob S3Error Unit} (h : Site.Makes I A p) :
    Site.Makes I A (silently p) :=
  h.attempt.seq fun _ => Site.makes_pure _

end Makes

/-- **A job that hears nothing** applies no fact. -/
theorem makes_ownJob (cfg : SiteConfig) {job : Job} (hjob : job.hears = false) :
    Site.Makes (fun _ => True) Site.OwnCall
      (job.run S J cfg : Site.SProg Blob JobAnswer Unit) := by
  have hentries : Site.Entries S (fun _ : Site Blob => True) Site.OwnCall := Site.entries_ownCall
  cases job with
  | s3 credentials r =>
    exact makes_answering (StorageBackend.makes_handle hentries J credentials r)
  | internal secretMatches r =>
    refine makes_answering ?_
    by_cases hr : r = .gcForce
    · subst hr
      unfold Site.handleInternalRequest
      split
      · exact Site.makes_pure _
      · exact (Site.makes_sweepOrphanedBlocks S.gc true).seq fun _ => Site.makes_pure _
    · exact Site.makes_handleInternalRequest hentries cfg S.gc secretMatches hr
  | sweep force => exact makes_silently (Site.makes_sweepOrphanedBlocks S.gc force)
  | drain => exact makes_silently (Site.makes_drainReplicationQueue S.gc _)
  | hear facts => cases hjob

/-- Sites with their threads. -/
abbrev Sites (ι κ : Type) (Blob : BlobStore) := ι → Site.Threads κ Blob JobAnswer

/-- What can happen. -/
inductive SitesEvent (ι κ : Type) where
  | begin (i : ι) (k : κ) (job : Job)
  | step (i : ι) (k : κ)
  /-- A page of the log of a peer, as it is now. -/
  | pull (i peer : ι) (nowMs : ℤ)
  | createUser (i : ι) (ts : ℤ) (accessKey secretKey : Str) (policy : Policy)
  /-- `ClusterClock::set_offset`. -/
  | setClock (i : ι) (clock : ClusterClock)
  /-- What the site was doing is lost. -/
  | restart (i : ι)

/-- The event begins a job that applies facts it was told. -/
def SitesEvent.hears : SitesEvent ι κ → Bool
  | .begin _ _ job => job.hears
  | _ => false

namespace Sites

/-- The sites before anything happened. -/
def start (s : ι → Site Blob) : Sites ι κ Blob := fun i => Conf.atRest (s i)

/-- The state of a site. -/
def site (w : Sites ι κ Blob) (i : ι) : Site Blob := (w i).world.1

/-- The tables of a site. -/
def stores (w : Sites ι κ Blob) (i : ι) : Store := (w.site i).store

variable [DecidableEq ι]

/-- The state of a site is another; its jobs go on. -/
def withSite (w : Sites ι κ Blob) (i : ι) (s : Site Blob) : Sites ι κ Blob :=
  Function.update w i ⟨(s, ()), (w i).threads⟩

variable [DecidableEq κ]

/-- One event. -/
def step (S : StorageBackend) (J : PolicyJson) (cfg : ι → SiteConfig) (w : Sites ι κ Blob) :
    SitesEvent ι κ → Sites ι κ Blob
  | .begin i k job => Function.update w i ((w i).advance (.spawn k (job.run S J (cfg i))))
  | .step i k => Function.update w i ((w i).advance (.step k))
  | .pull i peer nowMs =>
    if peer = i then w
    else w.withSite i { w.site i with
      store := (Store.pullPage S.blake3 nowMs (w.stores i) (w.stores peer)).1 }
  | .createUser i ts accessKey secretKey policy =>
    w.withSite i { w.site i with
      store := (w.stores i).createUser J ts accessKey secretKey policy }
  | .setClock i clock => w.withSite i { w.site i with clock := clock }
  | .restart i => Function.update w i ⟨(w i).world, fun _ => .ret ()⟩

/-- The call of an event, if it makes one, and where. -/
def calls (w : Sites ι κ Blob) : SitesEvent ι κ → Option (ι × Call)
  | .step i k => ((w i).nextCall k).map fun l => (i, l)
  | _ => none

/-! ### What an event can do -/

/-- The rest of every thread makes calls in `A` and does what their labels say. -/
def Described (A : Call → Prop) (w : Sites ι κ Blob) : Prop :=
  ∀ i, (w i).Described (fun _ => True) fun _ l s s' => A l ∧ l.Effect s s'

/-- What an event can do to the site it is at: one call of a thread, a pull, a new user, another
clock, or nothing. -/
inductive Change (S : StorageBackend) (J : PolicyJson) (A : Call → Prop) (w : Sites ι κ Blob)
    (i : ι) : Option Call → Site Blob → Prop
  | same : Change S J A w i none (w.site i)
  | called {l : Call} {s : Site Blob} (allowed : A l) (effect : l.Effect (w.site i) s) :
      Change S J A w i (some l) s
  | pulled (peer : ι) (nowMs : ℤ) (other : peer ≠ i) :
      Change S J A w i none { w.site i with
        store := (Store.pullPage S.blake3 nowMs (w.stores i) (w.stores peer)).1 }
  | created (ts : ℤ) (accessKey secretKey : Str) (policy : Policy) :
      Change S J A w i none { w.site i with
        store := (w.stores i).createUser J ts accessKey secretKey policy }
  | clocked (clock : ClusterClock) : Change S J A w i none { w.site i with clock := clock }

variable {A : Call → Prop} {w : Sites ι κ Blob}

omit [DecidableEq ι] [DecidableEq κ] in
/-- Before any event no thread runs, and there is nothing to say. -/
theorem described_start (s : ι → Site Blob) : Described A (start s : Sites ι κ Blob) :=
  fun _ => ⟨trivial, fun _ => trivial⟩

omit [DecidableEq κ] in
/-- What a site does leaves the others described. -/
theorem Described.update (h : Described A w) {i : ι} {c : Site.Threads κ Blob JobAnswer}
    (hc : c.Described (fun _ => True) fun _ l s s' => A l ∧ l.Effect s s') :
    Described A (Function.update w i c) :=
  (Function.forall_update_iff w fun _ c => Conf.Described _ _ c).2 ⟨hc, fun j _ => h j⟩

omit [DecidableEq κ] in
/-- To change one site's threads changes that site. -/
theorem site_update (w : Sites ι κ Blob) (i : ι) (c : Site.Threads κ Blob JobAnswer) :
    site (Function.update w i c) = Function.update w.site i c.world.1 := by
  funext j
  by_cases hj : j = i
  · subst hj
    simp [site]
  · simp [site, hj]

/-- **Every event** of described sites is at one of them, changes its state as `Change` says, and
leaves described sites.  It is asked that the job that is begun makes calls in `A`. -/
theorem Described.step (h : Described A w) (cfg : ι → SiteConfig) {e : SitesEvent ι κ}
    (hjob : ∀ i k job, e = .begin i k job → Site.Makes (fun _ => True) A
      (job.run S J (cfg i) : Site.SProg Blob JobAnswer Unit)) :
    Described A (w.step S J cfg e) ∧
      ∃ i l s, (w.step S J cfg e).site = Function.update w.site i s ∧
        w.calls e = l.map (fun l => (i, l)) ∧ Change S J A w i l s := by
  have hsame : ∀ i, w.site = Function.update w.site i (w.site i) := fun i =>
    (Function.update_eq_self i w.site).symm
  cases e with
  | begin i k job =>
    obtain ⟨-, hdesc⟩ := Conf.described_advance (m := .spawn k (job.run S J (cfg i)))
      (fun _ p => p = job.run S J (cfg i)) (fun _ _ _ _ _ _ => trivial)
      (fun _ p hp => hp ▸ hjob i k job rfl) (h i) rfl
    have hworld : ((w i).advance (.spawn k (job.run S J (cfg i)))).world = (w i).world := by
      rcases (w i).advance_cases (.spawn k (job.run S J (cfg i))) with ⟨_, _, hm, -⟩ | hworld
      · cases hm
      · exact hworld
    refine ⟨h.update hdesc, i, none, w.site i, ?_, rfl, .same⟩
    rw [Sites.step, site_update, hworld]
    rfl
  | step i k =>
    obtain ⟨hdoes, hdesc⟩ := Conf.described_advance (m := .step k) (fun _ _ => False)
      (fun _ _ _ _ _ _ => trivial) (fun _ _ hp => hp.elim) (h i) trivial
    refine ⟨h.update hdesc, ?_⟩
    rw [Sites.step, site_update]
    cases hl : (w i).nextCall k with
    | some l =>
      obtain ⟨hA, heff⟩ := hdoes k l rfl hl
      exact ⟨i, some l, _, rfl, by simp [calls, hl], .called hA heff⟩
    | none =>
      refine ⟨i, none, w.site i, ?_, by simp [calls, hl], .same⟩
      rcases (w i).advance_cases (.step k) with ⟨_, l, hm, hl'⟩ | hworld
      · cases hm
        rw [hl] at hl'
        cases hl'
      · rw [hworld]
        rfl
  | pull i peer nowMs =>
    rw [Sites.step]
    split_ifs with hp
    · exact ⟨h, i, none, _, hsame i, rfl, .same⟩
    · exact ⟨h.update ⟨trivial, (h i).2⟩, i, none, _, site_update .., rfl, .pulled peer nowMs hp⟩
  | createUser i ts accessKey secretKey policy =>
    exact ⟨h.update ⟨trivial, (h i).2⟩, i, none, _, site_update .., rfl,
      .created ts accessKey secretKey policy⟩
  | setClock i clock =>
    exact ⟨h.update ⟨trivial, (h i).2⟩, i, none, _, site_update .., rfl, .clocked clock⟩
  | restart i =>
    exact ⟨h.update ⟨trivial, fun _ => trivial⟩, i, none, _, site_update .., rfl, .same⟩

end Sites
end Shardscape
