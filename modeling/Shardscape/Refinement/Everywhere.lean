/-
# Every read was written

The sites of `Shardscape.Backend.Jobs`, which do their jobs call by call and pull each other's
facts.  All that passes between them besides are answers to requests of peers.  They may be late, be
delivered twice or never, and it is not said from where: a page of facts that is applied, and the
bytes a fetch brings, were said by some site at some earlier time (`Heard`).  Then whatever a GET
answers, at any site and at any time, comes from a body that was written under its key before, by
requests that users were permitted to make (`every_read_was_written`).

A part copy (`upload_part_copy`) cuts new blocks out of old ones, and then which blocks there are is
not a matter of the requests alone; runs with part copies are left out.
-/

import Shardscape.Backend.Jobs
import Shardscape.Backend.Samples
import Shardscape.Lib.LeadsTo
import Shardscape.Refinement.ProvenanceRequests

namespace Shardscape

open Lib Lib.Prog StorageBackend

variable {Blob : BlobStore} {ι κ : Type} {S : StorageBackend} {J : PolicyJson} {O : Origins}

/-! ### Jobs -/

/-- An answer that comes from what was written. -/
def JobAnswer.Sourced (S : StorageBackend) (J : PolicyJson) (O : Origins) : JobAnswer → Prop
  | .s3 credentials r result =>
    onOk (fun response => Permits O.users credentials r ∧ response.Sourced O.requests r) result
  | .told r result => onOk (InternalResponse.Sourced S J O r) result

/-- A job ends without an answer, or with one that comes from what was written. -/
def JobAnswered (S : StorageBackend) (J : PolicyJson) (O : Origins) : Except JobAnswer Unit → Prop
  | .ok _ => True
  | .error a => a.Sourced S J O

/-- A job answers with what its program returns. -/
theorem sources_answering {α : Type} {answer : Except S3Error α → JobAnswer}
    {p : Site.SProg Blob S3Error α} (h : Sources S J O p fun r => (answer r).Sourced S J O) :
    Sources S J O (answering answer p) (JobAnswered S J O) :=
  Keeps.bind (Keeps.attempt (h.mono fun _ hr => hr))

/-- A job without an answer gives nothing away. -/
theorem sources_silently {p : Site.SProg Blob S3Error Unit} (h : Sources S J O p anything) :
    Sources S J O (silently p) (JobAnswered S J O) :=
  Keeps.bind (Keeps.attempt (h.mono fun _ _ => trivial))

/-- What a job may be, given the origins: no part copy; a request that is permitted is among the
requests; the facts it hears have an origin. -/
def Job.From (S : StorageBackend) (J : PolicyJson) (O : Origins) : Job → Prop
  | .s3 credentials r => r.copiesPart = false ∧
      (Permits O.users credentials r → r ∈ O.requests ∧ ∀ d ∈ r.chunks S, d ∈ O.blocks)
  | .hear facts => ∀ rec ∈ facts, FactSourced S J O rec.fact
  | _ => True

/-- **A pull.**  What a site pulls is in the log of its peer, and so has an origin. -/
theorem Sourced.pullPage {s peer : Site Blob} (h : Sourced S J O s) (hpeer : Sourced S J O peer)
    (nowMs : ℤ) :
    Sourced S J O { s with store := (Store.pullPage S.blake3 nowMs s.store peer.store).1 } := by
  refine Store.pullPage_induction (P := fun t => Sourced S J O { s with store := t }) h
    (fun t rec hrec ht => ?_) fun t id n ht => ht.frame_store rfl rfl rfl rfl rfl rfl
  exact ht.applyFact (hpeer.log _ (List.mem_of_getElem? (Store.mem_factRecords.1 hrec).2)) nowMs _

/-- **Every job.** -/
theorem sources_job (hBlob : Blob.ByName) (hinj : Set.InjOn S.blake3.hash O.blocks)
    (cfg : SiteConfig) {job : Job} (hjob : job.From S J O) :
    Sources S J O (job.run S J cfg : Site.SProg Blob JobAnswer Unit) (JobAnswered S J O) := by
  cases job with
  | s3 credentials r => exact sources_answering (sources_handle hBlob hinj hjob.1 hjob.2)
  | internal secretMatches r =>
    exact sources_answering (sources_handleInternalRequest hBlob cfg secretMatches r)
  | sweep force => exact sources_silently (sources_sweepOrphanedBlocks hBlob S.gc force)
  | drain => exact sources_silently (sources_drainReplicationQueue hBlob S.gc _)
  | hear facts => exact sources_silently (sources_applyFacts hjob)

/-! ### Sites -/

namespace Sites

variable [DecidableEq ι] [DecidableEq κ]

/-- An answer was given by some site. -/
def Said (x : ℕ → Sites ι κ Blob) (n : ℕ) (a : JobAnswer) : Prop :=
  ∃ m ≤ n, ∃ i k, ((x m i).threads k).result = some (.error a)

/-- What a site hears from others was said: facts by who was asked for facts, bytes by who was asked
for the block. -/
def Heard (x : ℕ → Sites ι κ Blob) (n : ℕ) : SitesEvent ι κ → Prop
  | .begin _ _ (.hear facts) => ∃ after, Said x n (.told (.facts after) (.ok (.facts facts)))
  | .step i k => ∀ url h d, (x n i).nextCall k = some (.fetch url h) →
      (x n i).world.1.oracle.fetch (x n i).world.1.tick = .ok d →
      Said x n (.told (.blocks (hexEncode h)) (.ok (.block d)))
  | _ => True

/-- What happened before a time: the users that were created, the requests that were begun and that
they were permitted to make, and the chunks of their bodies. -/
def origins (S : StorageBackend) (schedule : ℕ → SitesEvent ι κ) (n : ℕ) : Origins :=
  let users : Set (Str × Policy) :=
    { u | ∃ m < n, ∃ i ts secretKey, schedule m = .createUser i ts u.1 secretKey u.2 }
  let requests : Set S3Request :=
    { r | ∃ m < n, ∃ i k credentials, schedule m = .begin i k (.s3 credentials r) ∧
      Permits users credentials r }
  ⟨{ d | ∃ r ∈ requests, d ∈ r.chunks S }, users, requests⟩

/-- Sites that have nothing and do nothing. -/
structure Fresh (w : Sites ι κ Blob) : Prop where
  store : ∀ i, (w i).world.1.store = Store.new (w i).world.1.store.localLocationId
  blobs : ∀ i h fid d, Blob.get (w i).world.1.blobs h fid ≠ .ok d
  idle : ∀ i k, (w i).threads k = .ret ()

/-- All that every site has, and says, comes from these origins. -/
def AllSourced (S : StorageBackend) (J : PolicyJson) (O : Origins) (w : Sites ι κ Blob) : Prop :=
  ∀ i, (w i).Kept (Site.Truthful (Intact.Named S.blake3 O.blocks)) (Sourced S J O)
    (JobAnswered S J O)

variable {w : Sites ι κ Blob} {x : ℕ → Sites ι κ Blob}

omit [DecidableEq ι] [DecidableEq κ] in
/-- Fresh sites have nothing to account for. -/
theorem Fresh.allSourced (h : Fresh w) : AllSourced S J O w := by
  intro i
  refine ⟨⟨fun n fid d hget => absurd hget (h.blobs i n fid d), ?_, ?_, ?_, ?_, ?_⟩, fun k => ?_⟩
  · intro k row hrow
    rw [h.store i] at hrow
    cases hrow
  · intro k row hrow
    rw [h.store i] at hrow
    cases hrow
  · intro bucket id n row hrow
    rw [h.store i] at hrow
    cases hrow
  · intro accessKey row p hrow
    rw [h.store i] at hrow
    cases hrow
  · intro e he
    rw [h.store i] at he
    cases he
  · rw [h.idle i k]
    trivial

omit [DecidableEq ι] [DecidableEq κ] in
/-- What was said comes from the origins. -/
theorem AllSourced.said {n : ℕ} (h : ∀ m ≤ n, AllSourced S J O (x m)) {a : JobAnswer}
    (ha : Said x n a) : a.Sourced S J O := by
  obtain ⟨m, hm, i, k, hres⟩ := ha
  have hthread := (h m hm i).2 k
  cases hp : (x m i).threads k with
  | ret u =>
    rw [hp] at hres
    cases hres
  | fail a' =>
    rw [hp] at hres hthread
    obtain rfl : a' = a := by simpa [Prog.result] using hres
    exact hthread
  | step l eff next =>
    rw [hp] at hres
    cases hres

omit [DecidableEq ι] [DecidableEq κ] in
/-- What a fetch brings hashes to the name of the block. -/
theorem AllSourced.truthful {n : ℕ} (h : ∀ m ≤ n, AllSourced S J O (x m)) {i : ι} {k : κ}
    (hheard : Heard x n (.step i k)) {l : Call} (hl : (x n i).nextCall k = some l) :
    Site.Truthful (Intact.Named S.blake3 O.blocks) l (x n i).world.1 := by
  unfold Site.Truthful
  split
  · next url hash d hfetch => exact AllSourced.said h (hheard url hash d hl hfetch) hash rfl
  · trivial

/-- **One event**, when all was well up to now. -/
theorem AllSourced.step (hBlob : Blob.ByName) (hinj : Set.InjOn S.blake3.hash O.blocks)
    (cfg : ι → SiteConfig) {n : ℕ} (h : ∀ m ≤ n, AllSourced S J O (x m)) {e : SitesEvent ι κ}
    (hjob : ∀ i k credentials r, e = .begin i k (.s3 credentials r) →
      (Job.s3 credentials r).From S J O)
    (huser : ∀ i ts accessKey secretKey policy, e = .createUser i ts accessKey secretKey policy →
      (accessKey, policy) ∈ O.users)
    (hheard : Heard x n e) : AllSourced S J O ((x n).step S J cfg e) := by
  have hnow := h n le_rfl
  -- the other sites do nothing
  have hupdate : ∀ i (c : Site.Threads κ Blob JobAnswer),
      c.Kept (Site.Truthful (Intact.Named S.blake3 O.blocks)) (Sourced S J O) (JobAnswered S J O) →
      AllSourced S J O (Function.update (x n) i c) := by
    intro i c hc
    exact (Function.forall_update_iff _ fun _ c => Conf.Kept _ _ _ c).2 ⟨hc, fun j _ => hnow j⟩
  cases e with
  | begin i k job =>
    refine hupdate i _ ((hnow i).advance (by rintro _ _ ⟨⟩) ?_)
    rintro _ _ ⟨⟩
    refine sources_job hBlob hinj (cfg i) ?_
    cases job with
    | s3 credentials r => exact hjob i k credentials r rfl
    | hear facts =>
      obtain ⟨after, hsaid⟩ := hheard
      exact AllSourced.said h hsaid
    | _ => trivial
  | step i k =>
    refine hupdate i _ ((hnow i).advance ?_ (by rintro _ _ ⟨⟩))
    rintro _ l ⟨⟩ hl
    exact AllSourced.truthful h hheard hl
  | pull i peer nowMs =>
    rw [Sites.step]
    split_ifs
    · exact hnow
    · exact hupdate i _ ⟨(hnow i).1.pullPage (hnow peer).1 nowMs, (hnow i).2⟩
  | createUser i ts accessKey secretKey policy =>
    have hu := huser i ts accessKey secretKey policy rfl
    exact hupdate i _ ⟨(hnow i).1.createUser hu ts secretKey, (hnow i).2⟩
  | setClock i clock =>
    exact hupdate i _ ⟨(hnow i).1.frame_store rfl rfl rfl rfl rfl rfl, (hnow i).2⟩
  | restart i => exact hupdate i _ ⟨(hnow i).1, fun _ => trivial⟩

/-- **All states of a run**, up to a time. -/
theorem allSourced_states (hBlob : Blob.ByName) (cfg : ι → SiteConfig) (hfresh : Fresh w)
    (schedule : ℕ → SitesEvent ι κ) {n : ℕ}
    (hinj : Set.InjOn S.blake3.hash (origins S schedule n).blocks)
    (hplain : ∀ m < n, ∀ i k credentials r, schedule m = .begin i k (.s3 credentials r) →
      r.copiesPart = false)
    (hheard : ∀ m < n, Heard (states (step S J cfg) w schedule) m (schedule m)) :
    ∀ m ≤ n, AllSourced S J (origins S schedule n) (states (step S J cfg) w schedule m) := by
  intro m
  induction m using Nat.strong_induction_on with
  | _ m ih =>
    intro hm
    cases m with
    | zero => exact hfresh.allSourced
    | succ m =>
      refine AllSourced.step hBlob hinj cfg (fun m' hm' => ih m' (by omega) (by omega)) ?_ ?_
        (hheard m (by omega))
      · intro i k credentials r he
        refine ⟨hplain m (by omega) i k credentials r he, fun hpermits => ?_⟩
        have hmem : r ∈ (origins S schedule n).requests :=
          ⟨m, by omega, i, k, credentials, he, hpermits⟩
        exact ⟨hmem, fun d hd => ⟨r, hmem, hd⟩⟩
      · intro i ts accessKey secretKey policy he
        exact ⟨m, by omega, i, ts, secretKey, he⟩

/-- **Every read was written.**  In every run from fresh sites, as long as no two chunks of the
bodies collide under the hash: the user a GET was answered for was permitted to make it, and what it
has answered comes from a body that was written under its key before, by requests that were
permitted too. -/
theorem every_read_was_written (hBlob : Blob.ByName) (S : StorageBackend) (J : PolicyJson)
    (cfg : ι → SiteConfig) {w : Sites ι κ Blob} (hfresh : Fresh w) (schedule : ℕ → SitesEvent ι κ)
    {n : ℕ} (hinj : Set.InjOn S.blake3.hash (origins S schedule n).blocks)
    (hplain : ∀ m < n, ∀ i k credentials r, schedule m = .begin i k (.s3 credentials r) →
      r.copiesPart = false)
    (hheard : ∀ m < n, Heard (states (step S J cfg) w schedule) m (schedule m))
    {i : ι} {k : κ} {credentials : Option Str} {bucket key : Str} {range : Option Range}
    {out : GetObjectOutput}
    (hgot : ((states (step S J cfg) w schedule n i).threads k).result =
      some (.error (.s3 credentials (.getObject bucket key range) (.ok (.getObject out))))) :
    Permits (origins S schedule n).users credentials (.getObject bucket key range) ∧
      ∃ body, WrittenUnder (origins S schedule n).requests (bucket, key) body ∧
        ReadFrom body range out := by
  have hall := allSourced_states hBlob cfg hfresh schedule hinj hplain hheard
  obtain ⟨hpermits, hout⟩ := AllSourced.said hall ⟨n, le_rfl, i, k, hgot⟩
  exact ⟨hpermits, hout out rfl⟩

/-! ### A read of another site's body -/

/-- The event hears nothing. -/
def quiet (w : Sites ι κ Blob) : SitesEvent ι κ → Bool
  | .begin _ _ (.hear _) => false
  | .step i k =>
    match (w i).nextCall k with
    | some (.fetch _ _) => false
    | _ => true
  | _ => true

omit [DecidableEq ι] [DecidableEq κ] in
/-- An event that brings nothing from outside has heard nothing new. -/
theorem heard_of_quiet {n : ℕ} {e : SitesEvent ι κ} (h : quiet (x n) e = true) : Heard x n e := by
  cases e with
  | begin i k job => cases job <;> trivial
  | step i k =>
    intro url hash d hcall
    simp only [quiet, hcall] at h
    cases h
  | pull i peer nowMs => trivial
  | createUser i ts accessKey secretKey policy => trivial
  | setClock i clock => trivial
  | restart i => trivial

/-- Two sites on local disks; a fetch is answered with `a`. -/
def twoSites : Sites (Fin 2) Unit localBlob := fun i =>
  ⟨({ freshSite with
      store := Store.new (twoNames i)
      oracle := { freshSite.oracle with fetch := fun _ => .ok [97] } }, ()), fun _ => .ret ()⟩

def twoConfigs (i : Fin 2) : SiteConfig := ⟨twoNames i, text "http://" ++ twoNames i⟩

/-- What the first site tells of a user and of its PUT of `a`. -/
def factsOfPut : List FactRecord :=
  [⟨1, 1, .userPut (text "u") (text "s") [65]⟩,
    ⟨2, 2, .blockAnnounce (hexEncode blockOfA) (text "a")
      (hexEncode (text "local")) 1⟩,
    ⟨3, 3, .objectPut (text "x") (text "k") [hexEncode blockOfA] 1
      (hexEncode [97])⟩]

/-- A user is created at the first site and stores `a` there; the site tells its facts and the
block; the second site learns of the first, hears the facts and answers a GET of the user. -/
def readEvents : List (SitesEvent (Fin 2) Unit) :=
  [.createUser 0 1 (text "u") (text "s") allowAll,
    .begin 0 () (.s3 (some (text "u")) (.putObject (text "x") (text "k") (some [.ok [97]])))] ++
    List.replicate 8 (.step 0 ()) ++
    [.begin 0 () (.internal true (.facts 0)), .step 0 (),
      .begin 1 () (.internal true (.join (text "a") (text "http://a"))), .step 1 (), .step 1 (),
      .begin 1 () (.hear factsOfPut), .step 1 (), .step 1 (), .step 1 (),
      .begin 0 () (.internal true (.blocks (hexEncode blockOfA))), .step 0 (),
      .step 0 (), .begin 1 () (.s3 (some (text "u")) (.getObject (text "x") (text "k") none))] ++
    List.replicate 11 (.step 1 ())

def readElsewhere (n : ℕ) : SitesEvent (Fin 2) Unit := readEvents.getD n (.restart 0)

/-- The states of that run. -/
def readingElsewhere : ℕ → Sites (Fin 2) Unit localBlob :=
  states (step sample (PolicyJson.withShort allowAll) twoConfigs) twoSites
    readElsewhere

/-- In the run, a site hears what the other has said before. -/
theorem heard_readElsewhere :
    ∀ m < 34, Heard readingElsewhere m (readElsewhere m) := by
  have hquiet : ∀ m < 34, m ≠ 15 → m ≠ 28 →
      quiet (readingElsewhere m) (readElsewhere m) = true := by
    decide +kernel
  intro m hm
  by_cases hhear : m = 15
  · subst hhear
    exact ⟨0, 12, by decide, 0, (), rfl⟩
  · by_cases hfetch : m = 28
    · subst hfetch
      rintro url h d hcall hd
      obtain ⟨rfl, rfl⟩ : text "http://a" = url ∧ blockOfA = h :=
        Call.fetch.inj (Option.some.inj hcall)
      obtain rfl : [97] = d := Except.ok.inj hd
      exact ⟨22, by decide, 0, (), rfl⟩
    · exact heard_of_quiet (hquiet m hm hhear hfetch)

/-- The request of an event. -/
def requestOf : SitesEvent ι κ → Option S3Request
  | .begin _ _ (.s3 _ r) => some r
  | _ => none

/-- A request that sends nothing but `a` and copies no part. -/
def sendsA (r : S3Request) : Bool :=
  r.copiesPart = false ∧ (r.chunks sample).all (· = [97]) = true

section SendsA

variable {schedule : ℕ → SitesEvent ι κ} {n : ℕ}
  (h : ∀ m < n, (requestOf (schedule m)).all sendsA = true)

include h

omit [DecidableEq ι] [DecidableEq κ] in
/-- The requests of the run copy no part. -/
theorem copiesPart_of_sendsA : ∀ m < n, ∀ i k credentials r,
    schedule m = .begin i k (.s3 credentials r) → r.copiesPart = false := by
  intro m hm i k credentials r he
  have hall := h m hm
  rw [he] at hall
  simp only [requestOf, Option.all_some, sendsA, decide_eq_true_eq] at hall
  exact hall.1

omit [DecidableEq ι] [DecidableEq κ] in
/-- With only one block there is no collision. -/
theorem injOn_of_sendsA :
    Set.InjOn sample.blake3.hash
      (origins sample schedule n).blocks := by
  refine (Set.injOn_singleton _ [97]).mono ?_
  rintro d ⟨r, ⟨m, hm, i, k, credentials, he, -⟩, hd⟩
  have hall := h m hm
  rw [he] at hall
  simp only [requestOf, Option.all_some, sendsA, decide_eq_true_eq, List.all_eq_true] at hall
  simpa using hall.2 d hd

end SendsA

/-- Its sites are fresh. -/
theorem fresh_twoSites : Fresh twoSites where
  store _ := rfl
  blobs i h fid d hget := by cases hget
  idle _ _ := rfl

/-- Its requests send the one body. -/
theorem sendsA_readElsewhere : ∀ m < 34, (requestOf (readElsewhere m)).all sendsA = true := by
  decide +kernel

/-- A body is read where it was not written. -/
theorem every_read_was_written_elsewhere :
    Permits (origins sample readElsewhere 34).users (some (text "u"))
        (.getObject (text "x") (text "k") none) ∧
      ∃ body, WrittenUnder (origins sample readElsewhere 34).requests
          (text "x", text "k") body ∧
        ReadFrom body none ⟨[.ok [97]], 1, none, text "bytes", quoted (hexEncode [97]), 7⟩ :=
  every_read_was_written localBlob.byName sample
    (PolicyJson.withShort allowAll) twoConfigs fresh_twoSites readElsewhere
    (injOn_of_sendsA sendsA_readElsewhere) (copiesPart_of_sendsA sendsA_readElsewhere)
    heard_readElsewhere (i := 1) (k := ()) rfl

end Sites
end Shardscape
