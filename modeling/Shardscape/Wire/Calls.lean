/-
# Calls between sites

`src/main.rs`: the routing of `handle_internal_request` and the bodies it writes, and the requests
of `noise_get_json`, `noise_get_facts` and `gossip_membership`; `src/storage.rs`: the request of
`noise_fetch_block`.

A site that asks a peer writes a target, and the peer finds out from its path what is asked; the
peer writes a status and a body, and the site reads its answer off it.  Nothing is lost on the way:
what the site comes to know, and what happens to the peer, is what the call itself would have
returned and done at the peer (`remote_eq_direct`).

Registering at a peer (`/internal/join`) is not among these calls: its arguments may be misread, see
`Shardscape.Membership.Join`.
-/

import Shardscape.Backend.Samples
import Shardscape.Membership.Join
import Shardscape.Wire.Facts

namespace Shardscape

open Lib

/-! ### Requests -/

/-- `strip_prefix`. -/
def afterStart (start path : Str) : Option Str :=
  if start.isPrefixOf path then some (path.drop start.length) else none

/-- The branches of `handle_internal_request`; `none` is a panic of `percent_decode`. -/
def InternalRequest.ofTarget (u : PathAndQuery) : Option InternalRequest :=
  if u.path = text "/internal/cluster/config" then some .clusterConfig
  else if u.path = text "/internal/nodes" then some .nodes
  else if u.path = text "/internal/join" then joinRequest u
  else
    match afterStart (text "/internal/facts/") u.path with
    | some after => some (.facts ((parseSigned 64 after).getD 0))
    | none =>
      if u.path = text "/internal/gc/force" then some .gcForce
      else
        match afterStart (text "/internal/blocks/") u.path with
        | some hashHex => some (.blocks hashHex)
        | none => some .other

/-- What a site asks of a peer. -/
inductive PeerCall where
  | clusterConfig
  | nodes
  | facts (after : ℤ)
  | block (hash : Bytes)

namespace PeerCall

/-- The target of the request. -/
def target : PeerCall → Str
  | .clusterConfig => text "/internal/cluster/config"
  | .nodes => text "/internal/nodes"
  | .facts after => text "/internal/facts/" ++ intText after
  | .block hash => text "/internal/blocks/" ++ hexEncode hash

/-- The request it stands for. -/
def request : PeerCall → InternalRequest
  | .clusterConfig => .clusterConfig
  | .nodes => .nodes
  | .facts after => .facts after
  | .block hash => .blocks (hexEncode hash)

/-- The arguments are what their types say: an `i64`, a hash of 32 bytes. -/
def Typed : PeerCall → Prop
  | .facts after => Json.IsI64 after
  | .block hash => hash.length = 32
  | _ => True

end PeerCall

/-- What follows the start of a path. -/
@[simp] theorem afterStart_append (start rest : Str) :
    afterStart start (start ++ rest) = some rest := by
  simp [afterStart]

/-- Paths that differ at a place. -/
theorem path_ne {p q : Str} (i : ℕ) {b c : Byte} (hp : p[i]? = some b) (hq : q[i]? = some c)
    (h : b ≠ c) : p ≠ q := by
  rintro rfl
  exact h (Option.some.inj (hp.symm.trans hq))

/-- Digits may stand in a path. -/
theorem isPathByte_digit {c : Byte} (h : isDecimalDigit c = true) :
    isPathByte c = true ∧ isTargetByte c = true := by
  simp only [isDecimalDigit, Bool.and_eq_true, decide_eq_true_eq] at h
  simp only [isPathByte, isTargetByte, Bool.or_eq_true, Bool.and_eq_true, decide_eq_true_eq]
  omega

/-- Hexadecimal digits may stand in a path. -/
theorem isPathByte_hexDigit {n : ℕ} (h : n < 16) :
    isPathByte (hexDigit n) = true ∧ isTargetByte (hexDigit n) = true := by
  interval_cases n <;> decide

/-- Numbers may stand in a path. -/
theorem isPathByte_intText (n : ℤ) :
    ∀ b ∈ intText n, isPathByte b = true ∧ isTargetByte b = true := by
  obtain ⟨c, cs, htext, hdigits⟩ := exists_cons_decimalText n.natAbs
  have hall : ∀ b ∈ decimalText n.natAbs, isPathByte b = true ∧ isTargetByte b = true := by
    rw [htext]
    exact fun b hb => isPathByte_digit (hdigits b hb)
  rw [intText]
  split_ifs
  · exact List.forall_mem_cons.2 ⟨by decide, hall⟩
  · exact hall

/-- Hashes may stand in a path. -/
theorem isPathByte_hexEncode (bs : Bytes) :
    ∀ b ∈ hexEncode bs, isPathByte b = true ∧ isTargetByte b = true := by
  induction bs with
  | nil => simp [hexEncode]
  | cons b bs ih =>
    rw [hexEncode, List.forall_mem_cons, List.forall_mem_cons]
    exact ⟨isPathByte_hexDigit (by omega), isPathByte_hexDigit (Nat.mod_lt _ (by omega)), ih⟩

/-- Two digits stand for a byte. -/
theorem length_hexEncode (bs : Bytes) : (hexEncode bs).length = 2 * bs.length := by
  induction bs with
  | nil => rfl
  | cons b bs ih =>
    simp only [hexEncode, List.length_cons, ih]
    omega

/-- An `i64` has at most nineteen digits. -/
theorem length_intText {n : ℤ} (h : Json.IsI64 n) : (intText n).length ≤ 20 := by
  have hdigits : (decimalText n.natAbs).length ≤ 19 := by
    rw [decimalText]
    split_ifs with hzero
    · simp
    · rw [List.length_map, List.length_reverse, Nat.digits_length_le_iff (by omega)]
      have := h.1
      have := h.2
      omega
  rw [intText]
  split_ifs
  · rw [List.length_cons]
    omega
  · omega

namespace PeerCall

/-- The targets arrive. -/
theorem arrives_target (H : Http) {c : PeerCall} (h : c.Typed) :
    H.arrives c.target = some ⟨c.target, none⟩ := by
  cases c with
  | clusterConfig => exact H.arrives_path (by decide +kernel) (by decide +kernel)
  | nodes => exact H.arrives_path (by decide +kernel) (by decide +kernel)
  | facts after =>
    have hlen := length_intText h
    refine H.arrives_path ?_ ?_
    · have hstart : (text "/internal/facts/").length = 16 := rfl
      rw [target, List.length_append, hstart]
      omega
    · rw [target, List.forall_mem_append]
      exact ⟨by decide +kernel, isPathByte_intText after⟩
  | block hash =>
    have hhash : hash.length = 32 := h
    have hlen := length_hexEncode hash
    refine H.arrives_path ?_ ?_
    · have hstart : (text "/internal/blocks/").length = 17 := rfl
      rw [target, List.length_append, hstart]
      omega
    · rw [target, List.forall_mem_append]
      exact ⟨by decide +kernel, isPathByte_hexEncode hash⟩

/-- **A peer knows what it is asked.** -/
theorem ofTarget_target (H : Http) {c : PeerCall} (h : c.Typed) :
    (H.arrives c.target).bind InternalRequest.ofTarget = some c.request := by
  rw [arrives_target H h, Option.bind_some]
  cases c with
  | clusterConfig => exact if_pos rfl
  | nodes =>
    have hconfig : target .nodes ≠ text "/internal/cluster/config" :=
      path_ne 10 (b := 110) (c := 99) rfl rfl (by decide)
    exact (if_neg hconfig).trans (if_pos rfl)
  | facts after =>
    have hread : parseSigned 64 (intText after) = some after :=
      parseSigned_intText (by decide) (by exact_mod_cast h.1) (by exact_mod_cast h.2)
    have hconfig : target (.facts after) ≠ text "/internal/cluster/config" :=
      path_ne 10 (b := 102) (c := 99) rfl rfl (by decide)
    have hnodes : target (.facts after) ≠ text "/internal/nodes" :=
      path_ne 10 (b := 102) (c := 110) rfl rfl (by decide)
    have hjoin : target (.facts after) ≠ text "/internal/join" :=
      path_ne 10 (b := 102) (c := 106) rfl rfl (by decide)
    simp only [InternalRequest.ofTarget, hconfig, hnodes, hjoin, if_false]
    simp only [target, afterStart_append, hread, Option.getD_some, request]
  | block hash =>
    have hconfig : target (.block hash) ≠ text "/internal/cluster/config" :=
      path_ne 10 (b := 98) (c := 99) rfl rfl (by decide)
    have hnodes : target (.block hash) ≠ text "/internal/nodes" :=
      path_ne 10 (b := 98) (c := 110) rfl rfl (by decide)
    have hjoin : target (.block hash) ≠ text "/internal/join" :=
      path_ne 10 (b := 98) (c := 106) rfl rfl (by decide)
    have hfacts : afterStart (text "/internal/facts/") (target (.block hash)) = none := rfl
    have hforce : target (.block hash) ≠ text "/internal/gc/force" :=
      path_ne 10 (b := 98) (c := 103) rfl rfl (by decide)
    simp only [InternalRequest.ofTarget, hconfig, hnodes, hjoin, hfacts, hforce, if_false]
    simp only [target, afterStart_append, request]

end PeerCall

/-! ### Responses -/

/-- `ClusterConfigResponse`. -/
structure ClusterConfigResponse where
  clusterTimeMicros : ℤ
  locationId : Str
  advertiseAddr : Str
  deriving DecidableEq

namespace ClusterConfigResponse

/-- Serialised. -/
def toJson (r : ClusterConfigResponse) : Json :=
  .obj [(text "cluster_time_micros", .int r.clusterTimeMicros),
    (text "location_id", .str r.locationId), (text "advertise_addr", .str r.advertiseAddr)]

/-- Deserialised; the last two fields have a default. -/
def ofJson : Json → Option ClusterConfigResponse
  | .obj ms => do
    let micros ← (Json.field (text "cluster_time_micros") ms).bind Json.asI64
    let locationId ← (Json.fieldOr (text "location_id") (.str []) ms).bind Json.asStr
    let advertiseAddr ← (Json.fieldOr (text "advertise_addr") (.str []) ms).bind Json.asStr
    pure ⟨micros, locationId, advertiseAddr⟩
  | .arr (micros :: rest) => do
    let micros ← micros.asI64
    match rest with
    | [] => pure ⟨micros, [], []⟩
    | [locationId] => (fun locationId => ⟨micros, locationId, []⟩) <$> locationId.asStr
    | [locationId, advertiseAddr] => do
      let locationId ← locationId.asStr
      let advertiseAddr ← advertiseAddr.asStr
      pure ⟨micros, locationId, advertiseAddr⟩
    | _ => none
  | _ => none

/-- The strings are UTF-8 and the time is an `i64`. -/
structure Typed (r : ClusterConfigResponse) : Prop where
  micros : Json.IsI64 r.clusterTimeMicros
  locationId : validUtf8 r.locationId = true
  advertiseAddr : validUtf8 r.advertiseAddr = true

/-- The response reads back. -/
theorem ofJson_toJson {r : ClusterConfigResponse} (h : r.Typed) : ofJson r.toJson = some r := by
  show (do
    let micros ← Json.asI64 (.int r.clusterTimeMicros)
    pure (⟨micros, r.locationId, r.advertiseAddr⟩ : ClusterConfigResponse)) = some r
  rw [Json.asI64_int h.micros]
  rfl

/-- It is within the bounds of the reader. -/
theorem Typed.readable {r : ClusterConfigResponse} (h : r.Typed) :
    Json.Readable validUtf8 2 r.toJson := by
  refine Json.readable_obj ?_
  simp only [List.forall_mem_cons, List.not_mem_nil, IsEmpty.forall_iff, implies_true, and_true]
  exact ⟨⟨by decide +kernel, Json.readable_i64 h.micros _⟩,
    ⟨by decide +kernel, .str h.locationId⟩, ⟨by decide +kernel, .str h.advertiseAddr⟩⟩

end ClusterConfigResponse

/-- The nodes a site knows, serialised: a list of pairs. -/
def nodesJson (nodes : List (Str × Str)) : Json :=
  .arr (nodes.map fun n => .arr [.str n.1, .str n.2])

/-- A pair of strings, deserialised. -/
def pairOfJson : Json → Option (Str × Str)
  | .arr [id, url] => do
    let id ← id.asStr
    let url ← url.asStr
    pure (id, url)
  | _ => none

/-- The list of nodes is readable. -/
theorem readable_nodesJson {nodes : List (Str × Str)}
    (h : ∀ n ∈ nodes, validUtf8 n.1 = true ∧ validUtf8 n.2 = true) :
    Json.Readable validUtf8 3 (nodesJson nodes) := by
  refine .arr ?_
  rw [List.forall_mem_map]
  intro n hn
  refine .arr ?_
  simp only [List.forall_mem_cons, List.not_mem_nil, IsEmpty.forall_iff, implies_true, and_true]
  exact ⟨.str (h n hn).1, .str (h n hn).2⟩

/-- The list of nodes reads back. -/
theorem asList_nodesJson (nodes : List (Str × Str)) :
    Json.asList pairOfJson (nodesJson nodes) = some nodes := by
  have hall : Json.readAll pairOfJson (nodes.map fun n => .arr [.str n.1, .str n.2]) =
      some (nodes.map id) := Json.readAll_map fun _ _ => rfl
  rw [List.map_id] at hall
  exact hall

/-- A response: its status and its body. -/
structure HttpResponse where
  status : ℕ
  body : Bytes

/-- `StatusCode::is_success`. -/
def HttpResponse.isSuccess (r : HttpResponse) : Bool := 200 ≤ r.status && r.status < 300

/-- The responses of `handle_internal_request`. -/
def InternalResponse.http (C : JsonCodec) : InternalResponse → HttpResponse
  | .clusterConfig micros locationId advertiseAddr =>
    ⟨200, C.print (ClusterConfigResponse.mk micros locationId advertiseAddr).toJson⟩
  | .nodes known => ⟨200, C.print (nodesJson known)⟩
  | .ok => ⟨200, text "ok"⟩
  | .facts page => ⟨200, factsBody C (page.map (FactRecord.value C))⟩
  | .block data => ⟨200, data⟩
  | .badRequest message => ⟨400, message⟩
  | .unauthorized => ⟨401, text "Unauthorized"⟩
  | .notFound => ⟨404, text "Not found"⟩

/-- What a site comes to know from a peer. -/
inductive PeerAnswer where
  | clusterConfig (response : ClusterConfigResponse)
  | nodes (nodes : List (Str × Str))
  | facts (facts : List FactRecord)
  | block (data : Bytes)

/-- The answer, read off a response: by its body, if the status is a success. -/
def PeerCall.read (C : JsonCodec) (c : PeerCall) (r : HttpResponse) : Option PeerAnswer :=
  if r.isSuccess then
    match c with
    | .clusterConfig =>
      ((C.parse validUtf8 r.body).bind ClusterConfigResponse.ofJson).map .clusterConfig
    | .nodes => ((C.parse validUtf8 r.body).bind (Json.asList pairOfJson)).map .nodes
    | .facts _ => (readFacts C r.body).map fun page => .facts (page.map (RecordValue.stored C))
    | .block _ => some (.block r.body)
  else none

/-! ### Remote calls -/

namespace Site

variable {Blob : BlobStore} {ε : Type}

/-- A call over the network: the target arrives, the handler runs, the response is read. -/
def remote (C : JsonCodec) (H : Http) (cfg : SiteConfig) (gc : GcConfig) (c : PeerCall) :
    SProg Blob ε (Option PeerAnswer) :=
  match (H.arrives c.target).bind InternalRequest.ofTarget with
  | none => pure none
  | some r => do
    let response ← handleInternalRequest cfg gc true r
    pure (c.read C (response.http C))

/-- The call itself, at the peer. -/
def direct (cfg : SiteConfig) : PeerCall → SProg Blob ε (Option PeerAnswer)
  | .clusterConfig => do
    let micros ← nowMicros
    pure (some (.clusterConfig ⟨micros, cfg.localLocationId, cfg.advertiseAddr⟩))
  | .nodes => do
    let nodes ← allNodes
    pure (some (.nodes nodes))
  | .facts after => do
    let facts ← factsSince after factSyncBatch
    pure (some (.facts facts))
  | .block hash => do
    match ← (getBlock hash).attempt with
    | .ok data => pure (some (.block data))
    | .error _ => pure none

end Site

/-- The strings of the policy that allows everything are UTF-8. -/
theorem checked_allowAll : allowAll.Checked validUtf8 := by
  unfold Policy.Checked
  decide +kernel

/-- The tables hold what their types say: strings are UTF-8, integers are `i64`, and the policies
in the log are JSON values that a peer can read. -/
structure Store.Typed (C : JsonCodec) (s : Store) : Prop where
  log : ∀ e ∈ s.factLog, Json.IsI64 e.1 ∧ ∃ f : FactValue, f.Typed validUtf8 ∧ e.2 = f.stored C
  count : s.factLog.length < 2 ^ 63
  nodes : ∀ n ∈ s.allNodes, validUtf8 n.1 = true ∧ validUtf8 n.2 = true

/-- A record of the log is that of a value that can be read. -/
theorem Store.Typed.value {C : JsonCodec} {s : Store} (h : s.Typed C) {rec : FactRecord}
    (hrec : rec ∈ factRecords s.factLog) :
    (rec.value C).Typed ∧ (rec.value C).stored C = rec := by
  obtain ⟨hpos, hget⟩ := mem_factRecords.1 hrec
  obtain ⟨hts, f, hf, heq⟩ := h.log _ (List.mem_of_getElem? hget)
  have hlen : rec.seq - 1 < s.factLog.length := (List.getElem?_eq_some_iff.1 hget).1
  have hcount := h.count
  obtain ⟨seq, ts, fact⟩ := rec
  obtain rfl : fact = f.stored C := heq
  refine ⟨⟨⟨?_, ?_⟩, hts, ?_⟩, ?_⟩
  · simp only [FactRecord.value]
    omega
  · simp only [FactRecord.value]
    simp only at hlen hpos
    omega
  · simp only [FactRecord.value, hf.value_stored C, hf]
  · simp only [FactRecord.value, RecordValue.stored, hf.value_stored C, Int.toNat_natCast]

/-- A page of a log is read as it is. -/
theorem Store.Typed.readFacts {C : JsonCodec} {s : Store} (h : s.Typed C) (after limit : ℕ) :
    (Shardscape.readFacts C (factsBody C ((s.factsSince after limit).map (FactRecord.value C)))).map
      (·.map (RecordValue.stored C)) = some (s.factsSince after limit) := by
  have hmem : ∀ rec ∈ s.factsSince after limit, rec ∈ factRecords s.factLog :=
    fun rec hrec => List.mem_of_mem_filter (List.mem_of_mem_take hrec)
  rw [readFacts_factsBody, Option.map_some, List.map_map]
  · congr 1
    refine (List.map_congr_left fun rec hrec => ?_).trans (List.map_id _)
    exact (h.value (hmem rec hrec)).2
  · rw [List.forall_mem_map]
    exact fun rec hrec => (h.value (hmem rec hrec)).1

namespace PeerCall

variable {C : JsonCodec}

/-- A response with status 200 is read by its body. -/
theorem read_ok (c : PeerCall) (body : Bytes) : c.read C ⟨200, body⟩ =
    match c with
    | .clusterConfig =>
      ((C.parse validUtf8 body).bind ClusterConfigResponse.ofJson).map .clusterConfig
    | .nodes => ((C.parse validUtf8 body).bind (Json.asList pairOfJson)).map .nodes
    | .facts _ => (readFacts C body).map fun page => .facts (page.map (RecordValue.stored C))
    | .block _ => some (.block body) := by
  unfold read
  exact if_pos (by simp [HttpResponse.isSuccess])

/-- A peer reads the config that was sent. -/
theorem read_clusterConfig {r : ClusterConfigResponse} (h : r.Typed) :
    clusterConfig.read C ((InternalResponse.clusterConfig r.clusterTimeMicros r.locationId
      r.advertiseAddr).http C) = some (.clusterConfig r) := by
  rw [InternalResponse.http, read_ok]
  simp only [C.parse_print (h.readable.mono (show 2 ≤ Json.recursionLimit by decide)),
    Option.bind_some, ClusterConfigResponse.ofJson_toJson h, Option.map_some]

/-- A peer reads the nodes that were sent. -/
theorem read_nodes {known : List (Str × Str)}
    (h : ∀ n ∈ known, validUtf8 n.1 = true ∧ validUtf8 n.2 = true) :
    nodes.read C ((InternalResponse.nodes known).http C) = some (.nodes known) := by
  rw [InternalResponse.http, read_ok]
  simp only [C.parse_print ((readable_nodesJson h).mono (show 3 ≤ Json.recursionLimit by decide)),
    Option.bind_some, asList_nodesJson, Option.map_some]

/-- A peer reads the facts that were sent. -/
theorem read_facts {s : Store} (h : s.Typed C) (after : ℤ) (n limit : ℕ) :
    (facts after).read C ((InternalResponse.facts (s.factsSince n limit)).http C) =
      some (.facts (s.factsSince n limit)) := by
  have hread := congrArg (Option.map PeerAnswer.facts) (h.readFacts n limit)
  rw [Option.map_map, Option.map_some] at hread
  rw [InternalResponse.http, read_ok]
  exact hread

end PeerCall

namespace Site

variable {Blob : BlobStore} {ε : Type}

/-- **A remote call is the call at the peer**: it ends in the same state of the peer, and with the
answer the call returns there. -/
theorem remote_eq_direct (C : JsonCodec) (H : Http) (cfg : SiteConfig) (gc : GcConfig)
    (s : Site Blob) (c : PeerCall) (hc : c.Typed) (hstore : s.store.Typed C)
    (hcfg : (ClusterConfigResponse.mk s.stamp cfg.localLocationId cfg.advertiseAddr).Typed) :
    (remote C H cfg gc c : SProg Blob ε _).exec s = (direct cfg c : SProg Blob ε _).exec s := by
  simp only [remote, PeerCall.ofTarget_target H hc]
  cases c with
  | clusterConfig =>
    have hexec : (handleInternalRequest cfg gc true .clusterConfig : SProg Blob ε _).exec s =
        ({ s with tick := s.tick + 1 },
          .ok (.clusterConfig s.stamp cfg.localLocationId cfg.advertiseAddr)) := rfl
    rw [Prog.exec_bind, PeerCall.request, hexec]
    dsimp only
    rw [PeerCall.read_clusterConfig hcfg]
    rfl
  | nodes =>
    have hexec : (handleInternalRequest cfg gc true .nodes : SProg Blob ε _).exec s =
        (s, .ok (.nodes s.store.allNodes)) := rfl
    rw [Prog.exec_bind, PeerCall.request, hexec]
    dsimp only
    rw [PeerCall.read_nodes hstore.nodes]
    rfl
  | facts after =>
    have hexec : (handleInternalRequest cfg gc true (.facts after) : SProg Blob ε _).exec s =
        (s, .ok (.facts (s.store.factsSince after.toNat factSyncBatch))) := rfl
    rw [Prog.exec_bind, PeerCall.request, hexec]
    dsimp only
    rw [PeerCall.read_facts hstore]
    rfl
  | block hash =>
    have hlen : hash.length = 32 := hc
    have hhandler : (handleInternalRequest cfg gc true (.blocks (hexEncode hash)) :
        SProg Blob ε _) = (do
          match ← (getBlock hash).attempt with
          | .ok data => pure (.block data)
          | .error _ => pure .notFound) := by
      unfold handleInternalRequest
      rw [if_neg (by decide)]
      dsimp only
      rw [hexDecode_hexEncode]
      exact if_neg (not_not_intro hlen)
    rw [PeerCall.request, hhandler, direct, bind_assoc]
    congr 2
    funext result
    cases result with
    | ok data => simp [InternalResponse.http, PeerCall.read_ok]
    | error e => simp [InternalResponse.http, PeerCall.read, HttpResponse.isSuccess]

/-- A site that has stored a block, put an object and added a user. -/
def busySite : Site localBlob :=
  let put := (freshSite.store.storeLocalBlock 1 blockOfA (text "local") 1).insertObject
    2 [98] 7 [107] [blockOfA] 1 [101]
  { freshSite with store := put.createUser (.serde .compact) 3 (text "u") (text "s") allowAll }

/-- The facts it has logged. -/
def busyFacts : List (ℤ × FactValue) :=
  [(1, .blockAnnounce (hexEncode blockOfA) [97] (hexEncode (text "local")) 1),
    (2, .objectPut [98] [107] [hexEncode blockOfA] 1 [101]),
    (3, .userPut (text "u") (text "s") allowAll.toJson.toValue)]

/-- The facts of the busy site are typed. -/
theorem typed_busyFacts : ∀ v ∈ busyFacts, Json.IsI64 v.1 ∧ v.2.Typed validUtf8 := by
  have hpolicy : Json.Readable validUtf8 125 allowAll.toJson.toValue.tree :=
    (Policy.readable_canon validUtf8_fieldNames checked_allowAll).mono (by decide)
  simp only [busyFacts, List.forall_mem_cons, List.not_mem_nil, IsEmpty.forall_iff, implies_true,
    and_true, FactValue.Typed]
  exact ⟨by decide, by decide, by decide, by decide, by decide, hpolicy⟩

/-- The tables of the busy site are typed. -/
theorem typed_busySite : busySite.store.Typed .compact where
  log := by
    have hlog : busySite.store.factLog = busyFacts.map fun v => (v.1, v.2.stored .compact) := rfl
    rw [hlog, List.forall_mem_map]
    exact fun v hv => ⟨(typed_busyFacts v hv).1, v.2, (typed_busyFacts v hv).2, rfl⟩
  count := by decide
  nodes := by decide

/-- A peer asks a site for the facts after its first. -/
theorem remote_eq_direct_facts :
    (remote .compact .hyper ⟨[97], [97]⟩ ⟨0⟩ (.facts 1) : SProg localBlob Str _).exec busySite =
      (direct ⟨[97], [97]⟩ (.facts 1) : SProg localBlob Str _).exec busySite :=
  remote_eq_direct .compact .hyper ⟨[97], [97]⟩ ⟨0⟩ busySite (.facts 1) ⟨by decide, by decide⟩
    typed_busySite ⟨⟨by decide, by decide⟩, by decide, by decide⟩

end Site
end Shardscape
