/-
# Who is where

`src/main.rs`: the start of a site with `perform_join_handshake`, the heartbeat, the
requests `/internal/cluster/config`, `/internal/join` and `/internal/nodes`, and
`gossip_membership`; `src/store.rs`: `register_node`, `record_peer`, `all_nodes`,
`get_peers_with_urls`.

Every site has a table of addresses, its own among them.  A site that is started with an
address registers it at home and, if it is told to join, at one peer.  The others learn of
it by gossip: a site asks its peers for their tables, one after the other, and records
every entry it is sent over what it has.

The sites, and the programs they run, share one state here, a `Membership`, and take turns call by
call.  Which site answers at an address is up to the network, request by request.
-/

import Shardscape.Lib.Calls
import Shardscape.Store.Blocks

namespace Shardscape

open Lib

variable {ι : Type}

/-- The sites and the network between them. -/
structure Membership (ι : Type) where
  store : ι → Store
  /-- The addresses a site has been started with (`advertise_addr`), the latest first. -/
  addresses : ι → List Str
  /-- Which site answers a request at an address. -/
  answers : ℕ → Str → Option ι
  /-- The readings of the clocks. -/
  millis : ℕ → ℤ
  tick : ℕ

namespace Membership

/-- The location id of a site. -/
def id (m : Membership ι) (x : ι) : Str := (m.store x).localLocationId

/-- The address under which one site knows another. -/
def entry (m : Membership ι) (x p : ι) : Option Str :=
  ((m.store x).nodes.lookup (m.id p)).map (·.apiUrl)

/-- The site that answers now. -/
def answering (m : Membership ι) (peerUrl : Str) : Option ι := m.answers m.tick peerUrl

/-- The tables of a site changed, at this time. -/
def withStore [DecidableEq ι] (m : Membership ι) (x : ι) (f : Store → ℤ → Store) : Membership ι :=
  { m with store := Function.update m.store x (f (m.store x) (m.millis m.tick)) }

end Membership

/-- A call of a program: of its own tables, or a request to whoever answers at an address. -/
inductive MemberCall (ι : Type) where
  | started (x : ι) (addr : Str)
  | registerNode (x : ι)
  | recordPeer (x : ι) (locationId apiUrl : Str)
  | getPeersWithUrls (x : ι)
  | clusterConfig (peerUrl : Str)
  | join (peerUrl locationId addr : Str)
  | nodes (peerUrl : Str)

namespace MemberCall

variable [DecidableEq ι]

/-- What a call changes, the time apart. -/
def effect (m : Membership ι) : MemberCall ι → Membership ι
  | .started x addr =>
    if (m.addresses x).head? = some addr then m
    else { m with addresses := Function.update m.addresses x (addr :: m.addresses x) }
  | .registerNode x =>
    -- the process that runs registers the address it was started with
    match (m.addresses x).head? with
    | none => m
    | some addr => m.withStore x fun s nowMs => s.upsertNode nowMs s.localLocationId addr
  | .recordPeer x locationId apiUrl =>
    m.withStore x fun s nowMs => s.recordPeer nowMs locationId apiUrl
  | .join peerUrl locationId addr =>
    if locationId.isEmpty ∨ addr.isEmpty then m
    else
      match m.answering peerUrl with
      | none => m
      | some y => m.withStore y fun s nowMs => s.recordPeer nowMs locationId addr
  | .getPeersWithUrls _ | .clusterConfig _ | .nodes _ => m

end MemberCall

namespace Membership

/-- A program of a site; it may fail, and nothing asks why. -/
abbrev MProg (ι : Type) := Prog (MemberCall ι) (Membership ι) Unit

variable [DecidableEq ι] {α : Type}

/-- A call, with its answer. -/
def perform (l : MemberCall ι) (answer : Membership ι → α) : MProg ι α :=
  Prog.call l fun m => ({ l.effect m with tick := m.tick + 1 }, answer m)

/-- The process of a site is started; its configuration has its location id and this
address. -/
def started (x : ι) (addr : Str) : MProg ι Str := perform (.started x addr) fun m => m.id x

/-- `register_node(advertise_addr)`: at the start, and by the heartbeat every 30 seconds. -/
def registerNode (x : ι) : MProg ι Unit := perform (.registerNode x) fun _ => ()

/-- `record_peer`. -/
def recordPeer (x : ι) (locationId apiUrl : Str) : MProg ι Unit :=
  perform (.recordPeer x locationId apiUrl) fun _ => ()

/-- `get_peers_with_urls`. -/
def getPeersWithUrls (x : ι) : MProg ι (List (Str × Str)) :=
  perform (.getPeersWithUrls x) fun m => (m.store x).getPeers

/-- GET `/internal/cluster/config`: the location id of who answers. -/
def clusterConfig (peerUrl : Str) : MProg ι (Option Str) :=
  perform (.clusterConfig peerUrl) fun m => (m.answering peerUrl).map m.id

/-- GET `/internal/join`. -/
def join (peerUrl locationId addr : Str) : MProg ι Unit :=
  perform (.join peerUrl locationId addr) fun _ => ()

/-- GET `/internal/nodes`: the table of who answers. -/
def nodes (peerUrl : Str) : MProg ι (Option (List (Str × Str))) :=
  perform (.nodes peerUrl) fun m => (m.answering peerUrl).map fun y => (m.store y).allNodes

/-- `perform_join_handshake`; a failed registration is only logged. -/
def performJoinHandshake (locationId addr peerUrl : Str) : MProg ι (Str × Str) := do
  match ← clusterConfig peerUrl with
  | none => .fail ()
  | some peerId => do
    join peerUrl locationId addr
    pure (if peerId.isEmpty then peerUrl else peerId, peerUrl)

/-- The start of a site, with the address in its configuration and the peer it is to join. -/
def start (x : ι) (addr : Str) (peerUrl : Option Str) : MProg ι Unit := do
  let locationId ← started x addr
  match peerUrl with
  | none => registerNode x
  | some peerUrl => do
    let joinedPeer ← performJoinHandshake locationId addr peerUrl
    registerNode x
    recordPeer x joinedPeer.1 joinedPeer.2

/-- `gossip_membership`. -/
def gossipMembership (x : ι) (peers : List (Str × Str)) : MProg ι Unit :=
  Prog.forEach (fun peer => do
    match ← nodes peer.2 with
    | none => pure ()
    | some view => Prog.forEach (fun node => recordPeer x node.1 node.2) view) peers

/-- A round of gossip; the peers are in a hash map, which has an order of its own. -/
def gossipRound (x : ι) (order : List (Str × Str) → List (Str × Str)) : MProg ι Unit := do
  let peers ← getPeersWithUrls x
  gossipMembership x (order peers)

/-- What the sites run.  A request to join may arrive when its sender has given up waiting
for it. -/
inductive Runs : MProg ι Unit → Prop
  | start (x : ι) (addr : Str) (peerUrl : Option Str) : Runs (start x addr peerUrl)
  | heartbeat (x : ι) : Runs (registerNode x)
  | gossip (x : ι) (order : List (Str × Str) → List (Str × Str)) (h : ∀ l, (order l).Perm l) :
      Runs (gossipRound x order)
  | lateJoin (peerUrl locationId addr : Str) : Runs (join peerUrl locationId addr)

/-! ### What is done -/

/-- A call does what its label says, and takes its time. -/
def Did (l : MemberCall ι) (m m' : Membership ι) : Prop :=
  m' = { l.effect m with tick := m.tick + 1 }

/-- The calls of a program do what their labels say. -/
def Does (p : MProg ι α) : Prop := p.Calls (fun _ => True) Did Prog.anyResult

/-- A call does what its label says. -/
theorem does_perform (l : MemberCall ι) (answer : Membership ι → α) : Does (perform l answer) :=
  fun _ _ => ⟨rfl, trivial⟩

/-- A sequence does, if its parts do. -/
theorem Does.seq {β : Type} {p : MProg ι α} {k : α → MProg ι β} (h : Does p)
    (hk : ∀ a, Does (k a)) : Does (p >>= k) :=
  Prog.Calls.seq h (fun _ => trivial) hk

/-- The handshake is two calls. -/
theorem does_performJoinHandshake (locationId addr peerUrl : Str) :
    Does (performJoinHandshake locationId addr peerUrl : MProg ι (Str × Str)) := by
  refine Does.seq (does_perform _ _) fun peerId => ?_
  cases peerId with
  | none => trivial
  | some peerId => exact Does.seq (does_perform _ _) fun _ => trivial

/-- A round of gossip is calls to the peers. -/
theorem does_gossipMembership (x : ι) (peers : List (Str × Str)) :
    Does (gossipMembership x peers) := by
  refine Prog.Calls.forEach fun peer _ => Does.seq (does_perform _ _) fun view => ?_
  cases view with
  | none => trivial
  | some view => exact Prog.Calls.forEach fun node _ => does_perform _ _

/-- All that is run does what its labels say. -/
theorem does_of_runs {p : MProg ι Unit} (h : Runs p) : Does p := by
  cases h with
  | start x addr peerUrl =>
    refine Does.seq (does_perform _ _) fun locationId => ?_
    cases peerUrl with
    | none => exact does_perform _ _
    | some peerUrl =>
      exact Does.seq (does_performJoinHandshake _ _ _) fun joinedPeer =>
        Does.seq (does_perform _ _) fun _ => does_perform _ _
  | heartbeat x => exact does_perform _ _
  | gossip x order _ => exact Does.seq (does_perform _ _) fun _ => does_gossipMembership _ _
  | lateJoin peerUrl locationId addr => exact does_perform _ _

end Membership
end Shardscape
