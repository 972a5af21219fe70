/-
# Registering at a peer

`src/main.rs`: the registration of `perform_join_handshake`, `url_query_pairs`, and
`/internal/join` of `handle_internal_request`.

A site that joins writes its location id and its address into the query of a request as they are.
The peer splits the query at `&` and `=` and decodes the parts.  So what it hands to `record_peer`
is the pair that was meant only if neither text has a separator or anything to decode: the id `a+b`
is recorded as `a b` (`join_records_other`).  Exactly then it is, whatever the HTTP library lets
through (`join_round_trips_iff`).

The HTTP library is a parameter (`Http`), of which two properties are used.  `http` 1.4 and
`httparse` 1.10 have them (`Http.hyper`): the bytes of a target are checked at both ends, and what
follows a `#` is not sent.  What is parsed is a string, so that it is UTF-8.
-/

import Shardscape.Backend.Internal
import Shardscape.Membership.Query
import Mathlib.Data.List.TakeWhile

namespace Shardscape

open Lib

/-! ### The target of a request -/

/-- `http::uri::PathAndQuery`. -/
structure PathAndQuery where
  path : Str
  query : Option Str
  deriving DecidableEq

/-- The bytes a path may have. -/
def isPathByte (b : Byte) : Bool :=
  b.val = 0x21 || b.val = 0x22 || (0x24 ≤ b.val && b.val ≤ 0x3B) || b.val = 0x3D ||
    (0x40 ≤ b.val && b.val ≤ 0x5F) || 0x61 ≤ b.val

/-- The bytes a query may have. -/
def isQueryByte (b : Byte) : Bool :=
  b.val = 0x21 || (0x24 ≤ b.val && b.val ≤ 0x3B) || b.val = 0x3D || 0x3F ≤ b.val

/-- `PathAndQuery::from_shared`, on targets that start with a slash. -/
def PathAndQuery.parse (s : Str) : Option PathAndQuery :=
  let path := s.takeWhile fun b => b ≠ 63 && b ≠ 35
  let query := match s.drop path.length with
    | 63 :: query => some (query.takeWhile (· ≠ 35))
    | _ => none
  if s.length ≤ 65534 && path.all isPathByte && (query.getD []).all isQueryByte then
    some ⟨path, query⟩
  else none

/-- The target as it is sent. -/
def PathAndQuery.target (u : PathAndQuery) : Str :=
  match u.query with
  | some query => u.path ++ 63 :: query
  | none => u.path

/-- The bytes `httparse` takes in a target. -/
def isTargetByte (b : Byte) : Bool := 0x21 ≤ b.val && b.val ≠ 0x7F

/-- A request for `s`, as it arrives: parsed by the sender, checked and parsed again by the peer. -/
def PathAndQuery.arrives (s : Str) : Option PathAndQuery :=
  (PathAndQuery.parse s).bind fun u =>
    if u.target.all isTargetByte then PathAndQuery.parse u.target else none

variable {u : PathAndQuery}

/-- The query of a target that is parsed. -/
theorem PathAndQuery.eq_of_parse {p q : Str} (hp : ∀ b ∈ p, b ≠ 63 ∧ b ≠ 35)
    (h : PathAndQuery.parse (p ++ 63 :: q) = some u) : u = ⟨p, some (q.takeWhile (· ≠ 35))⟩ := by
  have hpath : (p ++ 63 :: q).takeWhile (fun b => b ≠ 63 && b ≠ 35) = p := by
    rw [List.takeWhile_append_of_pos (by simpa using hp), List.takeWhile_cons_of_neg (by decide),
      List.append_nil]
  simp only [PathAndQuery.parse, hpath, List.drop_left] at h
  split_ifs at h
  exact (Option.some.inj h).symm

/-- What follows the first `?` arrives, up to a `#`.  The sender cuts it there, and nothing more is
cut off at the peer. -/
theorem PathAndQuery.query_of_arrives {p q : Str} (hp : ∀ b ∈ p, b ≠ 63 ∧ b ≠ 35)
    (h : PathAndQuery.arrives (p ++ 63 :: q) = some u) :
    u.query = some (q.takeWhile (· ≠ 35)) := by
  obtain ⟨sent, hsent, h⟩ := Option.bind_eq_some_iff.1 h
  cases PathAndQuery.eq_of_parse hp hsent
  split_ifs at h
  rw [PathAndQuery.eq_of_parse hp h]
  exact congrArg some List.takeWhile_idem

/-- A target of path bytes arrives as it is. -/
theorem PathAndQuery.arrives_path {s : Str} (hlen : s.length ≤ 65534)
    (h : ∀ b ∈ s, isPathByte b = true ∧ isTargetByte b = true) :
    PathAndQuery.arrives s = some ⟨s, none⟩ := by
  have hsep : ∀ b ∈ s, (b ≠ 63 && b ≠ 35) = true := by
    intro b hb
    have hpath := (h b hb).1
    rw [Bool.and_eq_true, decide_eq_true_eq, decide_eq_true_eq]
    constructor <;> rintro rfl <;> exact absurd hpath (by decide)
  have htake : s.takeWhile (fun b => b ≠ 63 && b ≠ 35) = s := List.takeWhile_eq_self_iff.2 hsep
  have hparse : PathAndQuery.parse s = some ⟨s, none⟩ := by
    have hbytes : s.all isPathByte = true := List.all_eq_true.2 fun b hb => (h b hb).1
    simp only [PathAndQuery.parse, htake, List.drop_length]
    simp [hlen, hbytes]
  have htarget : s.all isTargetByte = true := List.all_eq_true.2 fun b hb => (h b hb).2
  rw [PathAndQuery.arrives, hparse, Option.bind_some]
  exact (if_pos htarget).trans hparse

/-- The HTTP library, between the target a site writes and the one its peer is given.  Two things
are asked of it: a target that is all path arrives as it is, and of a target with a query what
arrives as the query is all of it, or what comes before a `#`. -/
structure Http where
  /-- The target at the peer; `none` is a request that is refused at one of the ends. -/
  arrives : Str → Option PathAndQuery
  arrives_path : ∀ {s : Str}, s.length ≤ 65534 →
    (∀ b ∈ s, isPathByte b = true ∧ isTargetByte b = true) → arrives s = some ⟨s, none⟩
  query_of_arrives : ∀ {p q : Str} {u : PathAndQuery}, (∀ b ∈ p, b ≠ 63 ∧ b ≠ 35) →
    arrives (p ++ 63 :: q) = some u → u.query = some (q.takeWhile (· ≠ 35))

/-- `http` 1.4 at both ends, with `httparse` 1.10 at the peer. -/
def Http.hyper : Http where
  arrives := PathAndQuery.arrives
  arrives_path := PathAndQuery.arrives_path
  query_of_arrives hp := PathAndQuery.query_of_arrives hp

/-- The `register_path` of `perform_join_handshake`. -/
def registerPath (locationId advertiseAddr : Str) : Str :=
  text "/internal/join?id=" ++ locationId ++ text "&addr=" ++ advertiseAddr

/-! ### What the peer reads -/

/-- `split_once`. -/
def splitOnce (sep : Byte) (s : Str) : Option (Str × Str) :=
  match s.dropWhile (· ≠ sep) with
  | [] => none
  | _ :: after => some (s.takeWhile (· ≠ sep), after)

/-- The pairs of a query, before they are decoded. -/
def rawPairs (q : Str) : List (Str × Str) :=
  ((q.splitOn 38).filter (· ≠ [])).filterMap (splitOnce 61)

/-- Keys and values decoded; `none` is a panic of `percent_decode`. -/
def decodePairs : List (Str × Str) → Option (List (Str × Str))
  | [] => some []
  | (k, v) :: pairs =>
    match percentDecode k, percentDecode v, decodePairs pairs with
    | some k, some v, some pairs => some ((k, v) :: pairs)
    | _, _, _ => none

/-- `url_query_pairs`. -/
def urlQueryPairs (q : Str) : Option (List (Str × Str)) := decodePairs (rawPairs q)

/-- The loop of `/internal/join` over the pairs. -/
def joinFields (pairs : List (Str × Str)) : Str × Str :=
  pairs.foldl (fun fields p =>
    if p.1 = text "id" then (p.2, fields.2)
    else if p.1 = text "addr" then (fields.1, p.2)
    else fields) ([], [])

/-- The request `/internal/join` stands for. -/
def joinRequest (u : PathAndQuery) : Option InternalRequest :=
  match u.query with
  | none => some (.join [] [])
  | some q => (urlQueryPairs q).map fun pairs => .join (joinFields pairs).1 (joinFields pairs).2

/-- What a request hands to `record_peer`. -/
def InternalRequest.recorded : InternalRequest → Option (Str × Str)
  | .join id addr => if id.isEmpty ∨ addr.isEmpty then none else some (id, addr)
  | _ => none

/-- And the handler does. -/
theorem handleInternalRequest_join {Blob : BlobStore} {ε : Type} (cfg : SiteConfig) (gc : GcConfig)
    (id addr : Str) :
    (Site.handleInternalRequest cfg gc true (.join id addr) : Site.SProg Blob ε InternalResponse) =
      match (InternalRequest.join id addr).recorded with
      | some p => do
        Site.recordPeer p.1 p.2
        pure .ok
      | none => pure .ok := by
  simp only [Site.handleInternalRequest, InternalRequest.recorded, Bool.true_eq_false, if_false]
  split_ifs <;> rfl

/-! ### The query that arrives -/

/-- The query of a registration, as the peer is given it. -/
theorem query_of_register {H : Http} {locationId addr : Str}
    (h : H.arrives (registerPath locationId addr) = some u) :
    u.query = some ((text "id=" ++ locationId ++ text "&addr=" ++ addr).takeWhile (· ≠ 35)) := by
  have hpath : ∀ b ∈ text "/internal/join", b ≠ 63 ∧ b ≠ 35 := by decide +kernel
  exact H.query_of_arrives hpath h

/-! ### Pairs -/

/-- The text is split at the first separator. -/
theorem splitOnce_append {sep : Byte} {k : Str} (hk : sep ∉ k) (v : Str) :
    splitOnce sep (k ++ sep :: v) = some (k, v) := by
  have hall : ∀ b ∈ k, decide (b ≠ sep) = true := by
    intro b hb
    exact decide_eq_true fun heq => hk (heq ▸ hb)
  rw [splitOnce, List.takeWhile_append_of_pos hall, List.dropWhile_append_of_pos hall,
    List.takeWhile_cons_of_neg (by simp), List.dropWhile_cons_of_neg (by simp), List.append_nil]

/-- The text is split nowhere but at the first separator. -/
theorem eq_of_splitOnce {sep : Byte} {s k v : Str} (h : splitOnce sep s = some (k, v)) :
    s = k ++ sep :: v := by
  have hmem : sep ∈ s := by
    by_contra hno
    have hall : s.dropWhile (· ≠ sep) = [] :=
      List.dropWhile_eq_nil_iff.2 fun b hb => decide_eq_true fun heq => hno (heq ▸ hb)
    rw [splitOnce, hall] at h
    cases h
  obtain ⟨before, after, rfl, hbefore⟩ := List.eq_append_cons_of_mem hmem
  rw [splitOnce_append hbefore] at h
  cases h
  rfl

/-- An `&` separates pairs. -/
theorem rawPairs_append (x y : Str) : rawPairs (x ++ 38 :: y) = rawPairs x ++ rawPairs y := by
  have hsplit : (x ++ 38 :: y).splitOn 38 = x.splitOn 38 ++ y.splitOn 38 :=
    List.splitOnP_append_cons x y rfl
  rw [rawPairs, hsplit, List.filter_append, List.filterMap_append]
  rfl

/-- Without a separator there is at most one pair. -/
theorem rawPairs_of_not_mem {x : Str} (h : 38 ∉ x) (hne : x ≠ []) :
    rawPairs x = (splitOnce 61 x).toList := by
  have hsplit : x.splitOn 38 = [x] :=
    List.splitOnP_eq_singleton fun b hb => beq_false_of_ne fun heq => h (heq ▸ hb)
  rw [rawPairs, hsplit]
  cases hsplit : splitOnce 61 x <;> simp [hne, hsplit]

/-- The value of a pair has no more ASCII bytes than the query. -/
theorem countP_of_mem_rawPairs {x k v : Str} (h : (k, v) ∈ rawPairs x) :
    v.countP isAscii ≤ x.countP isAscii := by
  induction hn : x.length using Nat.strongRecOn generalizing x with
  | ind n ih =>
    by_cases hsep : 38 ∈ x
    · obtain ⟨y, z, rfl⟩ := List.append_of_mem hsep
      rw [List.length_append, List.length_cons] at hn
      rw [List.countP_append, List.countP_cons]
      rw [rawPairs_append, List.mem_append] at h
      rcases h with h | h
      · have := ih y.length (by omega) h rfl
        omega
      · have := ih z.length (by omega) h rfl
        omega
    · have hne : x ≠ [] := by
        rintro rfl
        cases h
      rw [rawPairs_of_not_mem hsep hne, Option.mem_toList] at h
      rw [eq_of_splitOnce h, List.countP_append, List.countP_cons]
      omega

/-- A key and a value, as they are written: without a separator in the value, they are the pair.
With one, the pairs have values that are shorter. -/
theorem rawPairs_field {key x : Str} (hkey : 38 ∉ key ∧ 61 ∉ key) :
    (38 ∉ x ∧ rawPairs (key ++ 61 :: x) = [(key, x)]) ∨
      38 ∈ x ∧ ∃ y rest, rawPairs (key ++ 61 :: x) = (key, y) :: rest ∧
        ∀ p ∈ rawPairs (key ++ 61 :: x), p.2.countP isAscii < x.countP isAscii := by
  have hone : ∀ y, 38 ∉ y → rawPairs (key ++ 61 :: y) = [(key, y)] := by
    intro y hy
    rw [rawPairs_of_not_mem (by simp [hkey.1, hy]) (by simp), splitOnce_append hkey.2]
    rfl
  by_cases hsep : 38 ∈ x
  · obtain ⟨y, z, rfl, hy⟩ := List.eq_append_cons_of_mem hsep
    have hpairs : rawPairs (key ++ 61 :: (y ++ 38 :: z)) = (key, y) :: rawPairs z := by
      rw [← List.cons_append, ← List.append_assoc, rawPairs_append, hone y hy]
      rfl
    refine .inr ⟨hsep, y, rawPairs z, hpairs, ?_⟩
    have hcount : (y ++ 38 :: z).countP isAscii = y.countP isAscii + z.countP isAscii + 1 := by
      rw [List.countP_append, List.countP_cons, if_pos (by decide), Nat.add_assoc]
    rw [hpairs, hcount]
    rintro p hp
    rcases List.mem_cons.1 hp with rfl | hp
    · dsimp only
      omega
    · have := countP_of_mem_rawPairs (k := p.1) (v := p.2) hp
      omega
  · exact .inl ⟨hsep, hone x hsep⟩

/-! ### Fields -/

/-- Each pair is decoded. -/
theorem decodePairs_cons {k v : Str} {raw pairs : List (Str × Str)}
    (h : decodePairs ((k, v) :: raw) = some pairs) :
    ∃ k' v' pairs', percentDecode k = some k' ∧ percentDecode v = some v' ∧
      decodePairs raw = some pairs' ∧ pairs = (k', v') :: pairs' := by
  rw [decodePairs] at h
  split at h
  · next k' v' pairs' hk hv hrest => exact ⟨k', v', pairs', hk, hv, hrest, (Option.some.inj h).symm⟩
  · cases h

/-- Pairs are decoded one by one. -/
theorem decodePairs_append {raw raw' pairs : List (Str × Str)}
    (h : decodePairs (raw ++ raw') = some pairs) :
    ∃ pairs₁ pairs₂, decodePairs raw = some pairs₁ ∧ decodePairs raw' = some pairs₂ ∧
      pairs = pairs₁ ++ pairs₂ := by
  induction raw generalizing pairs with
  | nil => exact ⟨[], pairs, rfl, h, rfl⟩
  | cons r raw ih =>
    obtain ⟨k', v', rest, hk, hv, hrest, rfl⟩ := decodePairs_cons h
    obtain ⟨pairs₁, pairs₂, h₁, h₂, rfl⟩ := ih hrest
    exact ⟨(k', v') :: pairs₁, pairs₂, by rw [decodePairs, hk, hv, h₁], h₂, rfl⟩

/-- Each pair is decoded from its own text. -/
theorem exists_raw_of_mem {raw pairs : List (Str × Str)} (h : decodePairs raw = some pairs)
    {p : Str × Str} (hp : p ∈ pairs) : ∃ r ∈ raw, percentDecode r.2 = some p.2 := by
  induction raw generalizing pairs with
  | nil =>
    cases h
    cases hp
  | cons r raw ih =>
    obtain ⟨k', v', rest, -, hv, hrest, rfl⟩ := decodePairs_cons h
    rcases List.mem_cons.1 hp with rfl | hp
    · exact ⟨r, List.mem_cons_self, hv⟩
    · obtain ⟨r', hr', hv'⟩ := ih hrest hp
      exact ⟨r', List.mem_cons_of_mem _ hr', hv'⟩

/-- The last pair of a name counts. -/
theorem joinFields_concat (pairs : List (Str × Str)) (p : Str × Str) :
    joinFields (pairs ++ [p]) =
      if p.1 = text "id" then (p.2, (joinFields pairs).2)
      else if p.1 = text "addr" then ((joinFields pairs).1, p.2)
      else joinFields pairs := by
  rw [joinFields, List.foldl_append]
  rfl

/-- The id is the value of some pair, or empty. -/
theorem joinFields_fst (pairs : List (Str × Str)) :
    (joinFields pairs).1 = [] ∨ ∃ p ∈ pairs, p.1 = text "id" ∧ (joinFields pairs).1 = p.2 := by
  induction pairs using List.reverseRecOn with
  | nil => exact .inl rfl
  | append_singleton pairs p ih =>
    have hearlier : (joinFields pairs).1 = [] ∨
        ∃ q ∈ pairs ++ [p], q.1 = text "id" ∧ (joinFields pairs).1 = q.2 := by
      rcases ih with hnil | ⟨q, hq, hvalue⟩
      · exact .inl hnil
      · exact .inr ⟨q, List.mem_append_left _ hq, hvalue⟩
    rw [joinFields_concat]
    split_ifs with hid haddr
    · exact .inr ⟨p, by simp, hid, rfl⟩
    · exact hearlier
    · exact hearlier

/-- The address is the value of a pair that comes not before a pair for the address. -/
theorem joinFields_snd (before pairs : List (Str × Str)) (h : ∃ p ∈ pairs, p.1 = text "addr") :
    ∃ p ∈ pairs, (joinFields (before ++ pairs)).2 = p.2 := by
  induction pairs using List.reverseRecOn with
  | nil =>
    obtain ⟨p, hp, -⟩ := h
    cases hp
  | append_singleton pairs p ih =>
    have hne : text "addr" ≠ text "id" := by decide
    rw [← List.append_assoc, joinFields_concat]
    by_cases haddr : p.1 = text "addr"
    · rw [if_neg (haddr.trans_ne hne), if_pos haddr]
      exact ⟨p, by simp, rfl⟩
    · obtain ⟨q, hq, hkey⟩ := h
      have hmem : q ∈ pairs := by
        rcases List.mem_append.1 hq with hq | hq
        · exact hq
        · exact absurd hkey (List.mem_singleton.1 hq ▸ haddr)
      obtain ⟨r, hr, hvalue⟩ := ih ⟨q, hmem, hkey⟩
      refine ⟨r, List.mem_append_left _ hr, ?_⟩
      rw [if_neg haddr]
      split_ifs
      · exact hvalue
      · exact hvalue

/-! ### The round trip -/

/-- A text that arrives: it is not empty, it has no separator and no `#`, and nothing to decode. -/
structure ReadsBack (s : Str) : Prop where
  ne_nil : s ≠ []
  separator : 38 ∉ s
  fragment : 35 ∉ s
  untouched : Untouched s

/-- What is recorded of a request that arrives. -/
theorem recorded_join_iff {q : Str} (hq : u.query = some q) {id addr : Str} :
    (joinRequest u).bind InternalRequest.recorded = some (id, addr) ↔
      id ≠ [] ∧ addr ≠ [] ∧
        ∃ pairs, decodePairs (rawPairs q) = some pairs ∧ joinFields pairs = (id, addr) := by
  rw [joinRequest, hq]
  dsimp only
  rw [urlQueryPairs]
  cases decodePairs (rawPairs q) with
  | none => simp
  | some pairs =>
    rcases hfields : joinFields pairs with ⟨id', addr'⟩
    simp only [Option.map_some, Option.bind_some, hfields, InternalRequest.recorded,
      List.isEmpty_iff]
    constructor
    · intro h
      split_ifs at h with hempty
      cases h
      rw [not_or] at hempty
      exact ⟨hempty.1, hempty.2, pairs, rfl, hfields⟩
    · rintro ⟨hid, haddr, pairs', hpairs, hsame⟩
      cases hpairs
      cases hfields.symm.trans hsame
      rw [if_neg (not_or.2 ⟨hid, haddr⟩)]

/-- The bytes up to the first `#`. -/
theorem takeWhile_fragment {l r : Str} (hl : 35 ∉ l) :
    (l ++ r).takeWhile (· ≠ 35) = l ++ r.takeWhile (· ≠ 35) :=
  List.takeWhile_append_of_pos fun _ hb => decide_eq_true fun heq => hl (heq ▸ hb)

/-- Without a `#` nothing is cut off. -/
theorem takeWhile_of_fragment {s : Str} (h : 35 ∉ s) : s.takeWhile (· ≠ 35) = s := by
  have hall := takeWhile_fragment (r := []) h
  rwa [List.append_nil, List.takeWhile_nil, List.append_nil] at hall

/-- With a `#` there is less ASCII left. -/
theorem takeWhile_fragment_of_mem {s : Str} (h : 35 ∈ s) (r : Str) :
    ((s ++ r).takeWhile (· ≠ 35)).countP isAscii < s.countP isAscii := by
  obtain ⟨y, z, rfl, hy⟩ := List.eq_append_cons_of_mem h
  rw [List.append_assoc, takeWhile_fragment hy, List.cons_append,
    List.takeWhile_cons_of_neg (by simp), List.append_nil, List.countP_append, List.countP_cons,
    if_pos (by decide)]
  omega

/-- The query that arrives: all of it, up to a `#` in the address, or no more than a part of the
id. -/
theorem query_cases (id addr : Str) :
    (35 ∉ id ∧ (text "id=" ++ id ++ text "&addr=" ++ addr).takeWhile (· ≠ 35) =
        (text "id" ++ 61 :: id) ++ 38 :: (text "addr" ++ 61 :: addr.takeWhile (· ≠ 35))) ∨
      35 ∈ id ∧ ∃ y, y.countP isAscii < id.countP isAscii ∧
        (text "id=" ++ id ++ text "&addr=" ++ addr).takeWhile (· ≠ 35) = text "id" ++ 61 :: y := by
  have hstart : 35 ∉ text "id=" := by decide
  rw [List.append_assoc, List.append_assoc, takeWhile_fragment hstart]
  by_cases hid : 35 ∈ id
  · exact .inr ⟨hid, _, takeWhile_fragment_of_mem hid _, rfl⟩
  · refine .inl ⟨hid, ?_⟩
    rw [takeWhile_fragment hid, takeWhile_fragment (by decide)]
    rfl

variable {pairs : List (Str × Str)}

/-- What is read of a field is no more than what was written, and less if there is a separator
in it; so if it is as much, it is what was written, decoded. -/
theorem field_exact {key x : Str} (hkey : 38 ∉ key ∧ 61 ∉ key)
    (h : decodePairs (rawPairs (key ++ 61 :: x)) = some pairs) {p : Str × Str} (hp : p ∈ pairs)
    (hcount : x.countP isAscii ≤ p.2.countP isAscii) :
    38 ∉ x ∧ percentDecode x = some p.2 ∧
      ∃ k', percentDecode key = some k' ∧ pairs = [(k', p.2)] := by
  obtain ⟨r, hr, hdecode⟩ := exists_raw_of_mem h hp
  have hle := countP_percentDecode hdecode
  rcases rawPairs_field (x := x) hkey with ⟨hsep, hpairs⟩ | ⟨-, -, -, -, hless⟩
  · rw [hpairs] at h
    obtain ⟨k', v', pairs', hk, hv, hrest, rfl⟩ := decodePairs_cons h
    cases hrest
    obtain rfl := List.mem_singleton.1 hp
    exact ⟨hsep, hv, k', hk, rfl⟩
  · have := hless r hr
    omega

/-- Some pair of a field has its key. -/
theorem exists_key_of_field {key x : Str} (hkey : 38 ∉ key ∧ 61 ∉ key)
    (hdecode : percentDecode key = some key)
    (h : decodePairs (rawPairs (key ++ 61 :: x)) = some pairs) : ∃ p ∈ pairs, p.1 = key := by
  have hfirst : ∃ y rest, rawPairs (key ++ 61 :: x) = (key, y) :: rest := by
    rcases rawPairs_field (x := x) hkey with ⟨-, hpairs⟩ | ⟨-, y, rest, hpairs, -⟩
    · exact ⟨x, [], hpairs⟩
    · exact ⟨y, rest, hpairs⟩
  obtain ⟨y, rest, hpairs⟩ := hfirst
  rw [hpairs] at h
  obtain ⟨k', v', pairs', hk, -, -, rfl⟩ := decodePairs_cons h
  cases hdecode.symm.trans hk
  exact ⟨(key, v'), List.mem_cons_self, rfl⟩

/-- An id that is recorded is the value of a pair. -/
theorem exists_pair_of_id {id : Str} (h : (joinFields pairs).1 = id) (hne : id ≠ []) :
    ∃ p ∈ pairs, id = p.2 := by
  rcases joinFields_fst pairs with hnil | ⟨p, hp, -, hvalue⟩
  · exact absurd (h.symm.trans hnil) hne
  · exact ⟨p, hp, h.symm.trans hvalue⟩

/-- The field of the address, of which no more has arrived than what stands before a `#`: if it
holds the address, all of it has, and there was nothing to split and nothing to decode. -/
theorem addr_exact {addr : Str}
    (h : decodePairs (rawPairs (text "addr" ++ 61 :: addr.takeWhile (· ≠ 35))) = some pairs)
    {p : Str × Str} (hp : p ∈ pairs) (hvalue : addr = p.2) :
    35 ∉ addr ∧ 38 ∉ addr ∧ percentDecode addr = some addr ∧ pairs = [(text "addr", addr)] := by
  subst hvalue
  have hkey : 38 ∉ text "addr" ∧ 61 ∉ text "addr" := by decide
  have harrived : (p.2.takeWhile (· ≠ 35)).countP isAscii ≤ p.2.countP isAscii :=
    (List.takeWhile_sublist _).countP_le
  obtain ⟨hsep, hdecode, k', hk, rfl⟩ := field_exact hkey h hp harrived
  have hwhole : 35 ∉ p.2 := by
    intro hmem
    have hcut := takeWhile_fragment_of_mem hmem []
    rw [List.append_nil] at hcut
    have := countP_percentDecode hdecode
    omega
  obtain rfl : k' = text "addr" := Option.some.inj (hk.symm.trans (by decide +kernel))
  rw [takeWhile_of_fragment hwhole] at hsep hdecode
  exact ⟨hwhole, hsep, hdecode, rfl⟩

/-- What has been recorded as it was meant was read back. -/
theorem readsBack_of_recorded {id addr : Str} (hid : validUtf8 id = true)
    (haddr : validUtf8 addr = true) (hidne : id ≠ []) (haddrne : addr ≠ [])
    (hpairs : decodePairs (rawPairs
      ((text "id=" ++ id ++ text "&addr=" ++ addr).takeWhile (· ≠ 35))) = some pairs)
    (hfields : joinFields pairs = (id, addr)) : ReadsBack id ∧ ReadsBack addr := by
  have hkeys : (38 ∉ text "id" ∧ 61 ∉ text "id") ∧ 38 ∉ text "addr" ∧ 61 ∉ text "addr" := by decide
  rcases query_cases id addr with ⟨hfragment, hquery⟩ | ⟨-, y, hless, hquery⟩
  · rw [hquery, rawPairs_append] at hpairs
    obtain ⟨pairs₁, pairs₂, h₁, h₂, rfl⟩ := decodePairs_append hpairs
    obtain ⟨p, hp, hvalue⟩ := joinFields_snd pairs₁ pairs₂
      (exists_key_of_field hkeys.2 (by decide +kernel) h₂)
    rw [hfields] at hvalue
    obtain ⟨hwhole, hsep, hdecode, rfl⟩ := addr_exact h₂ hp hvalue
    -- the id is in the other field
    rw [joinFields_concat, if_neg (show text "addr" ≠ text "id" by decide), if_pos rfl,
      Prod.mk.injEq] at hfields
    obtain ⟨q, hq, rfl⟩ := exists_pair_of_id hfields.1 hidne
    obtain ⟨hsep', hdecode', -⟩ := field_exact hkeys.1 h₁ hq le_rfl
    exact ⟨⟨hidne, hsep', hfragment, (percentDecode_eq_self_iff hid).1 hdecode'⟩,
      haddrne, hsep, hwhole, (percentDecode_eq_self_iff haddr).1 hdecode⟩
  · -- of the id too little has arrived
    rw [hquery] at hpairs
    obtain ⟨p, hp, rfl⟩ := exists_pair_of_id (congrArg Prod.fst hfields) hidne
    obtain ⟨-, hdecode, -⟩ := field_exact hkeys.1 hpairs hp (by omega)
    have := countP_percentDecode hdecode
    omega

/-- A field that reads back is one pair. -/
theorem rawPairs_of_readsBack {key x : Str} (hkey : 38 ∉ key ∧ 61 ∉ key) (hx : ReadsBack x) :
    rawPairs (key ++ 61 :: x) = [(key, x)] := by
  rcases rawPairs_field (x := x) hkey with ⟨-, hpairs⟩ | ⟨hsep, -⟩
  · exact hpairs
  · exact absurd hsep hx.separator

/-- **When a registration arrives as it was meant**: exactly if both texts read back.  The client
puts them into the path as they are, so a `+`, a `%`, an `&` or a `#` in them may be misread. -/
theorem join_round_trips_iff {H : Http} {id addr : Str} (hid : validUtf8 id = true)
    (haddr : validUtf8 addr = true) {u : PathAndQuery}
    (h : H.arrives (registerPath id addr) = some u) :
    (joinRequest u).bind InternalRequest.recorded = some (id, addr) ↔
      ReadsBack id ∧ ReadsBack addr := by
  rw [recorded_join_iff (query_of_register h)]
  constructor
  · rintro ⟨hidne, haddrne, pairs, hpairs, hfields⟩
    exact readsBack_of_recorded hid haddr hidne haddrne hpairs hfields
  · rintro ⟨hreads, hreads'⟩
    refine ⟨hreads.ne_nil, hreads'.ne_nil, [(text "id", id), (text "addr", addr)], ?_, rfl⟩
    have hquery := (query_cases id addr).resolve_right fun hcut => hreads.fragment hcut.1
    have hkeys : percentDecode (text "id") = some (text "id") ∧
        percentDecode (text "addr") = some (text "addr") := by decide +kernel
    rw [hquery.2, takeWhile_of_fragment hreads'.fragment, rawPairs_append,
      rawPairs_of_readsBack (by decide) hreads, rawPairs_of_readsBack (by decide) hreads']
    show decodePairs [(text "id", id), (text "addr", addr)] = _
    simp only [decodePairs, hkeys, (percentDecode_eq_self_iff hid).2 hreads.untouched,
      (percentDecode_eq_self_iff haddr).2 hreads'.untouched]

/-- The id and the address of the default configuration read back. -/
theorem join_round_trips_default :
    Http.hyper.arrives (registerPath (text "default") (text "http://localhost:8014")) =
        some ⟨text "/internal/join", some (text "id=default&addr=http://localhost:8014")⟩ ∧
      ReadsBack (text "default") ∧ ReadsBack (text "http://localhost:8014") := by
  have harrives :
      Http.hyper.arrives (registerPath (text "default") (text "http://localhost:8014")) =
        some ⟨text "/internal/join", some (text "id=default&addr=http://localhost:8014")⟩ := by
    decide +kernel
  refine ⟨harrives, (join_round_trips_iff ?_ ?_ harrives).1 ?_⟩ <;> decide +kernel

/-- **A registration that is recorded as another**: the id `a+b` arrives as `a b`, since the query
carries the sign as it is and the peer reads it as a space. -/
theorem join_records_other :
    Http.hyper.arrives (registerPath (text "a+b") (text "http://a")) =
        some ⟨text "/internal/join", some (text "id=a+b&addr=http://a")⟩ ∧
      (joinRequest ⟨text "/internal/join", some (text "id=a+b&addr=http://a")⟩).bind
        InternalRequest.recorded = some (text "a b", text "http://a") := by
  refine ⟨?_, ?_⟩ <;> decide +kernel

end Shardscape
