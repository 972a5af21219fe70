/-
# Facts as JSON

`src/store.rs`: `Fact` and `FactRecord` with their derived serialisation, `append_fact_tx`,
`facts_since`; `src/db.rs`: `Policy`, `PolicyStatement`.

A fact is an object with its kind and its data, `#[serde(tag = "kind", content = "data")]`, and a
record adds its number and its timestamp to the same object, `#[serde(flatten)]`.  Inside a
`UserPut` the policy is a dynamic value: `create_user` stores the text of the policy in its row and
logs its `to_value`, whose members come in another order.

Read and write are inverse (`FactValue.ofTagged_toJson`, `RecordValue.ofJson_toJson`), and the two
texts of a policy are read as the policy (`PolicyJson.serde`): the codec that the rest of this
development takes as a parameter is there.

The texts are those of `serde_json`, a parameter here (`Lib.JsonCodec`): what is asked of it is that
it reads what it wrote.  Left out of what `serde` accepts: a tag that is not a string, and fields
that are skipped are read as strictly as the others.
-/

import Shardscape.Backend.Site
import Shardscape.Lib.JsonData
import Shardscape.Replication.Sync

namespace Shardscape

open Lib Json

/-! ### Policies -/

/-- `PolicyStatement`, serialised. -/
def PolicyStatement.toJson (s : PolicyStatement) : Json :=
  .obj [(text "effect", .str s.effect), (text "actions", .arr (s.actions.map .str)),
    (text "resources", .arr (s.resources.map .str))]

/-- `PolicyStatement`, deserialised. -/
def PolicyStatement.ofJson (v : Json) : Option PolicyStatement :=
  match record [text "effect", text "actions", text "resources"] v with
  | some [effect, actions, resources] => do
    let effect ← effect.asStr
    let actions ← actions.asList asStr
    let resources ← resources.asList asStr
    pure ⟨effect, actions, resources⟩
  | _ => none

/-- `Policy`, serialised. -/
def Policy.toJson (p : Policy) : Json :=
  .obj [(text "statements", .arr (p.statements.map PolicyStatement.toJson))]

/-- `Policy`, deserialised. -/
def Policy.ofJson (v : Json) : Option Policy :=
  match record [text "statements"] v with
  | some [statements] => (statements.asList PolicyStatement.ofJson).map Policy.mk
  | _ => none

/-- The members of a statement in the order of their keys. -/
def PolicyStatement.toValueJson (s : PolicyStatement) : Json :=
  .obj [(text "actions", .arr (s.actions.map .str)), (text "effect", .str s.effect),
    (text "resources", .arr (s.resources.map .str))]

/-- Strings are canonical. -/
theorem canonList_map_str (l : List Str) : canonList (l.map .str) = l.map .str := by
  rw [canonList_eq_map, List.map_map]
  refine List.map_congr_left fun s _ => ?_
  rw [Function.comp_apply, canon]

/-- The canonical statement has its members in order. -/
theorem PolicyStatement.canon_toJson (s : PolicyStatement) : s.toJson.canon = s.toValueJson := by
  simp only [toJson, toValueJson, canon, canonMembers, canonMember,
    canonList_map_str]
  rfl

/-- The members of a policy are in order already, those of its statements are put in order. -/
theorem Policy.canon_toJson (p : Policy) : p.toJson.canon =
    .obj [(text "statements", .arr (p.statements.map PolicyStatement.toValueJson))] := by
  have hlist : canonList (p.statements.map PolicyStatement.toJson) =
      p.statements.map PolicyStatement.toValueJson := by
    rw [canonList_eq_map, List.map_map]
    exact List.map_congr_left fun s _ => s.canon_toJson
  simp only [toJson, canon, canonMembers, canonMember, hlist]
  rfl

/-- A statement reads back from its three fields, in whatever order they come. -/
theorem PolicyStatement.ofJson_of_record {s : PolicyStatement} {v : Json}
    (h : record [text "effect", text "actions", text "resources"] v =
      some [.str s.effect, .arr (s.actions.map .str), .arr (s.resources.map .str)]) :
    PolicyStatement.ofJson v = some s := by
  simp [PolicyStatement.ofJson, h, asStr, asList_strs]

/-- A policy is read off the list of its statements, however each was written. -/
theorem Policy.ofJson_statements {write : PolicyStatement → Json}
    (h : ∀ s, PolicyStatement.ofJson (write s) = some s) (p : Policy) :
    Policy.ofJson (.obj [(text "statements", .arr (p.statements.map write))]) = some p := by
  show (asList PolicyStatement.ofJson (.arr (p.statements.map write))).map Policy.mk = some p
  have hall : readAll PolicyStatement.ofJson (p.statements.map write) =
      some (p.statements.map id) := readAll_map fun s _ => h s
  rw [List.map_id] at hall
  simp only [asList, hall, Option.map_some]

/-- The names of the fields and of the kinds. -/
def fieldNames : List Str :=
  ["statements", "effect", "actions", "resources", "kind", "data", "seq", "ts", "ObjectPut",
    "ObjectDelete", "BlockAnnounce", "UserPut", "bucket", "key", "blocks", "size", "etag", "hash",
    "location_id", "fid", "access_key", "secret_key", "policy"].map text

/-- The strings of a policy pass a check. -/
def Policy.Checked (ok : Str → Bool) (p : Policy) : Prop :=
  ∀ s ∈ p.statements, ok s.effect = true ∧ (∀ a ∈ s.actions, ok a = true) ∧
    ∀ r ∈ s.resources, ok r = true

section

variable {ok : Str → Bool} (hnames : ∀ k ∈ fieldNames, ok k = true)
include hnames

/-- A statement is read, if it has no members but its three. -/
theorem PolicyStatement.readable_obj {s : PolicyStatement} {ms : List (Str × Json)}
    (h : ok s.effect = true ∧ (∀ a ∈ s.actions, ok a = true) ∧ ∀ r ∈ s.resources, ok r = true)
    (hms : ms ⊆ [(text "effect", .str s.effect), (text "actions", .arr (s.actions.map .str)),
      (text "resources", .arr (s.resources.map .str))]) :
    Readable ok 3 (.obj ms) := by
  obtain ⟨heffect, hactions, hresources⟩ := h
  refine .obj (fun m hm => hnames _ ?_) fun m hm => ?_ <;>
    rcases (by simpa using hms hm : m = _ ∨ m = _ ∨ m = _) with rfl | rfl | rfl
  iterate 3 simp [fieldNames]
  · exact .str heffect
  · exact readable_strs hactions _
  · exact readable_strs hresources _

/-- A policy is read, at a depth of five, if its statements are. -/
theorem Policy.readable_statements {write : PolicyStatement → Json} {p : Policy}
    (hwrite : ∀ s ∈ p.statements, Readable ok 3 (write s)) :
    Readable ok 5 (.obj [(text "statements", .arr (p.statements.map write))]) := by
  refine .obj (List.forall_mem_singleton.2 (hnames _ (by simp [fieldNames])))
    (List.forall_mem_singleton.2 (.arr ?_))
  rw [List.forall_mem_map]
  exact hwrite

/-- The text of a policy is read. -/
theorem Policy.readable_toJson {p : Policy} (h : p.Checked ok) : Readable ok 5 p.toJson :=
  Policy.readable_statements hnames fun s hs =>
    PolicyStatement.readable_obj hnames (h s hs) fun _ hm => hm

/-- The text of the dynamic value of a policy is read. -/
theorem Policy.readable_canon {p : Policy} (h : p.Checked ok) : Readable ok 5 p.toJson.canon := by
  rw [Policy.canon_toJson]
  refine Policy.readable_statements hnames fun s hs =>
    PolicyStatement.readable_obj hnames (h s hs) fun m hm => ?_
  simp only [List.mem_cons] at hm ⊢
  tauto

end

/-- A text in a `String`, so that it is UTF-8 already. -/
def anyText (_ : Str) : Bool := true

/-- Without a check every policy passes. -/
theorem Policy.checked_anyText (p : Policy) : p.Checked anyText :=
  fun _ _ => ⟨rfl, fun _ _ => rfl, fun _ _ => rfl⟩

/-- Without a check the names of fields pass. -/
theorem anyText_fieldNames : ∀ k ∈ fieldNames, anyText k = true := fun _ _ => rfl

/-- `from_str` of a policy. -/
def Policy.fromText (C : JsonCodec) (s : Str) : Option Policy :=
  (C.parse anyText s).bind Policy.ofJson

/-- The text that `create_user` writes into the row of a user is read as the policy. -/
theorem Policy.fromText_toJson (C : JsonCodec) (p : Policy) :
    Policy.fromText C (C.print p.toJson) = some p := by
  have hread := Policy.readable_toJson anyText_fieldNames p.checked_anyText
  rw [fromText, C.parse_print (hread.mono (by decide)), Option.bind_some]
  exact Policy.ofJson_statements (fun _ => PolicyStatement.ofJson_of_record rfl) p

/-- And so is the text of its dynamic value, which is what `apply_fact` writes at a peer. -/
theorem Policy.fromText_toValue (C : JsonCodec) (p : Policy) :
    Policy.fromText C (C.print p.toJson.toValue.tree) = some p := by
  have hread := Policy.readable_canon anyText_fieldNames p.checked_anyText
  rw [fromText, toValue, C.parse_print (hread.mono (by decide)), Option.bind_some,
    Policy.canon_toJson]
  exact Policy.ofJson_statements (fun _ => PolicyStatement.ofJson_of_record rfl) p

/-- **`serde_json` on policies**: `to_string`, `to_value` and then `to_string`, and `from_str`,
which is inverse to both. -/
def PolicyJson.serde (C : JsonCodec) : PolicyJson where
  toText p := C.print p.toJson
  toValueText p := C.print p.toJson.toValue.tree
  parse := Policy.fromText C
  parse_toText := Policy.fromText_toJson C
  parse_toValueText := Policy.fromText_toValue C

/-! ### Facts -/

/-- `Fact`, with the policy as the dynamic value it is. -/
inductive FactValue where
  | objectPut (bucket key : Str) (blocks : List Str) (size : ℤ) (etag : Str)
  | objectDelete (bucket key : Str)
  | blockAnnounce (hash locationId fid : Str) (size : ℤ)
  | userPut (accessKey secretKey : Str) (policy : Value)

namespace FactValue

/-- The fact of the tables: of the policy, the text. -/
def stored (C : JsonCodec) : FactValue → Fact
  | .objectPut bucket key blocks size etag => .objectPut bucket key blocks size etag
  | .objectDelete bucket key => .objectDelete bucket key
  | .blockAnnounce hash locationId fid size => .blockAnnounce hash locationId fid size
  | .userPut accessKey secretKey policy => .userPut accessKey secretKey (C.print policy.tree)

/-- The tag. -/
def kind : FactValue → Str
  | .objectPut _ _ _ _ _ => text "ObjectPut"
  | .objectDelete _ _ => text "ObjectDelete"
  | .blockAnnounce _ _ _ _ => text "BlockAnnounce"
  | .userPut _ _ _ => text "UserPut"

/-- The content. -/
def data : FactValue → List (Str × Json)
  | .objectPut bucket key blocks size etag =>
    [(text "bucket", .str bucket), (text "key", .str key),
      (text "blocks", .arr (blocks.map .str)), (text "size", .int size),
      (text "etag", .str etag)]
  | .objectDelete bucket key => [(text "bucket", .str bucket), (text "key", .str key)]
  | .blockAnnounce hash locationId fid size =>
    [(text "hash", .str hash), (text "location_id", .str locationId), (text "fid", .str fid),
      (text "size", .int size)]
  | .userPut accessKey secretKey policy =>
    [(text "access_key", .str accessKey), (text "secret_key", .str secretKey),
      (text "policy", policy.tree)]

/-- The two members of a fact. -/
def members (f : FactValue) : List (Str × Json) :=
  [(text "kind", .str f.kind), (text "data", .obj f.data)]

/-- A fact, serialised. -/
def toJson (f : FactValue) : Json := .obj f.members

/-- The content of a fact, deserialised by its tag. -/
def ofData (kind : Str) (data : Json) : Option FactValue :=
  if kind = text "ObjectPut" then
    match record [text "bucket", text "key", text "blocks", text "size", text "etag"] data with
    | some [bucket, key, blocks, size, etag] => do
      let bucket ← bucket.asStr
      let key ← key.asStr
      let blocks ← blocks.asList asStr
      let size ← size.asI64
      let etag ← etag.asStr
      pure (.objectPut bucket key blocks size etag)
    | _ => none
  else if kind = text "ObjectDelete" then
    match record [text "bucket", text "key"] data with
    | some [bucket, key] => do
      let bucket ← bucket.asStr
      let key ← key.asStr
      pure (.objectDelete bucket key)
    | _ => none
  else if kind = text "BlockAnnounce" then
    match record [text "hash", text "location_id", text "fid", text "size"] data with
    | some [hash, locationId, fid, size] => do
      let hash ← hash.asStr
      let locationId ← locationId.asStr
      let fid ← fid.asStr
      let size ← size.asI64
      pure (.blockAnnounce hash locationId fid size)
    | _ => none
  else if kind = text "UserPut" then
    match record [text "access_key", text "secret_key", text "policy"] data with
    | some [accessKey, secretKey, policy] => do
      let accessKey ← accessKey.asStr
      let secretKey ← secretKey.asStr
      pure (.userPut accessKey secretKey policy.toValue)
    | _ => none
  else none

/-- A fact, deserialised. -/
def ofTagged (v : Json) : Option FactValue :=
  match record [text "kind", text "data"] v with
  | some [kind, data] => kind.asStr.bind fun kind => ofData kind data
  | _ => none

/-- The integers of a fact are `i64`, as their type says. -/
def SizeFits : FactValue → Prop
  | .objectPut _ _ _ size _ | .blockAnnounce _ _ _ size => IsI64 size
  | _ => True

/-- The data of a fact reads back, kind by kind. -/
theorem ofData_data {f : FactValue} (h : f.SizeFits) : ofData f.kind (.obj f.data) = some f := by
  cases f with
  | objectPut bucket key blocks size etag =>
    show (do
      let bucket ← asStr (.str bucket)
      let key ← asStr (.str key)
      let blocks ← asList asStr (.arr (blocks.map .str))
      let size ← asI64 (.int size)
      let etag ← asStr (.str etag)
      pure (objectPut bucket key blocks size etag)) = _
    simp [asStr, asList_strs, asI64_int h]
  | objectDelete bucket key => rfl
  | blockAnnounce hash locationId fid size =>
    show (do
      let hash ← asStr (.str hash)
      let locationId ← asStr (.str locationId)
      let fid ← asStr (.str fid)
      let size ← asI64 (.int size)
      pure (blockAnnounce hash locationId fid size)) = _
    simp [asStr, asI64_int h]
  | userPut accessKey secretKey policy =>
    show some (userPut accessKey secretKey policy.tree.toValue) = _
    rw [toValue_tree]

/-- **A fact that is written is read as it.** -/
theorem ofTagged_toJson {f : FactValue} (h : f.SizeFits) : ofTagged f.toJson = some f :=
  ofData_data h

end FactValue

/-! ### Records -/

/-- `FactRecord`. -/
structure RecordValue where
  seq : ℤ
  ts : ℤ
  fact : FactValue

namespace RecordValue

/-- A record, serialised: the members of the fact are its own. -/
def toJson (r : RecordValue) : Json :=
  .obj ((text "seq", .int r.seq) :: (text "ts", .int r.ts) :: r.fact.members)

/-- A record, deserialised: what is not a field of it goes to the fact. -/
def ofJson : Json → Option RecordValue
  | .obj ms => do
    let seq ← (field (text "seq") ms).bind asI64
    let ts ← (field (text "ts") ms).bind asI64
    let fact ← FactValue.ofTagged
      (.obj (ms.filter fun m => m.1 ≠ text "seq" && m.1 ≠ text "ts"))
    pure ⟨seq, ts, fact⟩
  | _ => none

/-- The record of the tables. -/
def stored (C : JsonCodec) (r : RecordValue) : FactRecord := ⟨r.seq.toNat, r.ts, r.fact.stored C⟩

/-- **A record that is written is read as it.** -/
theorem ofJson_toJson {r : RecordValue} (hseq : IsI64 r.seq) (hts : IsI64 r.ts)
    (h : r.fact.SizeFits) : ofJson r.toJson = some r := by
  have hrest : (((text "seq", .int r.seq) :: (text "ts", .int r.ts) :: r.fact.members).filter
      fun m => m.1 ≠ text "seq" && m.1 ≠ text "ts") = r.fact.members := rfl
  show (do
    let seq ← asI64 (.int r.seq)
    let ts ← asI64 (.int r.ts)
    let fact ← FactValue.ofTagged (.obj _)
    pure (⟨seq, ts, fact⟩ : RecordValue)) = _
  rw [asI64_int hseq, asI64_int hts, hrest]
  have hfact : FactValue.ofTagged (.obj r.fact.members) = some r.fact :=
    FactValue.ofTagged_toJson h
  rw [hfact]
  rfl

end RecordValue

/-! ### Texts -/

/-- The strings of a fact pass a check, its integers are `i64`, and its policy can be read inside
the fact inside a page. -/
def FactValue.Typed (ok : Str → Bool) : FactValue → Prop
  | .objectPut bucket key blocks size etag =>
    ok bucket = true ∧ ok key = true ∧ (∀ b ∈ blocks, ok b = true) ∧ IsI64 size ∧
      ok etag = true
  | .objectDelete bucket key => ok bucket = true ∧ ok key = true
  | .blockAnnounce hash locationId fid size =>
    ok hash = true ∧ ok locationId = true ∧ ok fid = true ∧ IsI64 size
  | .userPut accessKey secretKey policy =>
    ok accessKey = true ∧ ok secretKey = true ∧ Readable ok 125 policy.tree

namespace FactValue

variable {ok : Str → Bool} {f : FactValue}

/-- The size of a typed fact fits. -/
theorem Typed.sizeFits (h : f.Typed ok) : f.SizeFits := by
  cases f with
  | objectPut bucket key blocks size etag => exact h.2.2.2.1
  | objectDelete bucket key => trivial
  | blockAnnounce hash locationId fid size => exact h.2.2.2
  | userPut accessKey secretKey policy => trivial

/-- The keys of a fact are names of fields, and so is its kind. -/
theorem mem_fieldNames (f : FactValue) :
    f.kind ∈ fieldNames ∧ (∀ m ∈ f.data, m.1 ∈ fieldNames) ∧ ∀ m ∈ f.members, m.1 ∈ fieldNames := by
  cases f <;> simp [kind, data, members, fieldNames]

/-- The data of a fact is read inside the fact inside a record inside a page. -/
theorem Typed.readable_data (h : f.Typed ok) : ∀ m ∈ f.data, Readable ok 125 m.2 := by
  cases f with
  | objectPut bucket key blocks size etag =>
    obtain ⟨hbucket, hkey, hblocks, hsize, hetag⟩ := h
    simp only [data, List.forall_mem_cons]
    exact ⟨.str hbucket, .str hkey, readable_strs hblocks _, readable_i64 hsize _, .str hetag,
      List.forall_mem_nil _⟩
  | objectDelete bucket key =>
    simp only [data, List.forall_mem_cons]
    exact ⟨.str h.1, .str h.2, List.forall_mem_nil _⟩
  | blockAnnounce hash locationId fid size =>
    obtain ⟨hhash, hlocation, hfid, hsize⟩ := h
    simp only [data, List.forall_mem_cons]
    exact ⟨.str hhash, .str hlocation, .str hfid, readable_i64 hsize _, List.forall_mem_nil _⟩
  | userPut accessKey secretKey policy =>
    obtain ⟨haccess, hsecret, hpolicy⟩ := h
    simp only [data, List.forall_mem_cons]
    exact ⟨.str haccess, .str hsecret, hpolicy, List.forall_mem_nil _⟩

/-- The members of a fact are read inside a record inside a page. -/
theorem Typed.readable_members (hnames : ∀ k ∈ fieldNames, ok k = true) (h : f.Typed ok) :
    ∀ m ∈ f.members, ok m.1 = true ∧ Readable ok 126 m.2 := by
  obtain ⟨hkind, hdata, hmembers⟩ := f.mem_fieldNames
  have hread : ∀ m ∈ f.members, Readable ok 126 m.2 := by
    simp only [members, List.forall_mem_cons]
    exact ⟨.str (hnames _ hkind), .obj (fun m hm => hnames _ (hdata m hm)) h.readable_data,
      List.forall_mem_nil _⟩
  exact fun m hm => ⟨hnames _ (hmembers m hm), hread m hm⟩

/-- The payload of a row of `fact_log`. -/
def payload (C : JsonCodec) (f : FactValue) : Str := C.print f.toJson

/-- A payload, read by `facts_since`. -/
def fromPayload (C : JsonCodec) (s : Str) : Option FactValue := (C.parse anyText s).bind ofTagged

/-- **A fact that was logged is read as it.** -/
theorem fromPayload_payload (C : JsonCodec) (hnames : ∀ k ∈ fieldNames, ok k = true)
    (h : f.Typed ok) : fromPayload C (f.payload C) = some f := by
  have hread : Readable ok recursionLimit f.toJson :=
    (readable_obj (h.readable_members hnames)).mono (by decide)
  have hany : Readable anyText recursionLimit f.toJson := hread.imp fun _ _ => rfl
  rw [fromPayload, payload, C.parse_print hany, Option.bind_some, ofTagged_toJson h.sizeFits]

/-- The text of its policy is read as the dynamic value. -/
theorem Typed.parse_policy (C : JsonCodec) {accessKey secretKey : Str} {policy : Value}
    (h : (userPut accessKey secretKey policy).Typed ok) :
    C.parse anyText (C.print policy.tree) = some policy.tree := by
  have hread : Readable anyText 125 policy.tree := h.2.2.imp fun _ _ => rfl
  exact C.parse_print (hread.mono (by decide))

end FactValue

/-- A fact of the tables, as it is serialised: the policy read off its text. -/
def Fact.value (C : JsonCodec) : Fact → FactValue
  | .objectPut bucket key blocks size etag => .objectPut bucket key blocks size etag
  | .objectDelete bucket key => .objectDelete bucket key
  | .blockAnnounce hash locationId fid size => .blockAnnounce hash locationId fid size
  | .userPut accessKey secretKey policy =>
    .userPut accessKey secretKey ((C.parse anyText policy).getD .null).toValue

/-- Nothing is lost in the tables. -/
theorem FactValue.Typed.value_stored (C : JsonCodec) {ok : Str → Bool} {f : FactValue}
    (h : f.Typed ok) : (f.stored C).value C = f := by
  cases f with
  | userPut accessKey secretKey policy =>
    simp only [stored, Fact.value, h.parse_policy C, Option.getD_some, toValue_tree]
  | _ => rfl

/-- The names of fields are UTF-8. -/
theorem validUtf8_fieldNames : ∀ k ∈ fieldNames, validUtf8 k = true := by decide +kernel

/-- The body of a page of facts (`to_vec`). -/
def factsBody (C : JsonCodec) (page : List RecordValue) : Str :=
  C.print (.arr (page.map RecordValue.toJson))

/-- A page of facts, read off the body of a response (`from_slice`). -/
def readFacts (C : JsonCodec) (body : Bytes) : Option (List RecordValue) :=
  (C.parse validUtf8 body).bind (asList RecordValue.ofJson)

/-- A record whose strings are UTF-8 and whose integers are `i64`. -/
structure RecordValue.Typed (r : RecordValue) : Prop where
  seq : IsI64 r.seq
  ts : IsI64 r.ts
  fact : r.fact.Typed validUtf8

/-- A typed record is within the bounds of the reader. -/
theorem RecordValue.Typed.readable {r : RecordValue} (h : r.Typed) :
    Readable validUtf8 127 r.toJson := by
  refine readable_obj ?_
  rw [List.forall_mem_cons, List.forall_mem_cons]
  exact ⟨⟨validUtf8_fieldNames _ (by simp [fieldNames]), readable_i64 h.seq _⟩,
    ⟨validUtf8_fieldNames _ (by simp [fieldNames]), readable_i64 h.ts _⟩,
    h.fact.readable_members validUtf8_fieldNames⟩

/-- A record of the tables, as it is serialised. -/
def FactRecord.value (C : JsonCodec) (rec : FactRecord) : RecordValue :=
  ⟨rec.seq, rec.ts, rec.fact.value C⟩

/-- **A page that is served is read as it.** -/
theorem readFacts_factsBody (C : JsonCodec) {page : List RecordValue} (h : ∀ r ∈ page, r.Typed) :
    readFacts C (factsBody C page) = some page := by
  have hread : Readable validUtf8 recursionLimit
      (.arr (page.map RecordValue.toJson)) := by
    refine .arr ?_
    rw [List.forall_mem_map]
    exact fun r hr => (h r hr).readable
  have hall : readAll RecordValue.ofJson (page.map RecordValue.toJson) =
      some (page.map id) := readAll_map fun r hr =>
    RecordValue.ofJson_toJson (h r hr).seq (h r hr).ts (h r hr).fact.sizeFits
  rw [List.map_id] at hall
  rw [readFacts, factsBody, C.parse_print hread, Option.bind_some, asList, hall]

end Shardscape
