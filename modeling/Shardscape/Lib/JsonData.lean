/-
# Data as JSON

How typed data is read off a JSON tree, as libraries for serialisation derive it.

A record is an object with a member for each field, in any order and among others, or an array
of the fields in order; a field that is missing or there twice is an error.  A sum may be tagged
in place, by two fields for the tag and the content.  A dynamic value (`Json.Value`) is a tree
whose objects are maps: the members are in the order of their keys, and of two with the same key
the later one is kept.
-/

import Shardscape.Lib.Json
import Shardscape.Lib.Sorted

namespace Shardscape
namespace Lib

/-! ### Maps in the order of their keys -/

section

variable {κ ν : Type*} [LinearOrder κ]

/-- Insertion into a map; a key that is there gets the new value. -/
def insertByKey (k : κ) (v : ν) : List (κ × ν) → List (κ × ν)
  | [] => [(k, v)]
  | (k', v') :: ms =>
    if k < k' then (k, v) :: (k', v') :: ms
    else if k = k' then (k, v) :: ms
    else (k', v') :: insertByKey k v ms

/-- The map of a list of pairs, the later ones over the earlier. -/
def mapOfList (ms : List (κ × ν)) : List (κ × ν) :=
  ms.foldl (fun m e => insertByKey e.1 e.2 m) []

variable {ms : List (κ × ν)}

/-- An entry of the map is the new one or an old one. -/
theorem mem_of_mem_insertByKey {k : κ} {v : ν} {e : κ × ν} (h : e ∈ insertByKey k v ms) :
    e = (k, v) ∨ e ∈ ms := by
  induction ms with
  | nil => exact .inl (List.mem_singleton.1 h)
  | cons m ms ih =>
    simp only [insertByKey] at h
    split_ifs at h
    · exact List.mem_cons.1 h
    · rcases List.mem_cons.1 h with h | h
      · exact .inl h
      · exact .inr (List.mem_cons_of_mem _ h)
    · rcases List.mem_cons.1 h with h | h
      · exact .inr (h ▸ List.mem_cons_self)
      · exact (ih h).imp_right (List.mem_cons_of_mem _)

/-- The map stays sorted: the key comes before the first larger one, or in place of its equal. -/
theorem sortedBy_insertByKey {k : κ} {v : ν} (h : SortedBy Prod.fst ms) :
    SortedBy Prod.fst (insertByKey k v ms) := by
  induction ms with
  | nil => exact List.pairwise_singleton _ _
  | cons m ms ih =>
    obtain ⟨hm, hms⟩ := List.pairwise_cons.1 h
    simp only [insertByKey]
    split_ifs with hlt heq
    · refine List.pairwise_cons.2 ⟨?_, h⟩
      intro e he
      rcases List.mem_cons.1 he with rfl | he
      · exact hlt
      · exact hlt.trans (hm e he)
    · subst heq
      exact List.pairwise_cons.2 ⟨hm, hms⟩
    · refine List.pairwise_cons.2 ⟨?_, ih hms⟩
      intro e he
      rcases mem_of_mem_insertByKey he with rfl | he
      · exact lt_of_le_of_ne (not_lt.1 hlt) (Ne.symm heq)
      · exact hm e he

/-- A key above all others is inserted at the end. -/
theorem insertByKey_of_lt {k : κ} {v : ν} (h : ∀ e ∈ ms, e.1 < k) :
    insertByKey k v ms = ms ++ [(k, v)] := by
  induction ms with
  | nil => rfl
  | cons m ms ih =>
    rw [List.forall_mem_cons] at h
    simp only [insertByKey, if_neg (not_lt.2 h.1.le), if_neg h.1.ne', ih h.2, List.cons_append]

/-- Keys that come in order are put at the end one by one. -/
theorem foldl_insertByKey {l ms : List (κ × ν)} (h : SortedBy Prod.fst (l ++ ms)) :
    ms.foldl (fun m e => insertByKey e.1 e.2 m) l = l ++ ms := by
  induction ms generalizing l with
  | nil => simp
  | cons e ms ih =>
    have hlt : ∀ e' ∈ l, e'.1 < e.1 := fun e' he' =>
      (List.pairwise_append.1 h).2.2 e' he' e List.mem_cons_self
    rw [List.foldl_cons, insertByKey_of_lt hlt]
    rw [List.append_cons] at h
    rw [ih h, ← List.append_cons]

/-- A list in order is its own map. -/
theorem mapOfList_of_sorted (h : SortedBy Prod.fst ms) : mapOfList ms = ms :=
  foldl_insertByKey (l := []) h

/-- A map is in order. -/
theorem sortedBy_mapOfList (ms : List (κ × ν)) : SortedBy Prod.fst (mapOfList ms) := by
  have hfold : ∀ l : List (κ × ν), SortedBy Prod.fst l →
      SortedBy Prod.fst (ms.foldl (fun m e => insertByKey e.1 e.2 m) l) := by
    induction ms with
    | nil => exact fun l hl => hl
    | cons e ms ih => exact fun l hl => ih _ (sortedBy_insertByKey hl)
  exact hfold [] List.Pairwise.nil

/-- And has no other pairs. -/
theorem mem_of_mem_mapOfList {e : κ × ν} (h : e ∈ mapOfList ms) : e ∈ ms := by
  have hfold : ∀ l : List (κ × ν), e ∈ ms.foldl (fun m e => insertByKey e.1 e.2 m) l →
      e ∈ l ∨ e ∈ ms := by
    clear h
    induction ms with
    | nil => exact fun l hl => .inl hl
    | cons e' ms ih =>
      intro l hl
      rcases ih _ hl with hl | hl
      · rcases mem_of_mem_insertByKey hl with rfl | hl
        · exact .inr List.mem_cons_self
        · exact .inl hl
      · exact .inr (List.mem_cons_of_mem _ hl)
  exact (hfold [] h).resolve_left (by simp)

end

namespace Json

/-! ### Dynamic values -/

mutual

/-- The dynamic value of a tree: its objects become maps. -/
def canon : Json → Json
  | .arr vs => .arr (canonList vs)
  | .obj ms => .obj (mapOfList (canonMembers ms))
  | .null => .null
  | .bool b => .bool b
  | .int n => .int n
  | .str s => .str s

def canonList : List Json → List Json
  | [] => []
  | v :: vs => canon v :: canonList vs

def canonMembers : List (Str × Json) → List (Str × Json)
  | [] => []
  | m :: ms => canonMember m :: canonMembers ms

def canonMember : Str × Json → Str × Json
  | (k, v) => (k, canon v)

end

/-- Arrays are made canonical element by element. -/
theorem canonList_eq_map (vs : List Json) : canonList vs = vs.map canon := by
  induction vs with
  | nil => rw [canonList, List.map_nil]
  | cons v vs ih => rw [canonList, ih, List.map_cons]

/-- Members are made canonical value by value. -/
theorem canonMembers_eq_map (ms : List (Str × Json)) :
    canonMembers ms = ms.map fun m => (m.1, canon m.2) := by
  induction ms with
  | nil => rw [canonMembers, List.map_nil]
  | cons m ms ih =>
    obtain ⟨k, v⟩ := m
    rw [canonMembers, ih, canonMember, List.map_cons]

mutual

/-- Making maps of the objects again changes nothing. -/
theorem canon_canon : ∀ v : Json, canon (canon v) = canon v
  | .arr vs => by
    rw [canon, canon, canonList_canonList vs]
  | .obj ms => by
    have hfix : ∀ m ∈ canonMembers ms, canon m.2 = m.2 := canon_of_mem_canonMembers ms
    have hmap : canonMembers (mapOfList (canonMembers ms)) = mapOfList (canonMembers ms) := by
      rw [canonMembers_eq_map]
      refine (List.map_congr_left fun m hm => ?_).trans (List.map_id _)
      rw [hfix m (mem_of_mem_mapOfList hm)]
      rfl
    rw [canon, canon, hmap, mapOfList_of_sorted (sortedBy_mapOfList _)]
  | .null => by rw [canon, canon]
  | .bool b => by rw [canon, canon]
  | .int n => by rw [canon, canon]
  | .str s => by rw [canon, canon]

/-- Canonical elements of an array stay as they are. -/
theorem canonList_canonList : ∀ vs : List Json, canonList (canonList vs) = canonList vs
  | [] => by rw [canonList, canonList]
  | v :: vs => by rw [canonList, canonList, canon_canon v, canonList_canonList vs]

/-- Canonical members of an object stay as they are. -/
theorem canon_of_mem_canonMembers : ∀ ms : List (Str × Json), ∀ m ∈ canonMembers ms,
    canon m.2 = m.2
  | [], m, hm => by simp [canonMembers] at hm
  | e :: ms, m, hm => by
    rw [canonMembers, List.mem_cons] at hm
    rcases hm with rfl | hm
    · exact canon_of_canonMember e
    · exact canon_of_mem_canonMembers ms m hm

/-- A canonical member stays as it is. -/
theorem canon_of_canonMember : ∀ e : Str × Json, canon (canonMember e).2 = (canonMember e).2
  | (k, v) => by
    rw [canonMember]
    exact canon_canon v

end

/-- A dynamic value. -/
structure Value where
  tree : Json
  canonical : tree.canon = tree

/-- The dynamic value of a tree. -/
def toValue (v : Json) : Value := ⟨v.canon, canon_canon v⟩

/-- A dynamic value is its own canonical form. -/
@[simp] theorem toValue_tree (v : Value) : v.tree.toValue = v := by
  obtain ⟨tree, canonical⟩ := v
  simp only [toValue, canonical]

/-! ### Fields -/

/-- Reading every element of a list. -/
def readAll {α β : Type} (read : α → Option β) : List α → Option (List β)
  | [] => some []
  | a :: as =>
    match read a, readAll read as with
    | some b, some bs => some (b :: bs)
    | _, _ => none

/-- What is read of elements that were written. -/
theorem readAll_map {α β γ : Type} {read : α → Option β} {write : γ → α} {view : γ → β}
    {l : List γ} (h : ∀ x ∈ l, read (write x) = some (view x)) :
    readAll read (l.map write) = some (l.map view) := by
  induction l with
  | nil => rfl
  | cons x l ih =>
    rw [List.forall_mem_cons] at h
    simp only [List.map_cons, readAll, h.1, ih h.2]

/-- A string. -/
def asStr : Json → Option Str
  | .str s => some s
  | _ => none

/-- A signed integer of 64 bits. -/
def asI64 : Json → Option ℤ
  | .int n => if -2 ^ 63 ≤ n ∧ n < 2 ^ 63 then some n else none
  | _ => none

/-- A list. -/
def asList {α : Type} (read : Json → Option α) : Json → Option (List α)
  | .arr vs => readAll read vs
  | _ => none

/-- The member of an object under a key, if there is exactly one. -/
def field (k : Str) (ms : List (Str × Json)) : Option Json :=
  match ms.filter fun m => m.1 = k with
  | [m] => some m.2
  | _ => none

/-- The member under a key with a default: `none` is an error, the key twice. -/
def fieldOr (k : Str) (default : Json) (ms : List (Str × Json)) : Option Json :=
  match ms.filter fun m => m.1 = k with
  | [] => some default
  | [m] => some m.2
  | _ => none

/-- The fields of a record. -/
def record (names : List Str) : Json → Option (List Json)
  | .obj ms => readAll (field · ms) names
  | .arr vs => if vs.length = names.length then some vs else none
  | _ => none

/-- The integers of 64 bits. -/
def IsI64 (n : ℤ) : Prop := -2 ^ 63 ≤ n ∧ n < 2 ^ 63

instance decidableIsI64 (n : ℤ) : Decidable (IsI64 n) := inferInstanceAs (Decidable (_ ∧ _))

/-- An integer of 64 bits is read as it is. -/
theorem asI64_int {n : ℤ} (h : IsI64 n) : asI64 (.int n) = some n := if_pos h

/-- It is within the bounds of every reader. -/
theorem readable_i64 {ok : Str → Bool} {n : ℤ} (h : IsI64 n) (depth : ℕ) :
    Readable ok (depth + 1) (.int n) :=
  .int h.1 (lt_trans h.2 (by norm_num))

/-- An object of readable members. -/
theorem readable_obj {ok : Str → Bool} {depth : ℕ} {ms : List (Str × Json)}
    (h : ∀ m ∈ ms, ok m.1 = true ∧ Readable ok (depth + 1) m.2) :
    Readable ok (depth + 2) (.obj ms) :=
  .obj (fun m hm => (h m hm).1) fun m hm => (h m hm).2

/-- A list of strings reads back. -/
theorem asList_strs (l : List Str) : asList asStr (.arr (l.map .str)) = some l := by
  have h : readAll asStr (l.map Json.str) = some (l.map id) := readAll_map fun _ _ => rfl
  rw [List.map_id] at h
  exact h

/-- It is within the bounds of a reader that takes the strings. -/
theorem readable_strs {ok : Str → Bool} {l : List Str} (h : ∀ s ∈ l, ok s = true) (depth : ℕ) :
    Readable ok (depth + 2) (.arr (l.map .str)) := by
  refine .arr ?_
  rw [List.forall_mem_map]
  exact fun s hs => .str (h s hs)

end Json
end Lib
end Shardscape
