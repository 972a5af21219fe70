/-
# Hashes, codecs and names for concrete runs

What the runs on fixed inputs of this development use in place of the external crates: a hash
that gives a few texts their real digests, and codecs for policies that can be evaluated.
Nothing that is proved of the store in general is about these.
-/

import Shardscape.Store.Objects

namespace Shardscape

open Lib

/-- A hash for concrete runs: the digests of the texts `a`, `b`, `k` and `l`, and
any other input cut or padded to 32 bytes. -/
def Blake3.sample : Blake3 where
  hash d :=
    if d = [97] then [23, 118, 47, 221, 217, 105, 164, 83, 146, 93, 101, 113, 122, 195, 238, 162,
      19, 32, 182, 107, 84, 52, 47, 222, 21, 18, 141, 108, 175, 33, 33, 95]
    else if d = [98] then [16, 229, 207, 61, 60, 138, 79, 159, 52, 104, 200, 204, 88, 238, 168, 72,
      146, 162, 47, 218, 219, 193, 172, 178, 36, 16, 25, 0, 68, 193, 213, 83]
    else if d = [107] then [92, 188, 176, 206, 232, 36, 185, 24, 102, 205, 103, 245, 122, 102, 67,
      221, 203, 124, 212, 56, 32, 41, 3, 144, 67, 81, 57, 83, 199, 89, 36, 107]
    else if d = [108] then [185, 246, 60, 131, 151, 93, 173, 238, 155, 77, 195, 250, 238, 182, 105,
      221, 239, 52, 187, 225, 46, 58, 6, 38, 24, 49, 102, 152, 38, 129, 216, 28]
    else (d ++ List.replicate 32 0).take 32
  length_hash d := by
    split_ifs <;> first | rfl | simp

/-- The name of the block `a`. -/
def blockOfA : Bytes := Blake3.sample.hash [97]

/-- Two sites are called `a` and `b`. -/
def twoNames : Fin 2 ↪ Str := ⟨fun i => [97 + Fin.castLE (by decide) i], by decide⟩

/-- A policy that allows everything. -/
def allowAll : Policy := ⟨[⟨text "Allow", [text "*"], [text "*"]⟩]⟩

/-- A codec for concrete runs: policies are countable, and a policy is written as
its number in unary. -/
def PolicyJson.sample : PolicyJson where
  toText p := List.replicate (Encodable.encode p) 49
  toValueText p := List.replicate (Encodable.encode p) 49
  parse text := Encodable.decode text.length
  parse_toText p := by rw [List.length_replicate, Encodable.encodek]
  parse_toValueText p := by rw [List.length_replicate, Encodable.encodek]

/-- A codec for runs with one user: a short text for the policy `p`. -/
def PolicyJson.withShort (p : Policy) : PolicyJson where
  toText q := if q = p then [65] else 66 :: PolicyJson.sample.toText q
  toValueText q := if q = p then [65] else 66 :: PolicyJson.sample.toText q
  parse
    | [65] => some p
    | 66 :: text => PolicyJson.sample.parse text
    | _ => none
  parse_toText q := by
    by_cases h : q = p
    · simp [h]
    · simp [h, PolicyJson.sample.parse_toText]
  parse_toValueText q := by
    by_cases h : q = p
    · simp [h]
    · simp [h, PolicyJson.sample.parse_toText]

end Shardscape
