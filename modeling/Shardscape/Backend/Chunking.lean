/-
# Cutting a body into blocks

`src/chunking.rs`: `FixedSizeStrategy` and `DynamicCDCStrategy`, and the way
`put_object` and `upload_part` of `src/storage.rs` drive them.  A body arrives in
frames; each frame is added to a buffer, `process` takes off the chunks that are
complete, and `finalize` takes what is left at the end.

The loops of `process` are written with the length of the buffer as fuel.  With
positive sizes that is enough: they stop where the loops of the source do
(`length_processFixed`, `processCdc_stops`).  However a body is framed, its
chunks are pieces of it in order (`flatten_chunks`).

`fastcdc` is an external crate: `FastCdc` is the first cut it makes in a buffer,
with what the source relies on, that it is not empty (the loop ends) and lies
inside the buffer (`split_to` does not panic).

`DynamicCDCStrategy::process` panics on a size that is no `u32`
(`self.min_size.try_into().unwrap()`) and where `FastCDC::new` refuses the sizes:
`process` is `none` there.  It happens only when a buffer is long enough to be cut, and
never with sizes that fit (`process_eq_some`).
-/

import Shardscape.Lib.Bytes

namespace Shardscape

open Lib

/-- `fastcdc::v2020::Chunk`, its place in the buffer. -/
structure CdcChunk where
  offset : ℕ
  length : ℕ

/-- The `fastcdc` crate: the sizes that `FastCDC::new` takes, for it asserts bounds of its
own, and the first chunk of a buffer. -/
structure FastCdc where
  accepts : (minSize avgSize maxSize : ℕ) → Bool
  next : (minSize avgSize maxSize : ℕ) → Bytes → Option CdcChunk
  length_pos : ∀ {mn av mx buf c}, next mn av mx buf = some c → 0 < c.length
  stop_le : ∀ {mn av mx buf c}, next mn av mx buf = some c → c.offset + c.length ≤ buf.length

/-- The sizes on which `FastCDC::new`, called as `process` calls it, does not panic: they fit
the `u32`s it takes, and it accepts them. -/
def FastCdc.Takes (C : FastCdc) (minSize avgSize maxSize : ℕ) : Prop :=
  (minSize < 2 ^ 32 ∧ avgSize < 2 ^ 32 ∧ maxSize < 2 ^ 32) ∧
    C.accepts minSize avgSize maxSize = true

instance (C : FastCdc) (minSize avgSize maxSize : ℕ) :
    Decidable (C.Takes minSize avgSize maxSize) :=
  inferInstanceAs (Decidable (_ ∧ _))

/-- `FastCDC::new(&buffer[..], min_size.try_into().unwrap(), ..).next()`; `none` is a panic. -/
def FastCdc.first (C : FastCdc) (minSize avgSize maxSize : ℕ) (buffer : Bytes) :
    Option (Option CdcChunk) :=
  if C.Takes minSize avgSize maxSize then some (C.next minSize avgSize maxSize buffer) else none

/-- A cutter for concrete runs: it takes the sizes from the least that the crate allows on, and
never finds a boundary before `maxSize`. -/
def FastCdc.sample : FastCdc where
  accepts minSize avgSize maxSize :=
    decide (64 ≤ minSize) && decide (256 ≤ avgSize) && decide (1024 ≤ maxSize)
  next _ _ maxSize buf :=
    if 0 < min maxSize buf.length then some ⟨0, min maxSize buf.length⟩ else none
  length_pos h := by
    split_ifs at h with hpos
    rw [← Option.some.inj h]
    exact hpos
  stop_le h := by
    split_ifs at h
    rw [← Option.some.inj h, Nat.zero_add]
    exact min_le_right _ _

/-- `ChunkingConfig`, which picks the `ChunkingStrategy`. -/
inductive ChunkingStrategy where
  | fixed (chunkSize : ℕ)
  | cdc (minSize avgSize maxSize : ℕ)

namespace ChunkingStrategy

/-- The sizes are positive. -/
def Positive : ChunkingStrategy → Prop
  | fixed chunkSize => 0 < chunkSize
  | cdc minSize avgSize maxSize => 0 < minSize ∧ 0 < avgSize ∧ 0 < maxSize

/-- The sizes of `DynamicCDCStrategy` are sizes that `fastcdc` takes. -/
def Fits (C : FastCdc) : ChunkingStrategy → Prop
  | fixed _ => True
  | cdc minSize avgSize maxSize => C.Takes minSize avgSize maxSize

/-- The loop of `FixedSizeStrategy::process`: the chunks taken off and the buffer
left. -/
def processFixed (chunkSize : ℕ) : ℕ → Bytes → List Bytes × Bytes
  | 0, buffer => ([], buffer)
  | fuel + 1, buffer =>
    if chunkSize ≤ buffer.length then
      let r := processFixed chunkSize fuel (buffer.drop chunkSize)
      (buffer.take chunkSize :: r.1, r.2)
    else ([], buffer)

/-- The loop of `DynamicCDCStrategy::process`: a chunk that reaches the end of the
buffer is taken only if it has the maximal size.  `none` is a panic. -/
def processCdc (C : FastCdc) (minSize avgSize maxSize : ℕ) :
    ℕ → Bytes → Option (List Bytes × Bytes)
  | 0, buffer => some ([], buffer)
  | fuel + 1, buffer =>
    if buffer.length < minSize then some ([], buffer)
    else
      match C.first minSize avgSize maxSize buffer with
      | none => none
      | some none => some ([], buffer)
      | some (some chunk) =>
        let stop := chunk.offset + chunk.length
        if stop < buffer.length ∨ maxSize ≤ chunk.length then
          (processCdc C minSize avgSize maxSize fuel (buffer.drop stop)).map
            fun r => (buffer.take stop :: r.1, r.2)
        else some ([], buffer)

/-- `process`: the chunks taken off and the buffer left, or a panic. -/
def process (C : FastCdc) : ChunkingStrategy → Bytes → Option (List Bytes × Bytes)
  | fixed chunkSize, buffer => some (processFixed chunkSize buffer.length buffer)
  | cdc minSize avgSize maxSize, buffer =>
    processCdc C minSize avgSize maxSize buffer.length buffer

/-- What `process` takes off and leaves where it does not panic, as it never does with sizes
that fit (`process_eq_some`). -/
def processed (C : FastCdc) (strategy : ChunkingStrategy) (buffer : Bytes) : List Bytes × Bytes :=
  (strategy.process C buffer).getD ([], buffer)

/-- `finalize`, the same for both strategies. -/
def finalize (buffer : Bytes) : Option Bytes := if buffer.isEmpty then none else some buffer

/-! ### The loops stop where those of the source do -/

/-- With enough fuel the buffer left is shorter than a chunk. -/
theorem length_processFixed {n : ℕ} (hn : 0 < n) :
    ∀ {fuel : ℕ} {buffer : Bytes}, buffer.length ≤ fuel →
      (processFixed n fuel buffer).2.length < n
  | 0, buffer, h => by
    show buffer.length < n
    omega
  | fuel + 1, buffer, h => by
    rw [processFixed]
    split_ifs with hle
    · refine length_processFixed hn ?_
      rw [List.length_drop]
      omega
    · exact Nat.lt_of_not_le hle

/-- Where the loop of `DynamicCDCStrategy::process` breaks. -/
def CdcStops (C : FastCdc) (minSize avgSize maxSize : ℕ) (buffer : Bytes) : Prop :=
  buffer.length < minSize ∨ ∀ chunk, C.next minSize avgSize maxSize buffer = some chunk →
    ¬ (chunk.offset + chunk.length < buffer.length ∨ maxSize ≤ chunk.length)

section Cdc

variable {C : FastCdc} {mn av mx fuel : ℕ} {buffer : Bytes} {r : List Bytes × Bytes}

/-- An iteration of the loop of `DynamicCDCStrategy::process` that does not panic: it breaks, or
it takes off the first chunk and goes on with the rest of the buffer. -/
theorem processCdc_cases (h : processCdc C mn av mx (fuel + 1) buffer = some r) :
    r = ([], buffer) ∧ CdcStops C mn av mx buffer ∨
      ∃ chunk r', C.next mn av mx buffer = some chunk ∧
        (chunk.offset + chunk.length < buffer.length ∨ mx ≤ chunk.length) ∧
        processCdc C mn av mx fuel (buffer.drop (chunk.offset + chunk.length)) = some r' ∧
        r = (buffer.take (chunk.offset + chunk.length) :: r'.1, r'.2) := by
  rw [processCdc] at h
  split_ifs at h with hlt
  · exact .inl ⟨(Option.some.inj h).symm, .inl hlt⟩
  · rw [FastCdc.first] at h
    split_ifs at h with htakes
    cases hnext : C.next mn av mx buffer with
    | none =>
      rw [hnext] at h
      refine .inl ⟨(Option.some.inj h).symm, .inr fun chunk hchunk => ?_⟩
      rw [hnext] at hchunk
      cases hchunk
    | some chunk =>
      rw [hnext] at h
      dsimp only at h
      split_ifs at h with hcut
      · obtain ⟨r', hr', hr⟩ := Option.map_eq_some_iff.1 h
        exact .inr ⟨chunk, r', rfl, hcut, hr', hr.symm⟩
      · refine .inl ⟨(Option.some.inj h).symm, .inr fun chunk' hchunk => ?_⟩
        rw [hnext] at hchunk
        exact Option.some.inj hchunk ▸ hcut

/-- With sizes that `fastcdc` takes the loop does not panic. -/
theorem exists_processCdc (h : C.Takes mn av mx) (fuel : ℕ) (buffer : Bytes) :
    ∃ r, processCdc C mn av mx fuel buffer = some r := by
  induction fuel generalizing buffer with
  | zero => exact ⟨_, rfl⟩
  | succ fuel ih =>
    rw [processCdc, FastCdc.first, if_pos h]
    split_ifs with hlt
    · exact ⟨_, rfl⟩
    · cases C.next mn av mx buffer with
      | none => exact ⟨_, rfl⟩
      | some chunk =>
        dsimp only
        split_ifs with hcut
        · obtain ⟨r, hr⟩ := ih (buffer.drop (chunk.offset + chunk.length))
          rw [hr]
          exact ⟨_, rfl⟩
        · exact ⟨_, rfl⟩

/-- With enough fuel the loop ends where that of the source breaks. -/
theorem processCdc_stops (hmn : 0 < mn) (hfuel : buffer.length ≤ fuel)
    (h : processCdc C mn av mx fuel buffer = some r) : CdcStops C mn av mx r.2 := by
  induction fuel generalizing buffer r with
  | zero =>
    obtain rfl := Option.some.inj h
    refine .inl ?_
    show buffer.length < mn
    omega
  | succ fuel ih =>
    obtain ⟨rfl, hstops⟩ | ⟨chunk, r', hnext, hcut, hr', rfl⟩ := processCdc_cases h
    · exact hstops
    · have hpos := C.length_pos hnext
      show CdcStops C mn av mx r'.2
      refine ih ?_ hr'
      rw [List.length_drop]
      omega

end Cdc

/-- **With sizes that fit, `process` does not panic**, on any buffer. -/
theorem process_eq_some {C : FastCdc} {strategy : ChunkingStrategy} (h : strategy.Fits C)
    (buffer : Bytes) : strategy.process C buffer = some (strategy.processed C buffer) := by
  have hsome : ∃ r, strategy.process C buffer = some r := by
    cases strategy with
    | fixed n => exact ⟨_, rfl⟩
    | cdc mn av mx => exact exists_processCdc h _ _
  obtain ⟨r, hr⟩ := hsome
  rw [processed, hr, Option.getD_some]

/-- **Where it panics**: sizes that `fastcdc` does not take, and a buffer of at least the minimal
size. -/
theorem process_eq_none_iff {C : FastCdc} {mn av mx : ℕ} (hmn : 0 < mn) (buffer : Bytes) :
    (cdc mn av mx).process C buffer = none ↔ mn ≤ buffer.length ∧ ¬ C.Takes mn av mx := by
  rw [process]
  constructor
  · intro h
    refine ⟨?_, fun htakes => ?_⟩
    · by_contra hlt
      cases hfuel : buffer.length with
      | zero =>
        rw [hfuel] at h
        cases h
      | succ fuel =>
        rw [hfuel, processCdc, if_pos (Nat.lt_of_not_le hlt)] at h
        cases h
    · obtain ⟨r, hr⟩ := exists_processCdc htakes buffer.length buffer
      rw [hr] at h
      cases h
  · rintro ⟨hle, htakes⟩
    obtain ⟨fuel, hfuel⟩ := Nat.exists_eq_add_one.2 (hmn.trans_le hle)
    rw [hfuel, processCdc, if_neg (Nat.not_lt.2 hle), FastCdc.first, if_neg htakes]

example : (cdc 64 256 (2 ^ 32)).process FastCdc.sample (List.replicate 64 0) = none := by decide

/-! ### Chunks are pieces of the buffer -/

/-- Chunks of fixed size and the rest are the buffer. -/
theorem flatten_processFixed (n : ℕ) :
    ∀ (fuel : ℕ) (buffer : Bytes),
      (processFixed n fuel buffer).1.flatten ++ (processFixed n fuel buffer).2 = buffer
  | 0, _ => rfl
  | fuel + 1, buffer => by
    rw [processFixed]
    split_ifs
    · rw [List.flatten_cons, List.append_assoc, flatten_processFixed n fuel,
        List.take_append_drop]
    · rfl

/-- Chunks by content and the rest are the buffer. -/
theorem flatten_processCdc {C : FastCdc} {mn av mx fuel : ℕ} {buffer : Bytes}
    {r : List Bytes × Bytes} (h : processCdc C mn av mx fuel buffer = some r) :
    r.1.flatten ++ r.2 = buffer := by
  induction fuel generalizing buffer r with
  | zero =>
    obtain rfl := Option.some.inj h
    rfl
  | succ fuel ih =>
    obtain ⟨rfl, -⟩ | ⟨chunk, r', -, -, hr', rfl⟩ := processCdc_cases h
    · rfl
    · rw [List.flatten_cons, List.append_assoc, ih hr', List.take_append_drop]

/-- **Nothing of the buffer is lost or reordered.** -/
theorem flatten_processed (C : FastCdc) (strategy : ChunkingStrategy) (buffer : Bytes) :
    (strategy.processed C buffer).1.flatten ++ (strategy.processed C buffer).2 = buffer := by
  cases strategy with
  | fixed n => exact flatten_processFixed n _ _
  | cdc mn av mx =>
    rw [processed]
    cases h : (cdc mn av mx).process C buffer with
    | none => rfl
    | some r => exact flatten_processCdc h

/-! ### A body in frames -/

/-- The bytes of a body: its frames one after the other, or the first error of the
stream. -/
def bodyOf {ε : Type} : List (Except ε Bytes) → Except ε Bytes
  | [] => .ok []
  | .error e :: _ => .error e
  | .ok frame :: frames =>
    match bodyOf frames with
    | .ok body => .ok (frame ++ body)
    | .error e => .error e

/-- The chunks cut from a body, in the order they are stored; after an error of the
stream no more come. -/
def chunks (C : FastCdc) (strategy : ChunkingStrategy) :
    List (Except Str Bytes) → Bytes → List Bytes
  | [], buffer => (finalize buffer).toList
  | .error _ :: _, _ => []
  | .ok frame :: frames, buffer =>
    (strategy.processed C (buffer ++ frame)).1 ++
      chunks C strategy frames (strategy.processed C (buffer ++ frame)).2

/-- **The chunks of a body are the body**, however it is framed. -/
theorem flatten_chunks (C : FastCdc) (strategy : ChunkingStrategy) :
    ∀ {frames : List (Except Str Bytes)} {buffer body : Bytes}, bodyOf frames = .ok body →
      (chunks C strategy frames buffer).flatten = buffer ++ body
  | [], buffer, body, h => by
    rw [← Except.ok.inj h, List.append_nil, chunks, finalize]
    cases buffer <;> simp
  | .error e :: frames, buffer, body, h => nomatch h
  | .ok frame :: frames, buffer, body, h => by
    rw [bodyOf] at h
    cases hrest : bodyOf frames with
    | error e =>
      rw [hrest] at h
      exact nomatch h
    | ok rest =>
      rw [hrest] at h
      have hbody : frame ++ rest = body := Except.ok.inj h
      rw [chunks, List.flatten_append, flatten_chunks C strategy hrest, ← List.append_assoc,
        flatten_processed, List.append_assoc, hbody]

example : chunks FastCdc.sample (fixed 2) [.ok [1, 2, 3], .ok [], .ok [4, 5]] [] =
    [[1, 2], [3, 4], [5]] := by decide

end ChunkingStrategy
end Shardscape
