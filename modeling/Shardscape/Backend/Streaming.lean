/-
# Chunks do not depend on the framing

`src/chunking.rs` again: `process` after every frame and `finalize` at the end, as
`put_object` of `src/storage.rs` drives them, against one `process` of the whole body.

Each strategy is a `Cutter`: `FixedSizeStrategy` cuts after `chunk_size` bytes,
`DynamicCDCStrategy` where `fastcdc` ends its first chunk.  `process` takes off the pieces
whose end is settled (`takes_processed`) and stops at a buffer that is one piece
(`cut_processed`), which is what `finalize` makes of it.  So the chunks of a body are its
pieces, whatever its frames are (`chunks_eq_pieces`).

Of `fastcdc` this takes what `FirstCut` says: that it finds a first chunk no longer than the
maximum, in a buffer of at most the minimum the whole of it, and that bytes appended to a
buffer do not move an end that is not the end of the buffer, or is at the maximum.
-/

import Shardscape.Backend.Chunking
import Shardscape.Lib.Cuts

namespace Shardscape

open Lib

/-- Where the first chunk that `fastcdc` finds in a buffer ends. -/
def FastCdc.cut (C : FastCdc) (minSize avgSize maxSize : ℕ) (buffer : Bytes) : ℕ :=
  match C.next minSize avgSize maxSize buffer with
  | none => 0
  | some chunk => chunk.offset + chunk.length

/-- What is assumed of `fastcdc`'s first cut. -/
structure FastCdc.FirstCut (C : FastCdc) (minSize avgSize maxSize : ℕ) : Prop where
  pos {buffer : Bytes} : buffer ≠ [] → 1 ≤ C.cut minSize avgSize maxSize buffer
  le_max (buffer : Bytes) : C.cut minSize avgSize maxSize buffer ≤ maxSize
  whole {buffer : Bytes} : buffer.length ≤ minSize →
    C.cut minSize avgSize maxSize buffer = buffer.length
  stable {buffer : Bytes} (more : Bytes) :
    C.cut minSize avgSize maxSize buffer < buffer.length ∨
        C.cut minSize avgSize maxSize buffer = maxSize →
      C.cut minSize avgSize maxSize (buffer ++ more) = C.cut minSize avgSize maxSize buffer

/-- Without a chunk nothing is cut. -/
theorem FastCdc.cut_of_none {C : FastCdc} {mn av mx : ℕ} {buffer : Bytes}
    (h : C.next mn av mx buffer = none) : C.cut mn av mx buffer = 0 := by
  rw [FastCdc.cut, h]

/-- A chunk is cut off with what stands before it. -/
theorem FastCdc.cut_of_some {C : FastCdc} {mn av mx : ℕ} {buffer : Bytes} {chunk : CdcChunk}
    (h : C.next mn av mx buffer = some chunk) :
    C.cut mn av mx buffer = chunk.offset + chunk.length := by
  rw [FastCdc.cut, h]

/-- The cut is inside the buffer. -/
theorem FastCdc.cut_le (C : FastCdc) (mn av mx : ℕ) (buffer : Bytes) :
    C.cut mn av mx buffer ≤ buffer.length := by
  cases hnext : C.next mn av mx buffer with
  | none => exact FastCdc.cut_of_none hnext ▸ Nat.zero_le _
  | some chunk => exact FastCdc.cut_of_some hnext ▸ C.stop_le hnext

namespace ChunkingStrategy

/-- The settings a strategy is used with: a positive chunk size, or sizes in order that
`fastcdc` takes (they fit its `u32`s) and the assumption on `fastcdc`. -/
def Sound (C : FastCdc) : ChunkingStrategy → Prop
  | fixed chunkSize => 1 ≤ chunkSize
  | cdc minSize avgSize maxSize =>
    (minSize ≤ avgSize ∧ avgSize ≤ maxSize) ∧ C.Takes minSize avgSize maxSize ∧
      C.FirstCut minSize avgSize maxSize

/-- The longest chunk there may be. -/
def maxChunk : ChunkingStrategy → ℕ
  | fixed chunkSize => chunkSize
  | cdc _ _ maxSize => maxSize

/-- Where a strategy cuts. -/
def cutter (C : FastCdc) (strategy : ChunkingStrategy) (h : strategy.Sound C) : Cutter Byte where
  cut buffer :=
    match strategy with
    | fixed chunkSize => min chunkSize buffer.length
    | cdc minSize avgSize maxSize => C.cut minSize avgSize maxSize buffer
  cut_pos {buffer} hne := by
    have hlen := List.length_pos_of_ne_nil hne
    cases strategy with
    | fixed chunkSize => exact Nat.lt_min.2 ⟨h, hlen⟩
    | cdc minSize avgSize maxSize => exact h.2.2.pos hne
  cut_le buffer := by
    cases strategy with
    | fixed chunkSize => exact Nat.min_le_right _ _
    | cdc minSize avgSize maxSize => exact C.cut_le minSize avgSize maxSize buffer

variable {C : FastCdc}

/-- No cut is past the maximum. -/
theorem cut_le_maxChunk {strategy : ChunkingStrategy} (h : strategy.Sound C) (buffer : Bytes) :
    (strategy.cutter C h).cut buffer ≤ strategy.maxChunk := by
  cases strategy with
  | fixed n => exact Nat.min_le_left _ _
  | cdc mn av mx => exact h.2.2.le_max buffer

/-! ### `FixedSizeStrategy` -/

/-- `FixedSizeStrategy::process` takes off settled pieces. -/
theorem takes_processFixed {n : ℕ} (h : (fixed n).Sound C) :
    ∀ (fuel : ℕ) (buffer : Bytes), ((fixed n).cutter C h).Takes buffer
      (processFixed n fuel buffer).1 (processFixed n fuel buffer).2
  | 0, buffer => .stop buffer
  | fuel + 1, buffer => by
    have hn : 1 ≤ n := h
    rw [processFixed]
    split_ifs with hle
    · have hcut : ((fixed n).cutter C h).cut buffer = n := Nat.min_eq_left hle
      have hne : buffer ≠ [] := by
        rintro rfl
        rw [List.length_nil] at hle
        omega
      have hsettled : ((fixed n).cutter C h).Settled buffer := fun more => by
        rw [hcut]
        exact Nat.min_eq_left (hle.trans (by simp))
      exact .take_of_cut_eq hcut hne hsettled (takes_processFixed h fuel (buffer.drop n))
    · exact .stop buffer

/-! ### `DynamicCDCStrategy` -/

section Cdc

variable {mn av mx fuel : ℕ} {buffer : Bytes} {r : List Bytes × Bytes}

/-- `DynamicCDCStrategy::process` takes off settled pieces. -/
theorem takes_processCdc (h : (cdc mn av mx).Sound C)
    (hr : processCdc C mn av mx fuel buffer = some r) :
    ((cdc mn av mx).cutter C h).Takes buffer r.1 r.2 := by
  induction fuel generalizing buffer r with
  | zero =>
    obtain rfl := Option.some.inj hr
    exact .stop buffer
  | succ fuel ih =>
    obtain ⟨rfl, -⟩ | ⟨chunk, r', hnext, hreal, hr', rfl⟩ := processCdc_cases hr
    · exact .stop buffer
    · have hcut := FastCdc.cut_of_some hnext
      have hne : buffer ≠ [] := by
        rintro rfl
        have hpos := C.length_pos hnext
        have hstop := C.stop_le hnext
        rw [List.length_nil] at hstop
        omega
      -- a chunk of the maximal size ends at the maximum
      have hend : C.cut mn av mx buffer < buffer.length ∨ C.cut mn av mx buffer = mx := by
        have hmax := h.2.2.le_max buffer
        omega
      exact .take_of_cut_eq hcut hne (fun more => h.2.2.stable more hend) (ih hr')

/-- A buffer at which the loop breaks is one piece: it is shorter than the minimum, or its first
chunk ends where the buffer does. -/
theorem CdcStops.cut_eq (h : C.FirstCut mn av mx) (hstops : CdcStops C mn av mx buffer) :
    C.cut mn av mx buffer = buffer.length := by
  rcases hstops with hlt | hstops
  · exact h.whole hlt.le
  · cases hnext : C.next mn av mx buffer with
    | none =>
      -- there is a first chunk in every buffer but the empty one
      have hcut := FastCdc.cut_of_none hnext
      cases buffer with
      | nil => exact hcut
      | cons b rest =>
        have hpos := h.pos (List.cons_ne_nil b rest)
        omega
    | some chunk =>
      have hcut := FastCdc.cut_of_some hnext
      have hle := C.stop_le hnext
      have hnot := hstops chunk hnext
      omega

/-- The loop of `DynamicCDCStrategy::process` ends at a buffer that is one piece, whatever the
minimal size: with enough fuel it ends where it breaks, or at the empty buffer. -/
theorem cut_processCdc (h : C.FirstCut mn av mx) (hfuel : buffer.length ≤ fuel)
    (hr : processCdc C mn av mx fuel buffer = some r) : C.cut mn av mx r.2 = r.2.length := by
  induction fuel generalizing buffer r with
  | zero =>
    obtain rfl := Option.some.inj hr
    have hle := C.cut_le mn av mx buffer
    show C.cut mn av mx buffer = buffer.length
    omega
  | succ fuel ih =>
    obtain ⟨rfl, hstops⟩ | ⟨chunk, r', hnext, -, hr', rfl⟩ := processCdc_cases hr
    · exact hstops.cut_eq h
    · have hpos := C.length_pos hnext
      show C.cut mn av mx r'.2 = r'.2.length
      refine ih ?_ hr'
      rw [List.length_drop]
      omega

end Cdc

/-! ### Both -/

variable {strategy : ChunkingStrategy}

/-- Sizes a strategy is used with fit. -/
theorem Sound.fits (h : strategy.Sound C) : strategy.Fits C := by
  cases strategy with
  | fixed n => trivial
  | cdc mn av mx => exact h.2.1

/-- `process` takes off settled pieces. -/
theorem takes_processed (h : strategy.Sound C) (buffer : Bytes) :
    (strategy.cutter C h).Takes buffer (strategy.processed C buffer).1
      (strategy.processed C buffer).2 := by
  have hr := process_eq_some h.fits buffer
  cases strategy with
  | fixed n => exact takes_processFixed h _ _
  | cdc mn av mx => exact takes_processCdc h hr

/-- `process` stops at a buffer that is one piece. -/
theorem cut_processed (h : strategy.Sound C) (buffer : Bytes) :
    (strategy.cutter C h).cut (strategy.processed C buffer).2 =
      (strategy.processed C buffer).2.length := by
  have hr := process_eq_some h.fits buffer
  cases strategy with
  | fixed n => exact Nat.min_eq_right (length_processFixed h (le_refl buffer.length)).le
  | cdc mn av mx => exact cut_processCdc h.2.2 le_rfl hr

/-- What `finalize` makes of a buffer that is one piece. -/
theorem finalize_eq_pieces {c : Cutter Byte} {buffer : Bytes} (h : c.cut buffer = buffer.length) :
    (finalize buffer).toList = c.pieces buffer := by
  cases hb : buffer with
  | nil => rw [Cutter.pieces_nil]; rfl
  | cons b rest => rw [← hb, Cutter.pieces_of_cut_eq h (hb ▸ List.cons_ne_nil b rest), hb]; rfl

/-- **The chunks of a body are its pieces**, with what is in the buffer before it. -/
theorem chunks_eq_pieces (h : strategy.Sound C)
    {frames : List (Except Str Bytes)} {buffer body : Bytes} (hbody : bodyOf frames = .ok body)
    (hone : (strategy.cutter C h).cut buffer = buffer.length) :
    chunks C strategy frames buffer = (strategy.cutter C h).pieces (buffer ++ body) := by
  induction frames generalizing buffer body with
  | nil => rw [← Except.ok.inj hbody, List.append_nil, chunks, finalize_eq_pieces hone]
  | cons frame frames ih =>
    cases frame with
    | error e => cases hbody
    | ok frame =>
      rw [bodyOf] at hbody
      cases hrest : bodyOf frames with
      | error e =>
        rw [hrest] at hbody
        cases hbody
      | ok rest =>
        rw [hrest] at hbody
        obtain rfl : frame ++ rest = body := Except.ok.inj hbody
        rw [chunks, ih hrest (cut_processed h _), ← List.append_assoc,
          (takes_processed h (buffer ++ frame)).pieces_append rest]

/-- **Chunking is independent of streaming.**  However a body is cut into frames, `process`
does not panic and the chunks are those of one `process` and `finalize` of the whole body;
none is empty or longer than the maximum, they are the body put together, and all but the
last of fixed size have that size. -/
theorem chunks_streamed (h : strategy.Sound C)
    {frames : List (Except Str Bytes)} {body : Bytes} (hbody : bodyOf frames = .ok body) :
    (∀ buffer, strategy.process C buffer = some (strategy.processed C buffer)) ∧
      chunks C strategy frames [] =
        (strategy.processed C body).1 ++ (finalize (strategy.processed C body).2).toList ∧
      (∀ c ∈ chunks C strategy frames [], c ≠ [] ∧ c.length ≤ strategy.maxChunk) ∧
      (chunks C strategy frames []).flatten = body ∧
      ∀ n, strategy = fixed n → ∀ c ∈ (chunks C strategy frames []).dropLast, c.length = n := by
  have hempty : (strategy.cutter C h).cut [] = ([] : Bytes).length :=
    Nat.le_zero.1 ((strategy.cutter C h).cut_le [])
  have hpieces := chunks_eq_pieces h hbody hempty
  rw [List.nil_append] at hpieces
  refine ⟨process_eq_some h.fits, ?_, fun c hc => ?_, flatten_chunks C strategy hbody,
    fun n hfixed c hc => ?_⟩
  · have hwhole := (takes_processed h body).pieces_append []
    rw [List.append_nil, List.append_nil] at hwhole
    rw [hpieces, hwhole, finalize_eq_pieces (cut_processed h body)]
  · rw [hpieces] at hc
    obtain ⟨l, hne, rfl⟩ := Cutter.exists_of_mem_pieces _ hc
    have hpos := (strategy.cutter C h).cut_pos hne
    refine ⟨fun hnil => ?_, (List.length_take_le _ _).trans (cut_le_maxChunk h l)⟩
    rcases List.take_eq_nil_iff.1 hnil with hzero | hl
    · omega
    · exact hne hl
  · rw [hpieces] at hc
    obtain ⟨l, hlt, rfl⟩ := Cutter.exists_of_mem_dropLast_pieces _ hc
    subst hfixed
    have hcut : ((fixed n).cutter C h).cut l = min n l.length := rfl
    rw [List.length_take, hcut]
    omega

/-- The cutter of concrete runs cuts at the maximum. -/
theorem firstCut_sample {mn mx : ℕ} (av : ℕ) (hmn : mn ≤ mx) (hmx : 0 < mx) :
    FastCdc.sample.FirstCut mn av mx := by
  have hcut : ∀ buffer, FastCdc.sample.cut mn av mx buffer = min mx buffer.length := by
    intro buffer
    by_cases hpos : 0 < min mx buffer.length
    · have hnext : FastCdc.sample.next mn av mx buffer =
          some ⟨0, min mx buffer.length⟩ := if_pos hpos
      rw [FastCdc.cut_of_some hnext, Nat.zero_add]
    · have hnext : FastCdc.sample.next mn av mx buffer = none := if_neg hpos
      rw [FastCdc.cut_of_none hnext]
      omega
  refine ⟨fun {buffer} hne => ?_, fun buffer => ?_, fun {buffer} hle => ?_,
    fun {buffer} more hend => ?_⟩
  · have hlen := List.length_pos_of_ne_nil hne
    rw [hcut]
    omega
  · rw [hcut]
    omega
  · rw [hcut]
    omega
  · rw [hcut] at hend
    rw [hcut, hcut, List.length_append]
    omega

/-- Three frames, one of them empty, of a body longer than the maximal chunk of 1024 bytes. -/
def threeFrames : List (Except Str Bytes) :=
  [.ok (List.replicate 700 1), .ok [], .ok (List.replicate 700 2)]

/-- `chunks_streamed` on a body in three frames, with the least sizes that `fastcdc` takes: two
chunks, the first of which ends inside the last frame. -/
theorem chunks_streamed_threeFrames : (cdc 64 256 1024).Sound FastCdc.sample ∧
    bodyOf threeFrames = (.ok (List.replicate 700 1 ++ List.replicate 700 2) : Except Str Bytes) ∧
    (chunks FastCdc.sample (cdc 64 256 1024) threeFrames []).map List.length = [1024, 376] ∧
    chunks FastCdc.sample (cdc 64 256 1024) threeFrames [] =
      ((cdc 64 256 1024).processed FastCdc.sample
          (List.replicate 700 1 ++ List.replicate 700 2)).1 ++
        (finalize ((cdc 64 256 1024).processed FastCdc.sample
          (List.replicate 700 1 ++ List.replicate 700 2)).2).toList := by
  have hsound : (cdc 64 256 1024).Sound FastCdc.sample :=
    ⟨by decide, by decide, firstCut_sample 256 (by decide) (by decide)⟩
  have hbody : bodyOf threeFrames =
      (.ok (List.replicate 700 1 ++ List.replicate 700 2) : Except Str Bytes) := by
    simp only [threeFrames, bodyOf, List.nil_append, List.append_nil]
  exact ⟨hsound, hbody, by decide +kernel, (chunks_streamed hsound hbody).2.1⟩

end ChunkingStrategy
end Shardscape
