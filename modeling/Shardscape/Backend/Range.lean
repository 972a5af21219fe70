/-
# Ranged reads

`src/storage.rs`: `resolve_range`, `slice_blocks_for_range`, `slice_block_bytes`.
A ranged GET resolves the `Range` header against the size of the object, finds the
blocks it overlaps from their recorded sizes alone, and cuts the first and the
last of them.

What a range stands for is `Range.select`: the bytes of the body it picks.  It is
satisfiable when it picks any.  `resolveRange` finds exactly those
(`resolveRange_eq_none_iff`, `resolveRange_select`), and the slices of the blocks,
put together, are the bytes it found (`flatten_sliceBlocksForRange`).  The subtractions
of the loop are on `u64`: none of them underflows (`sliceBlocksChecked_eq`), and every
slice is a part of its block (`sliceFrom_mem`).  `rangedRead_exact` is all of it.
-/

import Shardscape.Lib.Bytes

namespace Shardscape

open Lib

/-- `Range`: the inclusive positions of the bytes, or their number at the end. -/
inductive Range where
  | int (first : ℕ) (last : Option ℕ)
  | suffix (length : ℕ)

/-- `resolve_range`: the first and the last position. -/
def resolveRange (range : Range) (size : ℕ) : Option (ℕ × ℕ) :=
  if size = 0 then none
  else
    match range with
    | .int first last =>
      if first ≥ size then none
      else
        let stop := min (last.getD (size - 1)) (size - 1)
        if stop < first then none else some (first, stop)
    | .suffix length =>
      if length = 0 then none
      else some (size - min length size, size - 1)

/-- The loop of `slice_blocks_for_range`, at block `i` that starts at `offset`. -/
def sliceFrom (start stop : ℕ) : ℕ → ℕ → List ℤ → List (ℕ × ℕ × ℕ)
  | _, _, [] => []
  | i, offset, sz :: sizes =>
    let size := sz.toNat
    let blockEnd := offset + size
    if size = 0 ∨ blockEnd ≤ start ∨ offset > stop then
      sliceFrom start stop (i + 1) blockEnd sizes
    else
      let s := max start offset - offset
      let e := min stop (blockEnd - 1) - offset
      (i, s, e - s + 1) :: sliceFrom start stop (i + 1) blockEnd sizes

/-- `slice_blocks_for_range`: block, bytes to skip, bytes to take. -/
def sliceBlocksForRange (sizes : List ℤ) (start stop : ℕ) : List (ℕ × ℕ × ℕ) :=
  sliceFrom start stop 0 0 sizes

/-- `slice_block_bytes`. -/
def sliceBlockBytes (data : Bytes) (skip : ℕ) (take : Option ℕ) : Bytes :=
  let data := data.drop (min skip data.length)
  match take with
  | some t => data.take (min t data.length)
  | none => data

/-! ### What a range stands for -/

/-- The bytes of a body that a range picks. -/
def Range.select : Range → Bytes → Bytes
  | .int first (some last), body => (body.take (last + 1)).drop first
  | .int first none, body => body.drop first
  | .suffix length, body => body.drop (body.length - length)

/-- A range is refused exactly when it picks nothing. -/
theorem resolveRange_eq_none_iff (range : Range) (body : Bytes) :
    resolveRange range body.length = none ↔ range.select body = [] := by
  unfold resolveRange
  cases range with
  | int first last =>
    cases last with
    | none =>
      simp only [Range.select, List.drop_eq_nil_iff, Option.getD_none]
      split_ifs <;> simp <;> omega
    | some last =>
      simp only [Range.select, List.drop_eq_nil_iff, List.length_take, Option.getD_some]
      split_ifs <;> simp <;> omega
  | suffix length =>
    simp only [Range.select, List.drop_eq_nil_iff]
    split_ifs <;> simp <;> omega

variable {start stop : ℕ}

/-- A range that is not refused resolves to the positions of the bytes it picks. -/
theorem resolveRange_select {range : Range} {body : Bytes}
    (h : resolveRange range body.length = some (start, stop)) :
    start ≤ stop ∧ stop < body.length ∧
      range.select body = (body.take (stop + 1)).drop start := by
  unfold resolveRange at h
  split_ifs at h with hsize
  cases range with
  | int first last =>
    dsimp only at h
    split_ifs at h with hfirst hstop
    rw [Option.some.injEq, Prod.mk.injEq] at h
    obtain ⟨rfl, rfl⟩ := h
    refine ⟨by omega, by omega, ?_⟩
    have htake : body.take (min (last.getD (body.length - 1)) (body.length - 1) + 1) =
        body.take (last.getD (body.length - 1) + 1) := by
      rw [List.take_eq_take_iff]
      omega
    rw [htake]
    cases last with
    | none =>
      rw [Option.getD_none, Nat.sub_add_cancel (by omega), List.take_length]
      rfl
    | some last => rfl
  | suffix length =>
    dsimp only at h
    split_ifs at h with hlen
    rw [Option.some.injEq, Prod.mk.injEq] at h
    obtain ⟨rfl, rfl⟩ := h
    refine ⟨by omega, by omega, ?_⟩
    rw [Nat.sub_add_cancel (by omega), List.take_length, Range.select]
    congr 1
    omega

/-! ### The slices -/

/-- One slice: the part of a block that lies inside the range, when the block
starts at `offset`. -/
theorem sliceBlockBytes_eq {data : Bytes} {start stop offset : ℕ} (hle : start ≤ stop)
    (hin : ¬ (data.length = 0 ∨ offset + data.length ≤ start ∨ offset > stop)) :
    sliceBlockBytes data (max start offset - offset)
        (some (min stop (offset + data.length - 1) - offset - (max start offset - offset) + 1)) =
      (data.take (stop + 1 - offset)).drop (start - offset) := by
  simp only [not_or] at hin
  have hskip : max start offset - offset = start - offset := by omega
  have hbound : min (start - offset) data.length = start - offset := by omega
  simp only [sliceBlockBytes, hskip, hbound]
  rw [List.drop_take, List.take_eq_take_iff, List.length_drop]
  -- the range ends inside the block, or behind it
  by_cases hstop : stop < offset + data.length
  · rw [Nat.min_eq_left (by omega : stop ≤ offset + data.length - 1)]
    omega
  · rw [Nat.min_eq_right (by omega : offset + data.length - 1 ≤ stop)]
    omega

/-- The slices from a block on cut the window out of the bytes from there on.  By induction on the
blocks, with the offset of the next one. -/
theorem flatten_sliceFrom (hle : start ≤ stop) (get : ℕ → Bytes) :
    ∀ (blocks : List Bytes) (i offset : ℕ),
    (∀ j (hj : j < blocks.length), get (i + j) = blocks[j]) →
      ((sliceFrom start stop i offset (blocks.map fun b => (b.length : ℤ))).map fun p =>
        sliceBlockBytes (get p.1) p.2.1 (some p.2.2)).flatten =
        (blocks.flatten.take (stop + 1 - offset)).drop (start - offset)
  | [], i, offset, _ => by simp [sliceFrom]
  | data :: blocks, i, offset, hget => by
    have hrest := flatten_sliceFrom hle get blocks (i + 1) (offset + data.length) fun j hj => by
      have := hget (j + 1) (by simpa using hj)
      rw [Nat.add_assoc, Nat.add_comm 1 j]
      simpa using this
    have hhead : get i = data := hget 0 (by simp)
    -- the range splits into what it picks of `data` and what it picks behind it
    have hsplit : ((data :: blocks).flatten.take (stop + 1 - offset)).drop (start - offset) =
        (data.take (stop + 1 - offset)).drop (start - offset) ++
          (blocks.flatten.take (stop + 1 - (offset + data.length))).drop
            (start - (offset + data.length)) := by
      rw [List.flatten_cons, List.take_append, List.drop_append, List.length_take,
        Nat.sub_add_eq, Nat.sub_add_eq]
      congr 1
      by_cases hshort : stop + 1 - offset < data.length
      · have h0 : stop + 1 - offset - data.length = 0 := by omega
        simp [h0]
      · rw [min_eq_right (by omega)]
    rw [hsplit, List.map_cons, sliceFrom]
    dsimp only
    rw [Int.toNat_natCast]
    split_ifs with hout
    · rw [hrest]
      have hnone : (data.take (stop + 1 - offset)).drop (start - offset) = [] := by
        rw [List.drop_eq_nil_iff, List.length_take]
        omega
      rw [hnone, List.nil_append]
    · rw [List.map_cons, List.flatten_cons, hrest, hhead, sliceBlockBytes_eq hle hout]

/-- The slices are of blocks there are. -/
theorem lt_of_mem_sliceFrom : ∀ {sizes : List ℤ} {i offset : ℕ} {p : ℕ × ℕ × ℕ},
    p ∈ sliceFrom start stop i offset sizes → p.1 < i + sizes.length
  | [], _, _, _, h => nomatch h
  | sz :: sizes, i, offset, p, h => by
    rw [sliceFrom] at h
    dsimp only at h
    rw [List.length_cons]
    split_ifs at h
    · have := lt_of_mem_sliceFrom h
      omega
    · rcases List.mem_cons.1 h with rfl | h
      · show i < i + (sizes.length + 1)
        omega
      · have := lt_of_mem_sliceFrom h
        omega

/-- A slice is of one of the blocks. -/
theorem lt_of_mem_sliceBlocksForRange {sizes : List ℤ} {p : ℕ × ℕ × ℕ}
    (h : p ∈ sliceBlocksForRange sizes start stop) : p.1 < sizes.length := by
  have := lt_of_mem_sliceFrom h
  omega

/-- **The slices of the blocks, put together, are the bytes of the range.** -/
theorem flatten_sliceBlocksForRange (hle : start ≤ stop) (blocks : List Bytes) (get : ℕ → Bytes)
    (hget : ∀ j (hj : j < blocks.length), get j = blocks[j]) :
    ((sliceBlocksForRange (blocks.map fun b => (b.length : ℤ)) start stop).map fun p =>
      sliceBlockBytes (get p.1) p.2.1 (some p.2.2)).flatten =
      (blocks.flatten.take (stop + 1)).drop start :=
  flatten_sliceFrom hle get blocks 0 0 fun j hj => by rw [Nat.zero_add]; exact hget j hj

/-! ### The arithmetic of the loop -/

/-- A subtraction of `u64`; `none` is an underflow. -/
def checkedSub (a b : ℕ) : Option ℕ := if b ≤ a then some (a - b) else none

/-- A difference that is not negative is there. -/
theorem checkedSub_of_le {a b : ℕ} (h : b ≤ a) : checkedSub a b = some (a - b) := if_pos h

/-- The loop of `slice_blocks_for_range` with every subtraction checked. -/
def sliceFromChecked (start stop : ℕ) : ℕ → ℕ → List ℤ → Option (List (ℕ × ℕ × ℕ))
  | _, _, [] => some []
  | i, offset, sz :: sizes =>
    let size := sz.toNat
    let blockEnd := offset + size
    if size = 0 ∨ blockEnd ≤ start ∨ offset > stop then
      sliceFromChecked start stop (i + 1) blockEnd sizes
    else
      (checkedSub (max start offset) offset).bind fun s =>
        (checkedSub blockEnd 1).bind fun last =>
          (checkedSub (min stop last) offset).bind fun e =>
            (checkedSub e s).bind fun d =>
              (sliceFromChecked start stop (i + 1) blockEnd sizes).map ((i, s, d + 1) :: ·)

/-- `slice_blocks_for_range` with every subtraction checked. -/
def sliceBlocksChecked (sizes : List ℤ) (start stop : ℕ) : Option (List (ℕ × ℕ × ℕ)) :=
  sliceFromChecked start stop 0 0 sizes

/-- No subtraction of the loop underflows. -/
theorem sliceFromChecked_eq (hle : start ≤ stop) :
    ∀ (sizes : List ℤ) (i offset : ℕ),
      sliceFromChecked start stop i offset sizes = some (sliceFrom start stop i offset sizes)
  | [], _, _ => rfl
  | sz :: sizes, i, offset => by
    have ih := sliceFromChecked_eq hle sizes (i + 1) (offset + sz.toNat)
    rw [sliceFromChecked, sliceFrom]
    dsimp only
    split_ifs with hout
    · exact ih
    · -- the block has a byte in the range, so every difference is one of ordered positions
      simp only [not_or] at hout
      have hlast : 1 ≤ offset + sz.toNat := by omega
      have hend : offset ≤ min stop (offset + sz.toNat - 1) := by omega
      have hskip : max start offset - offset ≤ min stop (offset + sz.toNat - 1) - offset := by
        omega
      rw [checkedSub_of_le (le_max_right start offset), Option.bind_some,
        checkedSub_of_le hlast, Option.bind_some, checkedSub_of_le hend, Option.bind_some,
        checkedSub_of_le hskip, Option.bind_some, ih, Option.map_some]

/-- No subtraction underflows. -/
theorem sliceBlocksChecked_eq (hle : start ≤ stop) (sizes : List ℤ) :
    sliceBlocksChecked sizes start stop = some (sliceBlocksForRange sizes start stop) :=
  sliceFromChecked_eq hle sizes 0 0

/-- A slice is a part of its block, and not empty. -/
theorem sliceFrom_mem (hle : start ≤ stop) :
    ∀ {sizes : List ℤ} {i offset : ℕ} {p : ℕ × ℕ × ℕ}, p ∈ sliceFrom start stop i offset sizes →
      ∃ j sz, p.1 = i + j ∧ sizes[j]? = some sz ∧ 1 ≤ p.2.2 ∧ p.2.1 + p.2.2 ≤ sz.toNat
  | [], _, _, _, h => nomatch h
  | sz :: sizes, i, offset, p, h => by
    -- a slice of a later block
    have hlater : p ∈ sliceFrom start stop (i + 1) (offset + sz.toNat) sizes →
        ∃ j sz', p.1 = i + j ∧ (sz :: sizes)[j]? = some sz' ∧ 1 ≤ p.2.2 ∧
          p.2.1 + p.2.2 ≤ sz'.toNat := by
      intro h
      obtain ⟨j, sz', hj, hsz', hpart⟩ := sliceFrom_mem hle h
      refine ⟨j + 1, sz', by omega, ?_, hpart⟩
      rwa [List.getElem?_cons_succ]
    rw [sliceFrom] at h
    dsimp only at h
    split_ifs at h with hout
    · exact hlater h
    · rcases List.mem_cons.1 h with rfl | h
      · simp only [not_or] at hout
        refine ⟨0, sz, rfl, rfl, ?_, ?_⟩
        · show 1 ≤ min stop (offset + sz.toNat - 1) - offset - (max start offset - offset) + 1
          omega
        · show max start offset - offset +
            (min stop (offset + sz.toNat - 1) - offset - (max start offset - offset) + 1) ≤
              sz.toNat
          omega
      · exact hlater h

/-- The slices are of ascending blocks, from block `i` on. -/
theorem sliceFrom_ascending (start stop : ℕ) :
    ∀ (sizes : List ℤ) (i offset : ℕ),
      (sliceFrom start stop i offset sizes).Pairwise (fun p q => p.1 < q.1) ∧
        ∀ p ∈ sliceFrom start stop i offset sizes, i ≤ p.1
  | [], _, _ => ⟨List.Pairwise.nil, nofun⟩
  | sz :: sizes, i, offset => by
    obtain ⟨hpairwise, hfrom⟩ := sliceFrom_ascending start stop sizes (i + 1) (offset + sz.toNat)
    rw [sliceFrom]
    dsimp only
    split_ifs
    · exact ⟨hpairwise, fun p hp => (Nat.le_succ i).trans (hfrom p hp)⟩
    · refine ⟨List.pairwise_cons.2 ⟨hfrom, hpairwise⟩, fun p hp => ?_⟩
      rcases List.mem_cons.1 hp with rfl | hp
      · exact le_rfl
      · exact (Nat.le_succ i).trans (hfrom p hp)

/-- **A ranged read is a slice of the body.**  For blocks whose recorded sizes are their
lengths, and every range.  Where `resolve_range` returns two positions, they are ordered
and inside the body, `slice_blocks_for_range` does not underflow, its slices are non-empty
parts of ascending blocks, and put together they are the bytes between the positions.
Where it returns none, the range picks no byte. -/
theorem rangedRead_exact (blocks : List Bytes) (range : Range) :
    (∀ start stop, resolveRange range blocks.flatten.length = some (start, stop) →
      (start ≤ stop ∧ stop < blocks.flatten.length) ∧
      sliceBlocksChecked (blocks.map fun b => (b.length : ℤ)) start stop =
        some (sliceBlocksForRange (blocks.map fun b => (b.length : ℤ)) start stop) ∧
      (∀ p ∈ sliceBlocksForRange (blocks.map fun b => (b.length : ℤ)) start stop,
        ∃ block, blocks[p.1]? = some block ∧ 1 ≤ p.2.2 ∧ p.2.1 + p.2.2 ≤ block.length) ∧
      (sliceBlocksForRange (blocks.map fun b => (b.length : ℤ)) start stop).Pairwise
        (fun p q => p.1 < q.1) ∧
      ((sliceBlocksForRange (blocks.map fun b => (b.length : ℤ)) start stop).map fun p =>
          sliceBlockBytes (blocks.getD p.1 []) p.2.1 (some p.2.2)).flatten =
        (blocks.flatten.take (stop + 1)).drop start) ∧
    (resolveRange range blocks.flatten.length = none → range.select blocks.flatten = []) := by
  refine ⟨fun start stop hresolve => ?_, (resolveRange_eq_none_iff range blocks.flatten).1⟩
  obtain ⟨hle, hlt, -⟩ := resolveRange_select hresolve
  refine ⟨⟨hle, hlt⟩, sliceBlocksChecked_eq hle _, fun p hp => ?_,
    (sliceFrom_ascending start stop _ 0 0).1,
    flatten_sliceBlocksForRange hle blocks (fun j => blocks.getD j []) fun j hj => ?_⟩
  · obtain ⟨j, sz, hj, hsz, hpos, hpart⟩ := sliceFrom_mem hle hp
    rw [List.getElem?_map, Option.map_eq_some_iff] at hsz
    obtain ⟨block, hblock, rfl⟩ := hsz
    rw [Nat.zero_add] at hj
    rw [Int.toNat_natCast] at hpart
    exact ⟨block, hj ▸ hblock, hpos, hpart⟩
  · simp [List.getD, List.getElem?_eq_getElem hj]

example : sliceBlocksForRange [4, 4, 4] 2 9 = [(0, 2, 2), (1, 0, 4), (2, 0, 2)] := by decide

end Shardscape
