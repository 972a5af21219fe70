/-
# Do the chunk loops end?

`src/chunking.rs`, the `while` of `FixedSizeStrategy::process`, and `src/storage.rs`, the loops
around it in `put_object`, `upload_part` and `upload_part_copy`, as loops that may go on for ever.
`Shardscape.Backend.Chunking` runs the first with fuel and `Shardscape.Backend.Handlers` the others
over that, for a `StorageBackend`, whose sizes are positive; there the loops end, and leave what is
computed there (`receiveFrames_leaves`, `copySlices_leaves`).  Here the size is any number.

The size of a chunk is `max_block_size` of the `[storage.chunking]` table of `src/config.rs`, and
nothing between the table and the loop looks at it.  With a size of 0 every buffer is long enough
for another chunk, the empty one included, and taking it off leaves the buffer as it is.  Then the
`while` never ends, nor does a request once it has its first bytes
(`fixed_chunking_ends_iff`, `zero_chunks_never_end`).

The allocation of the buffer and of the chunks taken off is not part of the model.
-/

import Shardscape.Backend.Samples
import Shardscape.Lib.Loop

namespace Shardscape

open Lib

/-! ### The configuration -/

/-- A value in a TOML table, as far as the reading of `ChunkingConfig` tells values apart. -/
inductive TomlValue where
  | integer (n : Int64)
  | string (s : Str)
  | other

/-- `ChunkingConfig`. -/
inductive ChunkingConfig where
  | fixed (maxBlockSize : ℕ)
  | cdc (minBlockSize avgBlockSize maxBlockSize : ℕ)
  deriving DecidableEq

namespace ChunkingConfig

/-- A field of type `usize`. -/
def usizeField (table : List (Str × TomlValue)) (name : Str) : Option ℕ :=
  match table.lookup name with
  | some (.integer n) => if 0 ≤ n.toInt then some n.toInt.toNat else none
  | _ => none

/-- What `Config::load` reads from `[storage.chunking]`: the tag picks the variant, and keys that
it has no field for are passed over. -/
def deserialize (table : List (Str × TomlValue)) : Option ChunkingConfig :=
  match table.lookup (text "type") with
  | some (.string tag) =>
    if tag = text "fixed" then do
      let maxBlockSize ← usizeField table (text "max_block_size")
      pure (fixed maxBlockSize)
    else if tag = text "cdc" then do
      let minBlockSize ← usizeField table (text "min_block_size")
      let avgBlockSize ← usizeField table (text "avg_block_size")
      let maxBlockSize ← usizeField table (text "max_block_size")
      pure (cdc minBlockSize avgBlockSize maxBlockSize)
    else none
  | _ => none

/-- The chunker of `StorageBackend::new`. -/
def chunker : ChunkingConfig → ChunkingStrategy
  | cdc minBlockSize avgBlockSize maxBlockSize => .cdc minBlockSize avgBlockSize maxBlockSize
  | fixed maxBlockSize => .fixed maxBlockSize

end ChunkingConfig

/-! ### Taking off complete chunks -/

namespace ChunkingStrategy

/-- One turn of the `while` of `FixedSizeStrategy::process`, on the buffer and the chunks taken off
so far. -/
def fixedTurn (chunkSize : ℕ) (s : Bytes × List Bytes) : (Bytes × List Bytes) × Bool :=
  if chunkSize ≤ s.1.length then
    ((s.1.drop chunkSize, s.2 ++ [s.1.take chunkSize]), true)
  else (s, false)

variable {n : ℕ}

/-- With a positive size the `while` ends, with the chunks and the buffer of `processFixed`. -/
theorem fixedTurn_leaves (hn : 0 < n) :
    ∀ {fuel : ℕ} (buffer : Bytes) (completed : List Bytes), buffer.length ≤ fuel →
      LeavesWith (fixedTurn n) (buffer, completed)
        ((processFixed n fuel buffer).2, completed ++ (processFixed n fuel buffer).1)
  | 0, buffer, completed, h => by
    have hshort : ¬ n ≤ buffer.length := by omega
    refine leavesWith_last ?_
    rw [fixedTurn, if_neg hshort, processFixed, List.append_nil]
  | fuel + 1, buffer, completed, h => by
    rw [processFixed]
    split_ifs with hle
    · have hrest : (buffer.drop n).length ≤ fuel := by
        rw [List.length_drop]
        omega
      have hleaves := fixedTurn_leaves hn _ (completed ++ [buffer.take n]) hrest
      rw [List.append_assoc] at hleaves
      exact leavesWith_step (if_pos hle) hleaves
    · refine leavesWith_last ?_
      rw [fixedTurn, if_neg hle, List.append_nil]

/-- With a size of 0 there is always another turn. -/
theorem fixedTurn_zero (s : Bytes × List Bytes) :
    fixedTurn 0 s = ((s.1, s.2 ++ [[]]), true) :=
  if_pos (Nat.zero_le _)

/-- **The `while` ends** exactly if the size is positive, whatever the buffer. -/
theorem fixedTurn_ends_iff (buffer : Bytes) :
    (∃ r, LeavesWith (fixedTurn n) (buffer, []) r) ↔ 0 < n := by
  constructor
  · rintro ⟨r, hr⟩
    by_contra hn
    obtain rfl : n = 0 := by omega
    refine not_leavesWith (P := fun _ => True) (fun s _ => ⟨?_, trivial⟩) trivial r hr
    rw [fixedTurn_zero]
  · exact fun hn => ⟨_, fixedTurn_leaves hn buffer [] le_rfl⟩

end ChunkingStrategy

/-! ### The loop of a request -/

/-- Where the chunk loop of a request is.  `items` are the frames or the slices not yet read, `u`
what has been received. -/
inductive ChunkPhase (β : Type) where
  /-- At the head of the loop. -/
  | reading (items : List β) (u : Upload)
  /-- In the `while` of `process`. -/
  | cutting (items : List β) (u : Upload) (completedChunks : List Bytes)
  /-- In the `for` over the completed chunks. -/
  | storing (items : List β) (u : Upload) (completedChunks : List Bytes)
  /-- Behind the loop, or out of it by `?`. -/
  | left (r : Except S3Error Upload)

section ChunkLoop

open ChunkingStrategy StorageBackend

variable {Blob : BlobStore} {β : Type}

/-- A complete chunk becomes a block: `StorageBackend.storeChunk`, for any chunker. -/
def storeChunkWith (B : Blake3) (u : Upload) (blockData : Bytes) :
    Site.SProg Blob S3Error Upload := do
  let hash ← (Site.storeBlock B blockData blockData.length).mapErr internal
  pure { u with
    blockHashes := u.blockHashes ++ [hash]
    totalSize := u.totalSize + blockData.length }

/-- The bytes of a frame. -/
def pullFrame (res : Except Str Bytes) : Site.SProg Blob S3Error Bytes :=
  Prog.ofExcept (res.mapError internal)

/-- The bytes of a slice of a block. -/
def pullSlice (blocks : List Bytes) (slice : ℕ × ℕ × ℕ) : Site.SProg Blob S3Error Bytes := do
  let data ← (Site.getBlock ((blocks[slice.1]?).getD [])).mapErr internal
  pure (sliceBlockBytes data slice.2.1 (some slice.2.2))

/-- What has been received, with the bytes of one more item in the buffer. -/
def Upload.extend (u : Upload) (data : Bytes) : Upload :=
  { u with currentChunk := u.currentChunk ++ data, hashed := u.hashed ++ data }

/-- Behind the loop. -/
def leftBy (r : Site Blob × Except S3Error Upload) : Site Blob × ChunkPhase β := (r.1, .left r.2)

/-- One turn of the chunk loop, with chunks of a fixed size; `pull` gives the bytes of an item. -/
def chunkTurn (B : Blake3) (chunkSize : ℕ) (pull : β → Site.SProg Blob S3Error Bytes) :
    Site Blob × ChunkPhase β → (Site Blob × ChunkPhase β) × Bool
  | (s, .reading [] u) => (leftBy (s, .ok u), false)
  | (s, .reading (item :: items) u) =>
    match (pull item).exec s with
    | (s', .ok data) => ((s', .cutting items (u.extend data) []), true)
    | (s', .error e) => (leftBy (s', .error e), false)
  | (s, .cutting items u completedChunks) =>
    match fixedTurn chunkSize (u.currentChunk, completedChunks) with
    | ((buffer, chunks), true) =>
      ((s, .cutting items { u with currentChunk := buffer } chunks), true)
    | ((buffer, chunks), false) =>
      ((s, .storing items { u with currentChunk := buffer } chunks), true)
  | (s, .storing items u []) => ((s, .reading items u), true)
  | (s, .storing items u (blockData :: chunks)) =>
    match (storeChunkWith B u blockData).exec s with
    | (s', .ok u') => ((s', .storing items u' chunks), true)
    | (s', .error e) => (leftBy (s', .error e), false)
  | (s, .left r) => ((s, .left r), false)

/-- What the loop does with an item if the `while` of `process` ends. -/
def receiveItem (B : Blake3) (chunkSize : ℕ) (pull : β → Site.SProg Blob S3Error Bytes)
    (u : Upload) (item : β) : Site.SProg Blob S3Error Upload := do
  let data ← pull item
  let r := processFixed chunkSize (u.currentChunk ++ data).length (u.currentChunk ++ data)
  r.1.foldlM (storeChunkWith B) { u.extend data with currentChunk := r.2 }

variable {B : Blake3} {n : ℕ} {pull : β → Site.SProg Blob S3Error Bytes} {s : Site Blob}
  {items : List β} {u : Upload} {r : Site Blob × ChunkPhase β}

/-- The bytes of an item go into the buffer. -/
theorem chunkTurn_reading {item : β} {s' : Site Blob} {data : Bytes}
    (hpull : (pull item).exec s = (s', .ok data)) :
    chunkTurn B n pull (s, .reading (item :: items) u) =
      ((s', .cutting items (u.extend data) []), true) := by
  rw [chunkTurn, hpull]

/-- Once the `while` has ended, the chunks are stored. -/
theorem leavesWith_cutting {p rest : Bytes × List Bytes} (hcut : LeavesWith (fixedTurn n) p rest) :
    LeavesWith (chunkTurn B n pull)
      (s, .storing items { u with currentChunk := rest.1 } rest.2) r →
    LeavesWith (chunkTurn B n pull)
      (s, .cutting items { u with currentChunk := p.1 } p.2) r := by
  intro h
  -- backwards along the turns of the `while`, each of which is a turn of the chunk loop
  refine hcut.induction (P := fun p => LeavesWith (chunkTurn B n pull)
    (s, .cutting items { u with currentChunk := p.1 } p.2) r) ?_ ?_
  · intro p hlast
    refine leavesWith_step ?_ h
    rw [chunkTurn, hlast]
  · intro p p' hgo ih
    refine leavesWith_step ?_ ih
    rw [chunkTurn, hgo]

/-- The `for` over the completed chunks stores them in turn, up to a failure, and then the loop is
at its head again. -/
theorem leavesWith_storing {k : Upload → Site.SProg Blob S3Error Upload}
    (hk : ∀ s u, LeavesWith (chunkTurn B n pull) (s, .reading items u) (leftBy ((k u).exec s)))
    (chunks : List Bytes) :
    LeavesWith (chunkTurn B n pull) (s, .storing items u chunks)
      (leftBy ((chunks.foldlM (storeChunkWith B) u >>= k).exec s)) := by
  induction chunks generalizing s u with
  | nil => exact leavesWith_step rfl (hk s u)
  | cons blockData chunks ih =>
    rw [List.foldlM_cons, bind_assoc, Prog.exec_bind]
    rcases hstore : (storeChunkWith B u blockData).exec s with ⟨s', e | u'⟩
    · refine leavesWith_last ?_
      rw [chunkTurn, hstore]
    · refine leavesWith_step ?_ ih
      rw [chunkTurn, hstore]

/-- **With a positive size the loop ends**, with what receiving its items one by one gives. -/
theorem leavesWith_reading (hn : 0 < n) :
    LeavesWith (chunkTurn B n pull) (s, .reading items u)
      (leftBy ((items.foldlM (receiveItem B n pull) u).exec s)) := by
  induction items generalizing s u with
  | nil => exact leavesWith_last rfl
  | cons item items ih =>
    rw [List.foldlM_cons, receiveItem, bind_assoc, Prog.exec_bind]
    rcases hpull : (pull item).exec s with ⟨s', e | data⟩
    · refine leavesWith_last ?_
      rw [chunkTurn, hpull]
    · have hcut := fixedTurn_leaves hn (u.extend data).currentChunk [] le_rfl
      exact leavesWith_step (chunkTurn_reading hpull)
        (leavesWith_cutting (u := u.extend data) hcut (leavesWith_storing (fun s u => ih) _))

/-- With a size of 0 the loop never gets out of the `while` of `process`. -/
theorem not_leavesWith_cutting (completedChunks : List Bytes) :
    ¬ LeavesWith (chunkTurn B 0 pull) (s, .cutting items u completedChunks) r := by
  refine not_leavesWith (P := fun x => ∃ s items u chunks, x = (s, .cutting items u chunks)) ?_
    ⟨s, items, u, completedChunks, rfl⟩ r
  rintro _ ⟨s, items, u, chunks, rfl⟩
  rw [chunkTurn, fixedTurn_zero]
  exact ⟨rfl, _, _, _, _, rfl⟩

/-- **When the loop ends**: the size is positive, or it does not come to have any bytes, since
there is no item or the first cannot be had. -/
theorem chunkTurn_ends_iff :
    (∃ r, LeavesWith (chunkTurn B n pull) (s, .reading items u) r) ↔
      0 < n ∨ ∀ item rest, items = item :: rest → ∃ e, ((pull item).exec s).2 = .error e := by
  constructor
  · rintro ⟨r, hr⟩
    refine or_iff_not_imp_left.mpr fun hn item rest hitems => ?_
    obtain rfl : n = 0 := by omega
    subst hitems
    rcases hpull : (pull item).exec s with ⟨s', e | data⟩
    · exact ⟨e, rfl⟩
    · exact absurd (hr.of_step (chunkTurn_reading hpull)) (not_leavesWith_cutting [])
  · rintro (hn | hnone)
    · exact ⟨_, leavesWith_reading hn⟩
    · cases items with
      | nil => exact ⟨_, leavesWith_last rfl⟩
      | cons item rest =>
        obtain ⟨e, he⟩ := hnone item rest rfl
        refine ⟨leftBy (((pull item).exec s).1, .error e), leavesWith_last ?_⟩
        rw [chunkTurn, ← Prod.mk.eta (p := (pull item).exec s), he]

/-! ### The three requests -/

variable {S : StorageBackend}

variable (hS : S.chunker = (ChunkingConfig.fixed n).chunker)
include hS

/-- Where the `while` ends, the loop of `put_object` and `upload_part` receives its frames as the
model of the requests does. -/
theorem receiveItem_pullFrame :
    (receiveItem S.blake3 n pullFrame : Upload → _ → Site.SProg Blob _ _) = S.receiveFrame := by
  funext u res
  unfold receiveFrame
  rw [hS]
  rfl

/-- And that of `upload_part_copy` its slices. -/
theorem receiveItem_pullSlice (blocks : List Bytes) :
    (receiveItem S.blake3 n (pullSlice blocks) : Upload → _ → Site.SProg Blob _ _) =
      S.copySlice blocks := by
  funext u slice
  rw [copySlice, ← receiveItem_pullFrame hS, receiveItem, pullSlice, bind_assoc]
  rfl

/-- The model of the requests has no chunks of no bytes. -/
theorem maxBlockSize_pos : 0 < n := by
  have hpos := S.positive
  rw [hS] at hpos
  exact hpos

/-- **The loop of `put_object` and `upload_part`** of a `StorageBackend` ends, with what
`receiveBody` goes on from. -/
theorem receiveFrames_leaves (body : List (Except Str Bytes)) :
    LeavesWith (chunkTurn S.blake3 n pullFrame) (s, .reading body {})
      (leftBy ((body.foldlM S.receiveFrame {}).exec s)) := by
  rw [← receiveItem_pullFrame hS]
  exact leavesWith_reading (maxBlockSize_pos hS)

/-- **The loop of `upload_part_copy`** of a `StorageBackend` ends, with what `copyPart` goes on
from. -/
theorem copySlices_leaves (blocks : List Bytes) (slices : List (ℕ × ℕ × ℕ)) :
    LeavesWith (chunkTurn S.blake3 n (pullSlice blocks)) (s, .reading slices {})
      (leftBy ((slices.foldlM (S.copySlice blocks) {}).exec s)) := by
  rw [← receiveItem_pullSlice hS]
  exact leavesWith_reading (maxBlockSize_pos hS)

omit hS in
/-- No bytes are had from a body if it is empty or starts with a failure. -/
theorem pullFrame_fails_iff (body : List (Except Str Bytes)) :
    (∀ res rest, body = res :: rest →
        ∃ e, ((pullFrame res : Site.SProg Blob S3Error Bytes).exec s).2 = .error e) ↔
      ∀ data rest, body ≠ .ok data :: rest := by
  constructor
  · intro h data rest hbody
    obtain ⟨e, he⟩ := h _ _ hbody
    cases he
  · intro h res rest hbody
    cases res with
    | error e => exact ⟨internal e, rfl⟩
    | ok data => exact absurd hbody (h data rest)

end ChunkLoop

open ChunkingStrategy

/-- **When chunking with `max_block_size = n` ends.**  `process` does, on any buffer, exactly if
`n` is positive.  The loop of `put_object` and `upload_part` does exactly if `n` is positive or
the body gives no first frame, that of `upload_part_copy` exactly if `n` is positive or there is
no first slice that can be read. -/
theorem fixed_chunking_ends_iff {Blob : BlobStore} (n : ℕ) :
    (∀ buffer : Bytes, (∃ r, LeavesWith (fixedTurn n) (buffer, []) r) ↔ 0 < n) ∧
    ∀ (B : Blake3) (s : Site Blob),
      (∀ body : List (Except Str Bytes),
        (∃ r, LeavesWith (chunkTurn B n pullFrame) (s, .reading body {}) r) ↔
          0 < n ∨ ∀ data rest, body ≠ .ok data :: rest) ∧
      ∀ (blocks : List Bytes) (slices : List (ℕ × ℕ × ℕ)),
        (∃ r, LeavesWith (chunkTurn B n (pullSlice blocks)) (s, .reading slices {}) r) ↔
          0 < n ∨ ∀ slice rest, slices = slice :: rest →
            ∃ e, ((pullSlice blocks slice).exec s).2 = .error e := by
  refine ⟨fixedTurn_ends_iff, fun B s => ⟨fun body => ?_, fun blocks slices => ?_⟩⟩
  · rw [chunkTurn_ends_iff, pullFrame_fails_iff]
  · exact chunkTurn_ends_iff

/-- A `[storage.chunking]` table with `max_block_size = 0`. -/
def zeroChunking : List (Str × TomlValue) :=
  [(text "type", .string (text "fixed")), (text "max_block_size", .integer 0)]

/-- **Chunks of no bytes.**  `Config::load` takes the table.  `process` does not end even on an
empty buffer, nor does `put_object` of a body of one byte. -/
theorem zero_chunks_never_end :
    ChunkingConfig.deserialize zeroChunking = some (.fixed 0) ∧
    (∀ r, ¬ LeavesWith (fixedTurn 0) ([], []) r) ∧
    ∀ r, ¬ LeavesWith (chunkTurn Blake3.sample 0 pullFrame)
      (freshSite, .reading [.ok [97]] {}) r := by
  refine ⟨by decide +kernel, fun r hr => ?_, fun r hr => ?_⟩
  · exact absurd ((fixedTurn_ends_iff []).mp ⟨r, hr⟩) (lt_irrefl 0)
  · exact not_leavesWith_cutting [] (hr.of_step rfl)

end Shardscape
