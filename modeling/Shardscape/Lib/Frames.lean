/-
# Length-prefixed frames of a sealed channel

A frame on the wire is two bytes of length, the high one first, and as many bytes
(`frame`).  A reader takes a frame off the front of what has arrived as soon as it is
there in full (`nextFrame`); more bytes behind it do not change which frame that is
(`nextFrame_append`), so bytes that break off in the middle of a stream of frames are read
as the frames of the stream (`eq_of_nextFrame_of_isPrefix`).  `Whole` bytes are frames with
nothing left over.

A `ChannelCipher` seals one direction of a channel: the `n`-th message is sealed under the
number `n` and opened under it.  What opening does with a message sealed under another
number is not said, so a proof about sealed frames has to keep the two ends in step.
-/

import Shardscape.Lib.Bytes
import Mathlib.Data.List.Infix

namespace Shardscape
namespace Lib

/-! ### Frames -/

/-- The two bytes of a number below `2 ^ 16`, the high one first; a larger number is cut
down to its last 16 bits. -/
def putU16 (n : ℕ) : Bytes := [Fin.ofNat 256 (n / 256), Fin.ofNat 256 n]

/-- The number of two bytes. -/
def getU16 (hi lo : Byte) : ℕ := 256 * hi.val + lo.val

/-- The two bytes of a length read back. -/
theorem getU16_putU16 {n : ℕ} (h : n < 65536) :
    getU16 (Fin.ofNat 256 (n / 256)) (Fin.ofNat 256 n) = n := by
  simp only [getU16, Fin.val_ofNat]
  omega

/-- A frame on the wire. -/
def frame (f : Bytes) : Bytes := putU16 f.length ++ f

/-- A frame is its payload and two bytes. -/
theorem length_frame (f : Bytes) : (frame f).length = 2 + f.length := by
  rw [frame, List.length_append]
  rfl

/-- So it is never empty. -/
theorem frame_ne_nil (f : Bytes) : frame f ≠ [] := by
  intro h
  have := length_frame f
  rw [h, List.length_nil] at this
  omega

/-- The first frame, if it has arrived in full, and the bytes behind it. -/
def nextFrame : Bytes → Option (Bytes × Bytes)
  | hi :: lo :: rest =>
    if rest.length < getU16 hi lo then none
    else some (rest.take (getU16 hi lo), rest.drop (getU16 hi lo))
  | _ => none

/-- A frame is taken off the bytes it stands in front of. -/
theorem nextFrame_frame {f : Bytes} (h : f.length < 65536) (rest : Bytes) :
    nextFrame (frame f ++ rest) = some (f, rest) := by
  have hlen : ¬ (f ++ rest).length < f.length := by
    rw [List.length_append]
    omega
  show (if (f ++ rest).length < getU16 _ _ then none else
    some ((f ++ rest).take (getU16 _ _), (f ++ rest).drop (getU16 _ _))) = _
  rw [getU16_putU16 h, if_neg hlen, List.take_left, List.drop_left]

/-- What arrives behind a frame does not change it. -/
theorem nextFrame_append {b f rest : Bytes} (h : nextFrame b = some (f, rest)) (more : Bytes) :
    nextFrame (b ++ more) = some (f, rest ++ more) := by
  match b, h with
  | hi :: lo :: tail, h =>
    rw [nextFrame] at h
    split_ifs at h with hlt
    obtain ⟨rfl, rfl⟩ := Prod.mk.inj (Option.some.inj h)
    have hle : getU16 hi lo ≤ tail.length := Nat.le_of_not_lt hlt
    have hlen : ¬ (tail ++ more).length < getU16 hi lo := by
      rw [List.length_append]
      omega
    show (if (tail ++ more).length < getU16 hi lo then none else
      some ((tail ++ more).take (getU16 hi lo), (tail ++ more).drop (getU16 hi lo))) = _
    rw [if_neg hlen, List.take_append_of_le_length hle, List.drop_append_of_le_length hle]

/-- Taking a frame off leaves fewer bytes. -/
theorem length_of_nextFrame {b f rest : Bytes} (h : nextFrame b = some (f, rest)) :
    rest.length < b.length := by
  match b, h with
  | hi :: lo :: tail, h =>
    rw [nextFrame] at h
    split_ifs at h with hlt
    obtain ⟨rfl, rfl⟩ := Prod.mk.inj (Option.some.inj h)
    rw [List.length_drop, List.length_cons, List.length_cons]
    omega

/-- **The first frame of a broken-off stream is the stream's.** -/
theorem eq_of_nextFrame_of_isPrefix {b f g rest s : Bytes} (hg : g.length < 65536)
    (hb : nextFrame b = some (f, rest)) (h : b <+: frame g ++ s) : f = g ∧ b = frame g ++ rest := by
  obtain ⟨more, hmore⟩ := h
  have hnext := nextFrame_append hb more
  rw [hmore, nextFrame_frame hg] at hnext
  obtain ⟨rfl, rfl⟩ := Prod.mk.inj (Option.some.inj hnext)
  rw [← List.append_assoc] at hmore
  exact ⟨rfl, List.append_cancel_right hmore⟩

/-- Bytes that are frames, with nothing left over. -/
def Whole (b : Bytes) : Prop :=
  ∃ fs : List Bytes, (∀ f ∈ fs, f.length < 65536) ∧ b = fs.flatMap frame

/-- Frames in front do not matter to where the bytes break off. -/
theorem Whole.of_frame_append {f b : Bytes} (hf : f.length < 65536) (h : Whole (frame f ++ b)) :
    Whole b := by
  obtain ⟨fs, hfs, hb⟩ := h
  cases fs with
  | nil => exact absurd (List.append_eq_nil_iff.1 hb).1 (frame_ne_nil f)
  | cons g fs =>
    have hnext := congrArg nextFrame hb
    rw [List.flatMap_cons, nextFrame_frame hf,
      nextFrame_frame (hfs g List.mem_cons_self)] at hnext
    exact ⟨fs, fun f' hf' => hfs f' (List.mem_cons_of_mem g hf'),
      (Prod.mk.inj (Option.some.inj hnext)).2⟩

/-- Whole bytes are none, or start with a frame. -/
theorem Whole.eq_nil {b : Bytes} (h : Whole b) (hnext : nextFrame b = none) : b = [] := by
  obtain ⟨fs, hfs, rfl⟩ := h
  cases fs with
  | nil => rfl
  | cons f fs =>
    rw [List.flatMap_cons, nextFrame_frame (hfs f List.mem_cons_self)] at hnext
    exact nomatch hnext

/-! ### Sealed messages -/

/-- A cipher for one direction of a channel, whose sealed messages are `tag` bytes longer. -/
structure ChannelCipher (tag : ℕ) where
  encrypt : ℕ → Bytes → Bytes
  decrypt : ℕ → Bytes → Option Bytes
  length_encrypt (n : ℕ) (p : Bytes) : (encrypt n p).length = p.length + tag
  decrypt_encrypt (n : ℕ) (p : Bytes) : decrypt n (encrypt n p) = some p

namespace ChannelCipher

variable {tag : ℕ} (c : ChannelCipher tag)

/-- The frames of messages sealed one after the other, the first under the number `n`. -/
def stream : ℕ → List Bytes → Bytes
  | _, [] => []
  | n, p :: ps => frame (c.encrypt n p) ++ stream (n + 1) ps

/-- The stream of two lists of messages is one stream, with the count going on. -/
theorem stream_append (n : ℕ) (ps qs : List Bytes) :
    c.stream n (ps ++ qs) = c.stream n ps ++ c.stream (n + ps.length) qs := by
  induction ps generalizing n with
  | nil => rfl
  | cons p ps ih =>
    rw [List.cons_append, stream, stream, ih, List.append_assoc, List.length_cons,
      Nat.add_right_comm, Nat.add_assoc]

variable {ps : List Bytes}

/-- A stream may be cut between any two messages. -/
theorem stream_take_append_drop {k : ℕ} (h : k ≤ ps.length) :
    c.stream 0 (ps.take k) ++ c.stream k (ps.drop k) = c.stream 0 ps := by
  have hsplit := c.stream_append 0 (ps.take k) (ps.drop k)
  rw [List.take_append_drop, List.length_take_of_le h, Nat.zero_add] at hsplit
  exact hsplit.symm

/-- The messages of a list fit into frames. -/
def Fits (tag : ℕ) (ps : List Bytes) : Prop := ∀ p ∈ ps, p.length + tag < 65536

variable {c}

/-- A message that is short enough for its frame stays so with the tag. -/
theorem length_encrypt_lt {p : Bytes} (n : ℕ) (h : p.length + tag < 65536) :
    (c.encrypt n p).length < 65536 := by
  rw [c.length_encrypt]
  exact h

/-- A stream of sealed messages is whole frames, and bytes behind it break off where the
stream and they do. -/
theorem whole_stream_append_iff (n : ℕ) (h : Fits tag ps) (b : Bytes) :
    Whole (c.stream n ps ++ b) ↔ Whole b := by
  induction ps generalizing n with
  | nil => rfl
  | cons p ps ih =>
    have hp := length_encrypt_lt (c := c) n (h p List.mem_cons_self)
    rw [stream, List.append_assoc, ← ih (n + 1) fun q hq => h q (List.mem_cons_of_mem p hq)]
    refine ⟨Whole.of_frame_append hp, ?_⟩
    rintro ⟨fs, hfs, hb⟩
    refine ⟨c.encrypt n p :: fs, List.forall_mem_cons.2 ⟨hp, hfs⟩, ?_⟩
    rw [List.flatMap_cons, hb]

/-- **The first frame that arrives of a sealed stream is the first message, sealed under its
own number.** -/
theorem exists_of_nextFrame {n : ℕ} {b f rest : Bytes} (h : Fits tag ps) (hb : b <+: c.stream n ps)
    (hnext : nextFrame b = some (f, rest)) :
    ∃ p qs, ps = p :: qs ∧ f = c.encrypt n p ∧ b = frame f ++ rest := by
  cases ps with
  | nil =>
    rw [stream, List.prefix_nil] at hb
    rw [hb] at hnext
    exact nomatch hnext
  | cons p qs =>
    have hp := length_encrypt_lt (c := c) n (h p List.mem_cons_self)
    obtain ⟨rfl, hrest⟩ := eq_of_nextFrame_of_isPrefix hp hnext hb
    exact ⟨p, qs, rfl, rfl, hrest⟩

/-- A sealed stream that has arrived in full holds a frame as long as it holds a message. -/
theorem eq_nil_of_nextFrame_stream {n : ℕ} (h : Fits tag ps)
    (hnext : nextFrame (c.stream n ps) = none) : ps = [] := by
  cases ps with
  | nil => rfl
  | cons p qs =>
    rw [stream, nextFrame_frame (length_encrypt_lt n (h p List.mem_cons_self))] at hnext
    exact nomatch hnext

end ChannelCipher
end Lib
end Shardscape
