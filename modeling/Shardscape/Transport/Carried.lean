/-
# What one direction of an encrypted stream carries

The sender's counter and its waiting ciphertext, the wire, and the receiver's counter and its
two buffers hold one sequence of payloads between them (`Carried`): what the wire took and
what waits at the sender are the frames of all payloads, encrypted under their own numbers;
what crossed the wire are the frames of the first `k` and the ciphertext the receiver has not
decrypted; what was handed out and the plaintext the receiver still has are those `k`
payloads.

Every poll keeps this: a push moves ciphertext to the wire (`Carried.pushed`), a
`poll_write` that accepts its buffer adds the buffer's payloads (`Carried.pollWrite`), and
each turn of the loop of `poll_read` moves the receiver on (`Carried.pollRead`).  The
receiver's first frame is always the one whose number it expects, so none fails to decrypt
(`Carried.tryDecryptOneFrame`).
-/

import Shardscape.Transport.Sending

namespace Shardscape

open Lib
open NoiseStream

/-- How a `poll_read` into a buffer with `room` bytes left ends: it waits for the rest of a
frame; it has handed something out, or the wire has ended after a frame; or the wire has
ended inside a frame. -/
def NoiseStream.HandedOut.Ended (o : HandedOut) (room : ℕ) : Prop :=
  match o.poll with
  | .pending => o.out = [] ∧ o.stream.readPlain = [] ∧ nextFrame o.stream.readCipher = none
  | .ready (.ok ()) =>
    (0 < room → o.out ≠ []) ∨
      o.out = [] ∧ o.stream.readPlain = [] ∧ o.stream.readCipher = [] ∧ o.wire.closed = true ∧
        o.wire.inFlight = []
  | .ready (.error e) =>
    e = closedMidFrame ∧ o.out = [] ∧ o.stream.readPlain = [] ∧ o.stream.readCipher ≠ [] ∧
      nextFrame o.stream.readCipher = none ∧ o.wire.closed = true ∧ o.wire.inFlight = []

/-- A read that hands nothing out has nothing to hand out. -/
theorem NoiseStream.HandedOut.Ended.of_out_eq_nil {o : HandedOut} {room : ℕ} (h : o.Ended room)
    (hroom : 0 < room) (hout : o.out = []) :
    o.stream.readPlain = [] ∧ nextFrame o.stream.readCipher = none := by
  unfold HandedOut.Ended at h
  split at h
  · exact h.2
  · rcases h with hne | ⟨-, hplain, hcipher, -⟩
    · exact absurd hout (hne hroom)
    · exact ⟨hplain, by rw [hcipher]; rfl⟩
  · exact ⟨h.2.2.1, h.2.2.2.2.1⟩

/-- The payloads `ps` have been encrypted at the sender, and the first `k` decrypted at the
receiver. -/
structure Carried (c : ChannelCipher TAG_LEN) (ps : List Bytes) (k : ℕ) (sender : NoiseStream)
    (w : Wire) (receiver : NoiseStream) (handed : Bytes) : Prop where
  fits : ChannelCipher.Fits TAG_LEN ps
  sendNonce : sender.sendNonce = ps.length
  accepted : w.accepted ++ sender.writeCipher = c.stream 0 ps
  recvNonce : receiver.recvNonce = k
  le_length : k ≤ ps.length
  crossed : w.crossed = c.stream 0 (ps.take k) ++ receiver.readCipher
  handed : handed ++ receiver.readPlain = (ps.take k).flatten

namespace Carried

variable {c : ChannelCipher TAG_LEN} {ps : List Bytes} {k : ℕ} {s s' r r' : NoiseStream}
  {w w' : Wire} {handed : Bytes}

/-- Two streams after the handshake. -/
theorem fresh : Carried c [] 0 fromTransport Wire.fresh fromTransport [] where
  fits := nofun
  sendNonce := rfl
  accepted := rfl
  recvNonce := rfl
  le_length := le_rfl
  crossed := rfl
  handed := rfl

variable (h : Carried c ps k s w r handed)
include h

/-- Only the sender's writing half and the receiver's reading half matter. -/
theorem congr (hs : SameSending s s') (hr : SameReceiving r r') :
    Carried c ps k s' w r' handed where
  fits := h.fits
  sendNonce := hs.2.trans h.sendNonce
  accepted := hs.1 ▸ h.accepted
  recvNonce := hr.2.2.trans h.recvNonce
  le_length := h.le_length
  crossed := hr.2.1 ▸ h.crossed
  handed := hr.1 ▸ h.handed

/-- A push moves ciphertext and loses none. -/
theorem pushed (hp : Pushed s w s' w') :
    Carried c ps k s' w' r handed :=
  { h with
    sendNonce := hp.sendNonce.trans h.sendNonce
    accepted := hp.kept.trans h.accepted
    crossed := hp.crossed.trans h.crossed }

/-- Nothing the wire does by itself matters but what it delivers. -/
theorem wire (haccepted : w'.accepted = w.accepted)
    (hcrossed : w'.crossed = w.crossed) : Carried c ps k s w' r handed :=
  { h with
    accepted := haccepted ▸ h.accepted
    crossed := hcrossed.trans h.crossed }

/-- Encrypting payloads adds them to what is carried. -/
theorem encryptAll {chunks : List Bytes} (hfits : ChannelCipher.Fits TAG_LEN chunks) :
    ∃ s', s.encryptAll c chunks = (s', .ok ()) ∧ SameReceiving s s' ∧
      Carried c (ps ++ chunks) k s' w r handed := by
  refine ⟨_, encryptAll_of_fits hfits, ⟨rfl, rfl, rfl⟩, ?_⟩
  have htake : (ps ++ chunks).take k = ps.take k := List.take_append_of_le_length h.le_length
  exact
    { fits := List.forall_mem_append.2 ⟨h.fits, hfits⟩
      sendNonce := by rw [h.sendNonce, List.length_append]
      accepted := by
        rw [← List.append_assoc, h.accepted, c.stream_append, h.sendNonce, Nat.zero_add]
      recvNonce := h.recvNonce
      le_length := h.le_length.trans (by rw [List.length_append]; omega)
      crossed := htake ▸ h.crossed
      handed := htake ▸ h.handed }

/-- **`poll_write` accepts its whole buffer, whose payloads are then carried, or leaves it
alone.** -/
theorem pollWrite (buf : Bytes) {answers : List Answer}
    (hgood : ∀ a ∈ answers, Answer.Good a) {o : Wrote ℕ} (ho : s.pollWrite c w buf answers = o) :
    o.poll = .pending ∧ Pushed s w o.stream o.wire ∨
      o.poll = .ready (.ok buf.length) ∧ SameReceiving s o.stream ∧
        Carried c (ps ++ payloads.pieces buf) k o.stream o.wire r handed := by
  have hdrained := pushed_flushWriteCipher s w answers
  obtain ⟨hleft, hne⟩ := flushWriteCipher_of_good (s := s) (w := w) hgood
  rw [NoiseStream.pollWrite] at ho
  generalize s.flushWriteCipher w answers = drained at *
  match hpoll : drained.poll with
  | .pending =>
    rw [hpoll] at ho
    subst ho
    exact .inl ⟨rfl, hdrained⟩
  | .ready (.error e) => exact absurd hpoll (hne e)
  | .ready (.ok ()) =>
    obtain ⟨t, ht, hrecv, hencrypted⟩ := (h.pushed hdrained).encryptAll (payloads_fit buf)
    simp only [hpoll, ht] at ho
    -- the frames are in the buffer now, and a push that stalls leaves them there
    have hpushed := pushed_flushWriteCipher t drained.wire drained.answers
    have hne := (flushWriteCipher_of_good (s := t) (w := drained.wire) hleft).2
    generalize t.flushWriteCipher drained.wire drained.answers = flushed at *
    have hdone := hencrypted.pushed hpushed
    have hsame := hdrained.receiving.trans (hrecv.trans hpushed.receiving)
    match hflushed : flushed.poll with
    | .ready (.error e) => exact absurd hflushed (hne e)
    | .ready (.ok ()) =>
      rw [hflushed] at ho
      subst ho
      exact .inr ⟨rfl, hsame, hdone⟩
    | .pending =>
      rw [hflushed] at ho
      subst ho
      exact .inr ⟨rfl, hsame, hdone⟩

/-! ### Reading -/

/-- What crossed the wire and is not decrypted starts the frames of the payloads to come. -/
theorem readCipher_isPrefix :
    r.readCipher <+: c.stream k (ps.drop k) := by
  have hcrossed : w.crossed <+: c.stream 0 ps :=
    ⟨w.inFlight ++ w.lost ++ s.writeCipher, by
      rw [← h.accepted, Wire.accepted]
      simp only [List.append_assoc]⟩
  rw [h.crossed, ← c.stream_take_append_drop h.le_length] at hcrossed
  exact (List.prefix_append_right_inj _).1 hcrossed

/-- **A frame that has arrived is decrypted**, to the next payload. -/
theorem tryDecryptOneFrame
    {result : Except IoError (Option Bytes)} (hr : r.tryDecryptOneFrame c = (r', result)) :
    match result with
    | .error _ => False
    | .ok none => r' = r ∧ nextFrame r.readCipher = none
    | .ok (some p) =>
      SameSending r r' ∧
        Carried c ps (k + 1) s w { r' with readPlain := r'.readPlain ++ p } handed := by
  unfold NoiseStream.tryDecryptOneFrame at hr
  match hnext : nextFrame r.readCipher with
  | none =>
    rw [hnext] at hr
    obtain ⟨rfl, rfl⟩ := Prod.mk.inj hr
    exact ⟨rfl, rfl⟩
  | some (message, rest) =>
    have hfits : ChannelCipher.Fits TAG_LEN (ps.drop k) :=
      fun p hp => h.fits p (List.mem_of_mem_drop hp)
    obtain ⟨p, qs, hdrop, rfl, hcipher⟩ :=
      ChannelCipher.exists_of_nextFrame hfits h.readCipher_isPrefix hnext
    have hps : ps = ps.take k ++ [p] ++ qs := by
      rw [List.append_assoc, List.singleton_append, ← hdrop, List.take_append_drop]
    have hlen : (ps.take k ++ [p]).length = k + 1 := by
      rw [List.length_append, List.length_take_of_le h.le_length, List.length_singleton]
    have htake : ps.take (k + 1) = ps.take k ++ [p] := by
      conv_lhs => rw [hps]
      exact List.take_left' hlen
    simp only [hnext, h.recvNonce, c.decrypt_encrypt] at hr
    obtain ⟨rfl, rfl⟩ := Prod.mk.inj hr
    refine ⟨⟨rfl, rfl⟩, ?_⟩
    exact
      { h with
        recvNonce := rfl
        le_length := by
          rw [hps, List.length_append, hlen]
          omega
        crossed := by
          rw [h.crossed, htake, c.stream_append, Nat.zero_add,
            List.length_take_of_le h.le_length, hcipher]
          simp only [ChannelCipher.stream, List.append_nil, List.append_assoc]
        handed := by
          rw [htake, List.flatten_append, ← h.handed]
          simp only [List.flatten_singleton, List.append_assoc] }

/-- Nothing more is handed over. -/
theorem of_append_nil :
    Carried c ps k s w r (handed ++ []) := by
  rw [List.append_nil]
  exact h

/-- Handing out plaintext. -/
theorem handOut (n : ℕ) :
    Carried c ps k s w { r with readPlain := r.readPlain.drop n }
      (handed ++ r.readPlain.take n) :=
  { h with handed := by rw [List.append_assoc, List.take_append_drop, h.handed] }

/-- Taking ciphertext off the wire. -/
theorem received {filled : Bytes}
    (haccepted : w'.accepted = w.accepted) (hcrossed : w'.crossed = w.crossed ++ filled) :
    Carried c ps k s w' { r with readCipher := r.readCipher ++ filled } handed :=
  { h with
    accepted := haccepted ▸ h.accepted
    crossed := by rw [hcrossed, h.crossed, List.append_assoc] }

/-- **`poll_read` hands out the next bytes of the payloads**, or ends in one of the other
ways it may end. -/
theorem pollRead {room : ℕ} {answers : List Answer}
    (hgood : ∀ a ∈ answers, Answer.Good a) {o : HandedOut}
    (ho : r.pollRead c room w answers = o) :
    SameSending r o.stream ∧ w.Moved o.wire ∧ o.Ended room ∧
      ∃ k', Carried c ps k' s o.wire o.stream (handed ++ o.out) := by
  subst ho
  fun_induction NoiseStream.pollRead c room r w answers generalizing k with
  | case1 r w answers hplain =>
    refine ⟨⟨rfl, rfl⟩, .refl w, .inl fun hroom hnil => ?_, k, h.handOut _⟩
    rcases List.take_eq_nil_iff.1 hnil with hzero | hnil
    · exact (lt_min hroom (List.length_pos_of_ne_nil hplain)).ne' hzero
    · exact hplain hnil
  | case2 r w answers hplain r' e hframe => exact (h.tryDecryptOneFrame hframe).elim
  | case3 r w answers hplain r' p hframe ih =>
    obtain ⟨hsame, hnext⟩ := h.tryDecryptOneFrame hframe
    obtain ⟨hsame', hended⟩ := ih hnext hgood
    exact ⟨⟨hsame'.1.trans hsame.1, hsame'.2.trans hsame.2⟩, hended⟩
  | case4 r w hplain r' hframe =>
    obtain ⟨rfl, hnone⟩ := h.tryDecryptOneFrame hframe
    exact ⟨⟨rfl, rfl⟩, .refl _, ⟨rfl, not_not.1 hplain, hnone⟩, k, h.of_append_nil⟩
  | case5 r w hplain r' hframe answer answers w' hread =>
    obtain ⟨rfl, hnone⟩ := h.tryDecryptOneFrame hframe
    have hsame : w' = w :=
      Wire.pollRead_of_good (by decide) (List.forall_mem_cons.1 hgood).1 hread
    subst hsame
    exact ⟨⟨rfl, rfl⟩, .refl _, ⟨rfl, not_not.1 hplain, hnone⟩, k, h.of_append_nil⟩
  | case6 r w hplain r' hframe answer answers w' e hread =>
    exact (Wire.pollRead_of_good (by decide) (List.forall_mem_cons.1 hgood).1 hread).elim
  | case7 r w hplain r' hframe answer answers w' hcipher hread =>
    -- the wire ended, and no frame has begun
    obtain ⟨rfl, -⟩ := h.tryDecryptOneFrame hframe
    obtain ⟨haccepted, hcrossed, hend⟩ :=
      Wire.pollRead_of_good (by decide) (List.forall_mem_cons.1 hgood).1 hread
    have hcarried := h.wire haccepted (hcrossed.trans (List.append_nil _))
    exact ⟨⟨rfl, rfl⟩, ⟨haccepted, [], hcrossed.symm⟩,
      .inr ⟨rfl, not_not.1 hplain, hcipher, hend rfl⟩, k, hcarried.of_append_nil⟩
  | case8 r w hplain r' hframe answer answers w' hcipher hread =>
    -- the wire ended inside a frame
    obtain ⟨rfl, hnone⟩ := h.tryDecryptOneFrame hframe
    obtain ⟨haccepted, hcrossed, hend⟩ :=
      Wire.pollRead_of_good (by decide) (List.forall_mem_cons.1 hgood).1 hread
    have hcarried := h.wire haccepted (hcrossed.trans (List.append_nil _))
    exact ⟨⟨rfl, rfl⟩, ⟨haccepted, [], hcrossed.symm⟩,
      ⟨rfl, rfl, not_not.1 hplain, hcipher, hnone, hend rfl⟩, k, hcarried.of_append_nil⟩
  | case9 r w hplain r' hframe answer answers w' filled hread hne ih =>
    obtain ⟨rfl, -⟩ := h.tryDecryptOneFrame hframe
    obtain ⟨hanswer, hgood⟩ := List.forall_mem_cons.1 hgood
    obtain ⟨haccepted, hcrossed, -⟩ := Wire.pollRead_of_good (by decide) hanswer hread
    obtain ⟨hsame, hmoved, hended⟩ := ih (h.received haccepted hcrossed) hgood
    exact ⟨hsame, .trans ⟨haccepted, filled, hcrossed.symm⟩ hmoved, hended⟩

/-! ### Where the receiver stands -/

/-- The wire breaks off where the ciphertext the receiver has not decrypted does. -/
theorem whole_crossed_iff :
    Whole w.crossed ↔ Whole r.readCipher := by
  rw [h.crossed]
  exact ChannelCipher.whole_stream_append_iff 0
    (fun p hp => h.fits p (List.mem_of_mem_take hp)) r.readCipher

/-- What was handed out comes first. -/
theorem handed_isPrefix : handed <+: ps.flatten := by
  refine ⟨r.readPlain ++ (ps.drop k).flatten, ?_⟩
  rw [← List.append_assoc, h.handed, ← List.flatten_append, List.take_append_drop]

/-- **A receiver with nothing left to decrypt has handed out everything**, once nothing waits at
the sender and all has crossed the wire. -/
theorem handed_eq (hwrite : s.writeCipher = [])
    (hwire : w.crossed = w.accepted) (hnext : nextFrame r.readCipher = none)
    (hplain : r.readPlain = []) : handed = ps.flatten := by
  have hfits : ChannelCipher.Fits TAG_LEN (ps.drop k) :=
    fun p hp => h.fits p (List.mem_of_mem_drop hp)
  have hcipher : r.readCipher = c.stream k (ps.drop k) := by
    have haccepted := h.accepted
    rw [hwrite, List.append_nil, ← hwire, h.crossed,
      ← c.stream_take_append_drop h.le_length] at haccepted
    exact List.append_cancel_left haccepted
  have hdrop : ps.drop k = [] := by
    rw [hcipher] at hnext
    exact ChannelCipher.eq_nil_of_nextFrame_stream hfits hnext
  have hhanded := h.handed
  rw [hplain, List.append_nil] at hhanded
  rw [hhanded, ← List.take_append_drop k ps, hdrop, List.append_nil, List.take_take, min_self]

end Carried
end Shardscape
