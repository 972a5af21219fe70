/-
# The sending half of an encrypted stream

Pushing ciphertext moves it from the sender to the wire and changes nothing else
(`Pushed`): what the wire took and what still waits stay the same bytes.  While the inner
stream does not fail, `flush_write_cipher` does not, and when it is ready nothing waits any
more.  Payloads are short enough for a frame, so `poll_write` never fails to encrypt one and
its loop puts the frames of all of them behind what waits (`encryptAll_of_fits`).
-/

import Shardscape.Transport.Noise

namespace Shardscape

open Lib

/-! ### The wire -/

namespace Wire

/-- What is taken is counted, lost or not. -/
theorem accepted_accept (w : Wire) (b : Bytes) : (w.accept b).accepted = w.accepted ++ b := by
  unfold accept
  split_ifs with h
  · exact (List.append_assoc _ _ _).symm
  · have hlost := w.lost_eq_nil (Bool.eq_false_iff.2 h)
    simp only [accepted, hlost, List.append_nil, List.append_assoc]

/-- What is accepted has not crossed yet. -/
theorem crossed_accept (w : Wire) (b : Bytes) : (w.accept b).crossed = w.crossed := by
  unfold accept
  split_ifs <;> rfl

/-- A cut keeps what was accepted; some of it is lost. -/
theorem accepted_cut (w : Wire) (keep : ℕ) : (w.cut keep).accepted = w.accepted := by
  show w.crossed ++ w.inFlight.take keep ++ (w.inFlight.drop keep ++ w.lost) = _
  rw [← List.append_assoc, List.append_assoc w.crossed, List.take_append_drop]
  rfl

/-- Bytes have crossed the wire. -/
def Moved (w w' : Wire) : Prop := w'.accepted = w.accepted ∧ w.crossed <+: w'.crossed

/-- A wire that stays has moved by nothing. -/
theorem Moved.refl (w : Wire) : Moved w w := ⟨rfl, List.prefix_rfl⟩

/-- Moves add up. -/
theorem Moved.trans {w w' w'' : Wire} (h : Moved w w') (h' : Moved w' w'') : Moved w w'' :=
  ⟨h'.1.trans h.1, h.2.trans h'.2⟩

/-- What all has crossed stays so. -/
theorem Moved.crossed_eq {w w' : Wire} (h : Moved w w') (hall : w.crossed = w.accepted) :
    w'.crossed = w'.accepted := by
  have hle : w'.crossed <+: w.crossed := by
    rw [hall, ← h.1, accepted, List.append_assoc]
    exact List.prefix_append _ _
  have hsame : w'.crossed = w.crossed := hle.eq_of_length_le h.2.length_le
  rw [hsame, hall, h.1]

/-- A read that does not fail is not ready, or what it delivers has crossed the wire; it
delivers nothing only if the wire has ended. -/
theorem pollRead_of_good {w w' : Wire} {room : ℕ} (hroom : 0 < room) {a : Answer}
    {poll : Poll (Except IoError Bytes)} (ha : a.Good) (h : w.pollRead room a = (w', poll)) :
    match poll with
    | .pending => w' = w
    | .ready (.error _) => False
    | .ready (.ok filled) =>
      w'.accepted = w.accepted ∧ w'.crossed = w.crossed ++ filled ∧
        (filled = [] → w'.closed = true ∧ w'.inFlight = []) := by
  match a, ha with
  | .pending, _ =>
    obtain ⟨rfl, rfl⟩ := Prod.mk.inj h
    rfl
  | .ready (.ok n), ha =>
    rw [pollRead] at h
    split_ifs at h with hempty
    · obtain ⟨rfl, rfl⟩ := Prod.mk.inj h
      rfl
    · obtain ⟨rfl, rfl⟩ := Prod.mk.inj h
      refine ⟨?_, rfl, fun hnil => ?_⟩
      · show w.crossed ++ w.inFlight.take _ ++ w.inFlight.drop _ ++ w.lost = _
        rw [List.append_assoc w.crossed, List.take_append_drop]
        rfl
      · have hflight : w.inFlight = [] := by
          refine (List.take_eq_nil_iff.1 hnil).resolve_left ?_
          exact (lt_min ha hroom).ne'
        refine ⟨Bool.eq_true_of_not_eq_false fun hopen => hempty ⟨hflight, hopen⟩, ?_⟩
        show w.inFlight.drop _ = []
        rw [hflight, List.drop_nil]

end Wire

namespace NoiseStream

variable {c : ChannelCipher TAG_LEN}

/-! ### Pushing ciphertext -/

/-- The reading half of a stream is the same: polls that write do not touch it. -/
def SameReceiving (s s' : NoiseStream) : Prop :=
  s'.readPlain = s.readPlain ∧ s'.readCipher = s.readCipher ∧ s'.recvNonce = s.recvNonce

/-- The writing half of a stream is the same: `poll_read` does not touch it. -/
def SameSending (s s' : NoiseStream) : Prop :=
  s'.writeCipher = s.writeCipher ∧ s'.sendNonce = s.sendNonce

/-- The receiving side stays the same on the way. -/
theorem SameReceiving.trans {s s' s'' : NoiseStream} (h : SameReceiving s s')
    (h' : SameReceiving s' s'') : SameReceiving s s'' :=
  ⟨h'.1.trans h.1, h'.2.1.trans h.2.1, h'.2.2.trans h.2.2⟩

/-- Ciphertext has gone from the sender to the wire. -/
structure Pushed (s : NoiseStream) (w : Wire) (s' : NoiseStream) (w' : Wire) : Prop where
  receiving : SameReceiving s s'
  sendNonce : s'.sendNonce = s.sendNonce
  crossed : w'.crossed = w.crossed
  kept : w'.accepted ++ s'.writeCipher = w.accepted ++ s.writeCipher
  nothing : s.writeCipher = [] → s'.writeCipher = []

/-- Nothing pushed. -/
theorem Pushed.refl (s : NoiseStream) (w : Wire) : Pushed s w s w :=
  ⟨⟨rfl, rfl, rfl⟩, rfl, rfl, rfl, id⟩

/-- **`flush_write_cipher` only pushes.** -/
theorem pushed_flushWriteCipher (s : NoiseStream) (w : Wire) (answers : List Answer) :
    Pushed s w (s.flushWriteCipher w answers).stream (s.flushWriteCipher w answers).wire := by
  fun_induction flushWriteCipher s w answers with
  | case6 s w answers hempty n ih =>
    obtain ⟨hrecv, hsend, hcrossed, hkept, -⟩ := ih
    refine ⟨hrecv, hsend, hcrossed.trans (w.crossed_accept _), hkept.trans ?_,
      fun h => absurd h hempty⟩
    rw [w.accepted_accept, List.append_assoc, List.take_append_drop]
  | _ => exact .refl _ _

variable {s : NoiseStream} {answers : List Answer}

/-- Flushing ends with nothing left to push. -/
theorem writeCipher_of_flushed {w : Wire}
    (h : (s.flushWriteCipher w answers).poll = .ready (.ok ())) :
    (s.flushWriteCipher w answers).stream.writeCipher = [] := by
  fun_induction flushWriteCipher s w answers with
  | case1 s w =>
    by_contra hne
    exact nomatch (if_neg hne).symm.trans h
  | case2 s w answer answers hempty => exact hempty
  | case6 s w answers hempty n ih => exact ih h
  | _ => exact nomatch h

/-- While the inner stream does not fail, flushing does not, and it leaves answers of the
same kind. -/
theorem flushWriteCipher_of_good {w : Wire} (hgood : ∀ a ∈ answers, Answer.Good a) :
    (∀ a ∈ (s.flushWriteCipher w answers).answers, Answer.Good a) ∧
      ∀ e, (s.flushWriteCipher w answers).poll ≠ .ready (.error e) := by
  fun_induction flushWriteCipher s w answers with
  | case1 s w =>
    refine ⟨nofun, fun e => ?_⟩
    dsimp only
    split_ifs <;> exact nofun
  | case2 s w answer answers hempty => exact ⟨hgood, nofun⟩
  | case3 s w answers hempty => exact ⟨(List.forall_mem_cons.1 hgood).2, nofun⟩
  | case4 s w answers hempty e => exact ((List.forall_mem_cons.1 hgood).1 : False).elim
  | case5 s w answers hempty => exact absurd (List.forall_mem_cons.1 hgood).1 (lt_irrefl 0)
  | case6 s w answers hempty n ih => exact ih (List.forall_mem_cons.1 hgood).2

/-- `poll_flush` pushes, and when it is ready nothing waits. -/
theorem pushed_pollFlush {w : Wire} {inner : Poll (Except IoError Unit)} {o : Wrote Unit}
    (ho : s.pollFlush w answers inner = o) :
    Pushed s w o.stream o.wire ∧ (o.poll = .ready (.ok ()) → o.stream.writeCipher = []) := by
  have hpushed := pushed_flushWriteCipher s w answers
  have hdone : _ → (s.flushWriteCipher w answers).stream.writeCipher = [] := writeCipher_of_flushed
  unfold pollFlush at ho
  generalize s.flushWriteCipher w answers = flushed at *
  dsimp only at ho
  split at ho
  · rename_i hready
    subst ho
    exact ⟨hpushed, fun _ => hdone hready⟩
  · subst ho
    exact ⟨hpushed, hdone⟩

/-- `poll_shutdown` pushes. -/
theorem pushed_pollShutdown {w : Wire} {inner : Poll (Except IoError Unit)} {o : Wrote Unit}
    (ho : s.pollShutdown w answers inner = o) : Pushed s w o.stream o.wire := by
  have hpushed := pushed_flushWriteCipher s w answers
  unfold pollShutdown at ho
  generalize s.flushWriteCipher w answers = flushed at *
  dsimp only at ho
  split at ho
  · subst ho
    exact { hpushed with crossed := hpushed.crossed, kept := hpushed.kept }
  · subst ho
    exact hpushed
  · subst ho
    exact hpushed

/-! ### Encrypting -/

/-- Payloads fit into frames, with their tags. -/
theorem payloads_fit (buf : Bytes) : ChannelCipher.Fits TAG_LEN (payloads.pieces buf) := by
  intro p hp
  obtain ⟨l, -, rfl⟩ := payloads.exists_of_mem_pieces hp
  have hlen : (l.take (payloads.cut l)).length ≤ MAX_NOISE_MSG - TAG_LEN :=
    (List.length_take_le _ _).trans (min_le_left _ _)
  have hmax : MAX_NOISE_MSG - TAG_LEN + TAG_LEN < 65536 := by decide
  omega

/-- Payloads that fit are encrypted one after the other. -/
theorem encryptAll_of_fits {chunks : List Bytes} (h : ChannelCipher.Fits TAG_LEN chunks) :
    s.encryptAll c chunks =
      ({ s with
          writeCipher := s.writeCipher ++ c.stream s.sendNonce chunks
          sendNonce := s.sendNonce + chunks.length }, .ok ()) := by
  induction chunks generalizing s with
  | nil =>
    rw [encryptAll, ChannelCipher.stream, List.append_nil]
    rfl
  | cons chunk chunks ih =>
    have hfits : ¬ MAX_NOISE_MSG < chunk.length + TAG_LEN :=
      Nat.not_lt.2 (Nat.le_of_lt_succ (h chunk List.mem_cons_self))
    rw [encryptAll, writeMessage, if_neg hfits]
    dsimp only
    rw [ih fun p hp => h p (List.mem_cons_of_mem chunk hp), ChannelCipher.stream, frame]
    dsimp only
    rw [List.length_cons, Nat.add_right_comm s.sendNonce, Nat.add_assoc s.sendNonce,
      List.append_assoc, List.append_assoc, List.append_assoc]

end NoiseStream

end Shardscape
