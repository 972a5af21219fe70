/-
# A wire without its first bytes

`Wire.past L` is a wire as it looks to someone who does not see the first `L` bytes that it took.  A
stream that starts behind them is polled on it as on the wire itself: the polls that write, once the
bytes were taken, and `poll_read`, once they have crossed.
-/

import Shardscape.Transport.Scripted

namespace Shardscape

open Lib Function

namespace Wire

/-- Nothing is lost on an open wire. -/
theorem lost_drop_eq_nil (w : Wire) (n : ℕ) (h : w.closed = false) : w.lost.drop n = [] := by
  rw [w.lost_eq_nil h, List.drop_nil]

/-- The wire without the first `L` bytes it took. -/
def past (L : ℕ) (w : Wire) : Wire where
  crossed := w.crossed.drop L
  inFlight := w.inFlight.drop (L - w.crossed.length)
  lost := w.lost.drop (L - w.crossed.length - w.inFlight.length)
  closed := w.closed
  lost_eq_nil := w.lost_drop_eq_nil _

/-- All that was accepted is somewhere. -/
theorem length_accepted (w : Wire) :
    w.accepted.length = w.crossed.length + w.inFlight.length + w.lost.length := by
  rw [accepted, List.length_append, List.length_append]

/-- Of a wire that has taken no more there is nothing. -/
theorem past_of_length_le {L : ℕ} {w : Wire} (h : w.accepted.length ≤ L) :
    w.past L = ⟨[], [], [], w.closed, fun _ => rfl⟩ := by
  rw [length_accepted] at h
  refine Wire.ext ?_ ?_ ?_ rfl
  · exact List.drop_of_length_le (by omega)
  · exact List.drop_of_length_le (by omega)
  · exact List.drop_of_length_le (by omega)

/-- What crosses of the first bytes is not seen. -/
theorem past_advance_of_le {L n : ℕ} {w : Wire} (h : w.crossed.length + n ≤ L)
    (hn : n ≤ w.inFlight.length) : (w.advance n).past L = w.past L := by
  have hlen : (w.advance n).crossed.length = w.crossed.length + n := by
    rw [advance, List.length_append, List.length_take_of_le hn]
  refine Wire.ext ?_ ?_ ?_ rfl
  · show (w.advance n).crossed.drop L = w.crossed.drop L
    rw [List.drop_of_length_le (by omega), List.drop_of_length_le (by omega)]
  · show (w.inFlight.drop n).drop (L - (w.advance n).crossed.length) = _
    rw [List.drop_drop, hlen]
    exact congrArg (w.inFlight.drop ·) (by omega)
  · show w.lost.drop (L - (w.advance n).crossed.length - (w.inFlight.drop n).length) = _
    rw [hlen, List.length_drop]
    exact congrArg (w.lost.drop ·) (by omega)

/-- What crosses behind them is. -/
theorem past_advance {L : ℕ} {w : Wire} (h : L ≤ w.crossed.length) (n : ℕ) :
    (w.advance n).past L = (w.past L).advance n := by
  have hlen : L ≤ (w.advance n).crossed.length := by
    rw [advance, List.length_append]
    omega
  have hzero : L - w.crossed.length = 0 := by omega
  refine Wire.ext ?_ ?_ ?_ rfl
  · show (w.crossed ++ w.inFlight.take n).drop L =
      w.crossed.drop L ++ (w.inFlight.drop (L - w.crossed.length)).take n
    rw [List.drop_append_of_le_length h, hzero, List.drop_zero]
  · show (w.inFlight.drop n).drop (L - (w.advance n).crossed.length) =
      (w.inFlight.drop (L - w.crossed.length)).drop n
    rw [Nat.sub_eq_zero_of_le hlen, hzero, List.drop_zero, List.drop_zero]
  · show w.lost.drop (L - (w.advance n).crossed.length - _) = w.lost.drop (L - w.crossed.length - _)
    rw [Nat.sub_eq_zero_of_le hlen, hzero, Nat.zero_sub, Nat.zero_sub]

/-- What is taken behind them is seen. -/
theorem past_accept {L : ℕ} {w : Wire} (h : L ≤ w.accepted.length) (b : Bytes) :
    (w.accept b).past L = (w.past L).accept b := by
  rw [length_accepted] at h
  by_cases hclosed : w.closed = true
  · rw [accept, accept, dif_pos hclosed, dif_pos (show (w.past L).closed = true from hclosed)]
    refine Wire.ext rfl rfl ?_ rfl
    show (w.lost ++ b).drop (L - w.crossed.length - w.inFlight.length) =
      w.lost.drop (L - w.crossed.length - w.inFlight.length) ++ b
    exact List.drop_append_of_le_length (by omega)
  · have hlost : ∀ n, w.lost.drop n = [] :=
      fun n => w.lost_drop_eq_nil n (Bool.eq_false_iff.2 hclosed)
    have hnone : w.lost = [] := hlost 0
    rw [hnone, List.length_nil] at h
    rw [accept, accept, dif_neg hclosed, dif_neg (show ¬ (w.past L).closed = true from hclosed)]
    refine Wire.ext rfl ?_ ((hlost _).trans (hlost _).symm) rfl
    show (w.inFlight ++ b).drop (L - w.crossed.length) = w.inFlight.drop (L - w.crossed.length) ++ b
    exact List.drop_append_of_le_length (by omega)

/-- A break of the connection. -/
theorem past_cut (L : ℕ) (w : Wire) (keep : ℕ) :
    (w.cut keep).past L = (w.past L).cut (keep - (L - w.crossed.length)) := by
  refine Wire.ext rfl ?_ ?_ rfl
  · exact List.drop_take
  · show (w.inFlight.drop keep ++ w.lost).drop
        (L - w.crossed.length - (w.inFlight.take keep).length) =
      (w.inFlight.drop (L - w.crossed.length)).drop (keep - (L - w.crossed.length)) ++
        w.lost.drop (L - w.crossed.length - w.inFlight.length)
    rw [List.drop_append, List.drop_drop, List.drop_drop, List.length_take, List.length_drop]
    refine congrArg₂ (· ++ ·) ?_ (congrArg (w.lost.drop ·) (by omega))
    rcases Nat.le_total keep w.inFlight.length with hle | hle
    · exact congrArg (w.inFlight.drop ·) (by omega)
    · rw [List.drop_of_length_le (by omega), List.drop_of_length_le (by omega)]

/-- Reading behind them. -/
theorem past_pollRead {L : ℕ} {w : Wire} (h : L ≤ w.crossed.length) (room : ℕ) (a : Answer) :
    (w.past L).pollRead room a = ((w.pollRead room a).1.past L, (w.pollRead room a).2) := by
  have hflight : (w.past L).inFlight = w.inFlight := by
    show w.inFlight.drop (L - w.crossed.length) = w.inFlight
    rw [Nat.sub_eq_zero_of_le h, List.drop_zero]
  cases a with
  | pending => rfl
  | ready r =>
    cases r with
    | error e => rfl
    | ok n =>
      rw [pollRead, pollRead, hflight]
      show (if w.inFlight = [] ∧ w.closed = false then _ else _) = _
      split_ifs
      · rfl
      · rw [past_advance h]

/-- A read gives the reading end some of what is in flight. -/
theorem exists_pollRead_eq (w : Wire) (room : ℕ) (a : Answer) :
    ∃ n, (w.pollRead room a).1 = w.advance n := by
  unfold pollRead
  split
  · exact ⟨0, w.advance_zero.symm⟩
  · exact ⟨0, w.advance_zero.symm⟩
  · split_ifs
    · exact ⟨0, w.advance_zero.symm⟩
    · exact ⟨_, rfl⟩

end Wire

namespace NoiseStream

/-- A poll, seen without the first bytes of the wire. -/
def Wrote.past {α : Type} (L : ℕ) (o : Wrote α) : Wrote α := { o with wire := o.wire.past L }

variable {s : NoiseStream}

/-- Writes do not look at what is on the wire: to flush behind the first bytes is to flush. -/
theorem flushWriteCipher_past {L : ℕ} {w : Wire} (h : L ≤ w.accepted.length)
    (answers : List Answer) :
    s.flushWriteCipher (w.past L) answers = (s.flushWriteCipher w answers).past L := by
  fun_induction flushWriteCipher s w answers with
  | case1 s w => rfl
  | case2 s w answer answers hempty =>
    rw [flushWriteCipher.eq_def]
    simp only [hempty, if_true]
    rfl
  | case6 s w answers hempty n ih =>
    rw [flushWriteCipher.eq_def]
    simp only [hempty, if_false]
    rw [← Wire.past_accept h]
    refine ih ?_
    rw [w.accepted_accept, List.length_append]
    omega
  | case3 s w answers hempty | case4 s w answers hempty | case5 s w answers hempty =>
    rw [flushWriteCipher.eq_def]
    simp only [hempty, if_false]
    rfl

/-- Flushing takes nothing back. -/
theorem grew_flushWriteCipher (s : NoiseStream) (w : Wire) (answers : List Answer) :
    w.Grew (s.flushWriteCipher w answers).wire := by
  fun_induction flushWriteCipher s w answers with
  | case6 s w answers hempty n ih => exact (Wire.grew_accept w _).trans ih
  | _ => exact .refl _

/-- A write only adds to the wire. -/
theorem grew_pollWrite (c : ChannelCipher TAG_LEN) (s : NoiseStream) (w : Wire) (buf : Bytes)
    (answers : List Answer) : w.Grew (s.pollWrite c w buf answers).wire := by
  have hdrained := grew_flushWriteCipher s w answers
  rw [pollWrite]
  generalize s.flushWriteCipher w answers = drained at hdrained
  dsimp only
  split
  · exact hdrained
  · exact hdrained
  · split
    · exact hdrained
    · next s' _ =>
        have hflushed := grew_flushWriteCipher s' drained.wire drained.answers
        split <;> exact hdrained.trans hflushed

/-- A flush only adds to the wire. -/
theorem grew_pollFlush (s : NoiseStream) (w : Wire) (answers : List Answer)
    (inner : Poll (Except IoError Unit)) : w.Grew (s.pollFlush w answers inner).wire := by
  have hflushed := grew_flushWriteCipher s w answers
  unfold pollFlush
  dsimp only
  split <;> exact hflushed

/-- A shutdown only adds to the wire. -/
theorem grew_pollShutdown (s : NoiseStream) (w : Wire) (answers : List Answer)
    (inner : Poll (Except IoError Unit)) : w.Grew (s.pollShutdown w answers inner).wire := by
  have hflushed := grew_flushWriteCipher s w answers
  unfold pollShutdown
  dsimp only
  split
  · exact hflushed.trans (Wire.grew_close _)
  · exact hflushed
  · exact hflushed

/-- To write behind the first bytes is to write. -/
theorem pollWrite_past (c : ChannelCipher TAG_LEN) {L : ℕ} {w : Wire} (h : L ≤ w.accepted.length)
    (buf : Bytes) (answers : List Answer) :
    s.pollWrite c (w.past L) buf answers = (s.pollWrite c w buf answers).past L := by
  rw [pollWrite, pollWrite, flushWriteCipher_past h]
  have hlen := h.trans (grew_flushWriteCipher s w answers).accepted.length_le
  generalize s.flushWriteCipher w answers = drained at hlen
  simp only [Wrote.past]
  split
  · rfl
  · rfl
  · split
    · rfl
    · rw [flushWriteCipher_past hlen]
      simp only [Wrote.past]
      split <;> rfl

/-- To flush behind the first bytes is to flush. -/
theorem pollFlush_past {L : ℕ} {w : Wire} (h : L ≤ w.accepted.length) (answers : List Answer)
    (inner : Poll (Except IoError Unit)) :
    s.pollFlush (w.past L) answers inner = (s.pollFlush w answers inner).past L := by
  rw [pollFlush, pollFlush, flushWriteCipher_past h]
  simp only [Wrote.past]
  split <;> rfl

/-- To shut down behind the first bytes is to shut down. -/
theorem pollShutdown_past {L : ℕ} {w : Wire} (h : L ≤ w.accepted.length) (answers : List Answer)
    (inner : Poll (Except IoError Unit)) :
    s.pollShutdown (w.past L) answers inner = (s.pollShutdown w answers inner).past L := by
  unfold pollShutdown
  rw [flushWriteCipher_past h]
  generalize s.flushWriteCipher w answers = flushed
  obtain ⟨s', w', answers', poll⟩ := flushed
  simp only [Wrote.past]
  match poll, inner with
  | .ready (.ok ()), .ready (.ok ()) => rfl
  | .ready (.ok ()), .pending | .ready (.ok ()), .ready (.error _) => rfl
  | .pending, _ | .ready (.error _), _ => rfl

/-- One turn of the loop of `poll_read`. -/
theorem pollRead_eq (c : ChannelCipher TAG_LEN) (room : ℕ) (w : Wire) (answers : List Answer)
    (hplain : ¬ s.readPlain ≠ []) :
    s.pollRead c room w answers =
      match s.tryDecryptOneFrame c with
      | (s', .error e) => ⟨s', w, [], .ready (.error e)⟩
      | (s', .ok (some plaintext)) =>
        pollRead c room { s' with readPlain := s'.readPlain ++ plaintext } w answers
      | (s', .ok none) =>
        match answers with
        | [] => ⟨s', w, [], .pending⟩
        | answer :: rest =>
          match w.pollRead READ_LEN answer with
          | (w', .pending) => ⟨s', w', [], .pending⟩
          | (w', .ready (.error e)) => ⟨s', w', [], .ready (.error e)⟩
          | (w', .ready (.ok filled)) =>
            if filled = [] then
              if s'.readCipher = [] then ⟨s', w', [], .ready (.ok ())⟩
              else ⟨s', w', [], .ready (.error closedMidFrame)⟩
            else pollRead c room { s' with readCipher := s'.readCipher ++ filled } w'
              rest := by
  rw [pollRead, if_neg hplain]
  split
  · next hframe => rw [hframe]
  · next hframe => rw [hframe]
  · next hframe =>
      rw [hframe]
      cases answers with
      | nil => rfl
      | cons answer rest =>
        dsimp only
        split
        · next hread => rw [hread]
        · next hread => rw [hread]
        · next hread => rw [hread]

/-- A read looks only at what has not crossed. -/
theorem pollRead_past (c : ChannelCipher TAG_LEN) {L : ℕ} (room : ℕ) {w : Wire}
    (h : L ≤ w.crossed.length) (answers : List Answer) :
    s.pollRead c room (w.past L) answers =
      { s.pollRead c room w answers with wire := (s.pollRead c room w answers).wire.past L } := by
  fun_induction pollRead c room s w answers with
  | case1 s w answers hplain => rw [pollRead, if_pos hplain]
  | case2 s w answers hplain s' e hframe => rw [pollRead_eq _ _ _ _ hplain, hframe]
  | case3 s w answers hplain s' plaintext hframe ih =>
    rw [pollRead_eq _ _ _ _ hplain, hframe]
    exact ih h
  | case4 s w hplain s' hframe => rw [pollRead_eq _ _ _ _ hplain, hframe]
  | case5 s w hplain s' hframe answer answers w' hread
  | case6 s w hplain s' hframe answer answers w' e hread =>
    rw [pollRead_eq _ _ _ _ hplain, hframe]
    dsimp only
    rw [Wire.past_pollRead h, hread]
  | case7 s w hplain s' hframe answer answers w' hcipher hread
  | case8 s w hplain s' hframe answer answers w' hcipher hread =>
    rw [pollRead_eq _ _ _ _ hplain, hframe]
    dsimp only
    rw [Wire.past_pollRead h, hread]
    simp only [hcipher, if_true, if_false]
  | case9 s w hplain s' hframe answer answers w' filled hread hne ih =>
    rw [pollRead_eq _ _ _ _ hplain, hframe]
    dsimp only
    rw [Wire.past_pollRead h, hread]
    simp only [hne, if_false]
    obtain ⟨n, hn⟩ := w.exists_pollRead_eq READ_LEN answer
    rw [hread] at hn
    refine ih (h.trans ?_)
    rw [show w' = _ from hn, Wire.advance, List.length_append]
    exact Nat.le_add_right _ _

/-- `poll_read` gives the reading end some of what is in flight. -/
theorem exists_pollRead_wire_eq (c : ChannelCipher TAG_LEN) (room : ℕ) (s : NoiseStream) (w : Wire)
    (answers : List Answer) : ∃ n, (s.pollRead c room w answers).wire = w.advance n := by
  fun_induction pollRead c room s w answers with
  | case1 | case2 | case4 => exact ⟨0, (Wire.advance_zero _).symm⟩
  | case3 s w answers hplain s' plaintext hframe ih => exact ih
  | case5 s w hplain s' hframe answer answers w' hread
  | case6 s w hplain s' hframe answer answers w' e hread
  | case7 s w hplain s' hframe answer answers w' hcipher hread
  | case8 s w hplain s' hframe answer answers w' hcipher hread =>
    obtain ⟨n, hn⟩ := w.exists_pollRead_eq READ_LEN answer
    rw [hread] at hn
    exact ⟨n, hn⟩
  | case9 s w hplain s' hframe answer answers w' filled hread hne ih =>
    obtain ⟨n, hn⟩ := w.exists_pollRead_eq READ_LEN answer
    obtain ⟨m, hm⟩ := ih
    rw [hread] at hn
    rw [hm, show w' = _ from hn, Wire.advance_advance]
    exact ⟨_, rfl⟩

end NoiseStream

/-! ### Both directions -/

namespace Duplex

/-- Both wires without their first bytes. -/
def past (L : Bool → ℕ) (d : Duplex) : Duplex := { d with wire := fun e => (d.wire e).past (L e) }

variable {C : Bool → ChannelCipher TAG_LEN} {L : Bool → ℕ} {d : Duplex} {e : Bool}

/-- The wires without their greetings, one by one. -/
theorem past_update (L : Bool → ℕ) (wire : Bool → Wire) (e : Bool) (w : Wire) :
    (fun e' => (update wire e w e').past (L e')) =
      update (fun e' => (wire e').past (L e')) e (w.past (L e)) := by
  funext e'
  exact apply_update (fun k (w : Wire) => w.past (L k)) wire e w e'

/-- A write is the same write without the greeting. -/
theorem wrote_past {α : Type} (o : NoiseStream.Wrote α) :
    (d.past L).wrote e (o.past (L e)) = (d.wrote e o).past L := by
  show (⟨_, update _ e (o.wire.past (L e)), _, _, _⟩ : Duplex) =
    ⟨_, fun e' => (update d.wire e o.wire e').past (L e'), _, _, _⟩
  rw [past_update]
  rfl

/-- **An end that is past the first bytes does not see them.** -/
theorem step_past {event : DuplexEvent} (haccepted : L event.at ≤ (d.wire event.at).accepted.length)
    (hcrossed : L (!event.at) ≤ (d.wire !event.at).crossed.length)
    (hcut : ∀ e keep, event ≠ .cut e keep) : (d.past L).step C event = (d.step C event).past L := by
  cases event with
  | write e buf answers =>
    have hpoll := NoiseStream.pollWrite_past (C e) (s := d.stream e) haccepted buf answers
    simp only [step]
    rw [show ((d.past L).stream e).pollWrite (C e) ((d.past L).wire e) buf answers = _ from hpoll,
      DuplexEvent.at, wrote_past]
    generalize (d.stream e).pollWrite (C e) (d.wire e) buf answers = o
    obtain ⟨s, w, rest, poll⟩ := o
    cases poll with
    | ready r => cases r <;> rfl
    | pending => rfl
  | flush e answers inner =>
    have hpoll := NoiseStream.pollFlush_past (s := d.stream e) haccepted answers inner
    simp only [step]
    rw [show ((d.past L).stream e).pollFlush ((d.past L).wire e) answers inner = _ from hpoll,
      DuplexEvent.at, wrote_past]
    generalize (d.stream e).pollFlush (d.wire e) answers inner = o
    obtain ⟨s, w, rest, poll⟩ := o
    cases poll with
    | ready r => cases r <;> rfl
    | pending => rfl
  | shutdown e answers inner =>
    have hpoll := NoiseStream.pollShutdown_past (s := d.stream e) haccepted answers inner
    simp only [step]
    rw [show ((d.past L).stream e).pollShutdown ((d.past L).wire e) answers inner = _ from hpoll,
      DuplexEvent.at, wrote_past]
  | read e room answers =>
    have hpoll := NoiseStream.pollRead_past (C !e) room (s := d.stream e) hcrossed answers
    simp only [step]
    rw [show (d.past L).readAt C e room answers = _ from hpoll]
    show (⟨_, update _ (!e) _, _, _, _⟩ : Duplex) =
      ⟨_, fun e' => (update d.wire (!e) _ e').past (L e'), _, _, _⟩
    rw [past_update]
    rfl
  | cut e keep => exact absurd rfl (hcut e keep)

/-- What a poll at `e` may change: `e` writes to its wire and reads from the other. -/
structure PolledAt (e : Bool) (d d' : Duplex) : Prop where
  writes : (d.wire e).Grew (d'.wire e)
  reads : ∃ n, d'.wire (!e) = (d.wire !e).advance n
  stream : d'.stream (!e) = d.stream (!e)
  written : d'.written (!e) = d.written (!e)
  handed : d'.handed (!e) = d.handed (!e)

/-- A write is a poll of its end. -/
theorem PolledAt.wrote {α : Type} {o : NoiseStream.Wrote α} (h : (d.wire e).Grew o.wire) :
    PolledAt e d (d.wrote e o) := by
  have hself : (d.wrote e o).wire e = o.wire := update_self ..
  have hother : (d.wrote e o).wire (!e) = d.wire (!e) := update_not ..
  refine ⟨hself ▸ h, ⟨0, ?_⟩, update_not .., rfl, rfl⟩
  rw [hother, Wire.advance_zero]

/-- So is every event but a cut. -/
theorem polledAt_step {event : DuplexEvent} (hcut : ∀ e keep, event ≠ .cut e keep) :
    PolledAt event.at d (d.step C event) := by
  cases event with
  | write e buf answers =>
    have hwrote := PolledAt.wrote
      (NoiseStream.grew_pollWrite (C e) (d.stream e) (d.wire e) buf answers)
    simp only [step]
    split
    · exact { hwrote with written := update_not .. }
    · exact hwrote
  | flush e answers inner =>
    have hwrote := PolledAt.wrote
      (NoiseStream.grew_pollFlush (d.stream e) (d.wire e) answers inner)
    simp only [step]
    split
    · exact { hwrote with written := rfl }
    · exact hwrote
  | shutdown e answers inner =>
    exact .wrote (NoiseStream.grew_pollShutdown (d.stream e) (d.wire e) answers inner)
  | read e room answers =>
    obtain ⟨n, hn⟩ :=
      NoiseStream.exists_pollRead_wire_eq (C !e) room (d.stream e) (d.wire !e) answers
    refine ⟨?_, ⟨n, ?_⟩, update_not .., rfl, update_not ..⟩
    · have hother : e ≠ !e := (Bool.not_ne_self e).symm
      simp only [step, DuplexEvent.at, update_of_ne hother]
      exact .refl _
    · simp only [step, DuplexEvent.at, update_self]
      exact hn
  | cut e keep => exact absurd rfl (hcut e keep)

/-- A break of the connection is one behind the first bytes. -/
theorem cut_past (e : Bool) (keep : ℕ) : (d.step C (.cut e keep)).past L =
    (d.past L).step C (.cut e (keep - (L e - (d.wire e).crossed.length))) := by
  show (⟨_, fun e' => (update d.wire e _ e').past (L e'), _, _, _⟩ : Duplex) = _
  rw [past_update, Wire.past_cut]
  rfl

end Duplex
end Shardscape
