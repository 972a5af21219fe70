/-
# Scripts over the wires

A task that follows a script follows it over the wires of a connection, as long as what the other
end sends is what the script expects: a poll does a part of the script, takes no byte off the wire
that is not in it, and leaves a task that follows the rest (`polledAlong_pollTask`).  What the other
end has sent behind the script stays in flight.  Where the stream is ready and the script is not at
a byte that has not come, a poll does something (`pollTask_ready`).
-/

import Shardscape.Transport.Handshake

namespace Shardscape

open Lib

namespace Wire

/-- To read nothing changes nothing. -/
theorem advance_zero (w : Wire) : w.advance 0 = w := by
  simp [advance]

/-- Two reads are one. -/
theorem advance_advance (w : Wire) (m n : ℕ) : (w.advance m).advance n = w.advance (m + n) := by
  simp [advance, List.take_add]

/-- A read keeps what was accepted. -/
theorem accepted_advance (w : Wire) (n : ℕ) : (w.advance n).accepted = w.accepted := by
  rw [accepted, advance, List.append_assoc w.crossed, List.take_append_drop]
  rfl

/-- No more than what is in flight is given. -/
theorem advance_length_take (w : Wire) (n : ℕ) :
    w.advance (w.inFlight.take n).length = w.advance n := by
  rcases Nat.le_total n w.inFlight.length with hle | hle
  · rw [List.length_take_of_le hle]
  · rw [List.take_of_length_le hle, advance, advance, List.take_of_length_le hle,
      List.drop_of_length_le hle, List.take_length, List.drop_length]

/-- To accept bytes closes nothing. -/
theorem closed_accept (w : Wire) (b : Bytes) : (w.accept b).closed = w.closed := by
  unfold accept
  split_ifs <;> rfl

/-- The first `L` bytes arrive, whether or not the wire is closed. -/
def Delivers (L : ℕ) (w : Wire) : Prop :=
  w.closed = true → L ≤ w.crossed.length + w.inFlight.length

/-- The writing end has gone on. -/
structure Grew (w w' : Wire) : Prop where
  accepted : w.accepted <+: w'.accepted
  crossed : w'.crossed = w.crossed
  inFlight : w.inFlight <+: w'.inFlight
  closed : w.closed = true → w'.closed = true
  delivers : ∀ L, L ≤ w.accepted.length → w.Delivers L → w'.Delivers L

/-- A wire has grown from itself. -/
theorem Grew.refl (w : Wire) : w.Grew w :=
  ⟨List.prefix_rfl, rfl, List.prefix_rfl, id, fun _ _ => id⟩

/-- To have grown is transitive. -/
theorem Grew.trans {w w' w'' : Wire} (h : w.Grew w') (h' : w'.Grew w'') : w.Grew w'' where
  accepted := h.accepted.trans h'.accepted
  crossed := h'.crossed.trans h.crossed
  inFlight := h.inFlight.trans h'.inFlight
  closed := h'.closed ∘ h.closed
  delivers L hL hw := h'.delivers L (hL.trans h.accepted.length_le) (h.delivers L hL hw)

/-- A wire grows with what it accepts. -/
theorem grew_accept (w : Wire) (b : Bytes) : w.Grew (w.accept b) := by
  have hflight : w.inFlight <+: (w.accept b).inFlight := by
    unfold accept
    split_ifs
    · exact List.prefix_rfl
    · exact List.prefix_append _ _
  refine ⟨w.accepted_accept b ▸ List.prefix_append _ _, w.crossed_accept b, hflight,
    fun h => (w.closed_accept b).trans h, fun L _ hw hclosed => ?_⟩
  have hle := hflight.length_le
  have hL := hw ((w.closed_accept b).symm.trans hclosed)
  rw [w.crossed_accept b]
  omega

/-- A wire grows with its end. -/
theorem grew_close (w : Wire) : w.Grew w.close := by
  refine ⟨List.prefix_rfl, rfl, List.prefix_rfl, fun _ => rfl, fun L hL hw _ => ?_⟩
  cases hclosed : w.closed with
  | true => exact hw hclosed
  | false =>
    rw [accepted, w.lost_eq_nil hclosed, List.append_nil, List.length_append] at hL
    exact hL

/-- A part of a script was done: what it receives was taken off the one wire, and what it sends was
given to the other. -/
structure Did (i o : Wire) (q : List (Act Byte)) (i' o' : Wire) : Prop where
  read : Act.received q <+: i.inFlight
  inward : i' = i.advance (Act.received q).length
  accepted : o'.accepted = o.accepted ++ Act.sent q
  closed : o'.closed = o.closed
  grew : o.Grew o'

/-- Nothing done leaves both wires. -/
theorem Did.refl (i o : Wire) : Did i o [] i o :=
  ⟨List.nil_prefix, i.advance_zero.symm, (List.append_nil _).symm, rfl, .refl o⟩

/-- What is done in turn adds up. -/
theorem Did.trans {i o i' o' i'' o'' : Wire} {q q' : List (Act Byte)} (h : Did i o q i' o')
    (h' : Did i' o' q' i'' o'') : Did i o (q ++ q') i'' o'' := by
  obtain ⟨rest, hrest⟩ := h.read
  have hflight : i'.inFlight = rest := by
    rw [h.inward]
    show i.inFlight.drop _ = rest
    rw [← hrest, List.drop_left]
  refine ⟨?_, ?_, ?_, h'.closed.trans h.closed, h.grew.trans h'.grew⟩
  · rw [Act.received_append, ← hrest, List.prefix_append_right_inj, ← hflight]
    exact h'.read
  · rw [h'.inward, h.inward, advance_advance, Act.received_append, List.length_append]
  · rw [h'.accepted, h.accepted, Act.sent_append, List.append_assoc]

/-- Bytes were written. -/
theorem did_accept (i o : Wire) (b : Bytes) : Did i o (b.map .send) i (o.accept b) := by
  refine ⟨?_, ?_, ?_, o.closed_accept b, o.grew_accept b⟩
  · rw [Act.received_map_send]
    exact List.nil_prefix
  · rw [Act.received_map_send, List.length_nil, advance_zero]
  · rw [o.accepted_accept, Act.sent_map_send]

/-- Bytes were read. -/
theorem did_advance {i : Wire} (o : Wire) {b : Bytes} (h : b <+: i.inFlight) :
    Did i o (b.map .recv) (i.advance b.length) o := by
  refine ⟨?_, ?_, ?_, rfl, .refl o⟩
  · rw [Act.received_map_recv]
    exact h
  · rw [Act.received_map_recv]
  · rw [Act.sent_map_recv, List.append_nil]

end Wire

open Wire

/-- What is in flight begins with what is expected, as far as both go. -/
theorem take_eq_of_comparable {b flight rest : Bytes} {n : ℕ}
    (h : flight <+: b ++ rest ∨ b ++ rest <+: flight) (hn : n ≤ b.length) :
    flight.take n = b.take (flight.take n).length := by
  have hlen : (flight.take n).length ≤ b.length := (List.length_take_le n flight).trans hn
  have happend : b <+: b ++ rest := List.prefix_append b rest
  have hb : b.take (flight.take n).length <+: b ++ rest := (List.take_prefix _ b).trans happend
  have hf : flight.take n <+: flight := List.take_prefix n flight
  have heq : (b.take (flight.take n).length).length = (flight.take n).length :=
    List.length_take_of_le hlen
  rcases h with h | h
  · exact (List.prefix_of_prefix_length_le (hf.trans h) hb heq.ge).eq_of_length heq.symm
  · exact (List.prefix_of_prefix_length_le hf (hb.trans h) heq.ge).eq_of_length heq.symm

section

variable {α : Type} {r : Except HandshakeError α} {t : StreamTask α} {s : List (Act Byte)}
  {i o : Wire}

/-- What the other end sends is what the script expects, as far as both go. -/
def Expected (s : List (Act Byte)) (i : Wire) : Prop :=
  i.inFlight <+: Act.received s ∨ Act.received s <+: i.inFlight

/-- After a part of the script, the rest is expected. -/
theorem Expected.did {q s : List (Act Byte)} {i' o' : Wire} (h : Expected (q ++ s) i)
    (hdid : Did i o q i' o') : Expected s i' := by
  obtain ⟨rest, hrest⟩ := hdid.read
  have hflight : i'.inFlight = rest := by
    rw [hdid.inward]
    show i.inFlight.drop _ = rest
    rw [← hrest, List.drop_left]
  rw [Expected, Act.received_append, ← hrest, List.prefix_append_right_inj,
    List.prefix_append_right_inj] at h
  rw [Expected, hflight]
  exact h

/-- **A ready stream.**  The task waits for a byte that has not come, or finds the end of the wire,
or does something. -/
theorem pollTask_ready (h : Follows r t s) (hs : s ≠ []) {n : ℕ} (hn : 0 < n)
    (hnext : Expected s i) (answers : List Answer) :
    ((∃ b s', s = .recv b :: s') ∧ i.inFlight = [] ∧ i.closed = false ∧
      pollTask t i o (.ready (.ok n) :: answers) = (t, i, o)) ∨
    (i.closed = true ∧ i.inFlight.length < (Act.received s).length ∧
      ∃ e, pollTask t i o (.ready (.ok n) :: answers) = (.done (.error e), i, o)) ∨
    ∃ q s' t' i' o', q ≠ [] ∧ s = q ++ s' ∧ Follows r t' s' ∧ Did i o q i' o' ∧
      pollTask t i o (.ready (.ok n) :: answers) = pollTask t' i' o' answers := by
  cases h with
  | done => exact absurd rfl hs
  | @write b k s hb h =>
    have hpos : 0 < min n b.length := lt_min hn (List.length_pos_of_ne_nil hb)
    refine .inr (.inr ⟨(b.take (min n b.length)).map .send,
      (b.drop (min n b.length)).map .send ++ s, k (min n b.length), i, _, ?_, ?_,
      h _ hpos (min_le_right _ _), did_accept i o _, ?_⟩)
    · rw [ne_eq, List.map_eq_nil_iff, List.take_eq_nil_iff]
      exact not_or.2 ⟨hpos.ne', hb⟩
    · rw [← List.append_assoc, ← List.map_append, List.take_append_drop]
    · rw [pollTask, show b.take n = b.take (min n b.length) from List.take_eq_take_min]
  | @read b k s hb hend h =>
    rw [Expected, Act.received_append, Act.received_map_recv] at hnext
    have hpos : 0 < min n b.length := lt_min hn (List.length_pos_of_ne_nil hb)
    rw [pollTask, Wire.pollRead, ← i.advance_length_take]
    by_cases hflight : i.inFlight = []
    · cases hclosed : i.closed with
      | false =>
        refine .inl ⟨?_, hflight, rfl, by rw [if_pos ⟨hflight, rfl⟩]⟩
        obtain ⟨x, b', rfl⟩ := List.exists_cons_of_ne_nil hb
        exact ⟨x, b'.map .recv ++ s, rfl⟩
      | true =>
        obtain ⟨e, he⟩ := hend
        refine .inr (.inl ⟨rfl, ?_, e, ?_⟩)
        · rw [hflight, Act.received_append, Act.received_map_recv, List.length_append]
          exact Nat.lt_of_lt_of_le (List.length_pos_of_ne_nil hb) (Nat.le_add_right _ _)
        · rw [if_neg fun hopen => Bool.noConfusion hopen.2]
          simp only [hflight, List.take_nil, List.length_nil, i.advance_zero, he]
          rw [pollTask]
    · rw [if_neg fun hempty => hflight hempty.1]
      have htake := take_eq_of_comparable hnext (min_le_right n b.length)
      have hle : (i.inFlight.take (min n b.length)).length ≤ b.length :=
        (List.length_take_le _ _).trans (min_le_right _ _)
      have hgot : 0 < (i.inFlight.take (min n b.length)).length := by
        rw [List.length_take]
        exact lt_min hpos (List.length_pos_of_ne_nil hflight)
      have hfront : i.inFlight.take (min n b.length) <+: i.inFlight := List.take_prefix _ _
      have hjoin : i.inFlight.take (min n b.length) ++
          b.drop (i.inFlight.take (min n b.length)).length = b := by
        nth_rewrite 1 [htake]
        exact List.take_append_drop _ _
      refine .inr (.inr ⟨(i.inFlight.take (min n b.length)).map .recv,
        (b.drop (i.inFlight.take (min n b.length)).length).map .recv ++ s, _, _, o, ?_, ?_,
        h _ hgot hle, did_advance o hfront, ?_⟩)
      · rw [ne_eq, List.map_eq_nil_iff]
        exact List.ne_nil_of_length_pos hgot
      · rw [← List.append_assoc, ← List.map_append, hjoin]
      · rw [← htake]

/-- What a poll leaves of a task that had to follow `s`: it did a part `q` of it and no more, and
the rest is to follow; or it found the end of the wire. -/
def PolledAlong (r : Except HandshakeError α) (s : List (Act Byte)) (i o : Wire)
    (out : StreamTask α × Wire × Wire) (q : List (Act Byte)) : Prop :=
  ∃ s', s = q ++ s' ∧ Did i o q out.2.1 out.2.2 ∧
    (Follows r out.1 s' ∨
      (i.closed = true ∧ i.inFlight.length < (Act.received s).length) ∧
        ∃ e, out.1 = .done (.error e))

/-- A poll that has done a part goes on with the rest. -/
theorem PolledAlong.did {out : StreamTask α × Wire × Wire} {q q' : List (Act Byte)} {i' o' : Wire}
    (hdid : Did i o q i' o') (h : PolledAlong r s i' o' out q') :
    PolledAlong r (q ++ s) i o out (q ++ q') := by
  obtain ⟨s', rfl, hdid', hnext⟩ := h
  refine ⟨s', (List.append_assoc ..).symm, hdid.trans hdid', hnext.imp_right ?_⟩
  rintro ⟨⟨hclosed, hshort⟩, herr⟩
  rw [hdid.inward] at hclosed hshort
  refine ⟨⟨hclosed, ?_⟩, herr⟩
  have hlen := hdid.read.length_le
  have hdrop : (i.advance (Act.received q).length).inFlight.length =
      i.inFlight.length - (Act.received q).length := List.length_drop
  rw [Act.received_append q, List.length_append]
  omega

/-- **A task that follows a script does so over the wires**, if what it expects of the other end is
in flight, or the beginning of it. -/
theorem polledAlong_pollTask (h : Follows r t s) {answers : List Answer}
    (hgood : ∀ a ∈ answers, Answer.Good a) (hnext : Expected s i) :
    ∃ q, PolledAlong r s i o (pollTask t i o answers) q := by
  have hstays : ∀ {t : StreamTask α} {s : List (Act Byte)} {i o : Wire}, Follows r t s →
      ∃ q, PolledAlong r s i o (t, i, o) q := fun h => ⟨[], _, rfl, .refl _ _, .inl h⟩
  induction answers generalizing t s i o with
  | nil =>
    have hnil : pollTask t i o [] = (t, i, o) := by cases t <;> rfl
    rw [hnil]
    exact hstays h
  | cons answer answers ih =>
    obtain ⟨hanswer, hanswers⟩ := List.forall_mem_cons.1 hgood
    by_cases hs : s = []
    · cases h with
      | done => exact hstays .done
      | write hb => simp [hb] at hs
      | read hb => simp [hb] at hs
    · match answer, hanswer with
      | .pending, _ =>
        have hpending : pollTask t i o (.pending :: answers) = (t, i, o) := by cases t <;> rfl
        rw [hpending]
        exact hstays h
      | .ready (.ok n), hn =>
        rcases pollTask_ready (o := o) h hs hn hnext answers with
          ⟨-, -, -, heq⟩ | ⟨hclosed, hshort, e, heq⟩ |
            ⟨q, s', t', i', o', -, rfl, h', hdid, heq⟩
        · rw [heq]
          exact hstays h
        · rw [heq]
          exact ⟨[], s, rfl, .refl _ _, .inr ⟨⟨hclosed, hshort⟩, e, rfl⟩⟩
        · rw [heq]
          obtain ⟨q', hq'⟩ := ih (o := o') h' hanswers (hnext.did hdid)
          exact ⟨q ++ q', hq'.did hdid⟩

end

end Shardscape
