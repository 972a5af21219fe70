/-
# The handshake ends

`src/noise_transport.rs`, `accept` and `connect`.

Two ends that are polled again and again, on a connection that does not break, come to the end of
their handshakes (`handshakes_end`), whatever the streams are used for in the meantime.  The two
scripts are dual, so the ends cannot both wait for the other; the bytes that are left of the scripts
become fewer.
-/

import Shardscape.Lib.LeadsTo
import Shardscape.Transport.Connection

namespace Shardscape

open Lib
open NoiseStream
open Duplex (update_not)

namespace Connection

variable {N : Snow} {i r : N.State} {x : N.Exchange i r} {d : Connection} {e : Bool}
  {p s : List (Act Byte)}

/-- The wire of an end brings the handshake to the other, and is open as long as the handshake goes
on; and if that fails, it has to. -/
structure Uncut (x : N.Exchange i r) (d : Connection) (e : Bool) : Prop where
  delivers : (d.duplex.wire e).Delivers (greeting x e)
  stillOpen : ∀ t, d.status e = .handshaking t → (d.duplex.wire e).closed = false
  failed : ∀ err, d.status e = .failed err → x.ending e = .error err

/-- A wire still delivers after a read. -/
theorem delivers_advance {L n : ℕ} {w : Wire} (h : w.Delivers L) : (w.advance n).Delivers L := by
  intro hclosed
  have hL := h hclosed
  show L ≤ (w.crossed ++ w.inFlight.take n).length + (w.inFlight.drop n).length
  rw [List.length_append, List.length_take, List.length_drop]
  omega

variable {event : ConnectionEvent}

/-- What an event does, if it is no break of the connection: nothing, a poll of a handshake, or a
poll of a stream. -/
theorem step_cases (d : Connection) (hcut : ∀ e keep, event ≠ .stream (.cut e keep)) :
    d.step event = d ∨
    (∃ e t answers, event = .handshake e answers ∧ d.status e = .handshaking t ∧
      d.step event = d.afterPoll e (pollTask t (d.duplex.wire !e) (d.duplex.wire e) answers).1
        (pollTask t (d.duplex.wire !e) (d.duplex.wire e) answers).2.1
        (pollTask t (d.duplex.wire !e) (d.duplex.wire e) answers).2.2) ∨
    ∃ e c D, d.status e = .opened c ∧ Duplex.PolledAt e d.duplex D ∧
      d.step event = { d with duplex := D } := by
  cases event with
  | handshake e answers =>
    rw [step]
    split
    · next t ht => exact .inr (.inl ⟨e, t, answers, rfl, ht, rfl⟩)
    · exact .inl rfl
  | stream ev =>
    have hcut' : ∀ e keep, ev ≠ .cut e keep := fun e keep hev => hcut e keep (hev ▸ rfl)
    rw [step_stream hcut']
    split
    · next c hopen =>
        exact .inr (.inr ⟨ev.at, c, _, hopen, Duplex.polledAt_step hcut', rfl⟩)
    · exact .inl rfl

/-- On an uncut connection an end does not find the end of the wire. -/
theorem Placed.not_short (h : Placed x d e p s) (hidle : ∀ c, d.status e ≠ .opened c)
    (hcut : Uncut x d !e) : ¬ ((d.duplex.wire !e).closed = true ∧
      (d.duplex.wire !e).inFlight.length < (Act.received s).length) := by
  rintro ⟨hclosed, hshort⟩
  have hle := hcut.delivers hclosed
  rw [(h.idle hidle).2.1, greeting_not, ← h.split, Act.received_append, List.length_append] at hle
  omega

/-- A poll of a handshake leaves an uncut connection uncut. -/
theorem Uncut.afterPoll (h : ∀ e, Uncut x d e) (hp : Placed x d e p s)
    {t t' : StreamTask Opened} (ht : d.status e = .handshaking t) {i o : Wire}
    {q : List (Act Byte)}
    (hout : PolledAlong (x.ending e) s (d.duplex.wire !e) (d.duplex.wire e) (t', i, o) q)
    (e' : Bool) :
    Uncut x (d.afterPoll e t' i o) e' := by
  have hidle := not_opened ht
  obtain ⟨s', rfl, hdid, hnext⟩ := hout
  rcases Bool.eq_or_eq_not e' e with rfl | rfl
  · have hopen : o.closed = false := hdid.closed.trans ((h e').stillOpen t ht)
    have hwire : (d.afterPoll e' t' i o).duplex.wire e' = droppedWire t' o := wires_self ..
    have hstatus : (d.afterPoll e' t' i o).status e' = .ofTask t' := Function.update_self ..
    have hfollows : Follows (x.ending e') t' s' :=
      hnext.resolve_right fun hend => hp.not_short hidle (h !e') hend.1
    refine ⟨?_, ?_, ?_⟩
    · rw [hwire]
      -- an end that fails shuts its wire down, after all that it had to say
      rcases t' with (err | _) | _ | _
      · obtain ⟨-, rfl⟩ := hfollows.eq_of_done
        have hall : o.accepted.length = greeting x e' := by
          rw [show o.accepted = _ from hdid.accepted, (hp.idle hidle).1, greeting, ← hp.split,
            List.append_nil, Act.sent_append]
        exact (Wire.grew_close o).delivers _ hall.ge fun hclosed =>
          absurd (hopen.symm.trans hclosed) Bool.false_ne_true
      all_goals exact fun hclosed => absurd (hopen.symm.trans hclosed) Bool.false_ne_true
    · rw [hwire, hstatus]
      rcases t' with (_ | _) | _ | _
      · rintro _ ⟨⟩
      · rintro _ ⟨⟩
      all_goals exact fun _ _ => hopen
    · rw [hstatus]
      rcases t' with (err | _) | _ | _
      · rintro err' ⟨⟩
        exact hfollows.eq_of_done.1
      all_goals rintro _ ⟨⟩
  · have hwire : (d.afterPoll e t' i o).duplex.wire (!e) = i := wires_not ..
    have hstatus : (d.afterPoll e t' i o).status (!e) = d.status (!e) := update_not ..
    have hinward : i = _ := hdid.inward
    refine ⟨?_, ?_, hstatus ▸ (h !e).failed⟩
    · rw [hwire, hinward]
      exact delivers_advance (h !e).delivers
    · rw [hstatus, hwire, hinward]
      exact (h !e).stillOpen

/-- So does a poll of a stream. -/
theorem Uncut.polledAt (h : ∀ e, Uncut x d e) (hp : Placed x d e p s)
    {c : Bool → ChannelCipher TAG_LEN} (hopen : d.status e = .opened c) {D : Duplex}
    (hD : Duplex.PolledAt e d.duplex D) (e' : Bool) : Uncut x { d with duplex := D } e' := by
  rcases Bool.eq_or_eq_not e' e with rfl | rfl
  · refine ⟨hD.writes.delivers _ (hp.greeting_le hopen).1 (h e').delivers, fun t ht => ?_,
      (h e').failed⟩
    cases hopen.symm.trans ht
  · obtain ⟨n, hn⟩ := hD.reads
    refine ⟨?_, fun t ht => ?_, (h !e).failed⟩
    · show (D.wire !e).Delivers _
      rw [hn]
      exact delivers_advance (h !e).delivers
    · show (D.wire !e).closed = false
      rw [hn]
      exact (h !e).stillOpen t ht

/-- The ends are in step, and the connection is uncut. -/
structure Going (x : N.Exchange i r) (d : Connection) : Prop where
  inStep : InStep x d
  uncut : ∀ e, Uncut x d e

/-- **One event** keeps the handshakes going. -/
theorem Going.step (h : Going x d) (hgood : event.Good)
    (hcut : ∀ e keep, event ≠ .stream (.cut e keep)) : Going x (d.step event) := by
  refine ⟨(h.inStep.step hgood).1, ?_⟩
  rcases step_cases d hcut with heq | ⟨e, t, answers, rfl, ht, heq⟩ | ⟨e, c, D, hopen, hD, heq⟩
  · rw [heq]
    exact h.uncut
  · obtain ⟨p, s, hp⟩ := h.inStep e
    obtain ⟨q, hout⟩ := hp.polledAlong h.inStep ht hgood
    rw [heq]
    exact Uncut.afterPoll h.uncut hp ht hout
  · obtain ⟨p, s, hp⟩ := h.inStep e
    rw [heq]
    exact Uncut.polledAt h.uncut hp hopen hD

/-! ### Someone can go on -/

/-- An end that has a byte to send, or one to read. -/
def Enabled (x : N.Exchange i r) (d : Connection) (e : Bool) : Prop :=
  ∃ p s t, Placed x d e p s ∧ d.status e = .handshaking t ∧
    ((∃ b s', s = .send b :: s') ∨ (d.duplex.wire !e).inFlight ≠ [])

/-- With nothing in flight, all that was accepted has crossed. -/
theorem accepted_of_open {w : Wire} (hopen : w.closed = false) (hflight : w.inFlight = []) :
    w.accepted = w.crossed := by
  rw [Wire.accepted, hflight, w.lost_eq_nil hopen, List.append_nil, List.append_nil]

/-- An end that cannot go on waits for a byte on an open wire with nothing in flight. -/
theorem Placed.waiting (h : Placed x d e p s) {t : StreamTask Opened}
    (ht : d.status e = .handshaking t) (hcut : Uncut x d !e) (hstuck : ¬ Enabled x d e) :
    (∃ b s', s = .recv b :: s') ∧ (d.duplex.wire !e).accepted = Act.received p := by
  have hidle := not_opened ht
  have hflight : (d.duplex.wire !e).inFlight = [] := by
    by_contra hne
    exact hstuck ⟨p, s, t, h, ht, .inr hne⟩
  have hplace := h.status
  rw [ht] at hplace
  obtain ⟨a, s', rfl⟩ := List.exists_cons_of_ne_nil hplace.2
  cases a with
  | send b => exact (hstuck ⟨p, _, t, h, ht, .inl ⟨b, s', rfl⟩⟩).elim
  | recv b =>
    have hopen : (d.duplex.wire !e).closed = false := by
      refine Bool.eq_false_iff.2 fun hclosed => h.not_short hidle hcut ⟨hclosed, ?_⟩
      rw [hflight]
      exact Nat.zero_lt_succ _
    exact ⟨⟨b, s', rfl⟩, (accepted_of_open hopen hflight).trans (h.idle hidle).2.1⟩

/-- **The ends do not wait for each other.** -/
theorem exists_enabled (h : Going x d) {t : StreamTask Opened} (ht : d.status e = .handshaking t) :
    ∃ e, Enabled x d e := by
  by_contra hno
  have hstuck : ∀ e, ¬ Enabled x d e := fun e he => hno ⟨e, he⟩
  obtain ⟨p, s, hp⟩ := h.inStep e
  obtain ⟨p', s', hp'⟩ := h.inStep !e
  obtain ⟨⟨b, s₁, rfl⟩, hreceived⟩ := hp.waiting ht (h.uncut !e) (hstuck e)
  by_cases hother : ∃ t', d.status (!e) = .handshaking t'
  · -- both wait: they are at the same place, where one of them sends
    obtain ⟨t', ht'⟩ := hother
    have hcut : Uncut x d (!!e) := by
      rw [Bool.not_not]
      exact h.uncut e
    obtain ⟨⟨b', s₁', rfl⟩, hreceived'⟩ := hp'.waiting ht' hcut (hstuck !e)
    have hsent := (hp.idle (not_opened ht)).1
    have hsent' := (hp'.idle (not_opened ht')).1
    rw [Bool.not_not, hsent] at hreceived'
    have hdual := Act.eq_dual_of_nothing_in_flight hp.split (hp'.split.trans (x.part_not e))
      hreceived' (hreceived.symm.trans hsent')
    cases hdual
  · -- the other end has sent all it has to send
    have hdone : s' = [] := by
      have hplace := hp'.status
      rw [Bool.not_not] at hplace
      split at hplace
      · next t' ht' => exact (hother ⟨t', ht'⟩).elim
      · exact hplace.1
      · rcases hplace with hplace | hclosed
        · exact hplace.1
        · rw [(h.uncut e).stillOpen t ht] at hclosed
          cases hclosed
    subst hdone
    have hlength := congrArg List.length (hp.received_eq hp')
    have hsent := hp'.sent.length_le
    rw [hreceived] at hsent
    rw [Act.sent_nil, List.append_nil, Act.received, List.length_append,
      List.length_cons] at hlength
    omega

/-- A dropped task leaves what is in flight. -/
theorem inFlight_droppedWire (t : StreamTask Opened) (w : Wire) :
    (droppedWire t w).inFlight = w.inFlight := by
  unfold droppedWire
  split <;> rfl

/-- An end that can go on can do so until it does. -/
theorem Enabled.step (h : Enabled x d e) (hgoing : Going x d) (hgood : event.Good)
    (hcut : ∀ e keep, event ≠ .stream (.cut e keep))
    (hother : ∀ answers, event ≠ .handshake e answers) : Enabled x (d.step event) e := by
  obtain ⟨p, s, t, hp, ht, hs⟩ := h
  rcases step_cases d hcut with heq | ⟨e', t', answers, rfl, ht', heq⟩ | ⟨e', c, D, hopen, hD, heq⟩
  · rw [heq]
    exact ⟨p, s, t, hp, ht, hs⟩
  · obtain rfl | rfl := Bool.eq_or_eq_not e e'
    · exact (hother answers rfl).elim
    · obtain ⟨p', s', hp'⟩ := hgoing.inStep e'
      obtain ⟨q, -, -, hdid, -⟩ := hp'.polledAlong hgoing.inStep ht' hgood
      rw [heq]
      refine ⟨p, s, t, hp.afterPoll_not hdid, (update_not ..).trans ht, hs.imp_right fun hne => ?_⟩
      rw [Bool.not_not] at hne ⊢
      rw [show (d.afterPoll e' _ _ _).duplex.wire e' = droppedWire _ _ from wires_self ..,
        inFlight_droppedWire]
      exact hdid.grew.inFlight.ne_nil hne
  · obtain rfl | rfl := Bool.eq_or_eq_not e e'
    · cases hopen.symm.trans ht
    · rw [heq]
      refine ⟨p, s, t, hp.polledAt hopen hD, ht, hs.imp_right fun hne => ?_⟩
      rw [Bool.not_not] at hne ⊢
      exact hD.writes.inFlight.ne_nil hne

/-! ### The bytes that are left -/

/-- The bytes of the handshake that an end has still to send and to receive. -/
def left (x : N.Exchange i r) (d : Connection) (e : Bool) : ℕ :=
  (greeting x e - (d.duplex.wire e).accepted.length) +
    (greeting x (!e) - (d.duplex.wire !e).crossed.length)

/-- What an end has left to do is the rest of its script. -/
theorem Placed.left_eq (h : Placed x d e p s) : left x d e = s.length := by
  by_cases hopen : ∃ c, d.status e = .opened c
  · obtain ⟨c, hc⟩ := hopen
    obtain ⟨haccepted, hcrossed⟩ := h.greeting_le hc
    rw [(h.eq_nil_of_opened hc).1, left, List.length_nil]
    omega
  · obtain ⟨hsent, hreceived, -⟩ := h.idle fun c hc => hopen ⟨c, hc⟩
    rw [left, hsent, hreceived, greeting_not, greeting, ← h.split, Act.sent_append,
      Act.received_append, List.length_append, List.length_append, Act.length_eq s]
    omega

/-- What is done is not left any more. -/
theorem Placed.left_add {d' : Connection} {q s' : List (Act Byte)} (h : Placed x d e p s)
    (h' : Placed x d' e (p ++ q) s') : left x d' e + q.length = left x d e := by
  have hlength := congrArg List.length (h'.split.trans h.split.symm)
  rw [List.length_append, List.length_append, List.length_append] at hlength
  rw [h'.left_eq, h.left_eq]
  omega

/-- What is left does not become more. -/
theorem left_step_le (h : Going x d) (hgood : event.Good)
    (hcut : ∀ e keep, event ≠ .stream (.cut e keep)) (e : Bool) :
    left x (d.step event) e ≤ left x d e := by
  obtain ⟨p, s, hp⟩ := h.inStep e
  rcases step_cases d hcut with heq | ⟨e', t', answers, rfl, ht', heq⟩ | ⟨e', c, D, hopen, hD, heq⟩
  · rw [heq]
  · obtain ⟨p', s', hp'⟩ := h.inStep e'
    obtain ⟨q, hout⟩ := hp'.polledAlong h.inStep ht' hgood
    rw [heq]
    obtain rfl | rfl := Bool.eq_or_eq_not e e'
    · obtain ⟨s'', hp''⟩ := hp'.afterPoll (not_opened ht') hout
      exact (Nat.le_add_right _ _).trans_eq (hp'.left_add hp'')
    · obtain ⟨s'', -, hdid, -⟩ := hout
      rw [(hp.afterPoll_not hdid).left_eq, hp.left_eq]
  · rw [heq, (hp.polledAt hopen hD).left_eq, hp.left_eq]

/-- **An end that can go on does, when the stream is ready.** -/
theorem left_handshake_lt (h : Going x d) (henabled : Enabled x d e) {n : ℕ} {answers : List Answer}
    (hgood : (ConnectionEvent.handshake e (.ready (.ok n) :: answers)).Good) :
    left x (d.step (.handshake e (.ready (.ok n) :: answers))) e < left x d e := by
  obtain ⟨p, s, t, hp, ht, hs⟩ := henabled
  obtain ⟨hn, hanswers⟩ := List.forall_mem_cons.1 hgood
  have hidle := not_opened ht
  obtain ⟨p', s', hp'⟩ := h.inStep !e
  have hexpected := hp.expected hp' hidle
  have hplace := hp.status
  rw [ht] at hplace
  rw [step, ht]
  rcases pollTask_ready (o := d.duplex.wire e) hplace.1 hplace.2 hn hexpected answers with
    ⟨⟨b, s₁, rfl⟩, hflight, -⟩ | ⟨hclosed, hshort, -⟩ |
    ⟨q, s₁, t₁, i₁, o₁, hq, rfl, hfollows, hdid, heq⟩
  · rcases hs with ⟨b', s₂, hs⟩ | hne
    · cases hs
    · exact (hne hflight).elim
  · exact (hp.not_short hidle (h.uncut !e) ⟨hclosed, hshort⟩).elim
  · obtain ⟨q', hout⟩ := polledAlong_pollTask (o := o₁) hfollows hanswers (hexpected.did hdid)
    have hdone := hout.did hdid
    rw [← heq] at hdone
    obtain ⟨s₂, hp₂⟩ := hp.afterPoll hidle hdone
    have hpos : 0 < (q ++ q').length :=
      List.length_pos_of_ne_nil fun hnil => hq (List.append_eq_nil_iff.1 hnil).1
    exact (Nat.lt_add_of_pos_right hpos).trans_eq (hp.left_add hp₂)

/-- A task with something left goes on. -/
theorem exists_ofTask_eq {t : StreamTask Opened} (h : Follows (x.ending e) t s) (hs : s ≠ []) :
    ∃ t', EndStatus.ofTask t = .handshaking t' := by
  match t, h with
  | .done _, h => exact (hs h.eq_of_done.2).elim
  | .read _ _, _ | .write _ _, _ => exact ⟨_, rfl⟩

/-- A poll of its handshake leaves an end able to go on, or it has gone on. -/
theorem Enabled.polled (h : Enabled x d e) (hgoing : Going x d) {answers : List Answer}
    (hgood : ∀ a ∈ answers, Answer.Good a) :
    Enabled x (d.step (.handshake e answers)) e ∨
      left x (d.step (.handshake e answers)) e < left x d e := by
  obtain ⟨p, s, t, hp, ht, hs⟩ := h
  obtain ⟨q, hout⟩ := hp.polledAlong hgoing.inStep ht hgood
  obtain ⟨s₁, hp₁⟩ := hp.afterPoll (not_opened ht) hout
  rw [Connection.step, ht]
  by_cases hq : q = []
  · -- nothing was done
    subst hq
    obtain ⟨s', hs', hdid, hnext⟩ := hout
    have hsame : s₁ = s :=
      List.append_cancel_left ((List.append_nil p ▸ hp₁.split).trans hp.split.symm)
    rw [List.nil_append] at hs'
    subst hs' hsame
    have hplace := hp.status
    rw [ht] at hplace
    have hfollows := hnext.resolve_right fun hend =>
      hp.not_short (not_opened ht) (hgoing.uncut !e) hend.1
    obtain ⟨t', ht'⟩ := exists_ofTask_eq hfollows hplace.2
    refine .inl ⟨p ++ [], s₁, t', hp₁, (Function.update_self ..).trans ht',
      hs.imp_right fun hne => ?_⟩
    have hwire := hdid.inward
    rw [Act.received_nil, List.length_nil, Wire.advance_zero] at hwire
    rw [show (d.afterPoll e _ _ _).duplex.wire (!e) = _ from wires_not .., hwire]
    exact hne
  · exact .inr ((Nat.lt_add_of_pos_right (List.length_pos_of_ne_nil hq)).trans_eq
      (hp.left_add hp₁))

/-! ### The end of the handshakes -/

/-- A connection that does not break, on which each end is polled again and again with its stream
ready. -/
structure Fair (w : ℕ → Connection) (schedule : ℕ → ConnectionEvent) : Prop where
  good : ∀ n, (schedule n).Good
  uncut : ∀ n e keep, schedule n ≠ .stream (.cut e keep)
  polled : ∀ e, InfinitelyOften w schedule fun _ event =>
    ∃ n answers, event = .handshake e (.ready (.ok n) :: answers)

/-- Both handshakes have ended. -/
def Ended (d : Connection) : Prop := ∀ e t, d.status e ≠ .handshaking t

section

variable {schedule : ℕ → ConnectionEvent}

/-- The handshakes begin going. -/
theorem going_start : Going x (start N i r) := by
  refine ⟨inStep_start, fun e => ⟨fun hclosed => ?_, fun _ _ => rfl, fun err herr => ?_⟩⟩
  · cases hclosed
  · obtain ⟨t, ht, -⟩ := x.follows_start e
    cases ht.symm.trans herr

/-- The handshakes keep going. -/
theorem going_states (hfair : Fair (states step (start N i r) schedule) schedule) (n : ℕ) :
    Going x (states step (start N i r) schedule n) :=
  forall_states going_start (fun n h => h.step (hfair.good n) (hfair.uncut n)) n

/-- The bytes both ends have left. -/
def total (x : N.Exchange i r) (d : Connection) : ℕ := left x d false + left x d true

/-- No event adds to what is left. -/
theorem total_step_le {d : Connection} (h : Going x d) {event : ConnectionEvent}
    (hgood : event.Good) (hcut : ∀ e keep, event ≠ .stream (.cut e keep)) :
    total x (d.step event) ≤ total x d :=
  Nat.add_le_add (left_step_le h hgood hcut false) (left_step_le h hgood hcut true)

/-- An event that does something takes from what is left. -/
theorem total_step_lt {d : Connection} (h : Going x d) {event : ConnectionEvent}
    (hgood : event.Good) (hcut : ∀ e keep, event ≠ .stream (.cut e keep)) {e : Bool}
    (hlt : left x (d.step event) e < left x d e) : total x (d.step event) < total x d := by
  cases e with
  | false => exact Nat.add_lt_add_of_lt_of_le hlt (left_step_le h hgood hcut true)
  | true => exact Nat.add_lt_add_of_le_of_lt (left_step_le h hgood hcut false) hlt

/-- **An end that can go on does so.** -/
theorem enabled_leadsTo (hfair : Fair (states step (start N i r) schedule) schedule) (e : Bool)
    (k : ℕ) : LeadsTo (states step (start N i r) schedule)
      (fun d => Enabled x d e ∧ total x d = k) (fun d => total x d < k) := by
  have hgoing := going_states (x := x) hfair
  refine leadsTo_of_helpful (fun m hm => ?_) (fun m hm hev => ?_) (hfair.polled e)
  · obtain ⟨henabled, rfl⟩ := hm
    have hle := total_step_le (hgoing m) (hfair.good m) (hfair.uncut m)
    have hgood := hfair.good m
    have hcut := hfair.uncut m
    rw [states]
    have hstays : Enabled x ((states step (start N i r) schedule m).step (schedule m)) e ∨
        total x ((states step (start N i r) schedule m).step (schedule m)) <
          total x (states step (start N i r) schedule m) := by
      by_cases hown : ∃ answers, schedule m = .handshake e answers
      · obtain ⟨answers, hown⟩ := hown
        rw [hown] at hgood hcut ⊢
        exact (henabled.polled (hgoing m) hgood).imp_right (total_step_lt (hgoing m) hgood hcut)
      · exact .inl (henabled.step (hgoing m) hgood hcut fun answers h => hown ⟨answers, h⟩)
    rcases hstays with hstays | hlt
    · exact hle.eq_or_lt.imp (fun heq => ⟨hstays, heq⟩) id
    · exact .inr hlt
  · obtain ⟨henabled, rfl⟩ := hm
    obtain ⟨n, answers, hev⟩ := hev
    have hgood := hfair.good m
    have hcut := hfair.uncut m
    rw [hev] at hgood hcut
    rw [states, hev]
    exact total_step_lt (hgoing m) hgood hcut (left_handshake_lt (hgoing m) henabled hgood)

/-- So the handshakes come to an end. -/
theorem leadsTo_ended (x : N.Exchange i r)
    (hfair : Fair (states step (start N i r) schedule) schedule) :
    LeadsTo (states step (start N i r) schedule) (fun _ => True) Ended := by
  refine leadsTo_of_rank (total x) fun k n h => ?_
  by_cases hended : Ended (states step (start N i r) schedule n)
  · exact ⟨n, le_rfl, .inl hended⟩
  · obtain ⟨e₀, t, ht⟩ :
        ∃ e t, (states step (start N i r) schedule n).status e = .handshaking t := by
      by_contra hno
      exact hended fun e t ht => hno ⟨e, t, ht⟩
    obtain ⟨e, he⟩ := exists_enabled (going_states (x := x) hfair n) ht
    obtain ⟨m, hm, hlt⟩ := enabled_leadsTo hfair e k n ⟨he, h.2⟩
    exact ⟨m, hm, .inr ⟨trivial, hlt⟩⟩

/-- An end whose handshake is over stays as it is. -/
theorem status_step {d : Connection} (hended : ∀ t, d.status e ≠ .handshaking t)
    {event : ConnectionEvent} (hcut : ∀ e keep, event ≠ .stream (.cut e keep)) :
    (d.step event).status e = d.status e := by
  rcases step_cases d hcut with heq | ⟨e', t, answers, rfl, ht, heq⟩ | ⟨e', c, D, hopen, hD, heq⟩
  · rw [heq]
  · obtain rfl | rfl := Bool.eq_or_eq_not e e'
    · exact (hended t ht).elim
    · rw [heq]
      exact update_not ..
  · rw [heq]

/-- A handshake that is over has ended as it must. -/
theorem Going.status_eq {d : Connection} (h : Going x d) (hended : Ended d) (e : Bool) :
    d.status e = .ofTask (.done (x.ending e)) := by
  obtain ⟨p, s, hp⟩ := h.inStep e
  cases hstatus : d.status e with
  | handshaking t => exact (hended e t hstatus).elim
  | opened c =>
    rw [(hp.eq_nil_of_opened hstatus).2]
    rfl
  | failed err =>
    rw [(h.uncut e).failed err hstatus]
    rfl

/-- **The handshakes end.**  On a connection that does not break, if each end is polled again and
again with its stream ready, then from some moment on `connect` has returned a stream, and `accept`
has returned one with the same ciphers, or refused the secret.  Neither fails otherwise, and what is
written and read in the meantime on the stream of an end that is already through does not matter. -/
theorem handshakes_end (x : N.Exchange i r)
    (hfair : Fair (states step (start N i r) schedule) schedule) :
    ∃ n, ∀ m, n ≤ m →
      (states step (start N i r) schedule m).status true = .opened x.ciphers ∧
      (states step (start N i r) schedule m).status false = .ofTask (.done x.verdict) := by
  obtain ⟨n, -, hn⟩ := leadsTo_ended x hfair 0 trivial
  refine ⟨n, fun m hm => ?_⟩
  have hended : Ended (states step (start N i r) schedule m) := by
    refine forall_ge_of_kept (P := Ended) (fun k hk e t => ?_) hn hm
    rw [states, status_step (hk e) (hfair.uncut k)]
    exact hk e t
  exact ⟨(going_states hfair m).status_eq hended true,
    (going_states hfair m).status_eq hended false⟩

end

/-- The ends are polled in turns, and take one byte at a time. -/
def byteByByte (n : ℕ) : ConnectionEvent := .handshake (n % 2 = 0) [.ready (.ok 1)]

/-- The run byte by byte is fair. -/
theorem fair_byteByByte (w : ℕ → Connection) : Fair w byteByByte where
  good n := List.forall_mem_singleton.2 Nat.one_pos
  uncut n e keep h := by cases h
  polled e n := by
    cases e with
    | true => exact ⟨2 * n, by omega, 1, [], by simp [byteByByte]⟩
    | false => exact ⟨2 * n + 1, by omega, 1, [], by simp [byteByByte]⟩

/-- The toy protocol, one byte at a time. -/
theorem handshakes_end_toy : ∃ n, ∀ m, n ≤ m →
    (states step (start Snow.toy (0, 1) (0, 1)) byteByByte m).status true =
      .opened (Snow.toyExchange 1 1).ciphers ∧
    (states step (start Snow.toy (0, 1) (0, 1)) byteByByte m).status false =
      .ofTask (.done (Snow.toyExchange 1 1).verdict) :=
  handshakes_end (Snow.toyExchange 1 1) (fair_byteByByte _)

end Connection
end Shardscape
