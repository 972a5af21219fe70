/-
# From the first byte to the encrypted stream

Both ends of a connection first follow the scripts of the handshake, and each polls its stream as
soon as its own script is done; the initiator is through before the responder has read the last
message, so bytes of its stream may stand behind those of the handshake on the wire.

Where an end stands (`Placed`) determines what it has sent and received.  What is in flight to it
is therefore what it expects, and no poll of a handshake takes a byte of a stream.  Without the
bytes of the handshake (`view`) a poll of a handshake changes nothing, and a poll of a stream is a
poll of a stream: the connection is a run of `Duplex` (`connection_refines_streams`), about which
`Shardscape.Transport.Fidelity` says the rest.  A responder that refuses the last message never has
a stream (`nothing_without_secret`).
-/

import Shardscape.Transport.Past

namespace Shardscape

open Lib Function
open NoiseStream
open Duplex (update_not)

namespace Connection

variable {N : Snow} {i r : N.State}

section

variable (x : N.Exchange i r)

/-- Where the end `e` stands: it has done the part `p` of its script, and `s` is left.  As long as
it has no stream, that is all it has done. -/
structure Placed (d : Connection) (e : Bool) (p s : List (Act Byte)) : Prop where
  split : p ++ s = x.part e
  sent : Act.sent p <+: (d.duplex.wire e).accepted
  received : Act.received p <+: (d.duplex.wire !e).crossed
  status : match d.status e with
    | .handshaking t => Follows (x.ending e) t s ∧ s ≠ []
    | .opened c => s = [] ∧ x.ending e = .ok (c, fromTransport)
    | .failed err => s = [] ∧ x.ending e = .error err ∨ (d.duplex.wire !e).closed = true
  idle : (∀ c, d.status e ≠ .opened c) → (d.duplex.wire e).accepted = Act.sent p ∧
    (d.duplex.wire !e).crossed = Act.received p ∧ d.duplex.stream e = fromTransport ∧
    d.duplex.written e = [] ∧ d.duplex.handed e = []

/-- Both ends are somewhere in the handshake, or through with it. -/
def InStep (d : Connection) : Prop := ∀ e, ∃ p s, Placed x d e p s

/-- The bytes of the handshake that `e` sends. -/
def greeting (e : Bool) : ℕ := (Act.sent (x.part e)).length

/-- The connection without the bytes of the handshake. -/
def view (d : Connection) : Duplex := d.duplex.past (greeting x)

end

variable {x : N.Exchange i r} {d : Connection} {e : Bool} {p s p' s' : List (Act Byte)}

/-- Each end has something to do. -/
theorem part_ne_nil (e : Bool) : x.part e ≠ [] := by
  have hscript : x.script ≠ [] := by
    intro hnil
    exact frame_ne_nil x.m₁ (List.map_eq_nil_iff.1 (List.append_eq_nil_iff.1 hnil).1)
  cases e with
  | false => exact fun hnil => hscript (List.map_eq_nil_iff.1 hnil)
  | true => exact hscript

/-- At first both ends are at the beginning of their scripts. -/
theorem inStep_start : InStep x (start N i r) := by
  intro e
  obtain ⟨t, ht, hfollows⟩ := x.follows_start e
  refine ⟨[], x.part e,
    ⟨rfl, List.nil_prefix, List.nil_prefix, ?_, fun _ => ⟨rfl, rfl, rfl, rfl, rfl⟩⟩⟩
  rw [ht]
  exact ⟨hfollows, part_ne_nil e⟩

variable {c : Bool → ChannelCipher TAG_LEN}

/-- An end with a stream is through with its script. -/
theorem Placed.eq_nil_of_opened (h : Placed x d e p s) (hopen : d.status e = .opened c) :
    s = [] ∧ x.ending e = .ok (c, fromTransport) := by
  have hstatus := h.status
  rw [hopen] at hstatus
  exact hstatus

/-- What the one end receives the other sends. -/
theorem Placed.received_eq (h : Placed x d e p s) (h' : Placed x d (!e) p' s') :
    Act.received p ++ Act.received s = Act.sent p' ++ Act.sent s' := by
  rw [← Act.received_append, ← Act.sent_append, h.split, h'.split, x.part_not, Act.sent_dual]

/-- **What is in flight to an end that goes on is what it expects**, as far as both go. -/
theorem Placed.expected (h : Placed x d e p s) (h' : Placed x d (!e) p' s')
    (hidle : ∀ c, d.status e ≠ .opened c) : Expected s (d.duplex.wire !e) := by
  obtain ⟨-, hcrossed, -, -⟩ := h.idle hidle
  have haccepted : (d.duplex.wire !e).accepted =
      Act.received p ++ ((d.duplex.wire !e).inFlight ++ (d.duplex.wire !e).lost) := by
    rw [Wire.accepted, hcrossed, List.append_assoc]
  have hflight := List.prefix_append (d.duplex.wire !e).inFlight (d.duplex.wire !e).lost
  by_cases hopen : ∃ c, d.status (!e) = .opened c
  · -- the other end has sent its whole part, and perhaps more
    obtain ⟨c, hc⟩ := hopen
    obtain ⟨rfl, -⟩ := h'.eq_nil_of_opened hc
    have hsent := h'.sent
    have hpart := h.received_eq h'
    rw [Act.sent_nil, List.append_nil] at hpart
    rw [haccepted, ← hpart, List.prefix_append_right_inj] at hsent
    exact List.prefix_or_prefix_of_prefix hflight hsent
  · -- the other end has sent nothing else
    obtain ⟨hsent, -, -, -⟩ := h'.idle fun c hc => hopen ⟨c, hc⟩
    have hpart : (d.duplex.wire !e).accepted <+: Act.received p ++ Act.received s := by
      rw [hsent, h.received_eq h']
      exact List.prefix_append _ _
    rw [haccepted, List.prefix_append_right_inj] at hpart
    exact .inl (hflight.trans hpart)

/-! ### A poll of the handshake -/

/-- What the end `e` has written is on its own wire. -/
@[simp] theorem wires_self (d : Duplex) (e : Bool) (i o : Wire) : wires d e i o e = o :=
  update_self ..

/-- What the end `e` has read came by the other wire. -/
@[simp] theorem wires_not (d : Duplex) (e : Bool) (i o : Wire) : wires d e i o (!e) = i := by
  rw [wires, update_of_ne (Bool.not_ne_self e), update_self]

/-- A dropped task takes nothing back. -/
theorem accepted_droppedWire (t : StreamTask Opened) (w : Wire) :
    (droppedWire t w).accepted = w.accepted := by
  unfold droppedWire
  split <;> rfl

/-- A dropped task has read what it has read. -/
theorem crossed_droppedWire (t : StreamTask Opened) (w : Wire) :
    (droppedWire t w).crossed = w.crossed := by
  unfold droppedWire
  split <;> rfl

variable {t : StreamTask Opened}

/-- The end that is polled goes on in its script. -/
theorem Placed.afterPoll (h : Placed x d e p s) (hidle : ∀ c, d.status e ≠ .opened c) {i o : Wire}
    {q : List (Act Byte)}
    (hout : PolledAlong (x.ending e) s (d.duplex.wire !e) (d.duplex.wire e) (t, i, o) q) :
    ∃ s', Placed x (d.afterPoll e t i o) e (p ++ q) s' := by
  obtain ⟨s', rfl, ⟨hread, hin, htook, -, -⟩, hnext⟩ := hout
  obtain ⟨hsent, hreceived, hstream, hwritten⟩ := h.idle hidle
  have hsent' : ((d.afterPoll e t i o).duplex.wire e).accepted = Act.sent (p ++ q) := by
    show (wires d.duplex e i (droppedWire t o) e).accepted = _
    rw [wires_self, accepted_droppedWire, htook, hsent, Act.sent_append]
  have hreceived' : ((d.afterPoll e t i o).duplex.wire !e).crossed = Act.received (p ++ q) := by
    show (wires d.duplex e i (droppedWire t o) !e).crossed = _
    obtain ⟨rest, hrest⟩ := hread
    rw [wires_not, show i = _ from hin, Act.received_append, ← hreceived]
    show _ ++ (d.duplex.wire !e).inFlight.take _ = _
    rw [← hrest, List.take_left]
  have hstatus : (d.afterPoll e t i o).status e = .ofTask t := update_self ..
  refine ⟨s', ?_, hsent' ▸ List.prefix_rfl, hreceived' ▸ List.prefix_rfl, ?_,
    fun hidle' => ⟨hsent', hreceived', ?_, hwritten⟩⟩
  · rw [List.append_assoc, h.split]
  · rw [hstatus]
    have hclosed : ((d.afterPoll e t i o).duplex.wire !e).closed = (d.duplex.wire !e).closed := by
      show (wires d.duplex e i (droppedWire t o) !e).closed = _
      rw [wires_not, show i = _ from hin]
      rfl
    match t, hnext with
    | .done (.ok (c, st)), hnext =>
      obtain ⟨hending, rfl⟩ := (hnext.resolve_right fun hend => by
        obtain ⟨-, err, herr⟩ := hend
        cases herr).eq_of_done
      obtain ⟨-, rfl⟩ := x.eq_of_ending_ok hending
      exact ⟨rfl, hending⟩
    | .done (.error err), .inl hdone =>
      obtain ⟨hending, rfl⟩ := hdone.eq_of_done
      exact .inl ⟨rfl, hending⟩
    | .done (.error err), .inr ⟨hend, _⟩ => exact .inr (hclosed.trans hend.1)
    | .read room k, .inl hfollows => exact ⟨hfollows, hfollows.ne_nil fun _ h => by cases h⟩
    | .write b k, .inl hfollows => exact ⟨hfollows, hfollows.ne_nil fun _ h => by cases h⟩
  · rw [hstatus] at hidle'
    show update d.duplex.stream e (openedStream t (d.duplex.stream e)) e = fromTransport
    rw [update_self, hstream]
    match t with
    | .done (.ok (c, st)) => exact (hidle' c rfl).elim
    | .done (.error _) | .read _ _ | .write _ _ => rfl

/-- The other end stays where it is. -/
theorem Placed.afterPoll_not (h : Placed x d (!e) p s) {q : List (Act Byte)} {i o : Wire}
    (hdid : Wire.Did (d.duplex.wire !e) (d.duplex.wire e) q i o) :
    Placed x (d.afterPoll e t i o) (!e) p s := by
  have hstatus : (d.afterPoll e t i o).status (!e) = d.status (!e) := update_not ..
  have haccepted : ((d.afterPoll e t i o).duplex.wire !e).accepted =
      (d.duplex.wire !e).accepted := by
    show (wires d.duplex e i (droppedWire t o) !e).accepted = _
    rw [wires_not, hdid.inward, Wire.accepted_advance]
  have hcrossed : ((d.afterPoll e t i o).duplex.wire !!e).crossed =
      (d.duplex.wire !!e).crossed := by
    show (wires d.duplex e i (droppedWire t o) !!e).crossed = _
    rw [Bool.not_not, wires_self, crossed_droppedWire, hdid.grew.crossed]
  have hclosed : (d.duplex.wire !!e).closed = true →
      ((d.afterPoll e t i o).duplex.wire !!e).closed = true := by
    show _ → (wires d.duplex e i (droppedWire t o) !!e).closed = true
    rw [Bool.not_not, wires_self, ← hdid.closed]
    unfold droppedWire
    split
    · exact fun _ => rfl
    · exact id
  refine ⟨h.split, haccepted ▸ h.sent, hcrossed ▸ h.received, ?_, ?_⟩
  · have hplace := h.status
    rw [hstatus]
    split at hplace
    · exact hplace
    · exact hplace
    · exact hplace.imp_right hclosed
  · have hstream : (d.afterPoll e t i o).duplex.stream (!e) = d.duplex.stream (!e) := update_not ..
    rw [hstatus, haccepted, hcrossed, hstream]
    exact h.idle

/-- An end in its handshake has no stream. -/
theorem not_opened (ht : d.status e = .handshaking t) (c : Bool → ChannelCipher TAG_LEN) :
    d.status e ≠ .opened c := by
  rw [ht]
  exact fun hc => by cases hc

/-- What a poll of a handshake does. -/
theorem Placed.polledAlong (hp : Placed x d e p s) (h : InStep x d)
    (ht : d.status e = .handshaking t) {answers : List Answer}
    (hgood : ∀ a ∈ answers, Answer.Good a) :
    ∃ q, PolledAlong (x.ending e) s (d.duplex.wire !e) (d.duplex.wire e)
      (pollTask t (d.duplex.wire !e) (d.duplex.wire e) answers) q := by
  obtain ⟨p', s', hp'⟩ := h !e
  have hfollows := hp.status
  rw [ht] at hfollows
  exact polledAlong_pollTask hfollows.1 hgood (hp.expected hp' (not_opened ht))

/-- A poll of a handshake keeps both ends in step. -/
theorem InStep.handshake (h : InStep x d) (e : Bool) {answers : List Answer}
    (hgood : ∀ a ∈ answers, Answer.Good a) : InStep x (d.step (.handshake e answers)) := by
  rw [step]
  split
  · next t ht =>
      obtain ⟨p, s, hp⟩ := h e
      obtain ⟨q, hout⟩ := hp.polledAlong h ht hgood
      intro e'
      rcases Bool.eq_or_eq_not e' e with rfl | rfl
      · exact ⟨p ++ q, hp.afterPoll (not_opened ht) hout⟩
      · obtain ⟨p', s', hp'⟩ := h !e
        obtain ⟨s'', -, hdid, -⟩ := hout
        exact ⟨p', s', hp'.afterPoll_not hdid⟩
  · exact h

/-! ### The connection without the handshake -/

/-- The other end's greeting is what this one receives. -/
theorem greeting_not (e : Bool) : greeting x (!e) = (Act.received (x.part e)).length := by
  rw [greeting, x.part_not, Act.sent_dual]

/-- The bytes an end without a stream has sent and received are bytes of the handshake. -/
theorem Placed.length_le (h : Placed x d e p s) :
    (Act.sent p).length ≤ greeting x e ∧ (Act.received p).length ≤ greeting x !e := by
  rw [greeting_not, greeting, ← h.split, Act.sent_append, Act.received_append, List.length_append,
    List.length_append]
  exact ⟨Nat.le_add_right _ _, Nat.le_add_right _ _⟩

/-- A wire is closed with its greeting or without. -/
theorem past_droppedWire (L : ℕ) (t : StreamTask Opened) (w : Wire) :
    (droppedWire t w).past L = droppedWire t (w.past L) := by
  unfold droppedWire
  split <;> rfl

/-- What a handshake leaves is what `from_transport` makes. -/
theorem openedStream_eq {s : List (Act Byte)} {closed : Prop}
    (h : Follows (x.ending e) t s ∨ closed ∧ ∃ err, t = .done (.error err)) :
    openedStream t fromTransport = fromTransport := by
  match t, h with
  | .done (.ok (c, st)), h =>
    have hdone := h.resolve_right fun hend => by
      obtain ⟨-, err, herr⟩ := hend
      cases herr
    exact (x.eq_of_ending_ok hdone.eq_of_done.1).2
  | .done (.error _), _ | .read _ _, _ | .write _ _, _ => rfl

/-- **The handshake is not seen**, but for the end of a wire that is dropped. -/
theorem view_afterPoll (h : Placed x d e p s) (hidle : ∀ c, d.status e ≠ .opened c) {i o : Wire}
    {q : List (Act Byte)}
    (hout : PolledAlong (x.ending e) s (d.duplex.wire !e) (d.duplex.wire e) (t, i, o) q) :
    view x (d.afterPoll e t i o) =
      { view x d with
        wire := update (view x d).wire e (droppedWire t ((view x d).wire e)) } := by
  obtain ⟨s', rfl, ⟨hread, hin, htook, hclosed, -⟩, hnext⟩ := hout
  obtain ⟨hsent, hreceived, hstream, -⟩ := h.idle hidle
  have hlength : (Act.sent (p ++ q)).length ≤ greeting x e ∧
      (Act.received (p ++ q)).length ≤ greeting x !e := by
    have hsplit := h.split
    rw [greeting_not, greeting, ← hsplit, ← List.append_assoc, Act.sent_append (p ++ q),
      Act.received_append (p ++ q), List.length_append, List.length_append]
    exact ⟨Nat.le_add_right _ _, Nat.le_add_right _ _⟩
  have hstream' : update d.duplex.stream e (openedStream t (d.duplex.stream e)) =
      d.duplex.stream := by
    rw [hstream, openedStream_eq hnext, ← hstream, update_eq_self]
  have hout : o.past (greeting x e) = (d.duplex.wire e).past (greeting x e) := by
    rw [Wire.past_of_length_le, Wire.past_of_length_le, show o.closed = _ from hclosed]
    · rw [hsent]
      exact h.length_le.1
    · rw [show o.accepted = _ from htook, hsent, ← Act.sent_append]
      exact hlength.1
  have hinward : i.past (greeting x !e) = (d.duplex.wire !e).past (greeting x !e) := by
    rw [show i = _ from hin]
    refine Wire.past_advance_of_le ?_ hread.length_le
    rw [hreceived, ← List.length_append, ← Act.received_append]
    exact hlength.2
  have hwires : (fun e' => (wires d.duplex e i (droppedWire t o) e').past (greeting x e')) =
      update (view x d).wire e (droppedWire t ((view x d).wire e)) := by
    funext e'
    rcases Bool.eq_or_eq_not e' e with rfl | rfl
    · rw [wires_self, update_self, past_droppedWire, hout]
      rfl
    · rw [wires_not, update_not]
      exact hinward
  rw [view, afterPoll, Duplex.past, hwires, hstream']
  rfl

/-- Dropping an end that has no stream is shutting it down. -/
theorem shutdown_idle {D : Duplex} (C : Bool → ChannelCipher TAG_LEN)
    (hstream : D.stream e = fromTransport) :
    D.step C (.shutdown e [] (.ready (.ok ()))) =
      { D with wire := update D.wire e (D.wire e).close } := by
  have hpoll : (D.stream e).pollShutdown (D.wire e) [] (.ready (.ok ())) =
      ⟨D.stream e, (D.wire e).close, [], .ready (.ok ())⟩ := by
    rw [hstream]
    rfl
  rw [Duplex.step, hpoll, Duplex.wrote, update_eq_self]

/-- A poll of a handshake is nothing, or the end of a stream that was never used. -/
theorem view_handshake (h : InStep x d) (e : Bool) {answers : List Answer}
    (hgood : ∀ a ∈ answers, Answer.Good a) :
    view x (d.step (.handshake e answers)) = view x d ∨
      view x (d.step (.handshake e answers)) =
        (view x d).step x.ciphers (.shutdown e [] (.ready (.ok ()))) := by
  rw [step]
  split
  · next t ht =>
      obtain ⟨p, s, hp⟩ := h e
      obtain ⟨q, hout⟩ := hp.polledAlong h ht hgood
      have hstream : (view x d).stream e = fromTransport := (hp.idle (not_opened ht)).2.2.1
      dsimp only
      rw [view_afterPoll hp (not_opened ht) hout, shutdown_idle _ hstream]
      generalize (pollTask t (d.duplex.wire !e) (d.duplex.wire e) answers).1 = t'
      match t' with
      | .done (.error _) => exact .inr rfl
      | .done (.ok _) | .read _ _ | .write _ _ =>
        refine .inl ?_
        rw [droppedWire, update_eq_self]
        simp
  · exact .inl rfl

/-! ### The streams -/

/-- An end stays in its place when the wires go on and nothing else changes at it. -/
theorem Placed.mono (h : Placed x d e p s) {D : Duplex}
    (haccepted : (d.duplex.wire e).accepted <+: (D.wire e).accepted)
    (hcrossed : (d.duplex.wire !e).crossed <+: (D.wire !e).crossed)
    (hclosed : (d.duplex.wire !e).closed = true → (D.wire !e).closed = true)
    (hidle : (∀ c, d.status e ≠ .opened c) → (D.wire e).accepted = (d.duplex.wire e).accepted ∧
      (D.wire !e).crossed = (d.duplex.wire !e).crossed ∧ D.stream e = d.duplex.stream e ∧
      D.written e = d.duplex.written e ∧ D.handed e = d.duplex.handed e) :
    Placed x { d with duplex := D } e p s := by
  refine ⟨h.split, h.sent.trans haccepted, h.received.trans hcrossed, ?_, fun hstatus => ?_⟩
  · have hplace := h.status
    dsimp only
    split at hplace
    · exact hplace
    · exact hplace
    · exact hplace.imp_right hclosed
  · obtain ⟨hsent, hreceived, hstream, hwritten, hhanded⟩ := h.idle hstatus
    obtain ⟨hsent', hreceived', hstream', hwritten', hhanded'⟩ := hidle hstatus
    exact ⟨hsent'.trans hsent, hreceived'.trans hreceived, hstream'.trans hstream,
      hwritten'.trans hwritten, hhanded'.trans hhanded⟩

/-- A poll of a stream leaves both ends in their places. -/
theorem Placed.polledAt {e' : Bool} (h : Placed x d e' p s) (hopen : d.status e = .opened c)
    {D : Duplex} (hD : Duplex.PolledAt e d.duplex D) :
    Placed x { d with duplex := D } e' p s := by
  obtain ⟨n, hn⟩ := hD.reads
  rcases Bool.eq_or_eq_not e' e with rfl | rfl
  · refine h.mono hD.writes.accepted ?_ ?_ fun hidle => (hidle c hopen).elim
    · rw [hn]
      exact List.prefix_append _ _
    · rw [hn]
      exact id
  · have haccepted : (D.wire !e).accepted = (d.duplex.wire !e).accepted := by
      rw [hn, Wire.accepted_advance]
    have hcrossed : (D.wire !!e).crossed = (d.duplex.wire !!e).crossed := by
      rw [Bool.not_not, hD.writes.crossed]
    refine h.mono (haccepted ▸ List.prefix_rfl) (hcrossed ▸ List.prefix_rfl) ?_
      fun _ => ⟨haccepted, hcrossed, hD.stream, hD.written, hD.handed⟩
    rw [Bool.not_not]
    exact hD.writes.closed

/-- So does a break of the connection. -/
theorem InStep.cut (h : InStep x d) (e : Bool) (keep : ℕ) :
    InStep x (d.step (.stream (.cut e keep))) := by
  have hcut : ∀ k, (update d.duplex.wire e ((d.duplex.wire e).cut keep) k).accepted =
        (d.duplex.wire k).accepted ∧
      (update d.duplex.wire e ((d.duplex.wire e).cut keep) k).crossed =
        (d.duplex.wire k).crossed ∧
      ((d.duplex.wire k).closed = true →
        (update d.duplex.wire e ((d.duplex.wire e).cut keep) k).closed = true) := by
    intro k
    rcases Bool.eq_or_eq_not k e with rfl | rfl
    · rw [update_self]
      exact ⟨Wire.accepted_cut _ _, rfl, fun _ => rfl⟩
    · rw [update_not]
      exact ⟨rfl, rfl, id⟩
  intro e'
  obtain ⟨p, s, hp⟩ := h e'
  obtain ⟨haccepted, -, -⟩ := hcut e'
  obtain ⟨-, hcrossed, hclosed⟩ := hcut !e'
  exact ⟨p, s, hp.mono (haccepted ▸ List.prefix_rfl) (hcrossed ▸ List.prefix_rfl) hclosed
    fun _ => ⟨haccepted, hcrossed, rfl, rfl, rfl⟩⟩

/-- An end that has its stream is past the handshake. -/
theorem Placed.greeting_le (h : Placed x d e p s) (hopen : d.status e = .opened c) :
    greeting x e ≤ (d.duplex.wire e).accepted.length ∧
      greeting x (!e) ≤ (d.duplex.wire !e).crossed.length := by
  obtain ⟨rfl, -⟩ := h.eq_nil_of_opened hopen
  have hsplit := h.split
  rw [List.append_nil] at hsplit
  rw [greeting_not, greeting, ← hsplit]
  exact ⟨h.sent.length_le, h.received.length_le⟩

/-- A poll of a stream is one if there is a stream, and nothing else. -/
theorem step_stream {ev : DuplexEvent} (hcut : ∀ e keep, ev ≠ .cut e keep) :
    d.step (.stream ev) =
      match d.status ev.at with
      | .opened c => { d with duplex := d.duplex.step c ev }
      | _ => d := by
  cases ev with
  | cut e keep => exact absurd rfl (hcut e keep)
  | _ => rfl

/-- An event of the connection keeps both ends in step, and is nothing or an event of the streams
that start behind the handshake. -/
def Seen (x : N.Exchange i r) (d d' : Connection) : Prop :=
  InStep x d' ∧ (view x d' = view x d ∨
    ∃ ev : DuplexEvent, ev.Good ∧ view x d' = (view x d).step x.ciphers ev)

/-- A poll of a stream. -/
theorem InStep.stream (h : InStep x d) {ev : DuplexEvent} (hgood : ev.Good)
    (hcut : ∀ e keep, ev ≠ .cut e keep) : Seen x d (d.step (.stream ev)) := by
  rw [step_stream hcut]
  split
  · next c hopen =>
      obtain ⟨p, s, hp⟩ := h ev.at
      obtain ⟨haccepted, hcrossed⟩ := hp.greeting_le hopen
      obtain ⟨rfl, -⟩ := x.eq_of_ending_ok (hp.eq_nil_of_opened hopen).2
      refine ⟨fun e' => ?_, .inr ⟨ev, hgood, ?_⟩⟩
      · obtain ⟨p', s', hp'⟩ := h e'
        exact ⟨p', s', hp'.polledAt hopen (Duplex.polledAt_step hcut)⟩
      · exact (Duplex.step_past haccepted hcrossed hcut).symm
  · exact ⟨h, .inl rfl⟩

/-- **One event.** -/
theorem InStep.step (h : InStep x d) {event : ConnectionEvent} (hgood : event.Good) :
    Seen x d (d.step event) := by
  cases event with
  | handshake e answers =>
    refine ⟨h.handshake e hgood, (view_handshake h e hgood).imp_right fun hview => ?_⟩
    refine ⟨.shutdown e [] (.ready (.ok ())), ?_, hview⟩
    exact ⟨List.forall_mem_nil _, fun _ h => by cases h⟩
  | stream ev =>
    by_cases hcut : ∃ e keep, ev = .cut e keep
    · obtain ⟨e, keep, rfl⟩ := hcut
      exact ⟨h.cut e keep, .inr ⟨.cut e _, trivial, Duplex.cut_past (C := x.ciphers) e keep⟩⟩
    · exact h.stream hgood fun e keep hev => hcut ⟨e, keep, hev⟩

/-- At first nothing is seen on the wires. -/
theorem view_start : view x (start N i r) = Duplex.start := by
  have hwires : (fun e => Wire.fresh.past (greeting x e)) = fun _ => Wire.fresh := by
    funext e
    exact Wire.past_of_length_le (Nat.zero_le _)
  rw [view, Duplex.past, start]
  simp only [Duplex.start, hwires]

/-- **A whole run.** -/
theorem inStep_run (x : N.Exchange i r) {events : List ConnectionEvent}
    (hgood : ∀ event ∈ events, event.Good) :
    InStep x (run N i r events) ∧ ∃ evs : List DuplexEvent, (∀ ev ∈ evs, ev.Good) ∧
      view x (run N i r events) = evs.foldl (Duplex.step x.ciphers) Duplex.start := by
  induction events using List.reverseRecOn with
  | nil => exact ⟨inStep_start, [], List.forall_mem_nil _, view_start⟩
  | append_singleton events event ih =>
    rw [List.forall_mem_append, List.forall_mem_singleton] at hgood
    obtain ⟨hstep, evs, hevs, hview⟩ := ih hgood.1
    rw [run, List.foldl_append]
    obtain ⟨hnext, hsame | ⟨ev, hev, hseen⟩⟩ := hstep.step hgood.2
    · exact ⟨hnext, evs, hevs, hsame.trans hview⟩
    · refine ⟨hnext, evs ++ [ev], ?_, ?_⟩
      · exact List.forall_mem_append.2 ⟨hevs, List.forall_mem_singleton.2 hev⟩
      · rw [List.foldl_append, ← hview]
        exact hseen

/-! ### Safety -/

/-- **A connection is the streams behind the handshake.**  In every run of polls of the handshakes
and the streams, in any order and with any cuts of what is read and written: without the bytes of
the handshake the connection is two streams that were polled, so not a byte of a stream is taken by
the handshake; every end that has its stream has the same ciphers; and what an end hands out is the
beginning of what the other accepted. -/
theorem connection_refines_streams (x : N.Exchange i r) {events : List ConnectionEvent}
    (hgood : ∀ event ∈ events, event.Good) :
    (∃ evs : List DuplexEvent, (∀ ev ∈ evs, ev.Good) ∧
      view x (run N i r events) = evs.foldl (Duplex.step x.ciphers) Duplex.start) ∧
    (∀ e c, (run N i r events).status e = .opened c → c = x.ciphers) ∧
    ∀ e, (run N i r events).duplex.handed (!e) <+: (run N i r events).duplex.written e := by
  obtain ⟨hstep, evs, hevs, hview⟩ := inStep_run x hgood
  refine ⟨⟨evs, hevs, hview⟩, fun e c hopen => ?_, fun e => ?_⟩
  · obtain ⟨p, s, hp⟩ := hstep e
    exact (x.eq_of_ending_ok (hp.eq_nil_of_opened hopen).2).1
  · have honeway := (Duplex.OneWay.run (C := x.ciphers) hevs e).handed_isPrefix
    rw [← hview] at honeway
    exact honeway

/-- The initiator is through, and writes to its stream before the responder has read the end of the
handshake; then the responder reads what has come, in two chunks, and writes back. -/
def eagerRun : List ConnectionEvent :=
  [.handshake true [.ready (.ok 9), .ready (.ok 9)],
    .handshake false [.ready (.ok 2), .ready (.ok 1)],
    .handshake false [.ready (.ok 1), .ready (.ok 9), .ready (.ok 9)],
    .handshake true [.ready (.ok 2), .ready (.ok 1), .ready (.ok 9), .ready (.ok 9)],
    .stream (.write true [7, 8, 9] [.ready (.ok 9), .ready (.ok 99)]),
    .handshake false [.ready (.ok 9), .ready (.ok 9)],
    .stream (.read false 2 [.ready (.ok 3), .ready (.ok 99)]),
    .stream (.write false [5] [.ready (.ok 99), .ready (.ok 99)]),
    .stream (.read true 4 [.ready (.ok 99)])]

/-- The end has its stream. -/
def hasStream (d : Connection) (e : Bool) : Bool :=
  match d.status e with
  | .opened _ => true
  | _ => false

/-- The check for a stream, as it computes. -/
theorem exists_opened {d : Connection} {e : Bool} (h : hasStream d e = true) :
    ∃ c, d.status e = .opened c := by
  unfold hasStream at h
  cases hstatus : d.status e with
  | opened c => exact ⟨c, rfl⟩
  | _ =>
    rw [hstatus] at h
    cases h

/-- The run's polls are good. -/
theorem good_eagerRun : ∀ event ∈ eagerRun, event.Good := by
  simp [eagerRun, ConnectionEvent.Good, DuplexEvent.Good, Answer.Good]

/-- The toy protocol: both ends come to have their streams, with the ciphers of the exchange, and
each is handed bytes of the other. -/
theorem connection_refines_streams_eager :
    let d := run Snow.toy (0, 1) (0, 1) eagerRun
    (∃ evs : List DuplexEvent, (∀ ev ∈ evs, ev.Good) ∧
        view (Snow.toyExchange 1 1) d =
          evs.foldl (Duplex.step (Snow.toyExchange 1 1).ciphers) Duplex.start) ∧
      (∀ e, d.status e = .opened (Snow.toyExchange 1 1).ciphers) ∧
      (∀ e, d.duplex.handed (!e) <+: d.duplex.written e) ∧
      d.duplex.handed false = [7, 8] ∧ d.duplex.handed true = [5] := by
  obtain ⟨hview, hciphers, hhanded⟩ :=
    connection_refines_streams (Snow.toyExchange 1 1) good_eagerRun
  have hopened : ∀ e, hasStream (run Snow.toy (0, 1) (0, 1) eagerRun) e = true := by
    decide +kernel
  refine ⟨hview, fun e => ?_, hhanded, by decide +kernel, by decide +kernel⟩
  obtain ⟨c, hc⟩ := exists_opened (hopened e)
  rw [hc, hciphers e c hc]

/-- **Without the secret nothing is exchanged.**  If the responder refuses the last message, it
never has a stream, and no end is ever handed a byte. -/
theorem nothing_without_secret (x : N.Exchange i r) {err : Str}
    (hrefused : N.readMessage x.r₂ x.m₃ = .error err) {events : List ConnectionEvent}
    (hgood : ∀ event ∈ events, event.Good) :
    (∀ c, (run N i r events).status false ≠ .opened c) ∧
      ∀ e, (run N i r events).duplex.handed e = [] := by
  obtain ⟨hstep, evs, hevs, hview⟩ := inStep_run x hgood
  have hclosed : ∀ c, (run N i r events).status false ≠ .opened c := by
    intro c hopen
    obtain ⟨p, s, hp⟩ := hstep false
    have hending : x.verdict = .ok (c, fromTransport) := (hp.eq_nil_of_opened hopen).2
    rw [Snow.Exchange.verdict, hrefused] at hending
    cases hending
  obtain ⟨p, s, hp⟩ := hstep false
  obtain ⟨-, -, -, hwritten, hhanded⟩ := hp.idle hclosed
  refine ⟨hclosed, fun e => ?_⟩
  cases e with
  | false => exact hhanded
  | true =>
    have honeway := (Duplex.OneWay.run (C := x.ciphers) hevs false).handed_isPrefix
    rw [← hview] at honeway
    exact List.prefix_nil.1 (hwritten ▸ honeway)

/-- The toy protocol, with different secrets: the initiator is through and has written, and nothing
of it is handed out. -/
theorem nothing_without_secret_toy :
    let d := run Snow.toy (0, 1) (0, 2) eagerRun
    d.duplex.written true = [7, 8, 9] ∧ (∀ c, d.status false ≠ .opened c) ∧
      ∀ e, d.duplex.handed e = [] :=
  ⟨by decide +kernel, nothing_without_secret (Snow.toyExchange 1 2) rfl good_eagerRun⟩

end Connection
end Shardscape
