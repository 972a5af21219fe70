/-
# Encrypted streams deliver what was written

Two `NoiseStream`s at the ends of two wires.  Each end is polled to write, flush, shut down
and read, with any buffers, in any order and interleaving, and the connection may break; what
the inner streams answer is part of the event, so a run is any pattern of partial accepts,
chunks and stalls.

In every run without a failure of an inner stream, what an end hands out is the start of what
the other end accepted, and all of it once that was flushed, has crossed the wire and is asked
for; no frame fails to decrypt; and the end of the stream is reported only after a whole frame
(`Duplex.noise_stream_faithful`).  The two directions share nothing but the streams, whose
halves do not touch each other, so each of them carries its payloads whatever happens on the
other (`OneWay`).
-/

import Shardscape.Transport.Carried

namespace Shardscape

open Lib Function
open NoiseStream

/-- Two streams, `false` and `true`, and the wires they write to.  For the record: the buffers
each end accepted, the bytes it handed out, and whether its last `poll_flush` was ready and
nothing was accepted since. -/
structure Duplex where
  stream : Bool → NoiseStream
  wire : Bool → Wire
  written : Bool → Bytes
  handed : Bool → Bytes
  flushed : Bool → Bool

/-- A poll of the end `e` with the answers of its inner stream, or a break of the connection
that lets `keep` of the bytes in flight from `e` arrive. -/
inductive DuplexEvent where
  | write (e : Bool) (buf : Bytes) (answers : List Answer)
  | flush (e : Bool) (answers : List Answer) (inner : Poll (Except IoError Unit))
  | shutdown (e : Bool) (answers : List Answer) (inner : Poll (Except IoError Unit))
  | read (e : Bool) (room : ℕ) (answers : List Answer)
  | cut (e : Bool) (keep : ℕ)

/-- The inner stream does not fail. -/
def DuplexEvent.Good : DuplexEvent → Prop
  | .write _ _ answers => ∀ a ∈ answers, Answer.Good a
  | .flush _ answers inner => (∀ a ∈ answers, Answer.Good a) ∧ ∀ e, inner ≠ .ready (.error e)
  | .shutdown _ answers inner => (∀ a ∈ answers, Answer.Good a) ∧ ∀ e, inner ≠ .ready (.error e)
  | .read _ _ answers => ∀ a ∈ answers, Answer.Good a
  | .cut _ _ => True

namespace Duplex

/-- The streams after the handshake. -/
def start : Duplex where
  stream _ := fromTransport
  wire _ := Wire.fresh
  written _ := []
  handed _ := []
  flushed _ := false

variable (C : Bool → ChannelCipher TAG_LEN)

/-- `poll_read` at the end `e`, which decrypts what the other end encrypts. -/
def readAt (d : Duplex) (e : Bool) (room : ℕ) (answers : List Answer) : HandedOut :=
  (d.stream e).pollRead (C !e) room (d.wire !e) answers

/-- The stream and the wire of `e` after a poll that writes. -/
def wrote {α : Type} (d : Duplex) (e : Bool) (o : Wrote α) : Duplex :=
  { d with
    stream := update d.stream e o.stream
    wire := update d.wire e o.wire }

/-- One event. -/
def step (d : Duplex) : DuplexEvent → Duplex
  | .write e buf answers =>
    let o := (d.stream e).pollWrite (C e) (d.wire e) buf answers
    match o.poll with
    | .ready (.ok _) =>
      { d.wrote e o with
        written := update d.written e (d.written e ++ buf)
        flushed := update d.flushed e false }
    | _ => d.wrote e o
  | .flush e answers inner =>
    let o := (d.stream e).pollFlush (d.wire e) answers inner
    match o.poll with
    | .ready (.ok _) => { d.wrote e o with flushed := update d.flushed e true }
    | _ => d.wrote e o
  | .shutdown e answers inner =>
    d.wrote e ((d.stream e).pollShutdown (d.wire e) answers inner)
  | .read e room answers =>
    let o := d.readAt C e room answers
    { d with
      stream := update d.stream e o.stream
      wire := update d.wire (!e) o.wire
      handed := update d.handed e (d.handed e ++ o.out) }
  | .cut e keep => { d with wire := update d.wire e ((d.wire e).cut keep) }

/-! ### Each direction by itself -/

/-- The direction from `e` carries what `e` accepted, and nothing waits at `e` after a
flush. -/
def OneWay (d : Duplex) (e : Bool) : Prop :=
  ∃ ps k, Carried (C e) ps k (d.stream e) (d.wire e) (d.stream !e) (d.handed !e) ∧
    d.written e = ps.flatten ∧ (d.flushed e = true → (d.stream e).writeCipher = [])

variable {C}

/-- The other end is not changed. -/
@[simp] theorem update_not {α : Type*} (f : Bool → α) (e : Bool) (v : α) :
    update f e v (!e) = f (!e) :=
  update_of_ne (Bool.not_ne_self e) v f

variable {d : Duplex} {e : Bool}

namespace OneWay

/-- A poll that writes at `e` does not touch the other direction. -/
theorem wrote_not {α : Type} {o : Wrote α} (h : d.OneWay C !e)
    (hsame : SameReceiving (d.stream e) o.stream) : (d.wrote e o).OneWay C !e := by
  obtain ⟨ps, k, hcarried, hwritten, hflushed⟩ := h
  refine ⟨ps, k, ?_, hwritten, ?_⟩
  · simp only [wrote, update_not, Bool.not_not, update_self] at hcarried ⊢
    exact hcarried.congr ⟨rfl, rfl⟩ hsame
  · simpa only [wrote, update_not] using hflushed

/-- A poll that only pushes. -/
theorem pushed {α : Type} {o : Wrote α} (h : ∀ e, d.OneWay C e)
    (hpushed : Pushed (d.stream e) (d.wire e) o.stream o.wire) (e' : Bool) :
    (d.wrote e o).OneWay C e' := by
  rcases Bool.eq_or_eq_not e' e with rfl | rfl
  · obtain ⟨ps, k, hcarried, hwritten, hflushed⟩ := h e'
    refine ⟨ps, k, ?_, hwritten, fun hready => ?_⟩
    · simp only [wrote, update_not, update_self]
      exact hcarried.pushed hpushed
    · simp only [wrote, update_self]
      exact hpushed.nothing (hflushed hready)
  · exact (h !e).wrote_not hpushed.receiving

variable {answers : List Answer}

section

variable (h : ∀ e, d.OneWay C e)
include h

/-- `poll_write` adds the payloads of the buffer it accepts. -/
theorem write (e : Bool) (buf : Bytes)
    (hgood : ∀ a ∈ answers, Answer.Good a) (e' : Bool) :
    (d.step C (.write e buf answers)).OneWay C e' := by
  obtain ⟨ps, k, hcarried, hwritten, -⟩ := h e
  rw [step]
  rcases hcarried.pollWrite buf hgood rfl with ⟨hpoll, hpushed⟩ | ⟨hpoll, hsame, hcarried⟩
  · simp only [hpoll]
    exact OneWay.pushed h hpushed e'
  · simp only [hpoll]
    rcases Bool.eq_or_eq_not e' e with rfl | rfl
    · refine ⟨ps ++ payloads.pieces buf, k, ?_, ?_, ?_⟩
      · simp only [wrote, update_not, update_self]
        exact hcarried
      · simp only [update_self, hwritten, List.flatten_append, payloads.flatten_pieces]
      · simp only [update_self]
        exact nofun
    · obtain ⟨ps', k', hcarried', hwritten', hflushed'⟩ := (h !e).wrote_not hsame
      refine ⟨ps', k', hcarried', ?_, ?_⟩
      · simp only [update_not]
        exact hwritten'
      · simp only [update_not]
        exact hflushed'

/-- `poll_flush` leaves nothing waiting when it is ready. -/
theorem flush (e : Bool) (answers : List Answer)
    (inner : Poll (Except IoError Unit)) (e' : Bool) :
    (d.step C (.flush e answers inner)).OneWay C e' := by
  obtain ⟨hpushed, hdone⟩ :=
    pushed_pollFlush (rfl : (d.stream e).pollFlush (d.wire e) answers inner = _)
  obtain ⟨ps, k, hcarried, hwritten, hflushed⟩ := OneWay.pushed h hpushed e'
  rw [step]
  dsimp only
  split
  · rename_i hready
    refine ⟨ps, k, hcarried, hwritten, fun hflag => ?_⟩
    rcases Bool.eq_or_eq_not e' e with rfl | rfl
    · simp only [wrote, update_self]
      exact hdone hready
    · simp only [update_not] at hflag
      exact hflushed hflag
  · exact ⟨ps, k, hcarried, hwritten, hflushed⟩

/-- `poll_read` moves the direction it reads from on, and leaves the other alone. -/
theorem read (e : Bool) (room : ℕ)
    (hgood : ∀ a ∈ answers, Answer.Good a) (e' : Bool) :
    (d.step C (.read e room answers)).OneWay C e' := by
  obtain ⟨ps, k, hcarried, hwritten, hflushed⟩ := h !e
  rw [Bool.not_not] at hcarried
  obtain ⟨hsame, -, -, k', hcarried'⟩ :=
    hcarried.pollRead hgood (rfl : d.readAt C e room answers = _)
  rw [step]
  rcases Bool.eq_or_eq_not e' e with rfl | rfl
  · obtain ⟨qs, l, hself, hwritten', hflushed'⟩ := h e'
    refine ⟨qs, l, ?_, hwritten', fun hflag => ?_⟩
    · simp only [update_not, update_self]
      have hwire : update d.wire (!e') (d.readAt C e' room answers).wire e' = d.wire e' :=
        update_of_ne (Bool.not_ne_self e').symm _ _
      rw [hwire]
      exact hself.congr hsame ⟨rfl, rfl, rfl⟩
    · simp only [update_self]
      rw [hsame.1]
      exact hflushed' hflag
  · refine ⟨ps, k', ?_, hwritten, ?_⟩
    · simp only [update_not, Bool.not_not, update_self]
      exact hcarried'
    · simpa only [update_not] using hflushed

/-- A broken connection delivers no wrong byte. -/
theorem cut (e : Bool) (keep : ℕ) (e' : Bool) :
    (d.step C (.cut e keep)).OneWay C e' := by
  obtain ⟨ps, k, hcarried, hwritten, hflushed⟩ := h e'
  refine ⟨ps, k, ?_, hwritten, hflushed⟩
  rcases Bool.eq_or_eq_not e' e with rfl | rfl
  · simp only [step, update_self]
    exact hcarried.wire ((d.wire e').accepted_cut keep) rfl
  · simpa only [step, update_not] using hcarried

/-- **Both directions carry what was accepted**, whatever happens at the two ends. -/
theorem step {event : DuplexEvent} (hgood : event.Good) :
    ∀ e, (d.step C event).OneWay C e :=
  match event, hgood with
  | .write e buf _, hgood => OneWay.write h e buf hgood
  | .flush e answers inner, _ => OneWay.flush h e answers inner
  | .shutdown _ _ _, _ => OneWay.pushed h (pushed_pollShutdown rfl)
  | .read e room _, hgood => OneWay.read h e room hgood
  | .cut e keep, _ => OneWay.cut h e keep

end

/-- Both directions, after any run. -/
theorem run {events : List DuplexEvent} (hgood : ∀ event ∈ events, event.Good) :
    ∀ e, (events.foldl (Duplex.step C) start).OneWay C e :=
  invariant_at_end (P := fun d : Duplex => ∀ e, d.OneWay C e) (C := fun _ event => event.Good)
    (fun _ _ h => OneWay.step h) (fun _ => ⟨[], 0, Carried.fresh, rfl, nofun⟩)
    fun p hp => hgood p.2 (mem_of_mem_trace hp)

end OneWay

/-! ### What the ends see -/

/-- `poll_read` at the other end. -/
theorem OneWay.readAt_not (h : d.OneWay C e) (room : ℕ) (hgood : ∀ a ∈ answers, Answer.Good a)
    {o : HandedOut} (ho : d.readAt C (!e) room answers = o) :
    (d.wire e).Moved o.wire ∧ o.Ended room ∧
      ∃ ps k, Carried (C e) ps k (d.stream e) o.wire o.stream (d.handed (!e) ++ o.out) ∧
        d.written e = ps.flatten ∧ (d.flushed e = true → (d.stream e).writeCipher = []) := by
  obtain ⟨ps, k, hcarried, hwritten, hflushed⟩ := h
  rw [Duplex.readAt, Bool.not_not] at ho
  obtain ⟨-, hmoved, hended, k', hcarried'⟩ := hcarried.pollRead hgood ho
  exact ⟨hmoved, hended, ps, k', hcarried', hwritten, hflushed⟩

/-- Everything `e` accepted was flushed and has crossed the wire. -/
def Settled (d : Duplex) (e : Bool) : Prop :=
  d.flushed e = true ∧ (d.wire e).crossed = (d.wire e).accepted

/-- **Of what is settled each read hands something out**, until everything was. -/
theorem OneWay.out_ne_nil (h : d.OneWay C e) (hsettled : d.Settled e) {room : ℕ} (hroom : 0 < room)
    (hgood : ∀ a ∈ answers, Answer.Good a) (hmore : d.handed (!e) ≠ d.written e) :
    (d.readAt C (!e) room answers).out ≠ [] := by
  obtain ⟨hmoved, hended, ps, k, hcarried, hwritten, hflushed⟩ := h.readAt_not room hgood rfl
  intro hnil
  obtain ⟨hplain, hnext⟩ := hended.of_out_eq_nil hroom hnil
  rw [hnil, List.append_nil] at hcarried
  refine hmore ?_
  rw [hwritten]
  exact hcarried.handed_eq (hflushed hsettled.1) (hmoved.crossed_eq hsettled.2) hnext hplain

/-- What was handed out comes first. -/
theorem OneWay.handed_isPrefix (h : d.OneWay C e) :
    d.handed (!e) <+: d.written e := by
  obtain ⟨ps, k, hcarried, hwritten, -⟩ := h
  rw [hwritten]
  exact hcarried.handed_isPrefix

/-- **As many reads as there are bytes left hand out all that is settled.** -/
theorem handed_of_reads (h : ∀ e, d.OneWay C e) (hsettled : d.Settled e)
    {reads : List (ℕ × List Answer)} (hreads : ∀ q ∈ reads, 0 < q.1 ∧ ∀ a ∈ q.2, Answer.Good a)
    (hlen : (d.written e).length ≤ (d.handed !e).length + reads.length) :
    ((reads.map fun q => .read (!e) q.1 q.2).foldl (step C) d).handed (!e) = d.written e := by
  induction reads generalizing d with
  | nil => exact (h e).handed_isPrefix.eq_of_length_le hlen
  | cons q reads ih =>
    obtain ⟨⟨hroom, hgood⟩, hreads⟩ := List.forall_mem_cons.1 hreads
    have hmoved := ((h e).readAt_not q.1 hgood rfl).1
    have hhanded : (d.step C (.read (!e) q.1 q.2)).handed (!e) =
        d.handed (!e) ++ (d.readAt C (!e) q.1 q.2).out := update_self ..
    refine ih (d := d.step C (.read (!e) q.1 q.2)) (OneWay.read h (!e) q.1 hgood) ⟨hsettled.1, ?_⟩
      hreads ?_
    · simp only [step, Bool.not_not, update_self]
      exact hmoved.crossed_eq hsettled.2
    · rw [hhanded, List.length_append]
      show (d.written e).length ≤ _
      by_cases hmore : d.handed (!e) = d.written e
      · rw [hmore]
        omega
      · have hpos := List.length_pos_of_ne_nil ((h e).out_ne_nil hsettled hroom hgood hmore)
        rw [List.length_cons] at hlen
        omega

/-- What the direction from `e` promises the other end. -/
structure Faithful (C : Bool → ChannelCipher TAG_LEN) (d : Duplex) (e : Bool) : Prop where
  /-- What was handed out is the start of what was accepted. -/
  inOrder : d.handed (!e) <+: d.written e
  /-- Once all was flushed and has crossed the wire, a read that hands nothing out finds that all
  was handed out. -/
  drained : d.Settled e → ∀ room answers, 0 < room → (∀ a ∈ answers, Answer.Good a) →
    (d.readAt C (!e) room answers).out = [] → d.handed (!e) = d.written e
  /-- And enough reads get there. -/
  complete : d.Settled e → ∀ reads : List (ℕ × List Answer),
    (∀ q ∈ reads, 0 < q.1 ∧ ∀ a ∈ q.2, Answer.Good a) →
    (d.written e).length ≤ (d.handed !e).length + reads.length →
    ((reads.map fun q => .read (!e) q.1 q.2).foldl (step C) d).handed (!e) = d.written e
  /-- No frame fails to decrypt: the only failure is that of a wire that ended inside a frame. -/
  decrypts : ∀ room answers, (∀ a ∈ answers, Answer.Good a) → ∀ err,
    (d.readAt C (!e) room answers).poll = .ready (.error err) →
    err = closedMidFrame ∧ (d.readAt C (!e) room answers).wire.closed = true ∧
      (d.readAt C (!e) room answers).wire.inFlight = [] ∧
      ¬ Whole (d.readAt C (!e) room answers).wire.crossed
  /-- The end of the stream, a read that is ready with nothing, is that of a wire that ended after
  a whole frame. -/
  cleanEnd : ∀ room answers, 0 < room → (∀ a ∈ answers, Answer.Good a) →
    (d.readAt C (!e) room answers).poll = .ready (.ok ()) →
    (d.readAt C (!e) room answers).out = [] →
    (d.readAt C (!e) room answers).wire.closed = true ∧
      (d.readAt C (!e) room answers).wire.inFlight = [] ∧
      Whole (d.readAt C (!e) room answers).wire.crossed

/-- **An encrypted stream delivers what was written**, in every run of polls at both ends in
which the inner streams do not fail. -/
theorem noise_stream_faithful (C : Bool → ChannelCipher TAG_LEN) {events : List DuplexEvent}
    (hgood : ∀ event ∈ events, event.Good) (e : Bool) :
    Faithful C (events.foldl (step C) start) e := by
  have h := OneWay.run (C := C) hgood
  generalize events.foldl (step C) start = d at h
  constructor
  · exact (h e).handed_isPrefix
  · intro hsettled room answers hroom hanswers hout
    by_contra hmore
    exact (h e).out_ne_nil hsettled hroom hanswers hmore hout
  · exact fun hsettled reads hreads hlen => handed_of_reads h hsettled hreads hlen
  · intro room answers hanswers err hpoll
    obtain ⟨-, hended, ps, k, hcarried, -⟩ := (h e).readAt_not room hanswers rfl
    simp only [HandedOut.Ended, hpoll] at hended
    obtain ⟨rfl, -, -, hne, hnext, hclosed, hflight⟩ := hended
    refine ⟨rfl, hclosed, hflight, fun hwhole => hne ?_⟩
    exact (hcarried.whole_crossed_iff.1 hwhole).eq_nil hnext
  · intro room answers hroom hanswers hpoll hout
    obtain ⟨-, hended, ps, k, hcarried, -⟩ := (h e).readAt_not room hanswers rfl
    simp only [HandedOut.Ended, hpoll] at hended
    obtain ⟨-, -, hcipher, hclosed, hflight⟩ := hended.resolve_left fun hne => hne hroom hout
    refine ⟨hclosed, hflight, hcarried.whole_crossed_iff.2 ?_⟩
    rw [hcipher]
    exact ⟨[], nofun, rfl⟩

/-- A cipher whose tag is the number of the message, sixteen times. -/
def numberedCipher : ChannelCipher TAG_LEN where
  encrypt n p := p ++ List.replicate TAG_LEN (Fin.ofNat 256 n)
  decrypt n b :=
    if b.drop (b.length - TAG_LEN) = List.replicate TAG_LEN (Fin.ofNat 256 n) then
      some (b.take (b.length - TAG_LEN))
    else none
  length_encrypt n p := by rw [List.length_append, List.length_replicate]
  decrypt_encrypt n p := by
    rw [List.length_append, List.length_replicate, Nat.add_sub_cancel, List.drop_left,
      if_pos rfl, List.take_left]

/-- Two buffers written through an inner stream that stalls, the second refused once, with a
write in the other direction between them; the first frame arrives in three chunks. -/
def stalledRun : List DuplexEvent :=
  [.write true [1, 2, 3] [.ready (.ok 5), .pending], .read false 8 [.ready (.ok 4)],
    .write false [7] [.ready (.ok 100)], .read true 1 [.ready (.ok 100)],
    .write true [4] [.ready (.ok 9)], .write true [4] [.ready (.ok 7)],
    .flush true [.ready (.ok 7), .ready (.ok 100)] (.ready (.ok ())),
    .read false 2 [.ready (.ok 10), .ready (.ok 100)]]

/-- The buffers of a stalled run are handed out in full. -/
theorem noise_stream_faithful_stalled :
    (stalledRun.foldl (step fun _ => numberedCipher) start).handed false = [1, 2] ∧
      (([(5, []), (5, []), (5, [])].map fun q => .read false q.1 q.2).foldl
        (step fun _ => numberedCipher)
        (stalledRun.foldl (step fun _ => numberedCipher) start)).handed false = [1, 2, 3, 4] := by
  have hgood : ∀ event ∈ stalledRun, event.Good := by
    simp [stalledRun, DuplexEvent.Good, Answer.Good]
  have hwritten : (stalledRun.foldl (step fun _ => numberedCipher) start).written true =
      [1, 2, 3, 4] := by decide +kernel
  have h := noise_stream_faithful (fun _ => numberedCipher) hgood true
  refine ⟨by decide +kernel, ?_⟩
  rw [← hwritten]
  exact h.complete ⟨by decide +kernel, by decide +kernel⟩ _ (by simp) (by decide +kernel)

end Duplex
end Shardscape
