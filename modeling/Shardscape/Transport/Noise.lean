/-
# The encrypted stream of `src/noise_transport.rs`

`NoiseStream` wraps a byte stream and seals what passes: `poll_write` cuts the caller's
buffer into payloads of at most `65535 - 16` bytes, encrypts each into a frame with two
bytes of length and pushes the frames to the inner stream as far as it takes them;
`poll_read` collects frames, decrypts them and hands the plaintext out.

`snow`'s `TransportState` is a `ChannelCipher` for each direction with the two counters it
keeps, which do not run out here (they have 64 bits).  The inner stream is a `Wire` for each
direction, and what it answers when it is polled is a list of answers, taken one after the
other: it takes or delivers at most so many bytes, it is not ready, or it fails.  Once the
answers have run out it is not ready.  A poll reads or writes the wires, and nothing else
changes them but a loss of the connection (`Wire.cut`).  The handshake is that of
`Shardscape.Transport.Handshake`; keys and logs are left out.
-/

import Shardscape.Backend.Site
import Shardscape.Lib.Cuts
import Shardscape.Lib.Frames

namespace Shardscape

open Lib

/-- `std::io::Error`, with its message.  Nothing here reads the kind of an error. -/
structure IoError where
  message : Str
deriving DecidableEq

/-- `std::task::Poll`. -/
inductive Poll (α : Type) where
  | pending
  | ready (a : α)

/-- What a poll of the inner stream answers: with how many bytes it is content. -/
abbrev Answer := Poll (Except IoError ℕ)

/-- An answer that is no failure: a stream that is ready takes or delivers a byte at
least. -/
def Answer.Good : Answer → Prop
  | .pending => True
  | .ready (.ok n) => 0 < n
  | .ready (.error _) => False

/-- `FRAME_LEN_SIZE` bytes of length stand before a frame of at most `MAX_NOISE_MSG`. -/
def MAX_NOISE_MSG : ℕ := 65535

/-- The bytes by which a message grows when it is encrypted. -/
def TAG_LEN : ℕ := 16

/-- The most bytes one read of the inner stream asks for. -/
def READ_LEN : ℕ := 16 * 1024

/-! ### The wire -/

/-- One direction of the inner stream: the bytes that were given to the reading end, those in
flight, those that will not arrive any more, and whether no more will come.  Nothing is lost
while the wire is open. -/
@[ext] structure Wire where
  crossed : Bytes
  inFlight : Bytes
  lost : Bytes
  closed : Bool
  lost_eq_nil : closed = false → lost = []

namespace Wire

/-- A wire nothing has passed. -/
def fresh : Wire := ⟨[], [], [], false, fun _ => rfl⟩

/-- All that the wire took from the writing end. -/
def accepted (w : Wire) : Bytes := w.crossed ++ w.inFlight ++ w.lost

/-- The wire takes bytes from the writing end; after it was closed they are lost. -/
def accept (w : Wire) (b : Bytes) : Wire :=
  if h : w.closed = true then
    { w with lost := w.lost ++ b, lost_eq_nil := fun hopen => nomatch h.symm.trans hopen }
  else { w with inFlight := w.inFlight ++ b }

/-- The writing end is shut down: what is in flight still arrives. -/
def close (w : Wire) : Wire := { w with closed := true, lost_eq_nil := nofun }

/-- The connection breaks: of the bytes in flight only the first `keep` arrive. -/
def cut (w : Wire) (keep : ℕ) : Wire :=
  { w with
    inFlight := w.inFlight.take keep
    lost := w.inFlight.drop keep ++ w.lost
    closed := true
    lost_eq_nil := nofun }

/-- The reading end is given the next `n` bytes. -/
def advance (w : Wire) (n : ℕ) : Wire :=
  { w with crossed := w.crossed ++ w.inFlight.take n, inFlight := w.inFlight.drop n }

/-- `poll_read` of the inner stream, into a buffer of `room` bytes: a wire with nothing in flight is
not ready while it is open and delivers nothing once it is closed. -/
def pollRead (w : Wire) (room : ℕ) : Answer → Wire × Poll (Except IoError Bytes)
  | .pending => (w, .pending)
  | .ready (.error e) => (w, .ready (.error e))
  | .ready (.ok n) =>
    if w.inFlight = [] ∧ w.closed = false then (w, .pending)
    else (w.advance (min n room), .ready (.ok (w.inFlight.take (min n room))))

/-- One read delivers no more than there is room for. -/
theorem length_of_pollRead {w w' : Wire} {room : ℕ} {a : Answer} {filled : Bytes}
    (h : w.pollRead room a = (w', .ready (.ok filled))) : filled.length ≤ room := by
  unfold pollRead at h
  split at h
  · exact nomatch (Prod.mk.inj h).2
  · exact nomatch Poll.ready.inj (Prod.mk.inj h).2
  · split_ifs at h with hempty
    · exact nomatch (Prod.mk.inj h).2
    · obtain rfl := Except.ok.inj (Poll.ready.inj (Prod.mk.inj h).2)
      exact (List.length_take_le _ _).trans (min_le_right _ _)

end Wire

/-! ### The stream -/

/-- `NoiseStream`: its three buffers, and the counters of its `TransportState`. -/
structure NoiseStream where
  readPlain : Bytes
  readCipher : Bytes
  writeCipher : Bytes
  sendNonce : ℕ
  recvNonce : ℕ

namespace NoiseStream

/-- `from_transport`. -/
def fromTransport : NoiseStream := ⟨[], [], [], 0, 0⟩

/-- What a poll that writes leaves, with the answers the inner stream still has. -/
structure Wrote (α : Type) where
  stream : NoiseStream
  wire : Wire
  answers : List Answer
  poll : Poll (Except IoError α)

/-- `flush_write_cipher`: push the ciphertext to the wire as long as the inner stream takes
some of it. -/
def flushWriteCipher (s : NoiseStream) (w : Wire) : List Answer → Wrote Unit
  | [] => ⟨s, w, [], if s.writeCipher = [] then .ready (.ok ()) else .pending⟩
  | answer :: answers =>
    if s.writeCipher = [] then ⟨s, w, answer :: answers, .ready (.ok ())⟩
    else
      match answer with
      | .pending => ⟨s, w, answers, .pending⟩
      | .ready (.error e) => ⟨s, w, answers, .ready (.error e)⟩
      | .ready (.ok 0) =>
        ⟨s, w, answers,
          .ready (.error ⟨text "underlying stream accepted 0 bytes"⟩)⟩
      | .ready (.ok (n + 1)) =>
        flushWriteCipher { s with writeCipher := s.writeCipher.drop (n + 1) }
          (w.accept (s.writeCipher.take (n + 1))) answers

/-- `buf.chunks(max_payload)`. -/
def payloads : Cutter Byte where
  cut l := min (MAX_NOISE_MSG - TAG_LEN) l.length
  cut_pos h := lt_min (by decide) (List.length_pos_of_ne_nil h)
  cut_le _ := min_le_right _ _

variable (c : ChannelCipher TAG_LEN)

/-- `write_message` of the transport: a message that would not fit into a Noise message is
refused. -/
def writeMessage (s : NoiseStream) (payload : Bytes) : Except Str (NoiseStream × Bytes) :=
  if MAX_NOISE_MSG < payload.length + TAG_LEN then .error (text "input error")
  else .ok ({ s with sendNonce := s.sendNonce + 1 }, c.encrypt s.sendNonce payload)

/-- The loop of `poll_write` over the payloads: each is encrypted and its frame put behind
the ciphertext that waits. -/
def encryptAll (s : NoiseStream) : List Bytes → NoiseStream × Except IoError Unit
  | [] => (s, .ok ())
  | chunk :: chunks =>
    match s.writeMessage c chunk with
    | .error e => (s, .error ⟨e⟩)
    | .ok (s, message) =>
      encryptAll { s with writeCipher := s.writeCipher ++ putU16 message.length ++ message }
        chunks

/-- `poll_write`: ciphertext of an earlier call goes first, and `buf` is not touched before it
is gone.  Then all of `buf` is encrypted and accepted, whether or not the frames can be
pushed at once. -/
def pollWrite (s : NoiseStream) (w : Wire) (buf : Bytes) (answers : List Answer) : Wrote ℕ :=
  -- with nothing waiting, `flush_write_cipher` is ready at once
  let drained := s.flushWriteCipher w answers
  match drained.poll with
  | .pending => ⟨drained.stream, drained.wire, drained.answers, .pending⟩
  | .ready (.error e) => ⟨drained.stream, drained.wire, drained.answers, .ready (.error e)⟩
  | .ready (.ok ()) =>
    match drained.stream.encryptAll c (payloads.pieces buf) with
    | (s, .error e) => ⟨s, drained.wire, drained.answers, .ready (.error e)⟩
    | (s, .ok ()) =>
      let flushed := s.flushWriteCipher drained.wire drained.answers
      match flushed.poll with
      | .ready (.error e) => ⟨flushed.stream, flushed.wire, flushed.answers, .ready (.error e)⟩
      | _ => ⟨flushed.stream, flushed.wire, flushed.answers, .ready (.ok buf.length)⟩

/-- `poll_flush`, where `inner` is what `poll_flush` of the inner stream answers. -/
def pollFlush (s : NoiseStream) (w : Wire) (answers : List Answer)
    (inner : Poll (Except IoError Unit)) : Wrote Unit :=
  let flushed := s.flushWriteCipher w answers
  match flushed.poll with
  | .ready (.ok ()) => { flushed with poll := inner }
  | _ => flushed

/-- `poll_shutdown`, where `inner` is what `poll_shutdown` of the inner stream answers; once it
is done the wire is closed. -/
def pollShutdown (s : NoiseStream) (w : Wire) (answers : List Answer)
    (inner : Poll (Except IoError Unit)) : Wrote Unit :=
  let flushed := s.flushWriteCipher w answers
  match flushed.poll, inner with
  | .ready (.ok ()), .ready (.ok ()) =>
    { flushed with poll := inner, wire := flushed.wire.close }
  | .ready (.ok ()), _ => { flushed with poll := inner }
  | _, _ => flushed

/-- `try_decrypt_one_frame`: take a frame that has arrived in full off the ciphertext and
decrypt it.  The counter moves on only if that works. -/
def tryDecryptOneFrame (s : NoiseStream) : NoiseStream × Except IoError (Option Bytes) :=
  match nextFrame s.readCipher with
  | none => (s, .ok none)
  | some (message, rest) =>
    match c.decrypt s.recvNonce message with
    | none => ({ s with readCipher := rest }, .error ⟨text "decrypt error"⟩)
    | some plaintext =>
      ({ s with readCipher := rest, recvNonce := s.recvNonce + 1 }, .ok (some plaintext))

variable {c}

/-- A frame that was decrypted is gone from the ciphertext. -/
theorem length_of_tryDecryptOneFrame {s s' : NoiseStream} {plaintext : Bytes}
    (h : s.tryDecryptOneFrame c = (s', .ok (some plaintext))) :
    s'.readCipher.length < s.readCipher.length := by
  unfold tryDecryptOneFrame at h
  split at h
  · exact nomatch (Prod.mk.inj h).2
  · rename_i message rest hnext
    split at h
    · exact nomatch (Prod.mk.inj h).2
    · obtain ⟨rfl, -⟩ := Prod.mk.inj h
      exact length_of_nextFrame hnext

/-- Without a frame nothing changes. -/
theorem eq_of_tryDecryptOneFrame_none {s s' : NoiseStream}
    (h : s.tryDecryptOneFrame c = (s', .ok none)) : s' = s ∧ nextFrame s.readCipher = none := by
  unfold tryDecryptOneFrame at h
  split at h
  · rename_i hnext
    exact ⟨(Prod.mk.inj h).1.symm, hnext⟩
  · split at h
    · exact nomatch (Prod.mk.inj h).2
    · exact nomatch Except.ok.inj (Prod.mk.inj h).2

variable (c)

/-- What `poll_read` leaves, and what it puts into the caller's buffer. -/
structure HandedOut where
  stream : NoiseStream
  wire : Wire
  out : Bytes
  poll : Poll (Except IoError Unit)

/-- What `poll_read` reports when the wire ends inside a frame. -/
def closedMidFrame : IoError := ⟨text "connection closed mid-frame"⟩

/-- The loop of `poll_read`, into a buffer with `room` bytes left. -/
def pollRead (room : ℕ) (s : NoiseStream) (w : Wire) (answers : List Answer) : HandedOut :=
  if s.readPlain ≠ [] then
    let toCopy := min room s.readPlain.length
    ⟨{ s with readPlain := s.readPlain.drop toCopy }, w, s.readPlain.take toCopy, .ready (.ok ())⟩
  else
    match _hframe : s.tryDecryptOneFrame c with
    | (s', .error e) => ⟨s', w, [], .ready (.error e)⟩
    | (s', .ok (some plaintext)) =>
      pollRead room { s' with readPlain := s'.readPlain ++ plaintext } w answers
    | (s', .ok none) =>
      match answers with
      | [] => ⟨s', w, [], .pending⟩
      | answer :: rest =>
        match _hread : w.pollRead READ_LEN answer with
        | (w', .pending) => ⟨s', w', [], .pending⟩
        | (w', .ready (.error e)) => ⟨s', w', [], .ready (.error e)⟩
        | (w', .ready (.ok filled)) =>
          if filled = [] then
            if s'.readCipher = [] then ⟨s', w', [], .ready (.ok ())⟩
            else ⟨s', w', [], .ready (.error closedMidFrame)⟩
          else pollRead room { s' with readCipher := s'.readCipher ++ filled } w' rest
termination_by (READ_LEN + 1) * answers.length + s.readCipher.length
decreasing_by
  · exact Nat.add_lt_add_left (length_of_tryDecryptOneFrame _hframe) _
  · -- a read adds at most as many bytes as its answer weighs
    have hfilled := Wire.length_of_pollRead _hread
    obtain ⟨rfl, -⟩ := eq_of_tryDecryptOneFrame_none _hframe
    simp only [List.length_append, List.length_cons, Nat.mul_add]
    omega

end NoiseStream
end Shardscape
