/-
# The handshake of `src/noise_transport.rs`

`accept` and `connect` run the three messages of `Noise_XXpsk3` over the stream, each message in a
frame (`send_frame`, `recv_frame`), and wrap the stream (`from_transport`).

`snow`'s `HandshakeState` is what it is used as: it writes and reads messages, whose payloads are
empty, and turns into the two ciphers of the connection.  An `Exchange` is what it computes when
the two parties read what the other wrote.  The initiator is through with the third message; the
responder still has to read it, and it is this message that the secret of the cluster authenticates.
Building the states from the keys is left out.
-/

import Shardscape.Lib.Tasks
import Shardscape.Transport.Fidelity

namespace Shardscape

open Lib Function

/-- The `anyhow::Error` of a handshake: an error of the stream, or a message. -/
inductive HandshakeError where
  | io (e : IoError)
  | other (message : Str)
deriving DecidableEq

/-- A task over the stream. -/
abbrev StreamTask := Async Byte HandshakeError

/-- `ErrorKind::UnexpectedEof.into()`, of `read_u16`. -/
def unexpectedEof : HandshakeError := .io ⟨text "unexpected end of file"⟩

/-- The error of `read_exact` at the end of the stream. -/
def earlyEof : HandshakeError := .io ⟨text "early eof"⟩

/-- `ErrorKind::WriteZero.into()`, of `write_u16` and `write_all`. -/
def writeZero : HandshakeError := .io ⟨text "write zero"⟩

/-- `read_u16`. -/
def readU16 : StreamTask ℕ := do
  match ← Async.readExact unexpectedEof 2 with
  | [hi, lo] => pure (getU16 hi lo)
  -- there are two bytes
  | _ => pure 0

/-- `recv_frame`. -/
def recvFrame : StreamTask Bytes := do
  let len ← readU16
  Async.readExact earlyEof len

/-- `send_frame`. -/
def sendFrame (data : Bytes) : StreamTask Unit := do
  if MAX_NOISE_MSG < data.length then Async.lift (.error (.other (text "Noise frame too large")))
  else do
    Async.writeAll writeZero (putU16 data.length)
    Async.writeAll writeZero data

/-- `snow`'s `HandshakeState`, as far as it is used here.  The two ciphers of the transport it turns
into are that of the initiator, `true`, and that of the responder, `false`. -/
structure Snow where
  State : Type
  writeMessage : State → Except Str (State × Bytes)
  readMessage : State → Bytes → Except Str State
  intoTransportMode : State → Except Str (Bool → ChannelCipher TAG_LEN)

/-- What a handshake leaves: the ciphers of the transport, and the stream that uses them. -/
abbrev Opened := (Bool → ChannelCipher TAG_LEN) × NoiseStream

namespace Snow

variable (N : Snow)

/-- An error of `snow` ends the handshake. -/
def orFail {α : Type} (r : Except Str α) : StreamTask α := Async.lift (r.mapError .other)

/-- `accept`, the responder. -/
def accept (noise : N.State) : StreamTask Opened := do
  -- <- e
  let msg ← recvFrame
  let noise ← orFail (N.readMessage noise msg)
  -- -> e, ee, s, es
  let (noise, msg) ← orFail (N.writeMessage noise)
  sendFrame msg
  -- <- s, se, psk
  let msg ← recvFrame
  let noise ← orFail (N.readMessage noise msg)
  let transport ← orFail (N.intoTransportMode noise)
  pure (transport, NoiseStream.fromTransport)

/-- `connect`, the initiator. -/
def connect (noise : N.State) : StreamTask Opened := do
  -- -> e
  let (noise, msg) ← orFail (N.writeMessage noise)
  sendFrame msg
  -- <- e, ee, s, es
  let msg ← recvFrame
  let noise ← orFail (N.readMessage noise msg)
  -- -> s, se, psk
  let (noise, msg) ← orFail (N.writeMessage noise)
  sendFrame msg
  let transport ← orFail (N.intoTransportMode noise)
  pure (transport, NoiseStream.fromTransport)

/-- The three messages of a handshake between the initiator `i` and the responder `r`, up to the
responder's verdict on the last. -/
structure Exchange (i r : N.State) where
  i₁ : N.State
  i₂ : N.State
  i₃ : N.State
  r₁ : N.State
  r₂ : N.State
  m₁ : Bytes
  m₂ : Bytes
  m₃ : Bytes
  ciphers : Bool → ChannelCipher TAG_LEN
  write₁ : N.writeMessage i = .ok (i₁, m₁)
  read₁ : N.readMessage r m₁ = .ok r₁
  write₂ : N.writeMessage r₁ = .ok (r₂, m₂)
  read₂ : N.readMessage i₁ m₂ = .ok i₂
  write₃ : N.writeMessage i₂ = .ok (i₃, m₃)
  transport : N.intoTransportMode i₃ = .ok ciphers
  /-- If the responder takes the last message, it has the same ciphers. -/
  agrees : ∀ r₃ c, N.readMessage r₂ m₃ = .ok r₃ → N.intoTransportMode r₃ = .ok c → c = ciphers
  length₁ : m₁.length ≤ MAX_NOISE_MSG
  length₂ : m₂.length ≤ MAX_NOISE_MSG
  length₃ : m₃.length ≤ MAX_NOISE_MSG

end Snow

/-! ### Polling a task -/

/-- Polling a task that reads from one wire and writes to another: it goes on as long as the inner
stream has an answer. -/
def pollTask {α : Type} : StreamTask α → Wire → Wire → List Answer → StreamTask α × Wire × Wire
  | .done r, i, o, _ => (.done r, i, o)
  | .read room k, i, o, [] => (.read room k, i, o)
  | .write b k, i, o, [] => (.write b k, i, o)
  | .read room k, i, o, answer :: answers =>
    match i.pollRead room answer with
    | (i, .pending) => (.read room k, i, o)
    | (i, .ready (.error e)) => (.done (.error (.io e)), i, o)
    | (i, .ready (.ok got)) => pollTask (k got) i o answers
  | .write b k, i, o, answer :: answers =>
    match answer with
    | .pending => (.write b k, i, o)
    | .ready (.error e) => (.done (.error (.io e)), i, o)
    | .ready (.ok n) => pollTask (k (min n b.length)) i (o.accept (b.take n)) answers

/-! ### The connection -/

/-- One end of a connection: its handshake goes on, it has ended with the ciphers of the stream, or
it has failed and the stream was dropped. -/
inductive EndStatus where
  | handshaking (t : StreamTask Opened)
  | opened (ciphers : Bool → ChannelCipher TAG_LEN)
  | failed (e : HandshakeError)

/-- The end whose handshake is the task. -/
def EndStatus.ofTask : StreamTask Opened → EndStatus
  | .done (.ok (ciphers, _)) => .opened ciphers
  | .done (.error e) => .failed e
  | t => .handshaking t

/-- The stream of an end, when its handshake ends. -/
def openedStream : StreamTask Opened → NoiseStream → NoiseStream
  | .done (.ok (_, s)), _ => s
  | _, s => s

/-- The wire of an end, which is dropped when the handshake fails. -/
def droppedWire : StreamTask Opened → Wire → Wire
  | .done (.error _), w => w.close
  | _, w => w

/-- Two ends, `true` the initiator, and the wires they write to.  The stream of an end is polled
only when its handshake is over. -/
structure Connection where
  status : Bool → EndStatus
  duplex : Duplex

/-- A poll of the handshake of `e`, or an event of the streams. -/
inductive ConnectionEvent where
  | handshake (e : Bool) (answers : List Answer)
  | stream (event : DuplexEvent)

/-- The end an event is about. -/
def DuplexEvent.at : DuplexEvent → Bool
  | .write e _ _ | .flush e _ _ | .shutdown e _ _ | .read e _ _ | .cut e _ => e

/-- The inner stream does not fail. -/
def ConnectionEvent.Good : ConnectionEvent → Prop
  | .handshake _ answers => ∀ a ∈ answers, Answer.Good a
  | .stream event => event.Good

namespace Connection

/-- A fresh connection: one end connects, the other accepts. -/
def start (N : Snow) (i r : N.State) : Connection where
  status e := if e then .handshaking (N.connect i) else .handshaking (N.accept r)
  duplex := Duplex.start

/-- The wires after a poll at `e`, which reads from the one and writes to the other. -/
def wires (d : Duplex) (e : Bool) (i o : Wire) : Bool → Wire :=
  update (update d.wire (!e) i) e o

/-- The connection after a poll of the handshake of `e` that left a task and the wires. -/
def afterPoll (d : Connection) (e : Bool) (t : StreamTask Opened) (i o : Wire) : Connection where
  status := update d.status e (.ofTask t)
  duplex :=
    { d.duplex with
      stream := update d.duplex.stream e (openedStream t (d.duplex.stream e))
      wire := wires d.duplex e i (droppedWire t o) }

/-- One event. -/
def step (d : Connection) : ConnectionEvent → Connection
  | .handshake e answers =>
    match d.status e with
    | .handshaking t =>
      let out := pollTask t (d.duplex.wire !e) (d.duplex.wire e) answers
      d.afterPoll e out.1 out.2.1 out.2.2
    | _ => d
  | .stream (.cut e keep) =>
    { d with duplex := { d.duplex with
        wire := update d.duplex.wire e ((d.duplex.wire e).cut keep) } }
  | .stream event =>
    match d.status event.at with
    | .opened c => { d with duplex := d.duplex.step c event }
    | _ => d

/-- A run. -/
def run (N : Snow) (i r : N.State) (events : List ConnectionEvent) : Connection :=
  events.foldl step (start N i r)

end Connection

/-! ### Scripts of the tasks -/

/-- A frame is received, its length first. -/
theorem follows_recvFrame {f : Bytes} (h : f.length ≤ MAX_NOISE_MSG) :
    Follows (.ok f) recvFrame ((frame f).map .recv) := by
  have hlt : f.length < 65536 := Nat.lt_succ_of_le h
  have hheader : Follows (.ok f.length) readU16 ((putU16 f.length).map .recv) := by
    rw [← List.append_nil ((putU16 f.length).map Act.recv)]
    refine (Follows.readExact unexpectedEof (putU16 f.length)).bind ?_
    show Follows _
      (.done (.ok (getU16 (Fin.ofNat 256 (f.length / 256)) (Fin.ofNat 256 f.length)))) []
    rw [getU16_putU16 hlt]
    exact .done
  rw [frame, List.map_append]
  exact hheader.bind (Follows.readExact earlyEof f)

/-- A frame is sent, its length first. -/
theorem follows_sendFrame {f : Bytes} (h : f.length ≤ MAX_NOISE_MSG) :
    Follows (.ok ()) (sendFrame f) ((frame f).map .send) := by
  rw [sendFrame, if_neg (Nat.not_lt.2 h), frame, List.map_append]
  exact (Follows.writeAll writeZero (putU16 f.length)).bind (Follows.writeAll writeZero f)

namespace Snow

variable {N : Snow}

/-- `snow` does its part without the stream. -/
theorem follows_orFail {α γ : Type} {r : Except Str α} {a : α} {f : α → StreamTask γ}
    {res : Except HandshakeError γ} {s : List (Act Byte)} (hr : r = .ok a)
    (h : Follows res (f a) s) : Follows res (Async.bind (orFail r) f) s := by
  subst hr
  exact h

namespace Exchange

variable {i r : N.State} (x : Exchange N i r)

/-- What the initiator sends and receives. -/
def script : List (Act Byte) :=
  (frame x.m₁).map .send ++ ((frame x.m₂).map .recv ++ (frame x.m₃).map .send)

/-- How `accept` ends. -/
def verdict : Except HandshakeError Opened :=
  ((N.readMessage x.r₂ x.m₃).bind N.intoTransportMode).mapError .other |>.map
    fun transport => (transport, NoiseStream.fromTransport)

/-- `connect` follows the script. -/
theorem follows_connect :
    Follows (.ok (x.ciphers, NoiseStream.fromTransport)) (N.connect i) x.script := by
  refine follows_orFail x.write₁ ((follows_sendFrame x.length₁).bind ?_)
  refine (follows_recvFrame x.length₂).bind (follows_orFail x.read₂ ?_)
  refine follows_orFail x.write₃ ?_
  rw [← List.append_nil ((frame x.m₃).map Act.send)]
  exact (follows_sendFrame x.length₃).bind (follows_orFail x.transport .done)

/-- `accept` follows its dual. -/
theorem follows_accept : Follows x.verdict (N.accept r) (Act.dual x.script) := by
  have hdual : Act.dual x.script =
      (frame x.m₁).map .recv ++ ((frame x.m₂).map .send ++ ((frame x.m₃).map .recv ++ [])) := by
    simp [Act.dual, script, Act.flip, comp_def]
  rw [hdual]
  refine (follows_recvFrame x.length₁).bind (follows_orFail x.read₁ ?_)
  refine follows_orFail x.write₂ ((follows_sendFrame x.length₂).bind ?_)
  refine (follows_recvFrame x.length₃).bind ?_
  rw [verdict]
  cases hread : N.readMessage x.r₂ x.m₃ with
  | error e => exact .done
  | ok r₃ =>
    show Follows _ (Async.bind (orFail (N.intoTransportMode r₃)) _) []
    cases htransport : N.intoTransportMode r₃ with
    | error e =>
      simp only [Except.bind, htransport]
      exact .done
    | ok c =>
      simp only [Except.bind, htransport]
      exact .done

/-- What an end sends and receives, the initiator being `true`. -/
def part (e : Bool) : List (Act Byte) := if e then x.script else Act.dual x.script

/-- How the task of an end ends. -/
def ending (e : Bool) : Except HandshakeError Opened :=
  if e then .ok (x.ciphers, NoiseStream.fromTransport) else x.verdict

/-- The other end's part is the dual one. -/
theorem part_not (e : Bool) : x.part (!e) = Act.dual (x.part e) := by
  cases e with
  | false => exact (Act.dual_dual x.script).symm
  | true => rfl

/-- Both ends come to the same ciphers. -/
theorem eq_of_ending_ok {e : Bool} {c : Bool → ChannelCipher TAG_LEN} {s : NoiseStream}
    (h : x.ending e = .ok (c, s)) : c = x.ciphers ∧ s = NoiseStream.fromTransport := by
  cases e with
  | true =>
    obtain ⟨rfl, rfl⟩ := Prod.mk.inj (Except.ok.inj h)
    exact ⟨rfl, rfl⟩
  | false =>
    rw [ending, if_neg Bool.false_ne_true, verdict] at h
    cases hread : N.readMessage x.r₂ x.m₃ with
    | error e =>
      rw [hread] at h
      cases h
    | ok r₃ =>
      rw [hread, Except.bind] at h
      cases htransport : N.intoTransportMode r₃ with
      | error e =>
        rw [htransport] at h
        cases h
      | ok c' =>
        rw [htransport] at h
        obtain ⟨rfl, rfl⟩ := Prod.mk.inj (Except.ok.inj h)
        exact ⟨x.agrees r₃ _ hread htransport, rfl⟩

/-- At the beginning each end has its part before it. -/
theorem follows_start (e : Bool) : ∃ t, (Connection.start N i r).status e = .handshaking t ∧
    Follows (x.ending e) t (x.part e) := by
  cases e with
  | false => exact ⟨_, rfl, x.follows_accept⟩
  | true => exact ⟨_, rfl, x.follows_connect⟩

end Exchange

/-- A toy protocol: the last message is the secret. -/
def toy : Snow where
  State := ℕ × Byte
  writeMessage st := .ok ((st.1 + 1, st.2), if st.1 = 2 then [st.2] else [0])
  readMessage st m :=
    if st.1 = 2 ∧ m ≠ [st.2] then .error (text "decrypt error") else .ok (st.1 + 1, st.2)
  intoTransportMode _ := .ok fun _ => Duplex.numberedCipher

/-- Its handshake, between parties with the secrets `k` and `k'`. -/
def toyExchange (k k' : Byte) : toy.Exchange (0, k) (0, k') where
  i₁ := (1, k)
  i₂ := (2, k)
  i₃ := (3, k)
  r₁ := (1, k')
  r₂ := (2, k')
  m₁ := [0]
  m₂ := [0]
  m₃ := [k]
  ciphers _ := Duplex.numberedCipher
  write₁ := rfl
  read₁ := rfl
  write₂ := rfl
  read₂ := rfl
  write₃ := rfl
  transport := rfl
  agrees _ _ _ h := (Except.ok.inj h).symm
  length₁ := Nat.le_of_ble_eq_true rfl
  length₂ := Nat.le_of_ble_eq_true rfl
  length₃ := Nat.le_of_ble_eq_true rfl

end Snow
end Shardscape
