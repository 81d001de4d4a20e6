import Quizzbot.Lib.AsyncWrite
import Quizzbot.Server.Network
import Quizzbot.Lib.MsgpackFormat

/-!
# `Server.Wire` — what the peer of a connection receives

Each `send_command` starts an `async_write` of the packed frame with an empty completion handler, so
nothing keeps a second one from starting while the first is unfinished. The socket of a connection is an
`AsyncWrite.Stream` on which the calls start chains; it carries the frames one after another as long as
only the oldest unfinished write makes progress (`wire_prefix`).
-/

namespace Quizzbot

open LabelledRun (Run)
open AsyncWrite (Stream Op)

/-- What happens at a socket: a call of `send_command`, with the packet it packs, or a partial write of
    the `i`-th call. -/
inductive SocketEvent where
  | sendCommand (cmd : Message) (packet : Packet)
  | writeSome (i n : Nat)

/-- The operation on the stream. -/
def SocketEvent.op : SocketEvent → Op UInt8
  | .sendCommand _ packet => .start packet
  | .writeSome i n => .transfer i n

/-- One event at the socket of `c`; a call that raises starts nothing. -/
def SocketStep (mp : Msgpack) (c : ConnId) (w : Stream UInt8) (e : SocketEvent) (w' : Stream UInt8) : Prop :=
  AsyncWrite.Step w e.op w' ∧
    ∀ cmd packet, e = .sendCommand cmd packet →
      sendCommand mp c cmd = .ok [.asyncWrite c cmd packet]

/-- The frames in the order of the calls. -/
def frames (es : List SocketEvent) : List Packet :=
  es.filterMap fun
    | .sendCommand _ packet => some packet
    | .writeSome _ _ => none

theorem buffers_op (es : List SocketEvent) : AsyncWrite.buffers (es.map SocketEvent.op) = frames es := by
  rw [AsyncWrite.buffers, List.filterMap_map, frames]
  apply List.filterMap_congr
  intro e _
  cases e <;> rfl

/-- **Frames are not mixed on the wire** as long as a write makes progress only when all older ones are
    finished: in every such run, whatever the calls and the sizes of the partial writes, the bytes received
    are a prefix of the frames in the order of the calls. -/
theorem wire_prefix (mp : Msgpack) (c : ConnId) {w : Stream UInt8} {es : List SocketEvent}
    (h : Run (fun w e w' => SocketStep mp c w e w' ∧ AsyncWrite.InOrder w e.op) {} es w) :
    w.wire <+: (frames es).flatten := by
  rw [← buffers_op]
  apply AsyncWrite.run_prefix
  apply h.relabel SocketEvent.op
  intro w e w' hs
  exact ⟨hs.1.1, hs.2⟩

/-- The packet of a join acknowledgement. -/
def ackPacket : Packet := [0x01, 0x02, 0x30, 0x31, 0x03, 0x30, 0x33]

theorem sendCommand_ack (c : ConnId) : sendCommand Msgpack.reference c (.ofData .joinAckMessage)
    = .ok [.asyncWrite c (.ofData .joinAckMessage) ackPacket] := by
  have hpack : Protocol.pack (messageCodec Msgpack.reference) (.ofData .joinAckMessage) = .ok ackPacket := by
    decide
  rw [sendCommand, hpack]; rfl

theorem step_ack (w : Stream UInt8) : SocketStep Msgpack.reference 0 w
    (.sendCommand (.ofData .joinAckMessage) ackPacket) (w.start ackPacket) := by
  constructor
  · rfl
  · intro cmd packet he
    cases he
    exact sendCommand_ack 0

theorem step_writeSome {w w' : Stream UInt8} {i n : Nat} (h : w.transfer i n = some w') :
    SocketStep Msgpack.reference 0 w (.writeSome i n) w' := by
  constructor
  · exact h
  · intro cmd packet he; cases he

/-- Two acknowledgements: the second call comes while the first write is under way, and its write waits
    for its turn. -/
theorem wire_prefix_ordered : ∃ (w : Stream UInt8) (es : List SocketEvent),
    w.wire = ackPacket ++ [0x01] ∧ frames es = [ackPacket, ackPacket] ∧ w.wire <+: (frames es).flatten :=
  ⟨_, _, rfl, rfl, wire_prefix Msgpack.reference 0
    (.tail (.tail (.tail (.tail (.tail .refl ⟨step_ack _, trivial⟩)
      ⟨step_writeSome (i := 0) (n := 3) rfl, by decide⟩) ⟨step_ack _, trivial⟩)
      ⟨step_writeSome (i := 0) (n := 4) rfl, by decide⟩) ⟨step_writeSome (i := 1) (n := 1) rfl, by decide⟩)⟩

/-- Both writes make progress: the second sync byte is missing. -/
theorem not_wire_prefix_interleaved : ∃ (w : Stream UInt8) (es : List SocketEvent),
    Run (SocketStep Msgpack.reference 0) {} es w ∧ w.wire = [0x01, 0x01] ∧
      ¬ w.wire <+: (frames es).flatten :=
  ⟨_, _, .tail (.tail (.tail (.tail .refl (step_ack _)) (step_ack _))
    (step_writeSome (i := 0) (n := 1) rfl)) (step_writeSome (i := 1) (n := 1) rfl), rfl, by decide⟩

end Quizzbot
