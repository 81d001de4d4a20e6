import Quizzbot.Common.Protocol

/-!
# `Client.TcpClient` — how the client reads (`tcp_client.cc`)

Once connected, the client accumulates what each read brings, parses once, and pushes the message it found
on the event queue.
-/

namespace Quizzbot

/-- `tcp_client`, as far as reading goes; `queue_` holds everything pushed so far. -/
structure TcpClient where
  aggr_packet_ : Packet := []
  queue_       : List Message := []
deriving DecidableEq

namespace TcpClient

variable (mp : Msgpack)

/-- `handle_read`. -/
def handleRead (cl : TcpClient) : Except Fault TcpClient := do
  let (maybe_msg, rest) ← Protocol.parse (messageCodec mp) cl.aggr_packet_
  let cl := { cl with aggr_packet_ := rest }
  match maybe_msg with
  | some value => do
      let v ← value.copy mp
      .ok { cl with queue_ := cl.queue_ ++ [v] }
  | none => .ok cl

/-- The completion of `async_read_some` with these bytes. -/
def onRead (cl : TcpClient) (bytes : Packet) : Except Fault TcpClient :=
  handleRead mp { cl with aggr_packet_ := cl.aggr_packet_ ++ bytes }

/-- A sequence of reads. -/
def onReads (cl : TcpClient) : List Packet → Except Fault TcpClient
  | [] => .ok cl
  | bytes :: reads => do
      let cl ← cl.onRead mp bytes
      onReads cl reads

end TcpClient

end Quizzbot
