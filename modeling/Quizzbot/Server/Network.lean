import Quizzbot.Common.Protocol
import Quizzbot.Lib.Run
import Mathlib.Logic.Function.Basic

/-!
# `Server.Network` — the server between completions (`network.cc`, `tcp_connection.h`, `handler.h`)

The server is a state machine driven by the completions of its asynchronous operations: an accept or a
read finishes, with or without an error, and its handler runs to the end on the one network thread. The
state holds every connection object that was created, the room's participants and the operations that
are outstanding; what the handlers hand to the rest of the world (`async_write` on a socket, `push` on the
game queue) is listed in order as the step's effects.

A step is labelled with a `Record` of what happened in it. The histories that the theorems speak about
are projections of the list of these records.
-/

namespace Quizzbot

open HexText (ascii)
open LabelledRun (Run)

/-- A connection object: the identity of a `shared_ptr<TcpConnection>`, in order of creation. -/
abbrev ConnId := Nat

/-- `TcpConnectionBase`, with the number of `async_read_some` operations outstanding on its socket. -/
structure TcpConnection where
  name_       : CString := []
  acc_packet_ : Packet := []
  reads       : Nat := 0
deriving DecidableEq

/-- The objects on the network thread: `tcp_server`, `ChatRoomBase` and the connections. -/
structure Server where
  conns         : ConnId → TcpConnection := fun _ => {}
  created       : Nat := 0
  participants_ : List ConnId := []
  accepting     : List ConnId := []

/-- `GameEventBase`. -/
structure GameEvent where
  name : CString
  msg  : Message
deriving DecidableEq

/-- What a handler hands over. -/
inductive Effect where
  | asyncWrite (socket : ConnId) (cmd : Message) (packet : Packet)
  | push (event : GameEvent)
deriving DecidableEq

namespace Server

/-- `name()`. -/
def name (s : Server) (c : ConnId) : CString := (s.conns c).name_

/-- Change one connection object. -/
def modify (s : Server) (c : ConnId) (f : TcpConnection → TcpConnection) : Server :=
  { s with conns := Function.update s.conns c (f (s.conns c)) }

/-- `set_name`. -/
def setName (s : Server) (c : ConnId) (name : CString) : Server :=
  s.modify c fun conn => { conn with name_ := name }

/-- `begin_read`, also `welcome`. -/
def beginRead (s : Server) (c : ConnId) : Server :=
  s.modify c fun conn => { conn with reads := conn.reads + 1 }

/-- `start_accept`: create a connection object, and accept into its socket. Objects that were not yet
    created are in their initial state. -/
def startAccept (s : Server) : Server :=
  { s with created := s.created + 1, accepting := s.accepting ++ [s.created] }

/-- `handle_new_connection`: add to the room, begin to read, accept the next. -/
def handleNewConnection (s : Server) (connection : ConnId) : Server :=
  let s := { s with participants_ := s.participants_ ++ [connection] }
  let s := s.beginRead connection
  s.startAccept

/-- `find_by_name`. -/
def findByName (s : Server) (name : CString) : Option ConnId :=
  if name = [] then none
  else s.participants_.find? fun p => s.name p = name

end Server

/-! ## The handlers -/

section
variable (mp : Msgpack)

/-- `send_command`. -/
def sendCommand (c : ConnId) (cmd : Message) : Except Fault (List Effect) := do
  let packet ← Protocol.pack (messageCodec mp) cmd
  .ok [.asyncWrite c cmd packet]

/-- A `for` loop whose body hands over effects. -/
def forEach (body : ConnId → Except Fault (List Effect)) : List ConnId → Except Fault (List Effect)
  | [] => .ok []
  | c :: cs => do
      let effects ← body c
      let effects' ← forEach body cs
      .ok (effects ++ effects')

/-- `transmit_message`: to all participants except the emitter. -/
def ChatRoom.transmitMessage (s : Server) (emitter : ConnId) (message : Message) :
    Except Fault (List Effect) :=
  forEach (fun participant => if participant ≠ emitter then sendCommand mp participant message else .ok [])
    s.participants_

/-- `ChatRoomBase::handle`. -/
def ChatRoom.handle (s : Server) (emitter : ConnId) (cmd : Message) : Except Fault (List Effect) :=
  match cmd.messageType with
  | .message => ChatRoom.transmitMessage mp s emitter cmd
  | _ => .ok []

/-- `GameHandlerBase::handle`: the event holds a copy of the message. -/
def GameHandler.handle (s : Server) (emitter : ConnId) (cmd : Message) : Except Fault (List Effect) := do
  let msg ← cmd.copy mp
  .ok [.push ⟨s.name emitter, msg⟩]

/-- `JoinHandlerBase<Message, message_protocol>::handle`. -/
def JoinHandler.handle (s : Server) (emitter : ConnId) (msg : Message) :
    Except Fault (Server × List Effect) :=
  if msg.messageType ≠ .joinRequest then .ok (s, [])
  else
    match msg.data_ >>= MessageData.joinName? with
    | none => .error .assertion
    | some candidate_name =>
      if candidate_name = [] then do
        let reply ← sendCommand mp emitter (.ofData (.joinNackMessage (ascii "Name cannot be empty.")))
        .ok (s, reply)
      else
        match s.findByName candidate_name with
        -- any participant, the emitter included
        | some _ => do
            let reply ← sendCommand mp emitter (.ofData (.joinNackMessage (ascii "Name already exists.")))
            .ok (s, reply)
        | none => do
            let s := s.setName emitter candidate_name
            let reply ← sendCommand mp emitter (.ofData .joinAckMessage)
            .ok (s, reply)

/-- The dispatch of `handle_receive` on the name of the connection, which is looked at again after the
    join handler. -/
def dispatch (s : Server) (c : ConnId) (msg : Message) : Except Fault (Server × List Effect) :=
  if s.name c = [] then do
    let (s, reply) ← JoinHandler.handle mp s c msg
    -- the request that sets the name is also the first event of the connection
    if s.name c ≠ [] then do
      let event ← GameHandler.handle mp s c msg
      .ok (s, reply ++ event)
    else .ok (s, reply)
  else do
    let relayed ← ChatRoom.handle mp s c msg
    let event ← GameHandler.handle mp s c msg
    .ok (s, relayed ++ event)

/-- `handle_receive`: parse once, hand a copy of the message to the handlers, read on. -/
def handleReceive (s : Server) (c : ConnId) : Except Fault (Server × Option Message × List Effect) := do
  let (maybe_msg, rest) ← Protocol.parse (messageCodec mp) (s.conns c).acc_packet_
  let s := s.modify c fun conn => { conn with acc_packet_ := rest }
  match maybe_msg with
  | some value => do
      let msg ← value.copy mp
      let (s, effects) ← dispatch mp s c msg
      .ok (s.beginRead c, some msg, effects)
  | none => .ok (s.beginRead c, none, [])

/-! ## Completions -/

/-- The completion of an outstanding operation. The peer may have reset a connection before its accept
    completes, which does so without an error even then (`acceptReset`). -/
inductive Event where
  | accept (c : ConnId)
  | acceptReset (c : ConnId)
  | acceptError (c : ConnId)
  | read (c : ConnId) (bytes : Packet)
  | readError (c : ConnId)
deriving DecidableEq

/-- The operation is outstanding; a read transfers at least a byte and at most the input buffer. -/
def Server.Enabled (s : Server) : Event → Prop
  | .accept c => c ∈ s.accepting
  | .acceptReset c => c ∈ s.accepting
  | .acceptError c => c ∈ s.accepting
  | .read c bytes => 0 < (s.conns c).reads ∧ 0 < bytes.length ∧ bytes.length ≤ 512
  | .readError c => 0 < (s.conns c).reads

instance (s : Server) : (e : Event) → Decidable (s.Enabled e)
  | .accept c => inferInstanceAs (Decidable (c ∈ s.accepting))
  | .acceptReset c => inferInstanceAs (Decidable (c ∈ s.accepting))
  | .acceptError c => inferInstanceAs (Decidable (c ∈ s.accepting))
  | .read _ _ => inferInstanceAs (Decidable (_ ∧ _))
  | .readError c => inferInstanceAs (Decidable (0 < (s.conns c).reads))

/-- What happened in a step: the completion, the name its connection had at that moment, the message
    that was parsed and handed to the handlers, and the effects. -/
structure Record where
  event   : Event
  name    : CString
  parsed  : Option Message
  effects : List Effect
deriving DecidableEq

/-- The completion handlers. -/
def Server.handle (s : Server) (e : Event) : Except Fault (Server × Record) :=
  match e with
  | .accept c =>
      let s' := { s with accepting := s.accepting.erase c }
      .ok (s'.handleNewConnection c, ⟨e, s.name c, none, []⟩)
  -- the address of the peer is asked for, to log it, and `remote_endpoint` throws
  | .acceptReset _ => .error .notConnected
  -- after an error nothing is started again, neither the next accept nor the next read
  | .acceptError c => .ok ({ s with accepting := s.accepting.erase c }, ⟨e, s.name c, none, []⟩)
  | .read c bytes => do
      let s' := s.modify c fun conn =>
        { conn with reads := conn.reads - 1, acc_packet_ := conn.acc_packet_ ++ bytes }
      let (s', parsed, effects) ← handleReceive mp s' c
      .ok (s', ⟨e, s.name c, parsed, effects⟩)
  | .readError c =>
      .ok (s.modify c fun conn => { conn with reads := conn.reads - 1 }, ⟨e, s.name c, none, []⟩)

/-- The constructor of `tcp_server` starts the first accept. -/
def Server.init : Server := Server.startAccept {}

/-- One step of the server. -/
def Server.Step (s : Server) (r : Record) (s' : Server) : Prop :=
  s.Enabled r.event ∧ s.handle mp r.event = .ok (s', r)

/-- Let a list of completions happen in turn. -/
def Server.exec (s : Server) : List Event → Except Fault (Server × List Record)
  | [] => .ok (s, [])
  | e :: es =>
    if s.Enabled e then do
      let (s, r) ← s.handle mp e
      let (s, rs) ← s.exec es
      .ok (s, r :: rs)
    else .ok (s, [])

end

end Quizzbot
