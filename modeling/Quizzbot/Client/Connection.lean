import Quizzbot.Common.Protocol
import Quizzbot.Lib.Run

/-!
# `Client.Connection` — how the client connects and sends (`tcp_client.cc`)

The constructor starts to resolve the server's name, then each endpoint is tried in turn. `send` may be
called at any time; it posts a handler that packs the message and starts a write on the socket, whatever
has become of the socket by then. Posted handlers run in the order they were posted. A write that is
started on a socket that is not connected completes with an error, which its handler prints.
-/

namespace Quizzbot

/-- Where `socket_` stands, and the operation that is outstanding. -/
inductive SocketState (Endpoint : Type) where
  | resolving
  | connecting (endpoint : Endpoint) (endpoint_iterator : List Endpoint)
  | connected
  | gaveUp -- the last error was printed, and nothing was started
deriving DecidableEq

/-- The network side of `tcp_client`: the socket, the messages captured by the handlers that have not run
    yet, the writes started on the connected socket, and the messages whose write failed. -/
structure ClientConnection (Endpoint : Type) where
  socket_ : SocketState Endpoint := .resolving
  posted  : List Message := []
  started : List (Message × Packet) := []
  failed  : List Message := []
deriving DecidableEq

/-- What happens to the client: a call of `send` on the main thread, the completions of the resolve and of
    a connect, and the next posted handler. -/
inductive ConnectionEvent (Endpoint : Type) where
  | send (cmd : Message)
  | resolved (endpoints : List Endpoint)
  | resolveError
  | connect (err : Bool)
  | runPosted
deriving DecidableEq

namespace ClientConnection

variable {Endpoint : Type}

/-- `handle_resolve` without an error: the first endpoint. -/
def handleResolve (cl : ClientConnection Endpoint) :
    List Endpoint → Except Fault (ClientConnection Endpoint)
  | [] => .error .outOfRange
  | endpoint :: endpoint_iterator =>
      .ok { cl with socket_ := .connecting endpoint endpoint_iterator }

/-- `handle_connect`: after an error the next endpoint, as long as there is one. -/
def handleConnect (cl : ClientConnection Endpoint) (err : Bool) (endpoint_iterator : List Endpoint) :
    ClientConnection Endpoint :=
  if err then
    match endpoint_iterator with
    | endpoint :: endpoint_iterator => { cl with socket_ := .connecting endpoint endpoint_iterator }
    | [] => { cl with socket_ := .gaveUp }
  else { cl with socket_ := .connected }

/-- `async_write`. -/
def asyncWrite (cl : ClientConnection Endpoint) (cmd : Message) (packet : Packet) :
    ClientConnection Endpoint :=
  match cl.socket_ with
  | .connected => { cl with started := cl.started ++ [(cmd, packet)] }
  | _ => { cl with failed := cl.failed ++ [cmd] }

section
variable (mp : Msgpack)

/-- `send`: the handler that is posted captures a copy of the message. -/
def send (cl : ClientConnection Endpoint) (cmd : Message) :
    Except Fault (ClientConnection Endpoint) := do
  let cmd ← cmd.copy mp
  .ok { cl with posted := cl.posted ++ [cmd] }

/-- The next posted handler: pack the message, and write. -/
def runPosted (cl : ClientConnection Endpoint) : Except Fault (ClientConnection Endpoint) :=
  match cl.posted with
  | [] => .ok cl
  | cmd :: posted => do
      let packet ← Protocol.pack (messageCodec mp) cmd
      .ok ({ cl with posted := posted }.asyncWrite cmd packet)

/-- The operation is outstanding, or the handler posted. -/
def Enabled (cl : ClientConnection Endpoint) : ConnectionEvent Endpoint → Prop
  | .send _ => True
  | .resolved _ => cl.socket_ = .resolving
  | .resolveError => cl.socket_ = .resolving
  | .connect _ => ∃ endpoint endpoint_iterator, cl.socket_ = .connecting endpoint endpoint_iterator
  | .runPosted => cl.posted ≠ []

instance (cl : ClientConnection Endpoint) : (e : ConnectionEvent Endpoint) → Decidable (cl.Enabled e)
  | .send _ => inferInstanceAs (Decidable True)
  | .resolved _ => decidable_of_iff (cl.socket_ matches .resolving) (by
      rw [Enabled]; cases cl.socket_ <;> simp)
  | .resolveError => decidable_of_iff (cl.socket_ matches .resolving) (by
      rw [Enabled]; cases cl.socket_ <;> simp)
  | .connect _ => decidable_of_iff (cl.socket_ matches .connecting _ _) (by
      rw [Enabled]; cases cl.socket_ <;> simp)
  | .runPosted => inferInstanceAs (Decidable (cl.posted ≠ []))

def handle (cl : ClientConnection Endpoint) :
    ConnectionEvent Endpoint → Except Fault (ClientConnection Endpoint)
  | .send cmd => cl.send mp cmd
  | .resolved endpoints => cl.handleResolve endpoints
  | .resolveError => .ok { cl with socket_ := .gaveUp }
  | .connect err =>
      match cl.socket_ with
      | .connecting _ endpoint_iterator => .ok (cl.handleConnect err endpoint_iterator)
      | _ => .ok cl
  | .runPosted => cl.runPosted mp

/-- One step of the client. -/
def Step (cl : ClientConnection Endpoint) (e : ConnectionEvent Endpoint)
    (cl' : ClientConnection Endpoint) : Prop :=
  cl.Enabled e ∧ cl.handle mp e = .ok cl'

/-- Let a list of events happen in turn. -/
def exec (cl : ClientConnection Endpoint) :
    List (ConnectionEvent Endpoint) → Except Fault (Option (ClientConnection Endpoint))
  | [] => .ok (some cl)
  | e :: es =>
    if cl.Enabled e then do
      let cl ← cl.handle mp e
      cl.exec es
    else .ok none

end

end ClientConnection

end Quizzbot
