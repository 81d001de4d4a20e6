import Quizzbot.Client.Process
import Quizzbot.Server.Correctness.Written
import Quizzbot.Server.Game

/-!
# `System` — the server, its clients, and the connections between them

The two threads of the server, any number of clients, and the bytes on the way between them take their steps
in any order. The process at the other end of connection `c` of the server is client `c`; which of them run
this program's client, and under which names, is a parameter (`names`), and the others may do anything.

What is put together here are the models of the components. What they have in common is stated where it is
shared: the name of a connection and its bytes, the queue between the threads of the server.
-/

namespace Quizzbot

open LabelledRun (Process)

/-- The messages handed to the socket of `c`, with their packets. -/
def sentTo (c : ConnId) (effects : List Effect) : List (Message × Packet) :=
  effects.filterMap fun
    | .asyncWrite c' cmd packet => if c' = c then some (cmd, packet) else none
    | .push _ => none

namespace GameLoop

/-- The handlers push their events. -/
def pushAll (g : Process Step {}) (hrun : g.state.should_run = true) : List GameEvent → Process Step {}
  | [] => g
  | event :: events => pushAll (g.extend (l := .push event) (.push hrun)) hrun events

end GameLoop

/-- A connection is being made, or has been: the server may accept before the client knows. -/
def ClientConnection.dialing {Endpoint : Type} (net : ClientConnection Endpoint) : Bool :=
  match net.socket_ with
  | .connecting _ _ | .connected => true
  | .resolving | .gaveUp => false

/-- The client at the other end of a connection when the server has handled a completion: the packets are
    being written to it, and the bytes that were read are gone from the wire. -/
def Client.served {mp : Msgpack} {Endpoint : Type} {name : CString} (cl : Client mp Endpoint name)
    (c : ConnId) (r : Record) : Client mp Endpoint name :=
  { cl with
    down := cl.down.startAll ((sentTo c r.effects).map Prod.snd)
    up := match r.event with
      | .read c' bytes => if c' = c then (cl.up.read bytes).getD cl.up else cl.up
      | _ => cl.up }

/-- The whole system. -/
structure System (mp : Msgpack) (Endpoint : Type) (names : ConnId → Option CString) where
  server  : Process (Server.Step mp) Server.init := .new
  game    : Process GameLoop.Step {} := .new
  clients : ∀ c, Client mp Endpoint ((names c).getD []) := fun _ => {}

/-- A step of the system: a completion on the server's network thread, a step of its main thread, the
    signal, progress of a write of the server, or a step of a client. -/
inductive Label (Endpoint : Type) where
  | server (e : Event)
  | game
  | sigint
  | serverWrite (c : ConnId) (i n : Nat)
  | client (c : ConnId) (e : ClientEvent Endpoint)

namespace System

variable {mp : Msgpack} {Endpoint : Type} {names : ConnId → Option CString}

/-- The peer allows the completion: the bytes that are read have arrived, and a connection is made with a
    client that asks for one. -/
def Supplied (s : System mp Endpoint names) : Event → Prop
  | .read c bytes => (names c).isSome → ((s.clients c).up.read bytes).isSome
  | .accept c | .acceptReset c => (names c).isSome → (s.clients c).net.state.dialing
  | _ => True

instance (s : System mp Endpoint names) : (e : Event) → Decidable (s.Supplied e)
  | .read _ _ => inferInstanceAs (Decidable (_ → _))
  | .accept _ => inferInstanceAs (Decidable (_ → _))
  | .acceptReset _ => inferInstanceAs (Decidable (_ → _))
  | .acceptError _ => inferInstanceAs (Decidable True)
  | .readError _ => inferInstanceAs (Decidable True)

/-- A completion on the server. After the signal, no handler runs. -/
def serverStep (s : System mp Endpoint names) (e : Event) :
    Except Fault (Option (System mp Endpoint names)) :=
  if h : s.game.state.should_run = true ∧ s.server.state.Enabled e ∧ s.Supplied e then
    match hs : s.server.state.handle mp e with
    | .error fault => .error fault
    | .ok (server, r) =>
        have hstep : s.server.state.Step mp r server := by
          have he := Server.handle_event hs
          subst he
          exact ⟨h.2.1, hs⟩
        .ok (some {
          server := s.server.extend hstep
          game := GameLoop.pushAll s.game h.1 (pushed r.effects)
          clients := fun c => (s.clients c).served c r })
  else .ok none

/-- A step of the server's main thread. -/
def gameStep (s : System mp Endpoint names) : Option (System mp Endpoint names) :=
  match h : s.game.state.turn with
  | none => none
  | some _ => some { s with game := s.game.extend (.turn h) }

/-- The handler of the signal. -/
def sigintStep (s : System mp Endpoint names) : Option (System mp Endpoint names) :=
  if h : s.game.state.should_run = true then some { s with game := s.game.extend (.sigint h) } else none

/-- A change at one client. -/
def setClient (s : System mp Endpoint names) (c : ConnId) (cl : Client mp Endpoint ((names c).getD [])) :
    System mp Endpoint names :=
  { s with clients := Function.update s.clients c cl }

/-- The next state, or `none` if the step is not possible. The writes of the server make progress on its network
    thread. The peers that do not run this client are represented by what the server reads from them, and have no
    steps of their own. -/
def next (hmp : mp.Lawful) (s : System mp Endpoint names) :
    Label Endpoint → Except Fault (Option (System mp Endpoint names))
  | .server e => s.serverStep e
  | .game => .ok s.gameStep
  | .sigint => .ok s.sigintStep
  | .serverWrite c i n =>
      if s.game.state.should_run = true then
        .ok (((s.clients c).down.transfer i n).map fun down =>
          s.setClient c { s.clients c with down := down })
      else .ok none
  | .client c e =>
      if (names c).isSome then do
        match ← (s.clients c).next hmp e with
        | none => .ok none
        | some cl => .ok (some (s.setClient c cl))
      else .ok none

/-- One step of the system. -/
def Step (hmp : mp.Lawful) (s : System mp Endpoint names) (l : Label Endpoint)
    (s' : System mp Endpoint names) : Prop :=
  s.next hmp l = .ok (some s')

end System

/-! ## Ordinary steps -/

namespace System

variable {mp : Msgpack} {Endpoint : Type} {names : ConnId → Option CString}

/-- What the connections need to work: the writes on a socket make progress in order, the name and the lines
    that are typed fit in a frame, a resolver that succeeds has found an endpoint, and the buffers of the
    server fit in memory. Besides, the whole model has a write carry the bytes that were packed for it: both
    programs pass a buffer over a temporary, and it is assumed that its bytes stay until the write ends. -/
def Ordinary (s : System mp Endpoint names) : Label Endpoint → Prop
  | .server e => InMemory s.server.state e
  | .serverWrite c i n => AsyncWrite.InOrder (s.clients c).down.stream (.transfer i n)
  | .client c (.write i n) => AsyncWrite.InOrder (s.clients c).up.stream (.transfer i n)
  | .client c .type => Fits (.ofData (.joinMessage ((names c).getD [])))
  | .client c (.main _ (.ok line)) => Fits ((s.clients c).main.state.gui.line_parser_.parseLine line)
  | .client _ (.net (.resolved endpoints)) => 0 < endpoints.length
  | _ => True

instance (s : System mp Endpoint names) :
    (l : Label Endpoint) → Decidable (s.Ordinary l)
  | .server e => inferInstanceAs (Decidable (InMemory s.server.state e))
  | .game | .sigint => inferInstanceAs (Decidable True)
  | .serverWrite c i n =>
      inferInstanceAs (Decidable (AsyncWrite.InOrder (s.clients c).down.stream (.transfer i n)))
  | .client c (.write i n) =>
      inferInstanceAs (Decidable (AsyncWrite.InOrder (s.clients c).up.stream (.transfer i n)))
  | .client _ .type => inferInstanceAs (Decidable (Fits _))
  | .client _ (.main _ (.ok _)) => inferInstanceAs (Decidable (Fits _))
  | .client _ (.main _ (.error _)) => inferInstanceAs (Decidable True)
  | .client _ (.net (.resolved _)) => inferInstanceAs (Decidable (_ < _))
  | .client _ (.net (.send _)) | .client _ (.net .resolveError) | .client _ (.net (.connect _))
  | .client _ (.net .runPosted) => inferInstanceAs (Decidable True)
  | .client _ (.read _) | .client _ .readError | .client _ .exit => inferInstanceAs (Decidable True)

/-- Let a list of steps happen in turn, as long as they are ordinary. -/
def exec (hmp : mp.Lawful) (s : System mp Endpoint names) :
    List (Label Endpoint) → Except Fault (Option (System mp Endpoint names))
  | [] => .ok (some s)
  | l :: ls =>
    if s.Ordinary l then do
      match ← s.next hmp l with
      | none => .ok none
      | some s => s.exec hmp ls
    else .ok none

end System

end Quizzbot
