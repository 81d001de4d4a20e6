import Quizzbot.Client.Connection
import Quizzbot.Client.Correctness.Receiving
import Quizzbot.Client.TcpClient
import Quizzbot.Lib.Pipe
import Quizzbot.Lib.Process

/-!
# `Client.Process` — a client as it runs (`main.cc`)

`main` creates the queue and the `tcp_client`, and starts the network thread; then it waits for a name to be
typed, asks to join under it, and runs its two loops. The two threads meet at the queue and at the handlers
that `send` posts, and the operating system carries the bytes of the socket. The components are those of the
other modules, each with its history.

The name is a parameter: it is what will be typed. The laws of the MessagePack library are assumed
throughout, since the queue takes only what `parse` found.
-/

namespace Quizzbot

open AsyncWrite (Pipe)
open LabelledRun (Process)

/-- One read of the client, as a step. -/
def TcpClient.Step (mp : Msgpack) (cl : TcpClient) (bytes : Packet) (cl' : TcpClient) : Prop :=
  cl.onRead mp bytes = .ok cl'

/-- What a read does: one pull, and a push if it has found a message. -/
theorem TcpClient.step_cases {mp : Msgpack} (hmp : mp.Lawful) {cl cl' : TcpClient} {bytes : Packet}
    (h : cl.Step mp bytes cl') :
    ∃ m? rest, Protocol.parse (messageCodec mp) (cl.aggr_packet_ ++ bytes) = .ok (m?, rest) ∧
      cl' = ⟨rest, cl.queue_ ++ m?.toList⟩ := by
  unfold TcpClient.Step TcpClient.onRead TcpClient.handleRead at h
  obtain ⟨⟨m?, rest⟩, hparse, h⟩ := bind_ok h
  refine ⟨m?, rest, hparse, ?_⟩
  cases m? with
  | none =>
      cases h
      rw [Option.toList_none, List.append_nil]
  | some m =>
      obtain ⟨d, p, -, -, hcopy⟩ := parse_message hmp hparse
      simp only [hcopy, ok_bind] at h
      cases h
      rfl

/-- The messages that a read pushes were parsed. -/
theorem TcpClient.received_step {mp : Msgpack} (hmp : mp.Lawful) {cl cl' : TcpClient} {bytes : Packet}
    (h : cl.Step mp bytes cl') : ∀ m ∈ cl'.queue_.drop cl.queue_.length, ClientMain.Received mp m := by
  obtain ⟨m?, rest, hparse, rfl⟩ := TcpClient.step_cases hmp h
  intro m hm
  rw [List.drop_left, Option.mem_toList] at hm
  rw [hm] at hparse
  exact ⟨_, rest, hparse⟩

/-! ## The main thread -/

namespace ClientMain

/-- The next step of the main thread; `ch` and `buf` are what it gets if it reads a key. -/
def turn (mp : Msgpack) (s : ClientMain) (ch : Int) (buf : Except CString CString) :
    Except Fault (Option (ClientMain × MainEvent)) :=
  match s.pc with
  | .waitSize =>
      .ok (some ({ s with pc := if s.queue.size ≠ 0 then .waitEmpty else .waitSize },
        .size s.queue.size))
  | .waitEmpty =>
      .ok (some ({ s with pc := waitBatch s.queue.empty.1, queue := s.queue.empty.2 },
        .empty s.queue.empty.1 []))
  | .guiSize =>
      .ok (some ({ s with pc := if s.queue.size ≠ 0 then .guiEmpty else .keyboard },
        .size s.queue.size))
  | .guiEmpty => do
      let gui ← guiBatch mp s.gui s.queue.empty.1
      .ok (some ({ s with pc := .keyboard, queue := s.queue.empty.2, gui := gui },
        .empty s.queue.empty.1 (gui.chat.drop s.gui.chat.length)))
  | .keyboard => do
      let (gui, msg) ← s.gui.handleKeyboard ch buf
      .ok (some ({ s with pc := guiNext gui, gui := gui, sent := s.sent ++ msg.toList },
        .keyboard ch buf (gui.chat.drop s.gui.chat.length)))
  | .refused | .left => .ok none

theorem turn_step {mp : Msgpack} {s s' : ClientMain} {ch : Int} {buf : Except CString CString}
    {e : MainEvent} (h : s.turn mp ch buf = .ok (some (s', e))) : Step mp s e s' := by
  unfold turn at h
  cases hpc : s.pc with
  | waitSize => simp only [hpc] at h; cases h; exact .waitSize hpc
  | waitEmpty => simp only [hpc] at h; cases h; exact .waitEmpty hpc
  | guiSize => simp only [hpc] at h; cases h; exact .guiSize hpc
  | guiEmpty =>
      simp only [hpc] at h
      obtain ⟨gui, hgui, h⟩ := bind_ok h
      cases h
      exact .guiEmpty hpc hgui
  | keyboard =>
      simp only [hpc] at h
      obtain ⟨⟨gui, msg⟩, hgui, h⟩ := bind_ok h
      cases h
      exact .keyboard hpc hgui
  | refused | left => simp only [hpc] at h; cases h

/-- The network thread pushes what it parsed. -/
def pushAll {mp : Msgpack} {name : CString} (main : Process (Step mp) (init name)) :
    (msgs : List Message) → (∀ m ∈ msgs, Received mp m) → Process (Step mp) (init name)
  | [], _ => main
  | m :: msgs, h =>
      pushAll (main.extend (.push (h m (List.mem_cons_self ..)))) msgs
        fun m hm => h m (List.mem_cons_of_mem _ hm)

end ClientMain

/-! ## The network thread -/

/-- A call of `send`: those are made by the main thread. -/
def ConnectionEvent.isSend {Endpoint : Type} : ConnectionEvent Endpoint → Bool
  | .send _ => true
  | _ => false

namespace ClientConnection

variable {mp : Msgpack} {Endpoint : Type}

/-- An event of the connection, if it can happen. -/
def advance (net : Process (Step mp) ({} : ClientConnection Endpoint)) (e : ConnectionEvent Endpoint) :
    Except Fault (Option (Process (Step mp) ({} : ClientConnection Endpoint))) :=
  if he : net.state.Enabled e then
    match h : net.state.handle mp e with
    | .error fault => .error fault
    | .ok _ => .ok (some (net.extend ⟨he, h⟩))
  else .ok none

/-- The socket is connected. -/
def isConnected (net : ClientConnection Endpoint) : Bool :=
  match net.socket_ with
  | .connected => true
  | _ => false

theorem isConnected_iff {net : ClientConnection Endpoint} : net.isConnected ↔ net.socket_ = .connected := by
  unfold isConnected
  cases net.socket_ <;> simp

/-- Calls of `send`. -/
def sendAll (net : Process (Step mp) ({} : ClientConnection Endpoint)) :
    List Message → Except Fault (Process (Step mp) ({} : ClientConnection Endpoint))
  | [] => .ok net
  | cmd :: cmds => do
      match ← advance net (.send cmd) with
      | none => .ok net
      | some net => sendAll net cmds

end ClientConnection

/-! ## The client -/

/-- A client: its main thread, the two halves of its `tcp_client`, whether the name was typed, whether a
    read has failed, whether the network thread still runs, whether the process was aborted, and the two directions
    of its connection. -/
structure Client (mp : Msgpack) (Endpoint : Type) (name : CString) where
  main       : Process (ClientMain.Step mp) (ClientMain.init name) := .new
  net        : Process (ClientConnection.Step mp) ({} : ClientConnection Endpoint) := .new
  reader     : Process (TcpClient.Step mp) {} := .new
  typed      : Bool := false
  readFailed : Bool := false
  running    : Bool := true
  aborted    : Bool := false
  up         : Pipe UInt8 := .new
  down       : Pipe UInt8 := .new

/-- What happens to a client: the name is typed, the main thread takes its next step, an event of the
    connection, progress of the `i`-th write, the completion of a read, the end of `main`. -/
inductive ClientEvent (Endpoint : Type) where
  | type
  | main (ch : Int) (buf : Except CString CString)
  | net (e : ConnectionEvent Endpoint)
  | write (i n : Nat)
  | read (bytes : Packet)
  | readError
  | exit

namespace Client

variable {mp : Msgpack} {Endpoint : Type} {name : CString}

/-- `cin >> name`, and the request to join. -/
def type (cl : Client mp Endpoint name) : Except Fault (Option (Client mp Endpoint name)) :=
  if cl.typed then .ok none
  else do
    let net ← ClientConnection.sendAll cl.net [.ofData (.joinMessage name)]
    .ok (some { cl with typed := true, net := net })

/-- A step of the main thread behind that, with its call of `send`. -/
def turn (cl : Client mp Endpoint name) (ch : Int) (buf : Except CString CString) :
    Except Fault (Option (Client mp Endpoint name)) :=
  if cl.typed then
    match h : cl.main.state.turn mp ch buf with
    | .error fault => .error fault
    | .ok none => .ok none
    | .ok (some (main, _)) => do
        let net ← ClientConnection.sendAll cl.net (main.sent.drop cl.main.state.sent.length)
        .ok (some { cl with main := cl.main.extend (ClientMain.turn_step h), net := net })
  else .ok none

/-- An event of the connection; a posted handler may start a write on the socket. -/
def network (cl : Client mp Endpoint name) (e : ConnectionEvent Endpoint) :
    Except Fault (Option (Client mp Endpoint name)) :=
  if cl.running ∧ ¬ e.isSend then do
    match ← ClientConnection.advance cl.net e with
    | none => .ok none
    | some net =>
        let started := net.state.started.drop cl.net.state.started.length
        .ok (some { cl with net := net, up := cl.up.startAll (started.map Prod.snd) })
  else .ok none

/-- A read is outstanding: from the connect on, until one fails. -/
def Reading (cl : Client mp Endpoint name) : Prop :=
  cl.running ∧ cl.net.state.isConnected ∧ ¬ cl.readFailed

instance (cl : Client mp Endpoint name) : Decidable cl.Reading := inferInstanceAs (Decidable (_ ∧ _ ∧ _))

/-- The completion of a read. -/
def read (hmp : mp.Lawful) (cl : Client mp Endpoint name) (bytes : Packet) :
    Except Fault (Option (Client mp Endpoint name)) :=
  if cl.Reading ∧ 0 < bytes.length ∧ bytes.length ≤ 512 then
    match cl.down.read bytes with
    | none => .ok none
    | some down =>
      match h : cl.reader.state.onRead mp bytes with
      | .error fault => .error fault
      | .ok reader =>
          let found := reader.queue_.drop cl.reader.state.queue_.length
          .ok (some { cl with
            down := down
            reader := cl.reader.extend h
            main := ClientMain.pushAll cl.main found (TcpClient.received_step hmp h) })
  else .ok none

/-- The client's own steps; `none` where the event cannot happen. After `exit` nothing does: `main` stops
    the `io_service` and joins the network thread. If it returns on a refusal it does neither, and the destructor
    of the thread, which is still joinable, aborts the process. -/
def next (hmp : mp.Lawful) (cl : Client mp Endpoint name) :
    ClientEvent Endpoint → Except Fault (Option (Client mp Endpoint name))
  | .type => cl.type
  | .main ch buf => cl.turn ch buf
  | .net e => cl.network e
  | .write i n =>
      if cl.running then .ok ((cl.up.transfer i n).map fun up => { cl with up := up }) else .ok none
  | .read bytes => cl.read hmp bytes
  | .readError => if cl.Reading then .ok (some { cl with readFailed := true }) else .ok none
  | .exit =>
      if cl.running ∧ (cl.main.state.pc = .left ∨ cl.main.state.pc = .refused) then
        .ok (some { cl with running := false, aborted := cl.main.state.pc = .refused })
      else .ok none

end Client

end Quizzbot
