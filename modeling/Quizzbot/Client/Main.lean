import Quizzbot.Client.Ui
import Quizzbot.Common.EventQueue
import Quizzbot.Common.Protocol

/-!
# `Client.Main` — the client's main thread (`main.cc`)

After asking to join, `main` polls the queue in two loops: the first waits for the acknowledgement, the
second is the GUI's. Each takes whole batches. A step is one access to the queue, together with the work on
the batch it took, or one call of `handle_keyboard`; in between, the network thread may push.
-/

namespace Quizzbot

open HexText (ascii)
open LabelledRun (Run)

/-- Where the main thread is: before `size` or before `empty` in either loop, before `handle_keyboard`, or
    out of `main`. -/
inductive MainPc where
  | waitSize
  | waitEmpty
  | guiSize
  | guiEmpty
  | keyboard
  | refused -- `return 1`
  | left
deriving DecidableEq

/-- The main thread, and the queue it shares with the network thread. -/
structure ClientMain where
  pc    : MainPc := .waitSize
  queue : EventQueue Message := {}
  gui   : Ui
  sent  : List Message
deriving DecidableEq

/-- A step: a push of the network thread, or of the main thread a look at the queue, a batch taken, or a
    key (with the content of the form). `written` is what the step wrote to the chat. -/
inductive MainEvent where
  | push (msg : Message)
  | size (n : Nat)
  | empty (batch : List Message) (written : List CString)
  | keyboard (ch : Int) (buf : Except CString CString) (written : List CString)

namespace ClientMain

/-- The join request has been sent, for the name that was typed in. -/
def init (name : CString) : ClientMain where
  gui := { line_parser_ := ⟨name⟩ }
  sent := [.ofData (.joinMessage name)]

/-- The inner loop while waiting: where it ends. What is behind an acknowledgement is dropped with the
    batch. -/
def waitBatch : List Message → MainPc
  | [] => .waitSize
  | cmd :: current_commands =>
    if cmd.messageType = .joinAck then .guiSize
    else if cmd.messageType = .joinNack then .refused
    else waitBatch current_commands

section
variable (mp : Msgpack)

/-- The inner loop of the GUI: each command is copied, and a `MESSAGE` is written to the chat. -/
def guiBatch (gui : Ui) : List Message → Except Fault Ui
  | [] => .ok gui
  | front :: current_commands => do
    let cmd ← front.copy mp
    if cmd.messageType = .message then
      match cmd.data_ >>= MessageData.chatText? with
      | some (msg, sender) => guiBatch (gui.writeToChat (sender ++ ascii ": " ++ msg)) current_commands
      | none => .error .assertion
    else guiBatch gui current_commands

/-- The messages that `handle_read` pushes: those parsed from the bytes received. -/
def Received (msg : Message) : Prop :=
  ∃ bytes rest, Protocol.parse (messageCodec mp) bytes = .ok (some msg, rest)

/-- The end of a round of the GUI's loop. -/
def guiNext (gui : Ui) : MainPc := if gui.should_run_ then .guiSize else .left

inductive Step : ClientMain → MainEvent → ClientMain → Prop
  | push {s msg} (hmsg : Received mp msg) : Step s (.push msg) { s with queue := s.queue.push msg }
  | waitSize {s} (hpc : s.pc = .waitSize) :
      Step s (.size s.queue.size)
        { s with pc := if s.queue.size ≠ 0 then .waitEmpty else .waitSize }
  | waitEmpty {s} (hpc : s.pc = .waitEmpty) :
      Step s (.empty s.queue.empty.1 [])
        { s with pc := waitBatch s.queue.empty.1, queue := s.queue.empty.2 }
  | guiSize {s} (hpc : s.pc = .guiSize) :
      Step s (.size s.queue.size) { s with pc := if s.queue.size ≠ 0 then .guiEmpty else .keyboard }
  | guiEmpty {s gui} (hpc : s.pc = .guiEmpty) (hgui : guiBatch mp s.gui s.queue.empty.1 = .ok gui) :
      Step s (.empty s.queue.empty.1 (gui.chat.drop s.gui.chat.length))
        { s with pc := .keyboard, queue := s.queue.empty.2, gui := gui }
  | keyboard {s ch buf gui msg} (hpc : s.pc = .keyboard)
      (hgui : s.gui.handleKeyboard ch buf = .ok (gui, msg)) :
      Step s (.keyboard ch buf (gui.chat.drop s.gui.chat.length))
        { s with pc := guiNext gui, gui := gui, sent := s.sent ++ msg.toList }

end

end ClientMain

end Quizzbot
