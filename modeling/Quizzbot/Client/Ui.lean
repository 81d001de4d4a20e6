import Quizzbot.Client.LineParser
import Quizzbot.Common.Types
import Mathlib.Data.List.DropRight

/-!
# `Client.Ui` — the chat panel and the keyboard (`ui.cc`)

Of the windows, only the lines printed to the chat panel are kept. What the form holds when a key is read
is an input.
-/

namespace Quizzbot

open HexText (ascii)

/-- `ui`. -/
structure Ui where
  line_parser_ : LineParser
  should_run_  : Bool := true
  chat         : List CString := []
deriving DecidableEq

/-- The text that `write_to_chat` prints: without the blanks at the end, and as a C string. -/
def chatLine (msg : CString) : CString := (msg.rdropWhile (· = 0x20)).takeWhile (· ≠ 0)

namespace Ui

/-- `write_to_chat`. -/
def writeToChat (gui : Ui) (msg : CString) : Ui := { gui with chat := gui.chat ++ [chatLine msg] }

/-- `send_msg`, with what `field_buffer` returns: the text, or nothing, and then `strerror(errno)`. The
    second result is the message passed to the client's `send`. -/
def sendMsg (gui : Ui) (buf : Except CString CString) : Except Fault (Ui × Option Message) :=
  match buf with
  | .error text => .ok (gui.writeToChat text, none)
  | .ok buf =>
    let msg := gui.line_parser_.parseLine buf
    if msg.messageType = .message then .ok (gui.writeToChat (ascii "me:" ++ buf), some msg)
    else if msg.messageType = .error then
      match msg.data_ >>= MessageData.errorText? with
      | some error => .ok (gui.writeToChat (ascii "ERROR: " ++ error), none)
      | none => .error .assertion
    else .ok (gui, some msg)

/-- `handle_keyboard`: escape and enter; the other keys move panels or edit the form. -/
def handleKeyboard (gui : Ui) (ch : Int) (buf : Except CString CString) :
    Except Fault (Ui × Option Message) :=
  if ch = 27 then .ok ({ gui with should_run_ := false }, none)
  else if ch = 10 then gui.sendMsg buf
  else .ok (gui, none)

end Ui

end Quizzbot
