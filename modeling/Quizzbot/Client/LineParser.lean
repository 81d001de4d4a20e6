import Quizzbot.Common.Message
import Quizzbot.Common.StringUtils
import Quizzbot.Lib.HexText

/-!
# `Client.LineParser` — what the user typed, as a message (`line_parser.cc`)
-/

namespace Quizzbot

open HexText (ascii isspace)

def CMD_INDICATOR : UInt8 := 0x2f

/-- `ss >> cmd`: the first word, and the rest of the stream. -/
def extractWord (ss : CString) : CString × CString :=
  (ss.dropWhile isspace).span fun b => !isspace b

/-- `getline(ss, line)`: up to the next newline or the end. -/
def getline (ss : CString) : CString := ss.takeWhile (· ≠ 0x0a)

/-- `LineParser`. -/
structure LineParser where
  name_ : CString
deriving DecidableEq

/-- `parse_line`. -/
def LineParser.parseLine (parser : LineParser) (line : CString) : Message :=
  match line with
  | [] => .ofData (.errorMessage (ascii "Line shouldn't be empty."))
  | first :: _ =>
    -- the parameters of `MessageMessage` are `msg` and `from`, in this order
    if first ≠ CMD_INDICATOR then .ofData (.messageMessage parser.name_ line)
    else
      let (cmd, ss) := extractWord line
      if cmd = ascii "/a" ∨ cmd = ascii "/answer" then
        .ofData (.answerMessage parser.name_ (trimLeft (getline ss)))
      else .ofData (.errorMessage (ascii "Couldn't find command."))

end Quizzbot
