import Quizzbot.Common.Types

/-!
# `Common.StringUtils` — trimming (`string_utils.h`)

Each helper looks for the first, or the last, byte that is no space. If there is none it returns its input
as it is.
-/

namespace Quizzbot

/-- `trim_left`: an input of blanks only is left as it is. -/
def trimLeft (input : CString) : CString :=
  match input.findIdx? (· ≠ 0x20) with
  | some idx => input.drop idx
  | none => input

/-- `input.find_last_not_of(ch)`. -/
def findLastNotOf (input : CString) (ch : UInt8) : Option Nat :=
  (input.reverse.findIdx? (· ≠ ch)).map fun behind => input.length - 1 - behind

/-- `trim_right`, likewise. -/
def trimRight (input : CString) : CString :=
  match findLastNotOf input 0x20 with
  | some idx => input.take (idx + 1)
  | none => input

/-- `trim`: what `trim_left` returned is not used again. -/
def trim (input : CString) : CString :=
  let _trimmed_left := trimLeft input
  trimRight input

end Quizzbot
