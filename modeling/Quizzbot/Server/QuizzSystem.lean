import Quizzbot.Common.Types
import Quizzbot.Lib.HexText
import Quizzbot.Lib.Run
import Mathlib.Data.List.AList

/-!
# `Server.QuizzSystem` — quiz sessions (`quizz_system.cc`)

A session collects answers until `update` finds that its time is over; then the answers are judged and
cleared, and the next session is set up. Durations are counts of milliseconds in a signed 64-bit integer.
-/

namespace Quizzbot

open HexText (ascii)

/-- A sum of two `std::chrono::milliseconds`. -/
def addMilliseconds (a b : Int) : Int := Int.bmod (a + b) (2 ^ 64)

def SESSION_DURATION : Int := 5000

/-- The answers that players gave, by name. -/
abbrev Answers := AList fun _ : CString => CString

/-- `QuizzSystem`. -/
structure QuizzSystem where
  current_session_dt_ : Int := 0
  current_answer_     : CString := []
  current_question_   : CString := []
  answers_            : Answers := ∅
deriving DecidableEq

namespace QuizzSystem

/-- `init_session`. -/
def initSession (q : QuizzSystem) : QuizzSystem :=
  { q with current_question_ := ascii "5 * 5", current_answer_ := ascii "25" }

/-- The constructor. -/
def init : QuizzSystem := initSession {}

/-- `submit_answer`: `emplace` does nothing if the name has an entry. -/
def submitAnswer (q : QuizzSystem) (sender answer : CString) : QuizzSystem :=
  if sender ∈ q.answers_ then q
  else { q with answers_ := q.answers_.insert sender answer }

/-- The end of a session: the answers that were judged, and the names of those who were right. -/
structure Judged where
  answers : Answers
  winners : List CString
deriving DecidableEq

/-- `update`. -/
def update (q : QuizzSystem) (dt : Int) : QuizzSystem × Option Judged :=
  let q := { q with current_session_dt_ := addMilliseconds q.current_session_dt_ dt }
  if q.current_session_dt_ ≥ SESSION_DURATION then
    let winners := q.answers_.entries.filter fun entry => entry.2 = q.current_answer_
    (({ q with answers_ := ∅ } : QuizzSystem).initSession, some ⟨q.answers_, winners.map (·.1)⟩)
  else (q, none)

/-! ## Calls -/

/-- The calls from outside. -/
inductive Call where
  | update (dt : Int)
  | submitAnswer (sender answer : CString)
deriving DecidableEq

/-- A duration that has passed is not negative. -/
def Call.Valid : Call → Prop
  | .update dt => 0 ≤ dt ∧ dt < 2 ^ 63
  | .submitAnswer _ _ => True

/-- A call, and the session it closed. -/
structure Record where
  call   : Call
  judged : Option Judged
deriving DecidableEq

def handle (q : QuizzSystem) : Call → QuizzSystem × Record
  | .update dt => let (q, judged) := q.update dt; (q, ⟨.update dt, judged⟩)
  | .submitAnswer sender answer => (q.submitAnswer sender answer, ⟨.submitAnswer sender answer, none⟩)

/-- Calls in turn. -/
def handleAll (q : QuizzSystem) : List Call → QuizzSystem × List Record
  | [] => (q, [])
  | call :: calls =>
      let (q, r) := q.handle call
      let (q, rs) := q.handleAll calls
      (q, r :: rs)

instance : (call : Call) → Decidable call.Valid
  | .update dt => inferInstanceAs (Decidable (0 ≤ dt ∧ dt < 2 ^ 63))
  | .submitAnswer _ _ => inferInstanceAs (Decidable True)

/-- One call. -/
def Step (q : QuizzSystem) (r : Record) (q' : QuizzSystem) : Prop :=
  r.call.Valid ∧ q.handle r.call = (q', r)

end QuizzSystem

end Quizzbot
