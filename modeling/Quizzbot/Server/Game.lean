import Quizzbot.Common.EventQueue
import Quizzbot.Server.Network

/-!
# `Server.Game` — the server's main thread (`game.cc`)

`game::loop` polls the queue of game events, prints a line for each answer, and sleeps, until the handler
of SIGINT has run. The handler runs on the network thread, which it also stops: after it, no other handler
runs, and nothing more is pushed. A step is one access to what the threads share, or the sleep.
-/

namespace Quizzbot

open HexText (ascii)

/-- Where the main thread is in `loop`. -/
inductive LoopPc where
  | check
  | size
  | empty
  | sleep
  | join -- out of the loop
deriving DecidableEq

/-- The main thread, what it shares with the network thread, and the lines it has printed. -/
structure GameLoop where
  should_run : Bool := true
  pc         : LoopPc := .check
  queue      : EventQueue GameEvent := {}
  cout       : List CString := []
deriving DecidableEq

/-- A step: a push or the signal handler of the network thread, or a step of the main thread. -/
inductive LoopEvent where
  | push (event : GameEvent)
  | sigint
  | check
  | size (n : Nat)
  | empty (batch : List GameEvent)
  | sleep
deriving DecidableEq

namespace GameLoop

/-- `"Got an answer from " << cmd.name`, without the newline. -/
def answerLine (name : CString) : CString := ascii "Got an answer from " ++ name

/-- The inner loop. -/
def processBatch (cout : List CString) : List GameEvent → List CString
  | [] => cout
  | cmd :: current_commands =>
    if cmd.msg.messageType = .answer then
      processBatch (cout ++ [answerLine cmd.name]) current_commands
    else processBatch cout current_commands

/-- The next step of the main thread. -/
def turn (g : GameLoop) : Option (GameLoop × LoopEvent) :=
  match g.pc with
  | .check => some ({ g with pc := if g.should_run then .size else .join }, .check)
  | .size =>
      some ({ g with pc := if g.queue.size ≠ 0 then .empty else .sleep }, .size g.queue.size)
  | .empty =>
      some ({ g with pc := .sleep, queue := g.queue.empty.2,
                     cout := processBatch g.cout g.queue.empty.1 }, .empty g.queue.empty.1)
  | .sleep => some ({ g with pc := .check }, .sleep)
  | .join => none

inductive Step : GameLoop → LoopEvent → GameLoop → Prop
  | push {g event} (hrun : g.should_run = true) :
      Step g (.push event) { g with queue := g.queue.push event }
  | sigint {g} (hrun : g.should_run = true) : Step g .sigint { g with should_run := false }
  | turn {g e g'} (hturn : g.turn = some (g', e)) : Step g e g'

end GameLoop

end Quizzbot
