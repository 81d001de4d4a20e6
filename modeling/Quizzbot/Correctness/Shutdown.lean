import Quizzbot.Correctness.Players

/-!
# `Correctness.Shutdown` — the system after SIGINT

The handler of the signal clears `should_run` and stops the `io_service`: from then on the server handles nothing
and writes nothing, so its part of the system stands still, but for the main thread. That one looks at the queue at
most once more, and leaves (`shutdown_run`). The clients can still read what is on the wire.
-/

namespace Quizzbot

open AsyncWrite (Pipe)
open LabelledRun (Run)

variable {mp : Msgpack} {Endpoint : Type} {names : ConnId → Option CString}

/-- A step of the server's main thread. -/
def Label.isGame : Label Endpoint → Bool
  | .game => true
  | _ => false

/-- A client does not write for the server. -/
theorem Client.downStream_step {name : CString} {hmp : mp.Lawful} {cl cl' : Client mp Endpoint name}
    {e : ClientEvent Endpoint} (hs : Stepped hmp cl e cl') : cl'.down.stream = cl.down.stream := by
  cases hs with
  | typed _ _ | turned _ _ _ _ | network _ _ | wrote _ | readFailed | exited _ => rfl
  | read _ hdown _ _ _ => exact (Pipe.read_cases hdown).1

namespace System

/-- The server behind the signal: only its main thread has gone on, by its own steps. -/
structure Stopped (s s' : System mp Endpoint names) (t : List (Label Endpoint)) : Prop where
  server  : s'.server = s.server
  writes  : ∀ c, (s'.clients c).down.stream = (s.clients c).down.stream
  game    : ∃ loop, s.game.Extends loop s'.game ∧ loop.length = t.countP Label.isGame
  stopped : s'.game.state.should_run = false

/-- Steps that leave the server alone. -/
theorem Stopped.stay {s s' s'' : System mp Endpoint names} {t : List (Label Endpoint)} {l : Label Endpoint}
    (h : Stopped s s' t) (hl : l.isGame = false) (hserver : s''.server = s'.server)
    (hwrites : ∀ c, (s''.clients c).down.stream = (s'.clients c).down.stream)
    (hgame : s''.game = s'.game) : Stopped s s'' (t ++ [l]) := by
  obtain ⟨loop, hloop, hlen⟩ := h.game
  refine ⟨hserver.trans h.server, fun c => (hwrites c).trans (h.writes c), ⟨loop, by rw [hgame]; exact hloop, ?_⟩,
    by rw [hgame]; exact h.stopped⟩
  rw [hlen, List.countP_append, List.countP_singleton, hl]
  rfl

theorem stopped_run {hmp : mp.Lawful} {s s' : System mp Endpoint names} {t : List (Label Endpoint)}
    (hstop : s.game.state.should_run = false) (h : Run (Step hmp) s t s') : Stopped s s' t := by
  induction h with
  | refl => exact ⟨rfl, fun _ => rfl, ⟨[], s.game.extends_refl, rfl⟩, hstop⟩
  | @tail t s' l s'' _ hs ih =>
      cases step_cases hs with
      | served _ hrun _ _ _ => rw [ih.stopped] at hrun; cases hrun
      | @looped e game hgame _ =>
          obtain ⟨loop, hloop, hlen⟩ := ih.game
          refine ⟨ih.server, ih.writes, ⟨loop ++ [e], hloop.trans hgame, ?_⟩, ?_⟩
          · rw [List.length_append, hlen, List.countP_append]
            rfl
          · exact (GameLoop.stopping_run ih.stopped hgame.2).stopped
      | signalled hgame => exact absurd hgame.2.step_of_single (GameLoop.sigint_once ih.stopped)
      | wrote hrun _ => rw [ih.stopped] at hrun; cases hrun
      | client _ hcl =>
          have hwrites := forall_setClient (P := fun c cl => cl.down.stream = (s'.clients c).down.stream)
            (fun _ => rfl) (Client.downStream_step hcl)
          exact ih.stay rfl rfl hwrites rfl

/-- **After SIGINT**, in every continuation: the server handles nothing, starts no write, and gets no further with
    those it has started; its main thread takes at most four more steps, and can take one until it waits for the
    network thread to end; and it prints the answers of at most one more batch, which is the whole queue. -/
theorem shutdown_run {hmp : mp.Lawful} {s s' : System mp Endpoint names} {t : List (Label Endpoint)}
    (hstop : s.game.state.should_run = false) (h : Run (Step hmp) s t s') :
    s'.server = s.server ∧ (∀ c, (s'.clients c).down.stream = (s.clients c).down.stream) ∧
    t.countP Label.isGame ≤ 4 ∧
    (s'.game.state.pc = .join ∨ ∃ s'', s'.Step hmp .game s'') ∧
    ∃ taken, (taken = [] ∨ s'.game.state.queue.queue_ = []) ∧
      taken ++ s'.game.state.queue.queue_ = s.game.state.queue.queue_ ∧
      s'.game.state.cout = s.game.state.cout ++ GameLoop.answerLines taken := by
  obtain ⟨hserver, hwrites, ⟨loop, hloop, hlen⟩, -⟩ := stopped_run hstop h
  obtain ⟨hsteps, hbatch, htaken, hcout⟩ := GameLoop.loop_stops s.game.run hstop hloop.2
  refine ⟨hserver, hwrites, hlen ▸ hsteps, ?_, _, hbatch, htaken, hcout⟩
  by_cases hpc : s'.game.state.pc = .join
  · exact Or.inl hpc
  · right
    obtain ⟨x, hturn⟩ := Option.isSome_iff_exists.mp (GameLoop.turn_isSome_iff.mpr hpc)
    unfold Step
    rw [next, gameStep]
    split
    · rename_i hnone
      rw [hturn] at hnone
      cases hnone
    · exact ⟨_, rfl⟩

/-- An answer has come, and the signal comes while the main thread is about to look at the queue. -/
def interrupted : List (Label Nat) := answering.dropLast.dropLast ++ [.sigint]

/-- The answer is the last that is printed. -/
theorem shutdown_run_interrupted : ∃ s s' : System Msgpack.reference Nat twoNames,
    OrdinaryRun Msgpack.reference_lawful interrupted s ∧
      Run (Step Msgpack.reference_lawful) s [.game, .game, .game, .game] s' ∧
      s.game.state.cout = [] ∧ s'.game.state.cout = [GameLoop.answerLine [0x61]] ∧ s'.game.state.pc = .join ∧
      ∃ taken, taken = s.game.state.queue.queue_ ∧ s'.game.state.cout = GameLoop.answerLines taken := by
  have hend : ∃ s : System Msgpack.reference Nat twoNames,
      OrdinaryRun Msgpack.reference_lawful interrupted s ∧
        ((s.game.state.should_run = false ∧ s.game.state.cout = []) ∧
          (s.exec Msgpack.reference_lawful [.game, .game, .game, .game]).toOption.join.any
            (fun s' => decide ((s'.game.state.pc = .join ∧ s'.game.state.queue.queue_ = []) ∧
              s'.game.state.cout = [GameLoop.answerLine [0x61]])) = true) := exists_run (by decide +kernel)
  obtain ⟨s, hrun, ⟨hstop, hquiet⟩, hexec⟩ := hend
  obtain ⟨s', hrun', ⟨hpc, hqueue⟩, hcout⟩ := exists_run hexec
  obtain ⟨-, -, -, -, taken, -, htaken, hlines⟩ := shutdown_run hstop hrun'.of_under
  rw [hqueue, List.append_nil] at htaken
  rw [hquiet, List.nil_append] at hlines
  exact ⟨s, s', hrun, hrun'.of_under, hquiet, hcout, hpc, taken, htaken, hlines⟩

end System

end Quizzbot
