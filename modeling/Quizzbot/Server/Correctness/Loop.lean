import Quizzbot.Common.Correctness.Polling
import Quizzbot.Server.Game

/-!
# `Server.Correctness.Loop` — what the server prints, and how it stops

The main thread polls the queue (`polling_step`), so what it took and what is in the queue are together what
was pushed. It prints one line for each answer it took, in that order (`loop_run`). Once the handler of
SIGINT has run, the main thread leaves the loop in four steps at most, with at most one more batch
(`loop_stops`).
-/

namespace Quizzbot

open LabelledRun (Run)

namespace GameLoop

/-! ## Histories -/

/-- The events that were pushed. -/
def pushes (t : List LoopEvent) : List GameEvent :=
  t.filterMap fun
    | .push event => some event
    | _ => none

/-- The batches that were taken. -/
def batches (t : List LoopEvent) : List (List GameEvent) :=
  t.filterMap fun
    | .empty batch => some batch
    | _ => none

/-- One line for each answer. -/
def answerLines (events : List GameEvent) : List CString :=
  (events.filter (·.msg.messageType = .answer)).map fun e => answerLine e.name

theorem answerLines_append (events events' : List GameEvent) :
    answerLines (events ++ events') = answerLines events ++ answerLines events' := by
  unfold answerLines
  rw [List.filter_append, List.map_append]

theorem pushes_append (t t' : List LoopEvent) : pushes (t ++ t') = pushes t ++ pushes t' :=
  List.filterMap_append

theorem batches_append (t t' : List LoopEvent) : batches (t ++ t') = batches t ++ batches t' :=
  List.filterMap_append

/-- The inner loop prints the lines of its batch. -/
theorem processBatch_eq (cout : List CString) (batch : List GameEvent) :
    processBatch cout batch = cout ++ answerLines batch := by
  induction batch generalizing cout with
  | nil => exact (List.append_nil cout).symm
  | cons cmd batch ih =>
      unfold processBatch
      by_cases h : cmd.msg.messageType = .answer
      · rw [if_pos h, ih, List.append_assoc]
        simp [answerLines, h]
      · rw [if_neg h, ih]
        simp [answerLines, h]

/-! ## The queue between the threads -/

/-- The main thread as the consumer of its queue. -/
def polling (g : GameLoop) : Polling GameEvent := ⟨g.queue, decide (g.pc = .empty)⟩

/-- What a step does to the queue. -/
def queueOps : LoopEvent → List (QueueOp Unit GameEvent)
  | .push event => [.push () event]
  | .size n => [.size n]
  | .empty batch => [.empty batch]
  | .sigint | .check | .sleep => []

theorem polling_turn {g g' : GameLoop} {e : LoopEvent} (h : g.turn = some (g', e)) :
    Run Polling.Step (polling g) (queueOps e) (polling g') := by
  unfold turn at h
  cases hpc : g.pc with
  | check =>
      simp only [hpc, Option.some.injEq, Prod.mk.injEq] at h
      obtain ⟨rfl, rfl⟩ := h
      -- neither before the check nor after it is a batch due
      have hsame : polling { g with pc := if g.should_run then .size else .join } = polling g := by
        unfold polling
        cases g.should_run <;> simp [hpc]
      rw [hsame]
      exact .refl
  | size =>
      simp only [hpc, Option.some.injEq, Prod.mk.injEq] at h
      obtain ⟨rfl, rfl⟩ := h
      have hnext : polling { g with pc := if g.queue.size ≠ 0 then .empty else .sleep }
          = { polling g with nonzero := decide ((polling g).queue.size ≠ 0) } := by
        unfold polling
        by_cases hn : g.queue.size = 0 <;> simp [hn]
      rw [hnext]
      exact .single .size
  | empty =>
      simp only [hpc, Option.some.injEq, Prod.mk.injEq] at h
      obtain ⟨rfl, rfl⟩ := h
      exact .single (.empty (s := polling g) (by unfold polling; simp [hpc]))
  | sleep =>
      simp only [hpc, Option.some.injEq, Prod.mk.injEq] at h
      obtain ⟨rfl, rfl⟩ := h
      have hsame : polling { g with pc := .check } = polling g := by
        unfold polling
        simp [hpc]
      rw [hsame]
      exact .refl
  | join => simp only [hpc, reduceCtorEq] at h

theorem polling_step {g g' : GameLoop} {e : LoopEvent} (h : Step g e g') :
    Run Polling.Step (polling g) (queueOps e) (polling g') := by
  cases h with
  | push hrun => exact .single .push
  | sigint hrun => exact .refl
  | turn hturn => exact polling_turn hturn

theorem pushes_eq (t : List LoopEvent) :
    pushes t = (Polling.pushes (t.flatMap queueOps)).map Prod.snd := by
  induction t with
  | nil => rfl
  | cons e t ih =>
      rw [List.flatMap_cons, Polling.pushes_append, List.map_append, ← ih, ← List.singleton_append,
        pushes_append]
      cases e <;> rfl

theorem batches_eq (t : List LoopEvent) : batches t = Polling.batches (t.flatMap queueOps) := by
  induction t with
  | nil => rfl
  | cons e t ih =>
      rw [List.flatMap_cons, Polling.batches_append, ← ih, ← List.singleton_append, batches_append]
      cases e <;> rfl

/-! ## Runs -/

/-- A step prints the answers of the batch it takes, and nothing else. -/
theorem cout_step {g g' : GameLoop} {e : LoopEvent} (h : Step g e g') :
    g'.cout = g.cout ++ answerLines (batches [e]).flatten := by
  cases h with
  | push hrun => exact (List.append_nil _).symm
  | sigint hrun => exact (List.append_nil _).symm
  | turn hturn =>
      unfold GameLoop.turn at hturn
      cases hpc : g.pc with
      | empty =>
          simp only [hpc, Option.some.injEq, Prod.mk.injEq] at hturn
          obtain ⟨rfl, rfl⟩ := hturn
          show processBatch g.cout g.queue.empty.1 = _
          rw [processBatch_eq]
          show _ = g.cout ++ answerLines [g.queue.empty.1].flatten
          rw [List.flatten_singleton]
      | join => simp only [hpc, reduceCtorEq] at hturn
      | check | size | sleep =>
          simp only [hpc, Option.some.injEq, Prod.mk.injEq] at hturn
          obtain ⟨rfl, rfl⟩ := hturn
          exact (List.append_nil _).symm

/-- **The server prints a line for each answer it has taken from the queue**, in the order of the pushes;
    what it has taken and what is in the queue are together what was pushed. -/
theorem loop_run {g : GameLoop} {t : List LoopEvent} (h : Run Step {} t g) :
    (batches t).flatten ++ g.queue.queue_ = pushes t ∧ g.cout = answerLines (batches t).flatten := by
  constructor
  · rw [pushes_eq, batches_eq]
    have hpoll : Run Polling.Step (polling {}) (t.flatMap queueOps) (polling g) :=
      h.simulate polling queueOps fun _ _ _ hs => polling_step hs
    exact Polling.taken_append_queue hpoll
  · induction h with
    | refl => rfl
    | tail _ hs ih =>
        rw [cout_step hs, ih, batches_append, List.flatten_append, answerLines_append]

/-! ## The end of the loop -/

/-- The steps that the main thread takes up to the next check of `should_run`, with that check. -/
def stepsLeft (g : GameLoop) : Nat :=
  match g.pc with
  | .size => 4
  | .empty => 3
  | .sleep => 2
  | .check => 1
  | .join => 0

/-- What remains to be done without `should_run` after the steps `t`. -/
structure Stopping (g : GameLoop) (t : List LoopEvent) (g' : GameLoop) : Prop where
  stopped : g'.should_run = false
  pushes  : pushes t = []
  steps   : t.length + g'.stepsLeft ≤ g.stepsLeft
  kept    : batches t = [] → g'.queue = g.queue
  emptied : batches t = [] ∨ g'.queue.queue_ = []

/-- Without `should_run`, each step brings the main thread closer to the end. -/
theorem stopping_step {g g' : GameLoop} {e : LoopEvent} (hrun : g.should_run = false)
    (h : Step g e g') : Stopping g [e] g' := by
  cases h with
  | push hpush => rw [hrun] at hpush; cases hpush
  | sigint hsig => rw [hrun] at hsig; cases hsig
  | turn hturn =>
      unfold GameLoop.turn at hturn
      cases hpc : g.pc with
      | join => simp only [hpc, reduceCtorEq] at hturn
      | check | empty | sleep =>
          simp only [hpc, Option.some.injEq, Prod.mk.injEq] at hturn
          obtain ⟨rfl, rfl⟩ := hturn
          constructor <;> simp [stepsLeft, hpc, hrun, GameLoop.pushes, batches, EventQueue.empty]
      | size =>
          simp only [hpc, Option.some.injEq, Prod.mk.injEq] at hturn
          obtain ⟨rfl, rfl⟩ := hturn
          by_cases hn : g.queue.size = 0 <;> constructor <;>
            simp [stepsLeft, hpc, hrun, GameLoop.pushes, batches, hn]

theorem stopping_run {g g' : GameLoop} {t : List LoopEvent} (hrun : g.should_run = false)
    (h : Run Step g t g') : Stopping g t g' := by
  induction h with
  | refl =>
      constructor
      · exact hrun
      · rfl
      · exact Nat.le_of_eq (Nat.zero_add _)
      · exact fun _ => rfl
      · exact Or.inl rfl
  | tail _ hs ih =>
      have hlast := stopping_step ih.stopped hs
      have hsteps := hlast.steps
      constructor
      · exact hlast.stopped
      · rw [pushes_append, ih.pushes, hlast.pushes]; rfl
      · have := ih.steps
        rw [List.length_append]
        omega
      · intro hnone
        rw [batches_append] at hnone
        obtain ⟨hearly, hlate⟩ := List.append_eq_nil_iff.mp hnone
        rw [hlast.kept hlate, ih.kept hearly]
      · rcases hlast.emptied with hnone | hempty
        · rw [batches_append, hnone, List.append_nil, hlast.kept hnone]
          exact ih.emptied
        · exact Or.inr hempty

/-- The main thread has a next step unless it is out of the loop. -/
theorem turn_isSome_iff {g : GameLoop} : g.turn.isSome ↔ g.pc ≠ .join := by
  unfold GameLoop.turn
  cases g.pc <;> simp

/-- The signal is handled once. -/
theorem sigint_once {g g' : GameLoop} (hrun : g.should_run = false) : ¬ Step g .sigint g' := by
  intro h
  cases h with
  | sigint hsig => rw [hrun] at hsig; cases hsig
  | turn hturn =>
      unfold GameLoop.turn at hturn
      cases hpc : g.pc <;> simp [hpc] at hturn

/-- After SIGINT the loop ends: nothing is pushed any more, and the main thread is out of the loop after four
    steps at the latest, of which at most one takes a batch, the whole queue. -/
theorem loop_stops {g g' : GameLoop} {t t' : List LoopEvent} (h : Run Step {} t g)
    (hrun : g.should_run = false) (h' : Run Step g t' g') :
    t'.length ≤ 4 ∧ ((batches t').flatten = [] ∨ g'.queue.queue_ = []) ∧
      (batches t').flatten ++ g'.queue.queue_ = g.queue.queue_ ∧
      g'.cout = g.cout ++ answerLines (batches t').flatten := by
  have hstop := stopping_run hrun h'
  obtain ⟨hbefore, hcout⟩ := loop_run h
  obtain ⟨hafter, hcout'⟩ := loop_run (h.trans h')
  have hsteps : g.stepsLeft ≤ 4 := by unfold stepsLeft; split <;> omega
  refine ⟨?_, ?_, ?_, ?_⟩
  · have := hstop.steps; omega
  · exact hstop.emptied.imp_left fun hnone => by rw [hnone]; rfl
  · rw [batches_append, List.flatten_append, pushes_append, hstop.pushes, List.append_nil, ← hbefore,
      List.append_assoc] at hafter
    exact List.append_cancel_left hafter
  · rw [hcout', batches_append, List.flatten_append, answerLines_append, hcout]

end GameLoop

end Quizzbot
