import Quizzbot.Client.Main
import Quizzbot.Common.Correctness.MessageCodec
import Quizzbot.Common.Correctness.Polling
import Quizzbot.Lib.MsgpackFormat

/-!
# `Client.Correctness.Receiving` — the chat that reaches the window

The main thread polls its queue (`polling_run`), so what it drains and what is in the queue are together
what the network thread pushed. The GUI's loop writes every `MESSAGE` of the batches it takes. The loop
before it gives up its batch at the acknowledgement: what is behind it there has been drained, and is
written nowhere. So the client shows all chat since it has joined exactly if no `MESSAGE` stands behind the
acknowledgement in the batch that brings it (`complete_iff`).
-/

namespace Quizzbot

open HexText (ascii)
open LabelledRun (Run Under)

namespace ClientMain

variable {mp : Msgpack}

/-! ## Histories -/

/-- The messages the network thread pushed. -/
def pushes (t : List MainEvent) : List Message :=
  t.flatMap fun
    | .push msg => [msg]
    | _ => []

/-- The messages the main thread took, in either loop. -/
def drained (t : List MainEvent) : List Message :=
  t.flatMap fun
    | .empty batch _ => batch
    | _ => []

/-- The lines written for the messages taken. -/
def received (t : List MainEvent) : List CString :=
  t.flatMap fun
    | .empty _ written => written
    | _ => []

/-- All lines written to the chat. -/
def written (t : List MainEvent) : List CString :=
  t.flatMap fun
    | .empty _ written => written
    | .keyboard _ _ written => written
    | _ => []

/-- The messages behind the first acknowledgement. -/
def afterAck (ms : List Message) : List Message := (ms.dropWhile (·.messageType ≠ .joinAck)).tail

/-- The line of a chat message. -/
def line (m : Message) : CString :=
  match m.data_ >>= MessageData.chatText? with
  | some (msg, sender) => chatLine (sender ++ ascii ": " ++ msg)
  | none => []

/-- One line for each `MESSAGE`. -/
def lines (ms : List Message) : List CString := (ms.filter (·.messageType = .message)).map line

/-- Unless the client was refused, it has written a line for each `MESSAGE` drained behind the
    acknowledgement, once and in order, and no others. -/
def Complete (t : List MainEvent) (s : ClientMain) : Prop :=
  s.pc ≠ .refused → received t = lines (afterAck (drained t))

/-- If the wait loop takes an acknowledgement, there is no `MESSAGE` in the queue behind it. -/
def AckLast (s : ClientMain) (e : MainEvent) : Prop :=
  s.pc = .waitEmpty → (∃ batch written, e = .empty batch written) →
    ∀ before ack behind, s.queue.queue_ = before ++ ack :: behind → ack.messageType = .joinAck →
      (∀ m ∈ before, m.messageType ≠ .joinAck ∧ m.messageType ≠ .joinNack) →
      ∀ m ∈ behind, m.messageType ≠ .message

theorem lines_append (ms ms' : List Message) : lines (ms ++ ms') = lines ms ++ lines ms' := by
  rw [lines, List.filter_append, List.map_append]; rfl

theorem lines_eq_nil {ms : List Message} : lines ms = [] ↔ ∀ m ∈ ms, m.messageType ≠ .message := by
  rw [lines, List.map_eq_nil_iff, List.filter_eq_nil_iff]
  simp only [decide_eq_true_eq]

theorem afterAck_cons (m : Message) (ms : List Message) :
    afterAck (m :: ms) = if m.messageType = .joinAck then ms else afterAck ms := by
  by_cases hm : m.messageType = .joinAck <;> simp [afterAck, hm]

/-- What is before the acknowledgement does not count. -/
theorem afterAck_skip {ms : List Message} (h : ∀ m ∈ ms, m.messageType ≠ .joinAck) (ms' : List Message) :
    afterAck (ms ++ ms') = afterAck ms' := by
  induction ms with
  | nil => rfl
  | cons m ms ih =>
      rw [List.cons_append, afterAck_cons, if_neg (h m (List.mem_cons_self ..))]
      apply ih
      intro m' hm'
      exact h m' (List.mem_cons_of_mem _ hm')

theorem afterAck_of_not_mem {ms : List Message} (h : ∀ m ∈ ms, m.messageType ≠ .joinAck) :
    afterAck ms = [] := by
  have hskip := afterAck_skip h []
  rw [List.append_nil] at hskip
  exact hskip

/-- Behind an acknowledgement everything counts. -/
theorem afterAck_concat {ms : List Message} (h : ∃ m ∈ ms, m.messageType = .joinAck)
    (ms' : List Message) : afterAck (ms ++ ms') = afterAck ms ++ ms' := by
  induction ms with
  | nil => obtain ⟨m, hm, -⟩ := h; cases hm
  | cons m ms ih =>
      rw [List.cons_append, afterAck_cons, afterAck_cons]
      by_cases hm : m.messageType = .joinAck
      · rw [if_pos hm, if_pos hm]
      · rw [if_neg hm, if_neg hm]
        apply ih
        obtain ⟨a, ha, hack⟩ := h
        rcases List.mem_cons.mp ha with rfl | ha
        · exact absurd hack hm
        · exact ⟨a, ha, hack⟩

/-- The messages behind an acknowledgement, with none before it. -/
theorem afterAck_append {before : List Message} {ack : Message}
    (h : ∀ m ∈ before, m.messageType ≠ .joinAck) (hack : ack.messageType = .joinAck)
    (behind : List Message) : afterAck (before ++ ack :: behind) = behind := by
  rw [afterAck_skip h, afterAck_cons, if_pos hack]

/-! ## The inner loops -/

/-- The wait loop stops at an acknowledgement with neither answer before it. -/
theorem waitBatch_ack {before : List Message} {ack : Message}
    (h : ∀ m ∈ before, m.messageType ≠ .joinAck ∧ m.messageType ≠ .joinNack)
    (hack : ack.messageType = .joinAck) (behind : List Message) :
    waitBatch (before ++ ack :: behind) = .guiSize := by
  induction before with
  | nil => rw [List.nil_append, waitBatch, if_pos hack]
  | cons m before ih =>
      obtain ⟨hm, hnack⟩ := h m (List.mem_cons_self ..)
      rw [List.cons_append, waitBatch, if_neg hm, if_neg hnack]
      apply ih
      intro m' hm'
      exact h m' (List.mem_cons_of_mem _ hm')

/-- Where the wait loop ends: behind the batch, at an acknowledgement, or at a refusal. -/
theorem waitBatch_cases (batch : List Message) :
    (waitBatch batch = .waitSize ∧ ∀ m ∈ batch, m.messageType ≠ .joinAck) ∨
    (waitBatch batch = .guiSize ∧ ∃ before ack behind, batch = before ++ ack :: behind ∧
      ack.messageType = .joinAck ∧
      ∀ m ∈ before, m.messageType ≠ .joinAck ∧ m.messageType ≠ .joinNack) ∨
    waitBatch batch = .refused := by
  induction batch with
  | nil => exact Or.inl ⟨rfl, by simp⟩
  | cons m batch ih =>
      rw [waitBatch]
      by_cases hack : m.messageType = .joinAck
      · rw [if_pos hack]
        exact Or.inr (Or.inl ⟨rfl, [], m, batch, rfl, hack, by simp⟩)
      · rw [if_neg hack]
        by_cases hnack : m.messageType = .joinNack
        · rw [if_pos hnack]
          exact Or.inr (Or.inr rfl)
        · rw [if_neg hnack]
          rcases ih with ⟨hpc, hno⟩ | ⟨hpc, before, ack, behind, rfl, ha, hbefore⟩ | hpc
          · refine Or.inl ⟨hpc, ?_⟩
            intro m' hm'
            rcases List.mem_cons.mp hm' with rfl | hm'
            · exact hack
            · exact hno m' hm'
          · refine Or.inr (Or.inl ⟨hpc, m :: before, ack, behind, rfl, ha, ?_⟩)
            intro m' hm'
            rcases List.mem_cons.mp hm' with rfl | hm'
            · exact ⟨hack, hnack⟩
            · exact hbefore m' hm'
          · exact Or.inr (Or.inr hpc)

/-- The GUI's loop writes the lines of its batch. -/
theorem guiBatch_ok (hmp : mp.Lawful) {gui : Ui} {batch : List Message}
    (h : ∀ m ∈ batch, Received mp m) :
    guiBatch mp gui batch = .ok { gui with chat := gui.chat ++ lines batch } := by
  induction batch generalizing gui with
  | nil => rw [guiBatch, lines, List.filter_nil, List.map_nil, List.append_nil]
  | cons m batch ih =>
      have hrest : ∀ m ∈ batch, Received mp m := by
        intro m' hm'
        exact h m' (List.mem_cons_of_mem _ hm')
      obtain ⟨bytes, rest, hparse⟩ := h m (List.mem_cons_self ..)
      obtain ⟨d, -, rfl, -, hcopy⟩ := parse_message hmp hparse
      rw [guiBatch, hcopy, ok_bind, ← List.singleton_append, lines_append, ← List.append_assoc]
      by_cases hm : (Message.ofData d).messageType = .message
      · obtain ⟨text, sender, rfl⟩ := MessageData.eq_messageMessage hm
        rw [if_pos hm]
        exact ih hrest
      · have hno : lines [Message.ofData d] = [] := lines_eq_nil.mpr (by simpa using hm)
        rw [if_neg hm, ih hrest, hno, List.append_nil]

/-- The keyboard only adds to the chat. -/
theorem handleKeyboard_chat {gui gui' : Ui} {ch : Int} {buf : Except CString CString}
    {msg : Option Message} (h : gui.handleKeyboard ch buf = .ok (gui', msg)) :
    ∃ added, gui'.chat = gui.chat ++ added := by
  unfold Ui.handleKeyboard Ui.sendMsg at h
  split at h
  · cases h; exact ⟨[], (List.append_nil _).symm⟩
  · split at h
    · split at h
      · cases h; exact ⟨_, rfl⟩
      · dsimp only at h
        split at h
        · cases h; exact ⟨_, rfl⟩
        · split at h
          · split at h
            · cases h; exact ⟨_, rfl⟩
            · cases h
          · cases h; exact ⟨[], (List.append_nil _).symm⟩
    · cases h; exact ⟨[], (List.append_nil _).symm⟩

/-! ## The queue between the threads -/

/-- The main thread as the consumer of its queue. -/
def polling (s : ClientMain) : Polling Message :=
  ⟨s.queue, decide (s.pc = .waitEmpty ∨ s.pc = .guiEmpty)⟩

/-- What a step does to the queue. -/
def queueOps : MainEvent → List (QueueOp Unit Message)
  | .push msg => [.push () msg]
  | .size n => [.size n]
  | .empty batch _ => [.empty batch]
  | .keyboard _ _ _ => []

/-- A loop that found the queue non-empty takes a batch next, and only then. -/
theorem polling_size (s : ClientMain) {take look : MainPc} (ht : take = .waitEmpty ∨ take = .guiEmpty)
    (hl : ¬ (look = .waitEmpty ∨ look = .guiEmpty)) :
    Run Polling.Step (polling s) (queueOps (.size s.queue.size))
      (polling { s with pc := if s.queue.size ≠ 0 then take else look }) := by
  have hsize : polling { s with pc := if s.queue.size ≠ 0 then take else look }
      = { polling s with nonzero := decide (s.queue.size ≠ 0) } := by
    by_cases hn : s.queue.size = 0
    · simp only [polling, hn, ne_eq, not_true_eq_false, if_false, hl]
    · simp only [polling, hn, ne_eq, not_false_eq_true, if_true, ht]
  rw [hsize]
  exact Run.single .size

theorem polling_step {s s' : ClientMain} {e : MainEvent} (h : Step mp s e s') :
    Run Polling.Step (polling s) (queueOps e) (polling s') := by
  cases h with
  | push _ => exact Run.single .push
  | waitSize hpc => exact polling_size s (by simp) (by simp)
  | guiSize hpc => exact polling_size s (by simp) (by simp)
  | waitEmpty hpc =>
      have hstep : Polling.Step (polling s) (.empty s.queue.empty.1 : QueueOp Unit Message)
          { queue := s.queue.empty.2 } := .empty (by simp [polling, hpc])
      -- wherever the loop ends, the next look at the queue is a `size`
      have hnext : waitBatch s.queue.empty.1 ≠ .waitEmpty ∧ waitBatch s.queue.empty.1 ≠ .guiEmpty := by
        rcases waitBatch_cases s.queue.empty.1 with ⟨hw, -⟩ | ⟨hw, -⟩ | hw <;> rw [hw] <;> simp
      have hpolling : polling { s with pc := waitBatch s.queue.empty.1, queue := s.queue.empty.2 }
          = { queue := s.queue.empty.2 } := by simp [polling, hnext]
      rw [hpolling]
      exact Run.single hstep
  | guiEmpty hpc _ =>
      exact Run.single (.empty (by simp [polling, hpc]))
  | @keyboard ch buf gui msg hpc _ =>
      have hnext : guiNext gui ≠ .waitEmpty ∧ guiNext gui ≠ .guiEmpty := by
        unfold guiNext; split <;> simp
      have hpolling : polling { s with pc := guiNext gui, gui := gui, sent := s.sent ++ msg.toList }
          = polling s := by simp [polling, hnext, hpc]
      rw [hpolling]
      exact .refl

theorem pushes_eq (t : List MainEvent) :
    pushes t = (Polling.pushes (t.flatMap queueOps)).map Prod.snd := by
  induction t with
  | nil => rfl
  | cons e t ih =>
      rw [List.flatMap_cons, Polling.pushes_append, List.map_append, ← ih]
      cases e <;> rfl

theorem drained_eq (t : List MainEvent) :
    drained t = (Polling.batches (t.flatMap queueOps)).flatten := by
  induction t with
  | nil => rfl
  | cons e t ih =>
      rw [List.flatMap_cons, Polling.batches_append, List.flatten_append, ← ih]
      cases e <;> simp [drained, queueOps, Polling.batches]

/-- What was drained and what is in the queue is what was pushed. -/
theorem polling_run {name : CString} {s : ClientMain} {t : List MainEvent}
    (h : Run (Step mp) (init name) t s) : drained t ++ s.queue.queue_ = pushes t := by
  have hpolling : Run Polling.Step {} (t.flatMap queueOps) (polling s) :=
    h.simulate polling queueOps fun _ _ _ hs => polling_step hs
  rw [drained_eq, pushes_eq]
  exact Polling.taken_append_queue hpolling

/-! ## Steps -/

/-- A step that takes nothing from the queue leaves the histories of what was taken alone. -/
theorem drained_concat_other {t : List MainEvent} {e : MainEvent}
    (h : ∀ batch written, e ≠ .empty batch written) :
    drained (t ++ [e]) = drained t ∧ received (t ++ [e]) = received t := by
  rw [drained, received, List.flatMap_append, List.flatMap_append]
  cases e with
  | empty batch written => exact absurd rfl (h batch written)
  | _ => exact ⟨List.append_nil _, List.append_nil _⟩

theorem drained_concat_empty (t : List MainEvent) (batch : List Message) (written : List CString) :
    drained (t ++ [.empty batch written]) = drained t ++ batch ∧
      received (t ++ [.empty batch written]) = received t ++ written := by
  rw [drained, received, List.flatMap_append, List.flatMap_append, List.flatMap_singleton,
    List.flatMap_singleton]
  exact ⟨rfl, rfl⟩

theorem written_concat (t : List MainEvent) (e : MainEvent) :
    ClientMain.written (t ++ [e]) = ClientMain.written t ++ ClientMain.written [e] :=
  List.flatMap_append

/-- Only messages that were received are in the queue. -/
theorem received_queue {name : CString} {s : ClientMain} {t : List MainEvent}
    (h : Run (Step mp) (init name) t s) : ∀ m ∈ s.queue.queue_, Received mp m := by
  apply h.invariant (I := fun s => ∀ m ∈ s.queue.queue_, Received mp m)
  · intro s e s' hq hstep
    cases hstep with
    | push hmsg =>
        intro m hm
        rcases List.mem_append.mp hm with hm | hm
        · exact hq m hm
        · rw [List.mem_singleton.mp hm]; exact hmsg
    | waitSize _ => exact hq
    | guiSize _ => exact hq
    | keyboard _ _ => exact hq
    | waitEmpty _ => intro m hm; cases hm
    | guiEmpty _ _ => intro m hm; cases hm
  · intro m hm; cases hm

/-- The GUI after it has taken the content of the queue. -/
theorem gui_of_guiBatch (hmp : mp.Lawful) {s : ClientMain} {gui : Ui}
    (hq : ∀ m ∈ s.queue.queue_, Received mp m) (h : guiBatch mp s.gui s.queue.empty.1 = .ok gui) :
    gui = { s.gui with chat := s.gui.chat ++ lines s.queue.empty.1 } :=
  Except.ok.inj (h.symm.trans (guiBatch_ok hmp hq))

/-- The chat is what the steps have written. -/
theorem chat_run (hmp : mp.Lawful) {name : CString} {s : ClientMain} {t : List MainEvent}
    (h : Run (Step mp) (init name) t s) : s.gui.chat = written t := by
  induction h with
  | refl => rfl
  | tail hrun hstep ih =>
      rw [written_concat, ← ih]
      cases hstep with
      | push _ => exact (List.append_nil _).symm
      | waitSize _ => exact (List.append_nil _).symm
      | guiSize _ => exact (List.append_nil _).symm
      | waitEmpty _ => exact (List.append_nil _).symm
      | guiEmpty _ hgui =>
          obtain rfl := gui_of_guiBatch hmp (received_queue hrun) hgui
          simp [ClientMain.written]
      | keyboard _ hgui =>
          obtain ⟨added, hadded⟩ := handleKeyboard_chat hgui
          simp [ClientMain.written, hadded]

/-- The main thread is in its first loop. -/
def Waiting (s : ClientMain) : Prop := s.pc = .waitSize ∨ s.pc = .waitEmpty

/-- While waiting, nothing has been written and no acknowledgement drained; in the GUI's loop one has. -/
structure Phase (t : List MainEvent) (s : ClientMain) : Prop where
  waiting : Waiting s → received t = [] ∧ ∀ m ∈ drained t, m.messageType ≠ .joinAck
  playing : ¬ Waiting s → s.pc ≠ .refused → ∃ m ∈ drained t, m.messageType = .joinAck

/-- Once an acknowledgement is drained, it stays so. -/
theorem Phase.of_playing {t : List MainEvent} {s : ClientMain} (e : MainEvent) (hs : ¬ Waiting s)
    (h : ∃ m ∈ drained t, m.messageType = .joinAck) : Phase (t ++ [e]) s := by
  refine ⟨fun hw => absurd hw hs, ?_⟩
  obtain ⟨m, hm, hack⟩ := h
  intro _ _
  rw [drained, List.flatMap_append]
  exact ⟨m, List.mem_append_left _ hm, hack⟩

theorem phase_step {t : List MainEvent} {s s' : ClientMain} {e : MainEvent} (h : Phase t s)
    (hstep : Step mp s e s') : Phase (t ++ [e]) s' := by
  cases hstep with
  | push _ =>
      obtain ⟨hd, hr⟩ := drained_concat_other (t := t) (e := .push _) (by simp)
      exact ⟨by rw [hd, hr]; exact h.waiting, by rw [hd]; exact h.playing⟩
  | waitSize hpc =>
      obtain ⟨hd, hr⟩ := drained_concat_other (t := t) (e := .size _) (by simp)
      refine ⟨by rw [hd, hr]; exact fun _ => h.waiting (Or.inl hpc), ?_⟩
      intro hw
      exact absurd (by unfold Waiting; dsimp only; split <;> simp) hw
  | guiSize hpc =>
      apply Phase.of_playing _ _ (h.playing (by simp [Waiting, hpc]) (by simp [hpc]))
      unfold Waiting; dsimp only; split <;> simp
  | guiEmpty hpc _ =>
      exact Phase.of_playing _ (by simp [Waiting]) (h.playing (by simp [Waiting, hpc]) (by simp [hpc]))
  | keyboard hpc _ =>
      apply Phase.of_playing _ _ (h.playing (by simp [Waiting, hpc]) (by simp [hpc]))
      unfold Waiting guiNext; dsimp only; split <;> simp
  | waitEmpty hpc =>
      obtain ⟨hnone, hno⟩ := h.waiting (Or.inr hpc)
      obtain ⟨hd, hr⟩ := drained_concat_empty t s.queue.empty.1 []
      rcases waitBatch_cases s.queue.empty.1 with ⟨hw, hbatch⟩ | ⟨hw, before, ack, behind, hq, hack, -⟩ | hw
      · refine ⟨?_, fun hplay => absurd (Or.inl hw) hplay⟩
        intro _
        rw [hr, hnone, hd]
        refine ⟨rfl, ?_⟩
        intro m hm
        exact (List.mem_append.mp hm).elim (hno m) (hbatch m)
      · refine ⟨fun hwait => ?_, fun _ _ => ⟨ack, ?_, hack⟩⟩
        · simp [Waiting, hw] at hwait
        · rw [hd, hq]; simp
      · refine ⟨fun hwait => ?_, fun _ href => absurd hw href⟩
        simp [Waiting, hw] at hwait

theorem phase_run {name : CString} {s : ClientMain} {t : List MainEvent}
    (h : Run (Step mp) (init name) t s) : Phase t s := by
  induction h with
  | refl =>
      refine ⟨fun _ => ⟨rfl, ?_⟩, fun hw => absurd (Or.inl rfl) hw⟩
      intro m hm; cases hm
  | tail _ hstep ih => exact phase_step ih hstep

/-- While waiting there is nothing to show. -/
theorem Phase.complete_of_waiting {t : List MainEvent} {s : ClientMain} (h : Phase t s)
    (hw : Waiting s) : Complete t s := by
  intro _
  obtain ⟨hnone, hno⟩ := h.waiting hw
  rw [hnone, afterAck_of_not_mem hno]; rfl

/-- The condition on a take of the wait loop, at the acknowledgement that it finds. -/
theorem ackLast_iff {s : ClientMain} (hpc : s.pc = .waitEmpty) {batch before behind : List Message}
    {written : List CString} {ack : Message} (hsplit : s.queue.queue_ = before ++ ack :: behind)
    (hack : ack.messageType = .joinAck)
    (hbefore : ∀ m ∈ before, m.messageType ≠ .joinAck ∧ m.messageType ≠ .joinNack) :
    AckLast s (.empty batch written) ↔ ∀ m ∈ behind, m.messageType ≠ .message := by
  constructor
  · intro hcond
    exact hcond hpc ⟨_, _, rfl⟩ before ack behind hsplit hack hbefore
  · intro hlines _ _ before' ack' behind' hsplit' hack' hbefore'
    -- there is only one way to split the queue
    have hsame := afterAck_append (fun m hm => (hbefore' m hm).1) hack' behind'
    rw [← hsplit', hsplit, afterAck_append (fun m hm => (hbefore m hm).1) hack behind] at hsame
    rw [← hsame]
    exact hlines

/-- **A step keeps the chat complete exactly if it meets the condition.** -/
theorem complete_step (hmp : mp.Lawful) {t : List MainEvent} {s s' : ClientMain} {e : MainEvent}
    (h : Phase t s) (hq : ∀ m ∈ s.queue.queue_, Received mp m) (hstep : Step mp s e s') :
    Complete (t ++ [e]) s' ↔ Complete t s ∧ AckLast s e := by
  -- the condition is about the wait loop's takes only
  have hlast : s.pc ≠ .waitEmpty → AckLast s e := by
    intro hne hpc
    exact absurd hpc hne
  cases hstep with
  | push _ =>
      obtain ⟨hd, hr⟩ := drained_concat_other (t := t) (e := .push _) (by simp)
      rw [Complete, hd, hr, and_iff_left (by rintro _ ⟨_, _, he⟩; cases he)]
      rfl
  | waitSize hpc =>
      have hphase := phase_step h (show Step mp s _ _ from .waitSize hpc)
      have hw : Waiting { s with pc := if s.queue.size ≠ 0 then MainPc.waitEmpty else .waitSize } := by
        unfold Waiting; dsimp only; split <;> simp
      exact iff_of_true (hphase.complete_of_waiting hw)
        ⟨h.complete_of_waiting (Or.inl hpc), hlast (by simp [hpc])⟩
  | guiSize hpc =>
      obtain ⟨hd, hr⟩ := drained_concat_other (t := t) (e := .size _) (by simp)
      rw [Complete, Complete, hd, hr, and_iff_left (hlast (by simp [hpc]))]
      have hpc' : (if s.queue.size ≠ 0 then MainPc.guiEmpty else .keyboard) ≠ .refused := by
        split <;> simp
      simp only [hpc', hpc, ne_eq, not_false_eq_true, reduceCtorEq, forall_const]
  | keyboard hpc _ =>
      obtain ⟨hd, hr⟩ := drained_concat_other (t := t) (e := .keyboard _ _ _) (by simp)
      rw [Complete, Complete, hd, hr, and_iff_left (hlast (by simp [hpc]))]
      have hpc' : ∀ gui, guiNext gui ≠ .refused := by
        intro gui; unfold guiNext; split <;> simp
      simp only [hpc', hpc, ne_eq, not_false_eq_true, reduceCtorEq, forall_const]
  | guiEmpty hpc hgui =>
      -- the lines of the batch are added on both sides
      obtain ⟨hd, hr⟩ := drained_concat_empty t s.queue.empty.1 (lines s.queue.empty.1)
      have hplay := h.playing (by simp [Waiting, hpc]) (by simp [hpc])
      obtain rfl := gui_of_guiBatch hmp hq hgui
      rw [and_iff_left (hlast (by simp [hpc]))]
      simp only [List.drop_left]
      rw [Complete, Complete, hd, hr, afterAck_concat hplay, lines_append]
      simp [hpc]
  | waitEmpty hpc =>
      obtain ⟨hnone, hno⟩ := h.waiting (Or.inr hpc)
      rw [and_iff_right (h.complete_of_waiting (Or.inr hpc))]
      rcases waitBatch_cases s.queue.empty.1 with
        ⟨hw, hbatch⟩ | ⟨hw, before, ack, behind, hsplit, hack, hbefore⟩ | hw
      · -- no answer: the loop goes on
        have hphase := phase_step h (show Step mp s _ _ from .waitEmpty hpc)
        apply iff_of_true (hphase.complete_of_waiting (Or.inl hw))
        intro _ _ before ack behind hsplit hack
        exact absurd hack (hbatch ack (by rw [show s.queue.empty.1 = _ from hsplit]; simp))
      · -- the acknowledgement: nothing is written, and what is behind it has been drained
        obtain ⟨hd, hr⟩ := drained_concat_empty t s.queue.empty.1 []
        have hbehind : afterAck (drained t ++ s.queue.empty.1) = behind := by
          rw [hsplit, ← List.append_assoc]
          apply afterAck_append _ hack behind
          intro m hm
          exact (List.mem_append.mp hm).elim (hno m) (fun hm => (hbefore m hm).1)
        rw [Complete, hd, hr, hnone, hbehind, hw]
        simp only [ne_eq, reduceCtorEq, not_false_eq_true, forall_const, List.append_nil]
        rw [eq_comm, lines_eq_nil, ackLast_iff hpc hsplit hack hbefore]
      · -- a refusal: no acknowledgement comes first
        apply iff_of_true
        · intro hne
          exact absurd hw hne
        · intro _ _ before ack behind hsplit hack hbefore
          have hfound := waitBatch_ack hbefore hack behind
          rw [← hsplit] at hfound
          exact absurd (hw.symm.trans hfound) (by simp)

/-- **The client shows all chat since it has joined exactly if no `MESSAGE` stands behind the
    acknowledgement in the batch that brings it**, in every run. The lines written for messages are lines of
    the chat; what was drained and what is in the queue is what was pushed; and the GUI's loop can always
    take its batch. -/
theorem complete_iff (hmp : mp.Lawful) {name : CString} {s : ClientMain} {t : List MainEvent}
    (h : Run (Step mp) (init name) t s) :
    (Complete t s ↔ Run (Under (Step mp) AckLast) (init name) t s) ∧
    s.gui.chat = written t ∧ drained t ++ s.queue.queue_ = pushes t ∧
    (s.pc = .guiEmpty → ∃ written s', Step mp s (.empty s.queue.queue_ written) s') := by
  refine ⟨?_, chat_run hmp h, polling_run h, ?_⟩
  · apply Run.iff_under (P := Complete) (fun _ => rfl) _ h
    intro t s e s' hrun hstep
    exact complete_step hmp (phase_run hrun) (received_queue hrun) hstep
  · intro hpc
    exact ⟨_, _, .guiEmpty hpc (guiBatch_ok hmp (received_queue h))⟩

/-- The acknowledgement, and the text `h` of the player `a`. -/
def ack : Message := .ofData .joinAckMessage
def greeting : Message := .ofData (.messageMessage [0x68] [0x61])

theorem received_ack : Received Msgpack.reference ack :=
  ⟨[0x01, 0x02, 0x30, 0x31, 0x03, 0x30, 0x33], [], by decide⟩

theorem received_greeting : Received Msgpack.reference greeting :=
  ⟨[0x01, 0x02, 0x30, 0x35, 0x00, 0xa1, 0x68, 0xa1, 0x61, 0x30, 0x64], [], by decide⟩

/-- The states of the player `b`. -/
def playerB (pc : MainPc) (queue : List Message) (chat : List CString) : ClientMain :=
  { init [0x62] with pc := pc, queue := ⟨queue⟩, gui := { line_parser_ := ⟨[0x62]⟩, chat := chat } }

/-- The greeting comes after the acknowledgement was taken. -/
def twoBatches : List MainEvent :=
  [.push ack, .size 1, .empty [ack] [], .push greeting, .size 1, .empty [greeting] [ascii "a: h"]]

theorem complete_iff_twoBatches : ∃ s, Run (Step Msgpack.reference) (init [0x62]) twoBatches s ∧
    received twoBatches = [ascii "a: h"] ∧ Complete twoBatches s := by
  have hquiet : ∀ {s e}, s.pc ≠ .waitEmpty → AckLast s e := by
    intro s e hne hpc
    exact absurd hpc hne
  -- the acknowledgement is taken alone
  have hlast : AckLast (playerB .waitEmpty [ack] []) (.empty [ack] []) := by
    intro _ _ before a behind hsplit ha hbefore
    have hbehind := afterAck_append (fun m hm => (hbefore m hm).1) ha behind
    rw [← hsplit] at hbehind
    rw [← hbehind]
    decide
  have hgui : guiBatch Msgpack.reference (playerB .guiEmpty [greeting] []).gui [greeting]
      = .ok (playerB .keyboard [] [ascii "a: h"]).gui := by decide
  have hunder : Run (Under (Step Msgpack.reference) AckLast) (init [0x62]) twoBatches
      (playerB .keyboard [] [ascii "a: h"]) :=
    .tail (t := [_, _, _, _, _]) (.tail (t := [_, _, _, _]) (.tail (t := [_, _, _]) (.tail (t := [_, _])
      (.tail (t := [_]) (.tail (t := []) .refl
        (show Under _ _ _ _ (playerB .waitSize [ack] []) from ⟨.push received_ack, hquiet (by decide)⟩))
        (show Under _ _ _ _ (playerB .waitEmpty [ack] []) from ⟨.waitSize rfl, hquiet (by decide)⟩))
        (show Under _ _ _ _ (playerB .guiSize [] []) from ⟨.waitEmpty rfl, hlast⟩))
        (show Under _ _ _ _ (playerB .guiSize [greeting] []) from
          ⟨.push received_greeting, hquiet (by decide)⟩))
        (show Under _ _ _ _ (playerB .guiEmpty [greeting] []) from ⟨.guiSize rfl, hquiet (by decide)⟩))
      (show Under _ _ (playerB .guiEmpty [greeting] []) _ _ from ⟨.guiEmpty rfl hgui, hquiet (by decide)⟩)
  obtain ⟨hiff, -⟩ := complete_iff Msgpack.reference_lawful hunder.of_under
  exact ⟨_, hunder.of_under, rfl, hiff.mpr hunder⟩

/-- The greeting is in the queue when the acknowledgement is taken. -/
def oneBatch : List MainEvent := [.push ack, .push greeting, .size 2, .empty [ack, greeting] []]

theorem not_complete_oneBatch : ∃ s, Run (Step Msgpack.reference) (init [0x62]) oneBatch s ∧
    s.pc = .guiSize ∧ drained oneBatch = pushes oneBatch ∧ ¬ Complete oneBatch s := by
  have hrun : Run (Step Msgpack.reference) (init [0x62]) oneBatch (playerB .guiSize [] []) :=
    .tail (t := [_, _, _]) (.tail (t := [_, _]) (.tail (t := [_]) (.tail (t := []) .refl
      (.push received_ack)) (.push received_greeting)) (.waitSize rfl)) (.waitEmpty rfl)
  refine ⟨_, hrun, rfl, rfl, ?_⟩
  intro h
  have hlines := h (by decide)
  revert hlines
  decide

end ClientMain

end Quizzbot
