import Quizzbot.Client.Correctness.LineParsing
import Quizzbot.Client.Correctness.Receiving

/-!
# `Client.Correctness.Typing` — what a client sends, over every run

The main thread asks to join once, before anything else, and after that it sends what the line parser makes
of the lines that are entered, errors excepted, in the order of the lines (`sent_run`). Nothing can be
entered before the acknowledgement was taken (`entered_run`), so the join request and the texts of a player
are separated by the server's answer. The lines written for messages are those that belong to what was drained
behind it, but for what came in the same batch (`received_run`).
-/

namespace Quizzbot

open LabelledRun (Run Under)

/-- `parse_line` makes a text, an answer or an error. -/
theorem LineParser.parseLine_cases (parser : LineParser) (line : CString) :
    (∃ text, text ≠ [] ∧ text = line ∧ parser.parseLine line = .ofData (.messageMessage parser.name_ text)) ∨
    (∃ answer, parser.parseLine line = .ofData (.answerMessage parser.name_ answer)) ∨
    ∃ error, parser.parseLine line = .ofData (.errorMessage error) := by
  by_cases hne : line = []
  · subst hne
    exact Or.inr (Or.inr ⟨_, rfl⟩)
  · by_cases hhead : line.head? = some CMD_INDICATOR
    · by_cases hanswer : IsAnswer line
      · exact Or.inr (Or.inl ⟨_, parseLine_answer parser.name_ hanswer⟩)
      · exact Or.inr (Or.inr ⟨_, parseLine_unknown parser.name_ hhead hanswer⟩)
    · exact Or.inl ⟨line, hne, rfl, parseLine_text parser.name_ hne hhead⟩

namespace ClientMain

variable {mp : Msgpack}

/-- The lines that were entered. -/
def entered (t : List MainEvent) : List CString :=
  t.flatMap fun
    | .keyboard ch (.ok line) _ => if ch = 10 then [line] else []
    | _ => []

theorem entered_append (t t' : List MainEvent) : entered (t ++ t') = entered t ++ entered t' :=
  List.flatMap_append

/-- What is sent for lines: the messages that the parser makes of them, if they are no errors. -/
def requests (name : CString) (lines : List CString) : List Message :=
  (lines.map (LineParser.mk name).parseLine).filter (·.messageType ≠ .error)

theorem requests_append (name : CString) (lines lines' : List CString) :
    requests name (lines ++ lines') = requests name lines ++ requests name lines' := by
  unfold requests
  rw [List.map_append, List.filter_append]

/-- A request is a text that was entered or an answer, under the player's own name. -/
theorem requests_cases {name : CString} {lines : List CString} {m : Message}
    (h : m ∈ requests name lines) :
    (∃ text ∈ lines, text ≠ [] ∧ m = .ofData (.messageMessage name text)) ∨
    ∃ answer, m = .ofData (.answerMessage name answer) := by
  obtain ⟨hm, htype⟩ := List.mem_filter.mp h
  obtain ⟨line, hline, rfl⟩ := List.mem_map.mp hm
  rcases (LineParser.mk name).parseLine_cases line with
    ⟨text, hne, rfl, hparse⟩ | ⟨answer, hparse⟩ | ⟨error, hparse⟩
  · exact Or.inl ⟨text, hline, hne, hparse⟩
  · exact Or.inr ⟨answer, hparse⟩
  · rw [hparse] at htype
    exact absurd rfl (of_decide_eq_true htype)

/-! ## Steps -/

/-- `handle_keyboard` sends the request for the line that was entered, and leaves the parser alone. -/
theorem handleKeyboard_sent {gui gui' : Ui} {ch : Int} {buf : Except CString CString}
    {msg : Option Message} {written : List CString} (h : gui.handleKeyboard ch buf = .ok (gui', msg)) :
    gui'.line_parser_ = gui.line_parser_ ∧
      msg.toList = requests gui.line_parser_.name_ (entered [.keyboard ch buf written]) := by
  unfold Ui.handleKeyboard at h
  by_cases hesc : ch = 27
  · rw [if_pos hesc] at h
    cases h
    subst hesc
    refine ⟨rfl, ?_⟩
    cases buf <;> rfl
  · rw [if_neg hesc] at h
    by_cases hnl : ch = 10
    · rw [if_pos hnl] at h
      subst hnl
      cases buf with
      | error text => cases h; exact ⟨rfl, rfl⟩
      | ok line =>
          have hreq : requests gui.line_parser_.name_ (entered [.keyboard 10 (.ok line) written])
              = [gui.line_parser_.parseLine line].filter (·.messageType ≠ .error) := rfl
          rw [hreq]
          unfold Ui.sendMsg at h
          rcases gui.line_parser_.parseLine_cases line with
            ⟨text, -, -, hparse⟩ | ⟨answer, hparse⟩ | ⟨error, hparse⟩
          all_goals
            simp only [hparse] at h ⊢
            cases h
            exact ⟨rfl, rfl⟩
    · rw [if_neg hnl] at h
      cases h
      refine ⟨rfl, ?_⟩
      cases buf with
      | error text => rfl
      | ok line =>
          show _ = requests gui.line_parser_.name_ ((if ch = 10 then [line] else []) ++ [])
          rw [if_neg hnl]; rfl

/-- A batch leaves the parser alone. -/
theorem guiBatch_keeps_name {gui gui' : Ui} {batch : List Message} (h : guiBatch mp gui batch = .ok gui') :
    gui'.line_parser_ = gui.line_parser_ := by
  induction batch generalizing gui with
  | nil => cases h; rfl
  | cons front batch ih =>
      unfold guiBatch at h
      obtain ⟨cmd, -, h⟩ := bind_ok h
      split at h
      · split at h
        · have hparser := ih h
          exact hparser
        · cases h
      · exact ih h

/-- **A step sends the request for the line it enters.** -/
theorem sent_step {s s' : ClientMain} {e : MainEvent} (h : Step mp s e s') :
    s'.gui.line_parser_ = s.gui.line_parser_ ∧
      s'.sent = s.sent ++ requests s.gui.line_parser_.name_ (entered [e]) := by
  cases h with
  | push _ => exact ⟨rfl, (List.append_nil _).symm⟩
  | waitSize _ => exact ⟨rfl, (List.append_nil _).symm⟩
  | waitEmpty _ => exact ⟨rfl, (List.append_nil _).symm⟩
  | guiSize _ => exact ⟨rfl, (List.append_nil _).symm⟩
  | guiEmpty _ hgui => exact ⟨guiBatch_keeps_name hgui, (List.append_nil _).symm⟩
  | keyboard _ hgui =>
      obtain ⟨hparser, hmsg⟩ := handleKeyboard_sent hgui
      exact ⟨hparser, by rw [← hmsg]⟩

/-! ## Runs -/

theorem parser_run {name : CString} {s : ClientMain} {t : List MainEvent}
    (h : Run (Step mp) (init name) t s) : s.gui.line_parser_ = ⟨name⟩ := by
  apply h.invariant (I := fun s => s.gui.line_parser_ = ⟨name⟩)
  · intro s e s' hs hstep
    rw [(sent_step hstep).1, hs]
  · rfl

/-- **What a client sends**: the request to join, and the requests for the lines entered, in order. -/
theorem sent_run {name : CString} {s : ClientMain} {t : List MainEvent}
    (h : Run (Step mp) (init name) t s) :
    s.sent = .ofData (.joinMessage name) :: requests name (entered t) := by
  induction h with
  | refl => rfl
  | tail hrun hs ih =>
      rw [(sent_step hs).2, parser_run hrun, ih, entered_append, requests_append]; rfl

/-- **A line is entered after an acknowledgement was taken.** -/
theorem entered_run {name : CString} {s : ClientMain} {t : List MainEvent}
    (h : Run (Step mp) (init name) t s) (hne : entered t ≠ []) :
    ∃ m ∈ drained t, m.messageType = .joinAck := by
  induction h with
  | refl => exact absurd rfl hne
  | @tail t s' e s'' hrun hs ih =>
      by_cases ht : entered t = []
      · -- the line is entered in this step, which only the loop of the GUI takes
        rw [entered_append, ht, List.nil_append] at hne
        cases hs with
        | keyboard hpc _ =>
            have hphase := phase_run hrun
            have hplaying : ¬ Waiting s' := by rw [Waiting, hpc]; simp
            obtain ⟨m, hm, hack⟩ := hphase.playing hplaying (by rw [hpc]; simp)
            refine ⟨m, ?_, hack⟩
            rw [(drained_concat_other (by simp)).1]
            exact hm
        | push _ | waitSize _ | waitEmpty _ | guiSize _ | guiEmpty _ _ => exact absurd rfl hne
      · obtain ⟨m, hm, hack⟩ := ih ht
        refine ⟨m, ?_, hack⟩
        unfold drained
        rw [List.flatMap_append]
        exact List.mem_append_left _ hm

/-- The wait loop ends in a refusal only at a refusal. -/
theorem waitBatch_refused {batch : List Message} (h : waitBatch batch = .refused) :
    ∃ m ∈ batch, m.messageType = .joinNack := by
  induction batch with
  | nil => cases h
  | cons cmd batch ih =>
      rw [waitBatch] at h
      by_cases hack : cmd.messageType = .joinAck
      · rw [if_pos hack] at h; cases h
      · rw [if_neg hack] at h
        by_cases hnack : cmd.messageType = .joinNack
        · exact ⟨cmd, List.mem_cons_self .., hnack⟩
        · rw [if_neg hnack] at h
          obtain ⟨m, hm, htype⟩ := ih h
          exact ⟨m, List.mem_cons_of_mem _ hm, htype⟩

/-- It goes on only if the batch holds no reply. -/
theorem waitBatch_waits {batch : List Message} (h : waitBatch batch = .waitSize) :
    ∀ m ∈ batch, m.messageType ≠ .joinAck ∧ m.messageType ≠ .joinNack := by
  induction batch with
  | nil => intro m hm; cases hm
  | cons cmd batch ih =>
      rw [waitBatch] at h
      split at h
      · cases h
      · rename_i hack
        split at h
        · cases h
        · rename_i hnack
          intro m hm
          rcases List.mem_cons.mp hm with rfl | hm
          · exact ⟨hack, hnack⟩
          · exact ih h m hm

/-- **While `main` waits it has taken no reply.** -/
theorem waiting_run {name : CString} {s : ClientMain} {t : List MainEvent}
    (h : Run (Step mp) (init name) t s) (hwaiting : Waiting s) :
    ∀ m ∈ drained t, m.messageType ≠ .joinAck ∧ m.messageType ≠ .joinNack := by
  induction h with
  | refl => intro m hm; cases hm
  | @tail t s' e s'' hrun hs ih =>
      cases hs with
      | push _ =>
          rw [(drained_concat_other (by simp)).1]
          exact ih hwaiting
      | waitSize hpc =>
          rw [(drained_concat_other (by simp)).1]
          exact ih (Or.inl hpc)
      | waitEmpty hpc =>
          rw [(drained_concat_empty t _ _).1]
          intro m hm
          rcases List.mem_append.mp hm with hm | hm
          · exact ih (Or.inr hpc) m hm
          · apply waitBatch_waits _ m hm
            rcases waitBatch_cases s'.queue.empty.1 with ⟨hwait, -⟩ | ⟨hgui, -⟩ | hrefused
            · exact hwait
            · rw [Waiting, hgui] at hwaiting; simp at hwaiting
            · rw [Waiting, hrefused] at hwaiting; simp at hwaiting
      | guiSize _ =>
          unfold Waiting at hwaiting
          dsimp only at hwaiting
          split at hwaiting <;> simp at hwaiting
      | guiEmpty _ _ => simp [Waiting] at hwaiting
      | keyboard _ _ =>
          unfold Waiting guiNext at hwaiting
          dsimp only at hwaiting
          split at hwaiting <;> simp at hwaiting

/-- **`main` returns with an error after a refusal was taken.** -/
theorem refused_run {name : CString} {s : ClientMain} {t : List MainEvent}
    (h : Run (Step mp) (init name) t s) (hpc : s.pc = .refused) :
    ∃ m ∈ drained t, m.messageType = .joinNack := by
  induction h with
  | refl => cases hpc
  | @tail t s' e s'' hrun hs ih =>
      cases hs with
      | push _ =>
          obtain ⟨m, hm, hnack⟩ := ih hpc
          rw [(drained_concat_other (by simp)).1]
          exact ⟨m, hm, hnack⟩
      | waitEmpty _ =>
          obtain ⟨m, hm, hnack⟩ := waitBatch_refused hpc
          rw [(drained_concat_empty t _ _).1]
          exact ⟨m, List.mem_append_right _ hm, hnack⟩
      | waitSize _ | guiSize _ =>
          dsimp only at hpc
          split at hpc <;> cases hpc
      | guiEmpty _ _ => cases hpc
      | keyboard _ _ =>
          dsimp only [guiNext] at hpc
          split at hpc <;> cases hpc

/-- The batches the main thread took, in either loop. -/
def batches (t : List MainEvent) : List (List Message) := Polling.batches (t.flatMap queueOps)

/-- There is an acknowledgement among the messages. -/
def hasAck (ms : List Message) : Bool := ms.any (·.messageType = .joinAck)

theorem hasAck_iff {ms : List Message} : hasAck ms = true ↔ ∃ m ∈ ms, m.messageType = .joinAck := by
  simp [hasAck]

/-- The messages that came with the acknowledgement: those behind it in the batch that brought it. -/
def withAck (t : List MainEvent) : List Message :=
  match (batches t).find? hasAck with
  | some batch => afterAck batch
  | none => []

theorem batches_append (t t' : List MainEvent) : batches (t ++ t') = batches t ++ batches t' := by
  rw [batches, List.flatMap_append, Polling.batches_append]
  rfl

/-- A step that takes nothing adds nothing. -/
theorem withAck_concat_other {t : List MainEvent} {e : MainEvent}
    (h : ∀ batch written, e ≠ .empty batch written) : withAck (t ++ [e]) = withAck t := by
  have hnone : batches [e] = [] := by
    cases e with
    | empty batch written => exact absurd rfl (h batch written)
    | push _ | size _ | keyboard _ _ _ => rfl
  rw [withAck, batches_append, hnone, List.append_nil]
  rfl

/-- Nor does a batch behind the one with the acknowledgement. -/
theorem withAck_concat_empty {t : List MainEvent} (h : ∃ m ∈ drained t, m.messageType = .joinAck)
    (batch : List Message) (written : List CString) : withAck (t ++ [.empty batch written]) = withAck t := by
  have hfind : ((batches t).find? hasAck).isSome := by
    obtain ⟨m, hm, hack⟩ := h
    rw [drained_eq, List.mem_flatten] at hm
    obtain ⟨early, hearly, hm⟩ := hm
    rw [List.find?_isSome]
    exact ⟨early, hearly, hasAck_iff.mpr ⟨m, hm, hack⟩⟩
  obtain ⟨early, hearly⟩ := Option.isSome_iff_exists.mp hfind
  rw [withAck, withAck, batches_append, List.find?_append, hearly]
  rfl

/-- The first batch with an acknowledgement is the one that counts. -/
theorem withAck_concat_first {t : List MainEvent} (h : ∀ m ∈ drained t, m.messageType ≠ .joinAck)
    (batch : List Message) (written : List CString) :
    withAck (t ++ [.empty batch written]) = afterAck batch := by
  have hnone : (batches t).find? hasAck = none := by
    rw [List.find?_eq_none]
    intro early hearly hbrings
    obtain ⟨m, hm, hack⟩ := hasAck_iff.mp hbrings
    refine h m ?_ hack
    rw [drained_eq]
    exact List.mem_flatten.mpr ⟨early, hearly, hm⟩
  have hlast : batches [.empty batch written] = [batch] := rfl
  rw [withAck, batches_append, List.find?_append, hnone, Option.none_or, hlast]
  by_cases hbrings : hasAck batch = true
  · rw [List.find?_cons_of_pos hbrings]
  · rw [List.find?_cons_of_neg hbrings, afterAck_of_not_mem]
    · rfl
    · intro m hm hack
      exact hbrings (hasAck_iff.mpr ⟨m, hm, hack⟩)

/-- **The lines written for messages are those drained behind the acknowledgement, but for what came with it**, in
    every run. -/
theorem received_run (hmp : mp.Lawful) {name : CString} {s : ClientMain} {t : List MainEvent}
    (h : Run (Step mp) (init name) t s) :
    lines (withAck t) ++ received t = lines (afterAck (drained t)) := by
  induction h with
  | refl => rfl
  | @tail t s' e s'' hrun hs ih =>
      cases hs with
      | push _ | waitSize _ | guiSize _ | keyboard _ _ =>
          rw [(drained_concat_other (by simp)).1, (drained_concat_other (by simp)).2,
            withAck_concat_other (by simp)]
          exact ih
      | waitEmpty hpc =>
          -- nothing is written before the loop of the GUI
          obtain ⟨hnone, hno⟩ := (phase_run hrun).waiting (Or.inr hpc)
          rw [(drained_concat_empty t _ _).1, (drained_concat_empty t _ _).2, hnone, withAck_concat_first hno,
            afterAck_skip hno, List.append_nil, List.append_nil]
      | guiEmpty hpc hgui =>
          have hplaying : ¬ Waiting s' := by rw [Waiting, hpc]; simp
          have hack := (phase_run hrun).playing hplaying (by rw [hpc]; simp)
          rw [(drained_concat_empty t _ _).1, (drained_concat_empty t _ _).2, afterAck_concat hack,
            withAck_concat_empty hack, lines_append, gui_of_guiBatch hmp (received_queue hrun) hgui, ← ih]
          show _ ++ (received t ++ (s'.gui.chat ++ lines s'.queue.empty.1).drop s'.gui.chat.length) = _
          rw [List.drop_left, List.append_assoc]

/-- All of them are written if no message stands behind the acknowledgement in the batch that brings it. -/
theorem complete_of_ackLast (hmp : mp.Lawful) {name : CString} {s : ClientMain} {t : List MainEvent}
    (h : Run (Under (Step mp) AckLast) (init name) t s) : Complete t s := by
  induction h with
  | refl => exact fun _ => rfl
  | tail hrun hs ih =>
      exact (complete_step hmp (phase_run hrun.of_under) (received_queue hrun.of_under) hs.1).mpr ⟨ih, hs.2⟩

end ClientMain

end Quizzbot
