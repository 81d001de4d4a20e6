import Quizzbot.Client.LineParser
import Quizzbot.Common.Correctness.Trim
import Quizzbot.Server.QuizzSystem
import Mathlib.Data.List.TakeDrop
import Mathlib.Data.List.TakeWhile

/-!
# `Client.Correctness.LineParsing` — what the line parser makes of a line

A line is empty, a text (`parseLine_text`), an answer command (`parseLine_answer`) or an unknown command
(`parseLine_unknown`), and `parse_line` makes one message of each. Two of them are not what was typed: a
text and the player's name go into each other's place, and an answer of spaces only keeps them
(`saysWhatWasTyped_iff`).

The form pads its buffer with spaces. They change the message unless the parser looks at the command only,
or stops at a newline before them (`padding_iff`).
-/

namespace Quizzbot

open HexText (ascii isspace)

/-! ## Kinds of lines -/

/-- The longest prefix without blanks. -/
def word (line : CString) : CString := line.takeWhile fun b => !isspace b

/-- What is behind it, up to the first newline. -/
def behindWord (line : CString) : CString :=
  (line.dropWhile fun b => !isspace b).takeWhile (· ≠ 0x0a)

/-- The commands that submit an answer. -/
def IsAnswer (line : CString) : Prop := word line = ascii "/a" ∨ word line = ascii "/answer"

instance (line : CString) : Decidable (IsAnswer line) := inferInstanceAs (Decidable (_ ∨ _))

theorem extractWord_eq {first : UInt8} (h : first = CMD_INDICATOR) (line : CString) :
    extractWord (first :: line) = (word (first :: line), (first :: line).dropWhile fun b => !isspace b) := by
  have hfirst : (first :: line).dropWhile isspace = first :: line := by
    rw [List.dropWhile_cons, h]; rfl
  rw [extractWord, hfirst, List.span_eq_takeWhile_dropWhile]; rfl

/-- A command starts with the indicator. -/
theorem IsAnswer.head {line : CString} (h : IsAnswer line) : line.head? = some CMD_INDICATOR := by
  have hword : (word line).head? = some CMD_INDICATOR := by
    rcases h with h | h <;> rw [h] <;> decide
  rw [word, List.head?_takeWhile, Option.filter_eq_some_iff] at hword
  exact hword.1

/-! ## What `parse_line` does -/

theorem parseLine_text (name : CString) {line : CString} (hne : line ≠ [])
    (h : line.head? ≠ some CMD_INDICATOR) :
    LineParser.parseLine ⟨name⟩ line = .ofData (.messageMessage name line) := by
  cases line with
  | nil => exact absurd rfl hne
  | cons first line =>
      have hfirst : first ≠ CMD_INDICATOR := by
        intro he
        exact h (by rw [he]; rfl)
      exact if_pos hfirst

/-- A command is looked up by its first word. -/
theorem parseLine_command (name : CString) {line : CString} (h : line.head? = some CMD_INDICATOR) :
    LineParser.parseLine ⟨name⟩ line =
      if IsAnswer line then .ofData (.answerMessage name (trimLeft (behindWord line)))
      else .ofData (.errorMessage (ascii "Couldn't find command.")) := by
  cases line with
  | nil => cases h
  | cons first line =>
      have hfirst : first = CMD_INDICATOR := Option.some.inj h
      rw [LineParser.parseLine, if_neg (not_not.mpr hfirst), extractWord_eq hfirst]
      rfl

theorem parseLine_answer (name : CString) {line : CString} (h : IsAnswer line) :
    LineParser.parseLine ⟨name⟩ line = .ofData (.answerMessage name (trimLeft (behindWord line))) := by
  rw [parseLine_command name h.head, if_pos h]

theorem parseLine_unknown (name : CString) {line : CString} (hhead : line.head? = some CMD_INDICATOR)
    (h : ¬ IsAnswer line) :
    LineParser.parseLine ⟨name⟩ line = .ofData (.errorMessage (ascii "Couldn't find command.")) := by
  rw [parseLine_command name hhead, if_neg h]

/-! ## What was typed -/

/-- The message says what the user typed. -/
structure SaysWhatWasTyped (name line : CString) : Prop where
  empty   : line = [] → (LineParser.parseLine ⟨name⟩ line).messageType = .error
  text    : line ≠ [] → line.head? ≠ some CMD_INDICATOR →
    LineParser.parseLine ⟨name⟩ line = .ofData (.messageMessage line name)
  answer  : IsAnswer line → LineParser.parseLine ⟨name⟩ line
    = .ofData (.answerMessage name ((behindWord line).dropWhile (· = 0x20)))
  unknown : line.head? = some CMD_INDICATOR → ¬ IsAnswer line →
    (LineParser.parseLine ⟨name⟩ line).messageType = .error

/-- **What was typed is said**, except of a text that is not the player's own name and of an answer that is
    spaces only. -/
theorem saysWhatWasTyped_iff (name line : CString) : SaysWhatWasTyped name line ↔
    (line ≠ [] → line.head? ≠ some CMD_INDICATOR → line = name) ∧
    (IsAnswer line → behindWord line = [] ∨ ∃ b ∈ behindWord line, b ≠ 0x20) := by
  constructor
  · intro h
    constructor
    · intro hne hhead
      have htext := h.text hne hhead
      rw [parseLine_text name hne hhead, Message.ofData_inj, MessageData.messageMessage_inj] at htext
      exact htext.1.symm
    · intro hanswer
      have htrim := h.answer hanswer
      rw [parseLine_answer name hanswer, Message.ofData_inj, MessageData.answerMessage_inj] at htrim
      exact (trimLeft_eq_dropWhile_iff _).mp htrim.2
  · rintro ⟨htext, hanswer⟩
    constructor
    · intro hline
      rw [hline]; rfl
    · intro hne hhead
      rw [parseLine_text name hne hhead, htext hne hhead]
    · intro h
      rw [parseLine_answer name h, (trimLeft_eq_dropWhile_iff _).mpr (hanswer h)]
    · intro hhead h
      rw [parseLine_unknown name hhead h]; rfl

/-- A text of a player of another name, as in the repository's own test, and an answer of one space. -/
theorem not_saysWhatWasTyped_test : ¬ SaysWhatWasTyped (ascii "MyName") (ascii "Bonjour") ∧
    ¬ SaysWhatWasTyped (ascii "MyName") (ascii "/a ") := by
  constructor
  · intro h
    have htext := h.text (by decide) (by decide)
    revert htext
    decide
  · intro h
    have hanswer := h.answer (by decide)
    revert hanswer
    decide

/-! ## The padding of the form -/

theorem blank_space : isspace 0x20 = true := by decide
theorem blank_newline : isspace 0x0a = true := by decide

/-- Spaces behind a line do not change its first word. -/
theorem word_append_spaces (line : CString) (k : Nat) : word (line ++ spaces k) = word line := by
  have hnone : (spaces k).takeWhile (fun b => !isspace b) = [] := by
    rw [spaces, List.takeWhile_replicate, blank_space]; rfl
  rw [word, word, List.takeWhile_append, hnone, List.append_nil]
  split
  · rename_i hlen
    rw [(List.takeWhile_prefix _).eq_of_length hlen]
  · rfl

theorem isAnswer_append_spaces {line : CString} {k : Nat} :
    IsAnswer (line ++ spaces k) ↔ IsAnswer line := by
  rw [IsAnswer, IsAnswer, word_append_spaces]

theorem dropWord_append_spaces (line : CString) (k : Nat) :
    ((line ++ spaces k).dropWhile fun b => !isspace b)
      = (line.dropWhile fun b => !isspace b) ++ spaces k := by
  have hall : (spaces k).dropWhile (fun b => !isspace b) = spaces k := by
    rw [spaces, List.dropWhile_replicate, blank_space]; rfl
  rw [List.dropWhile_append, hall]
  split
  · rename_i hnil
    rw [List.isEmpty_iff.mp hnil]; rfl
  · rfl

/-- A newline of the line is behind its first word. -/
theorem newline_mem_dropWord {line : CString} :
    0x0a ∈ line.dropWhile (fun b => !isspace b) ↔ 0x0a ∈ line := by
  constructor
  · exact fun h => (List.dropWhile_suffix _).mem h
  · intro h
    rw [← List.takeWhile_append_dropWhile (p := fun b => !isspace b) (l := line)] at h
    rcases List.mem_append.mp h with h | h
    · have hno := List.mem_takeWhile_imp h
      rw [blank_newline] at hno
      cases hno
    · exact h

/-- Spaces behind a newline are not read. -/
theorem behindWord_append_of_newline {line : CString} (h : 0x0a ∈ line) (k : Nat) :
    behindWord (line ++ spaces k) = behindWord line := by
  rw [behindWord, behindWord, dropWord_append_spaces, List.takeWhile_append, if_neg]
  intro hlen
  have hself := (List.takeWhile_prefix _).eq_of_length hlen
  have hno := List.takeWhile_eq_self_iff.mp hself 0x0a (newline_mem_dropWord.mpr h)
  cases hno

/-- All others are. -/
theorem behindWord_append_spaces {line : CString} (h : 0x0a ∉ line) (k : Nat) :
    behindWord (line ++ spaces k) = behindWord line ++ spaces k := by
  have hspaces : (spaces k).takeWhile (· ≠ 0x0a) = spaces k := by
    rw [spaces, List.takeWhile_replicate]; rfl
  have hself : (line.dropWhile fun b => !isspace b).takeWhile (· ≠ 0x0a)
      = line.dropWhile fun b => !isspace b := by
    rw [List.takeWhile_eq_self_iff]
    intro b hb
    exact decide_eq_true fun he => h (newline_mem_dropWord.mp (he ▸ hb))
  rw [behindWord, behindWord, dropWord_append_spaces, List.takeWhile_append, hself, hspaces, if_pos rfl]

/-- A padded line that is no command is a text, and a text keeps its padding. -/
theorem parseLine_padded_ne (name : CString) {line : CString} (hhead : line.head? ≠ some CMD_INDICATOR)
    (k : Nat) :
    LineParser.parseLine ⟨name⟩ (line ++ spaces (k + 1)) ≠ LineParser.parseLine ⟨name⟩ line := by
  have hhead' : (line ++ spaces (k + 1)).head? ≠ some CMD_INDICATOR := by
    cases line with
    | nil => exact fun h => by cases h
    | cons first line => exact hhead
  have hne : line ++ spaces (k + 1) ≠ [] := by
    rw [spaces_succ]; exact List.append_ne_nil_of_right_ne_nil _ (List.cons_ne_nil _ _)
  rw [parseLine_text name hne hhead']
  intro h
  by_cases hnil : line = []
  · subst hnil; cases congrArg Message.messageType h
  · rw [parseLine_text name hnil hhead, Message.ofData_inj, MessageData.messageMessage_inj,
      List.append_right_eq_self, spaces_succ] at h
    cases h.2

/-- **Padding changes the message**, unless the line is an unknown command or an answer with a newline
    behind it. -/
theorem padding_iff (name line : CString) (k : Nat) :
    LineParser.parseLine ⟨name⟩ (line ++ spaces k) = LineParser.parseLine ⟨name⟩ line ↔
      k = 0 ∨ (line.head? = some CMD_INDICATOR ∧ (IsAnswer line → 0x0a ∈ line)) := by
  by_cases hhead : line.head? = some CMD_INDICATOR
  · have hhead' : (line ++ spaces k).head? = some CMD_INDICATOR := by
      rw [List.head?_append, hhead]; rfl
    by_cases hanswer : IsAnswer line
    · rw [parseLine_answer name hanswer, parseLine_answer name (isAnswer_append_spaces.mpr hanswer),
        Message.ofData_inj, MessageData.answerMessage_inj]
      by_cases hnl : 0x0a ∈ line
      · rw [behindWord_append_of_newline hnl]
        exact iff_of_true ⟨rfl, rfl⟩ (Or.inr ⟨hhead, fun _ => hnl⟩)
      · rw [behindWord_append_spaces hnl, trimLeft_append_spaces_iff]
        simp [hanswer, hnl]
    · rw [parseLine_unknown name hhead hanswer,
        parseLine_unknown name hhead' (fun h => hanswer (isAnswer_append_spaces.mp h))]
      exact iff_of_true rfl (Or.inr ⟨hhead, fun h => absurd h hanswer⟩)
  · cases k with
    | zero => rw [spaces, List.replicate_zero, List.append_nil]; simp
    | succ k =>
        refine iff_of_false (parseLine_padded_ne name hhead k) ?_
        rintro (h | ⟨h, -⟩)
        · cases h
        · exact hhead h

/-- The right answer of a padded form is not found right, and a form in which nothing was typed holds a
    text. -/
theorem not_padding_answer :
    LineParser.parseLine ⟨ascii "ada"⟩ (ascii "/a 25" ++ spaces 3)
      ≠ LineParser.parseLine ⟨ascii "ada"⟩ (ascii "/a 25") ∧
    LineParser.parseLine ⟨ascii "ada"⟩ (ascii "/a 25" ++ spaces 3)
      = .ofData (.answerMessage (ascii "ada") (ascii "25   ")) ∧
    ((QuizzSystem.init.submitAnswer (ascii "ada") (ascii "25   ")).update 5000).2.map (·.winners)
      = some [] ∧
    ((QuizzSystem.init.submitAnswer (ascii "ada") (ascii "25")).update 5000).2.map (·.winners)
      = some [ascii "ada"] ∧
    (LineParser.parseLine ⟨ascii "ada"⟩ ([] ++ spaces 3)).messageType = .message ∧
    (LineParser.parseLine ⟨ascii "ada"⟩ []).messageType = .error := by
  refine ⟨?_, ?_, ?_, ?_, ?_, ?_⟩ <;> decide

end Quizzbot
