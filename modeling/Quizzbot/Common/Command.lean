import Quizzbot.Common.Types
import Quizzbot.Lib.HexText

/-!
# `Common.Command` — the naive command and its codec (`command.h`, `command.cc`)

A command is a type and a content string. `naiveCommandProtocol` writes one letter for the type in front
of the content; its `parse` overwrites the command object it is given, and answers anything it does not
know with a command of type `error`.
-/

namespace Quizzbot

open HexText (ascii)

/-- `command::command_type`. -/
inductive CommandType where
  | error
  | joinRequest
  | joinAck
  | joinNack
  | answer
  | message
  | empty
deriving DecidableEq, Repr

/-- `command`. -/
structure Command where
  type_    : CommandType := .empty
  content_ : CString := []
deriving DecidableEq, Repr

namespace NaiveCommandProtocol

/-- `naive_command_protocol::parse`: the command object ends up with this type and content, whatever it
    held before. -/
def parse (cmd : Command) (packet : Packet) : Command :=
  let (type, content) : CommandType × CString :=
    match packet with
    | [] => (.error, ascii "Message is too short. Requires at least 1 characters")
    | command_str :: message_content =>
      if command_str = 0x41 then (.answer, message_content)
      else if command_str = 0x4d then (.message, message_content)
      else if command_str = 0x42 then (.joinNack, message_content)
      else if command_str = 0x43 then (.joinRequest, message_content)
      else if command_str = 0x44 then (.joinAck, message_content)
      else (.error, ascii "Unknown command: " ++ [command_str])
  { cmd with content_ := content, type_ := type }

/-- `naive_command_protocol::pack`. -/
def pack (cmd : Command) : Packet :=
  let letter : UInt8 :=
    match cmd.type_ with
    | .answer => 0x41
    | .message => 0x4d
    | .joinNack => 0x42
    | .joinRequest => 0x43
    | .joinAck => 0x44
    | _ => 0x45
  letter :: cmd.content_

/-- The five types that have a letter of their own. -/
def Lettered (type : CommandType) : Prop :=
  type = .answer ∨ type = .message ∨ type = .joinRequest ∨ type = .joinAck ∨ type = .joinNack

instance (type : CommandType) : Decidable (Lettered type) := inferInstanceAs (Decidable (_ ∨ _))

/-- A command of a lettered type survives packing and parsing. -/
theorem parse_pack {cmd : Command} (h : Lettered cmd.type_) (prev : Command) :
    parse prev (pack cmd) = cmd := by
  obtain ⟨type, content⟩ := cmd
  rcases h with h | h | h | h | h <;> · simp only at h; subst h; rfl

/-! ## Both tables -/

/-- The letters that `pack` writes. -/
def letters : List UInt8 := ascii "ABCDME"

/-- `parse` does not know the letter that `pack` writes for an error. -/
theorem parse_errorLetter (prev : Command) (content : CString) :
    parse prev (0x45 :: content) = ⟨.error, ascii "Unknown command: E"⟩ := rfl

/-- A packet with the letter of a type survives parsing and packing. -/
theorem pack_parse_letter {letter : UInt8} (h : letter ∈ letters) (hne : letter ≠ 0x45) (prev : Command)
    (content : CString) : pack (parse prev (letter :: content)) = letter :: content := by
  have hcases : letter = 0x41 ∨ letter = 0x42 ∨ letter = 0x43 ∨ letter = 0x44 ∨ letter = 0x4d := by
    have hletters : letters = [0x41, 0x42, 0x43, 0x44, 0x4d, 0x45] := by decide
    rw [hletters] at h
    simp only [List.mem_cons, List.not_mem_nil, or_false] at h
    tauto
  rcases hcases with rfl | rfl | rfl | rfl | rfl <;> rfl

/-- **The tables are inverse to each other, except for errors**, whose content `parse` replaces by its own
    text. -/
theorem tables_agree_iff (prev : Command) :
    (∀ cmd, Lettered cmd.type_ ∨ cmd.type_ = .error → (parse prev (pack cmd) = cmd ↔
      (cmd.type_ = .error → cmd.content_ = ascii "Unknown command: E"))) ∧
    (∀ letter content, letter ∈ letters →
      (pack (parse prev (letter :: content)) = letter :: content ↔
        (letter = 0x45 → content = ascii "Unknown command: E"))) := by
  constructor
  · rintro ⟨type, content⟩ (h | h)
    · have hno : ¬ Lettered .error := by decide
      have hne : type ≠ .error := by
        intro he
        exact hno (he ▸ h)
      exact iff_of_true (parse_pack h prev) (fun he => absurd he hne)
    · cases h
      show parse prev (0x45 :: content) = _ ↔ _
      rw [parse_errorLetter]
      simp [eq_comm]
  · intro letter content h
    by_cases he : letter = 0x45
    · subst he
      rw [parse_errorLetter]
      show 0x45 :: ascii "Unknown command: E" = _ ↔ _
      simp [eq_comm]
    · exact iff_of_true (pack_parse_letter h he prev content) (fun h => absurd h he)

/-- An answer and an error of `parse` itself. -/
theorem tables_agree_iff_answer :
    parse {} (pack ⟨.answer, ascii "25"⟩) = ⟨.answer, ascii "25"⟩ ∧
      pack (parse {} (0x41 :: ascii "25")) = 0x41 :: ascii "25" := by
  obtain ⟨hcmd, hpacket⟩ := tables_agree_iff {}
  exact ⟨(hcmd ⟨.answer, ascii "25"⟩ (Or.inl (by decide))).mpr (by decide),
    (hpacket 0x41 (ascii "25") (by decide)).mpr (by decide)⟩

/-- The error of the repository's own test of `pack`. -/
theorem not_tables_agree_error :
    parse {} (pack ⟨.error, ascii "answer"⟩) ≠ ⟨.error, ascii "answer"⟩ ∧
      pack (parse {} (ascii "Eanswer")) ≠ ascii "Eanswer" := by decide

end NaiveCommandProtocol

end Quizzbot
