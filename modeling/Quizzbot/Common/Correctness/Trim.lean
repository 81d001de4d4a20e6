import Quizzbot.Common.StringUtils
import Quizzbot.Lib.HexText

/-!
# `Common.Correctness.Trim` — what trimming does to spaces

A string is either spaces only, or it has a first and a last byte that is no space, with spaces around
(`spaces_or_first`, `spaces_or_last`). On these shapes the helpers compute (`trimLeft_append`,
`trimRight_append`), and strings of spaces are left as they are. Since `trim` drops what `trim_left`
returned, it only trims on the right: it is what its name says on the strings that do not start with a
space (`trimsBoth_iff`).
-/

namespace Quizzbot

open HexText (ascii)

/-- `k` spaces. -/
def spaces (k : Nat) : CString := List.replicate k 0x20

/-! ## Shapes of strings -/

theorem spaces_add (k l : Nat) : spaces (k + l) = spaces k ++ spaces l := by
  rw [spaces, spaces, spaces, List.replicate_add]

theorem spaces_succ (k : Nat) : spaces (k + 1) = 0x20 :: spaces k := List.replicate_succ

/-- Spaces only, or a first byte that is no space. -/
theorem spaces_or_first (s : CString) :
    (∃ k, s = spaces k) ∨ ∃ k b t, b ≠ 0x20 ∧ s = spaces k ++ b :: t := by
  induction s with
  | nil => exact Or.inl ⟨0, rfl⟩
  | cons x s ih =>
      by_cases hx : x = 0x20
      · subst hx
        rcases ih with ⟨k, rfl⟩ | ⟨k, b, t, hb, rfl⟩
        · exact Or.inl ⟨k + 1, (spaces_succ k).symm⟩
        · exact Or.inr ⟨k + 1, b, t, hb, by rw [spaces_succ]; rfl⟩
      · exact Or.inr ⟨0, x, s, hx, rfl⟩

/-- Spaces only, or a last byte that is no space. -/
theorem spaces_or_last (s : CString) :
    (∃ k, s = spaces k) ∨ ∃ t b k, b ≠ 0x20 ∧ s = t ++ b :: spaces k := by
  rcases spaces_or_first s.reverse with ⟨k, h⟩ | ⟨k, b, t, hb, h⟩
  · refine Or.inl ⟨k, ?_⟩
    rw [← List.reverse_reverse s, h, spaces, List.reverse_replicate]
  · refine Or.inr ⟨t.reverse, b, k, hb, ?_⟩
    rw [← List.reverse_reverse s, h, List.reverse_append, List.reverse_cons, spaces,
      List.reverse_replicate, List.append_assoc]
    rfl

/-! ## The helpers on these shapes -/

theorem findIdx_spaces (k : Nat) : (spaces k).findIdx? (· ≠ 0x20) = none := by
  rw [List.findIdx?_eq_none_iff]
  intro b hb
  simp [List.eq_of_mem_replicate hb]

/-- The first byte that is no space. -/
theorem findIdx_append {b : UInt8} (hb : b ≠ 0x20) (k : Nat) (t : CString) :
    (spaces k ++ b :: t).findIdx? (· ≠ 0x20) = some k := by
  rw [List.findIdx?_append, findIdx_spaces]
  simp [List.findIdx?_cons, hb, spaces]

theorem trimLeft_spaces (k : Nat) : trimLeft (spaces k) = spaces k := by
  rw [trimLeft, findIdx_spaces]

theorem trimLeft_append {b : UInt8} (hb : b ≠ 0x20) (k : Nat) (t : CString) :
    trimLeft (spaces k ++ b :: t) = b :: t := by
  rw [trimLeft, findIdx_append hb]
  exact List.drop_left' List.length_replicate

theorem findLastNotOf_spaces (k : Nat) : findLastNotOf (spaces k) 0x20 = none := by
  have hrev : (spaces k).reverse = spaces k := List.reverse_replicate
  rw [findLastNotOf, hrev, findIdx_spaces]; rfl

theorem findLastNotOf_append {b : UInt8} (hb : b ≠ 0x20) (t : CString) (k : Nat) :
    findLastNotOf (t ++ b :: spaces k) 0x20 = some t.length := by
  have hrev : (t ++ b :: spaces k).reverse = spaces k ++ b :: t.reverse := by
    rw [List.reverse_append, List.reverse_cons, spaces, List.reverse_replicate, List.append_assoc]; rfl
  have hlen : (t ++ b :: spaces k).length = t.length + (k + 1) := by simp [spaces]
  rw [findLastNotOf, hrev, findIdx_append hb, hlen, Option.map_some]
  congr 1
  omega

theorem trimRight_spaces (k : Nat) : trimRight (spaces k) = spaces k := by
  rw [trimRight, findLastNotOf_spaces]

theorem trimRight_append {b : UInt8} (hb : b ≠ 0x20) (t : CString) (k : Nat) :
    trimRight (t ++ b :: spaces k) = t ++ [b] := by
  have happ : t ++ b :: spaces k = (t ++ [b]) ++ spaces k := by rw [List.append_assoc]; rfl
  rw [trimRight, findLastNotOf_append hb]
  show (t ++ b :: spaces k).take (t.length + 1) = _
  rw [happ, List.take_left' (by simp)]

/-- Nothing is trimmed in front of a byte that is no space. -/
theorem trimLeft_of_head {s : CString} (h : s.head? ≠ some 0x20) : trimLeft s = s := by
  cases s with
  | nil => rfl
  | cons b t =>
      have hb : b ≠ 0x20 := by
        intro he
        exact h (by rw [he]; rfl)
      exact trimLeft_append hb 0 t

/-- All leading spaces are removed, except from spaces only. -/
theorem trimLeft_eq_dropWhile_iff (s : CString) :
    trimLeft s = s.dropWhile (· = 0x20) ↔ s = [] ∨ ∃ b ∈ s, b ≠ 0x20 := by
  rcases spaces_or_first s with ⟨k, rfl⟩ | ⟨k, b, t, hb, rfl⟩
  · have hall : ∀ b ∈ spaces k, b = 0x20 := fun b hb => List.eq_of_mem_replicate hb
    have hdrop : (spaces k).dropWhile (· = 0x20) = [] := by
      rw [spaces, List.dropWhile_replicate]; rfl
    rw [trimLeft_spaces, hdrop]
    constructor
    · exact Or.inl
    · rintro (h | ⟨b, hb, hne⟩)
      · exact h
      · exact absurd (hall b hb) hne
  · have hdrop : (spaces k ++ b :: t).dropWhile (· = 0x20) = b :: t := by
      rw [List.dropWhile_append_of_pos (by
        intro x hx
        exact decide_eq_true (List.eq_of_mem_replicate hx)),
        List.dropWhile_cons_of_neg (by simpa using hb)]
    rw [trimLeft_append hb, hdrop]
    exact iff_of_true rfl (Or.inr ⟨b, by simp, hb⟩)

/-- Spaces at the end are kept. -/
theorem trimLeft_append_spaces_iff (s : CString) (k : Nat) :
    trimLeft (s ++ spaces k) = trimLeft s ↔ k = 0 := by
  rcases spaces_or_first s with ⟨j, rfl⟩ | ⟨j, b, t, hb, rfl⟩
  · rw [← spaces_add, trimLeft_spaces, trimLeft_spaces, spaces, spaces, List.replicate_inj]
    simp
  · rw [List.append_assoc, List.cons_append, trimLeft_append hb, trimLeft_append hb, List.cons_inj_right,
      List.append_right_eq_self]
    exact List.replicate_eq_nil_iff 0x20

/-! ## `trim` -/

/-- What a reader of the name expects of `trim` on a string. -/
structure TrimsBoth (s : CString) : Prop where
  start      : (trim s).head? ≠ some 0x20
  stop       : (trim s).getLast? ≠ some 0x20
  around     : ∃ k l, s = spaces k ++ trim s ++ spaces l
  idempotent : trim (trim s) = trim s
  blank      : ∀ k, s = spaces k → trim s = []
  left_right : trim s = trimLeft (trimRight s)
  right_left : trim s = trimRight (trimLeft s)

/-- What `trim` leaves still starts with the byte the string starts with. -/
theorem head_trim {s : CString} (h : s.head? = some 0x20) : (trim s).head? = some 0x20 := by
  rcases spaces_or_last s with ⟨k, rfl⟩ | ⟨t, b, k, hb, rfl⟩
  · show (trimRight (spaces k)).head? = _
    rw [trimRight_spaces, h]
  · show (trimRight (t ++ b :: spaces k)).head? = _
    rw [trimRight_append hb]
    rw [List.head?_append] at h ⊢
    exact h

/-- **`trim` is exact on the strings that do not start with a space**, and on no others. -/
theorem trimsBoth_iff (s : CString) : TrimsBoth s ↔ s.head? ≠ some 0x20 := by
  constructor
  · intro h hs
    exact h.start (head_trim hs)
  · intro hs
    rcases spaces_or_last s with ⟨k, rfl⟩ | ⟨t, b, k, hb, rfl⟩
    · -- no space at the start, so none at all
      cases k with
      | zero => exact ⟨by decide, by decide, ⟨0, 0, rfl⟩, rfl, fun _ _ => rfl, rfl, rfl⟩
      | succ k => exact absurd (by rw [spaces_succ]; rfl) hs
    · have htrim : trim (t ++ b :: spaces k) = t ++ [b] := trimRight_append hb t k
      have hhead : (t ++ [b]).head? ≠ some 0x20 := by
        rw [List.head?_append] at hs ⊢
        exact hs
      constructor
      · rw [htrim]; exact hhead
      · rw [htrim, List.getLast?_concat]; simpa using hb
      · exact ⟨0, k, by rw [htrim, List.append_assoc]; simp [spaces]⟩
      · rw [htrim]; exact trimRight_append hb t 0
      · intro j hj
        have hmem : b ∈ spaces j := by rw [← hj]; simp
        exact absurd (List.eq_of_mem_replicate hmem) hb
      · rw [htrim, trimRight_append hb, trimLeft_of_head hhead]
      · rw [trimLeft_of_head hs]; rfl

/-- The repository's own test of `trim`, and a string of one space. -/
theorem not_trimsBoth_test :
    trim (ascii " Bonjour  ") = ascii " Bonjour" ∧ ¬ TrimsBoth (ascii " Bonjour  ") ∧
      trim (ascii " ") ≠ [] := by
  refine ⟨by decide, ?_, by decide⟩
  intro h
  exact h.start (by decide)

end Quizzbot
