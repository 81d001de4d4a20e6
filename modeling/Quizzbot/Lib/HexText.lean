import Mathlib.Data.List.Basic
import Mathlib.Tactic.IntervalCases

/-!
# `Lib.HexText` — formatted hexadecimal text of byte streams

The part of C++ formatted I/O that byte protocols lean on, over byte lists: `os << std::setfill(c) <<
std::setw(w) << std::hex << n` on the writing side and `is >> std::hex >> n` on the reading side. The
reader is the permissive one of the standard library: it skips leading blanks, takes a sign, takes an
optional `0x`, stops at the first byte that is no digit, and negates modulo the width of the integer.

- **Writing.** `hex`, `setw`, and `hexText_two`: below 256 the two-column text is exactly two digits.
- **Reading.** `extractHex`, and for two-byte texts `HexPair`, which lists those that are accepted with
  their values (`extractHex_two_iff`). Every value is below 256 or comes from a minus sign
  (`extractHex_two_cases`).
-/

namespace HexText

/-- ASCII text as bytes. -/
def ascii (s : String) : List UInt8 := s.toList.map (fun c => c.toNat.toUInt8)

/-! ## Writing -/

/-- The byte of a digit below 16, lower case. -/
def digitByte (d : Nat) : UInt8 := (Nat.digitChar d).toNat.toUInt8

/-- `os << std::hex << n`. -/
def hex (n : Nat) : List UInt8 := (Nat.toDigits 16 n).map (fun c => c.toNat.toUInt8)

/-- `std::setfill(fill) << std::setw(w)`: pad on the left up to `w` columns, never cut. -/
def setw (w : Nat) (fill : UInt8) (s : List UInt8) : List UInt8 :=
  List.replicate (w - s.length) fill ++ s

/-- `os << std::setfill('0') << std::setw(w) << std::hex << n`. -/
def hexText (w n : Nat) : List UInt8 := setw w 0x30 (hex n)

theorem hex_of_lt {n : Nat} (h : n < 16) : hex n = [digitByte n] := by
  simp [hex, Nat.toDigits_of_lt_base h, digitByte]

theorem hex_of_le {n : Nat} (h : 16 ≤ n) : hex n = hex (n / 16) ++ [digitByte (n % 16)] := by
  simp [hex, Nat.toDigits_of_base_le (by decide) h, digitByte]

/-- Below 256 the two-column text is the two digits of the number. -/
theorem hexText_two {n : Nat} (h : n < 256) :
    hexText 2 n = [digitByte (n / 16), digitByte (n % 16)] := by
  by_cases hn : n < 16
  · have hd : n / 16 = 0 := by omega
    have hm : n % 16 = n := Nat.mod_eq_of_lt hn
    rw [hexText, hex_of_lt hn, hd, hm]; rfl
  · rw [hexText, hex_of_le (by omega), hex_of_lt (by omega)]; rfl

/-- Every byte of a number's text is a digit. -/
theorem mem_hex {b : UInt8} {n : Nat} (h : b ∈ hex n) : ∃ d < 16, b = digitByte d := by
  induction hn : n using Nat.strongRecOn generalizing n with
  | ind k ih =>
      by_cases hk : k < 16
      · rw [hn, hex_of_lt hk] at h
        exact ⟨k, hk, List.mem_singleton.mp h⟩
      · rw [hn, hex_of_le (Nat.le_of_not_lt hk)] at h
        rcases List.mem_append.mp h with h | h
        · exact ih (k / 16) (Nat.div_lt_self (by omega) (by decide)) h rfl
        · exact ⟨k % 16, Nat.mod_lt _ (by decide), List.mem_singleton.mp h⟩

/-- The first byte of a text of two columns or more is a digit. -/
theorem hexText_getD_zero {w n : Nat} (hw : 0 < w) (b : UInt8) :
    ∃ d < 16, (hexText w n).getD 0 b = digitByte d := by
  have hlen : 0 < (hexText w n).length := by
    rw [hexText, setw, List.length_append, List.length_replicate]; omega
  have hmem : (hexText w n).getD 0 b ∈ hexText w n := by
    rw [List.getD_eq_getElem?_getD, List.getElem?_eq_getElem hlen]; exact List.getElem_mem hlen
  rcases List.mem_append.mp (show _ ∈ List.replicate _ _ ++ hex n from hmem) with h | h
  · exact ⟨0, by decide, by rw [List.eq_of_mem_replicate h]; rfl⟩
  · exact mem_hex h

/-! ## Reading -/

/-- Blanks of the classic locale. -/
def isspace (b : UInt8) : Bool := b == 0x20 || (0x09 ≤ b && b ≤ 0x0d)

/-- The value of a hexadecimal digit of either case. -/
def hexDigit? (b : UInt8) : Option Nat :=
  if 0x30 ≤ b ∧ b ≤ 0x39 then some (b.toNat - 0x30)
  else if 0x61 ≤ b ∧ b ≤ 0x66 then some (b.toNat - 0x57)
  else if 0x41 ≤ b ∧ b ≤ 0x46 then some (b.toNat - 0x37)
  else none

/-- The values of the longest prefix of digits. -/
def readDigits : List UInt8 → List Nat
  | [] => []
  | b :: bs =>
    match hexDigit? b with
    | some d => d :: readDigits bs
    | none => []

/-- Drop a leading `0x` or `0X`. -/
def dropHexPrefix : List UInt8 → List UInt8
  | z :: x :: s => if z = 0x30 ∧ (x = 0x78 ∨ x = 0x58) then s else z :: x :: s
  | s => s

/-- `is >> std::hex >> n` for an unsigned `n` of `bits` bits, on a stream holding `s`; `none` when the
    stream has failed. A minus sign negates modulo `2 ^ bits`, as for the `strtoull` family. -/
def extractHex (bits : Nat) (s : List UInt8) : Option Nat :=
  let s := s.dropWhile isspace
  let negative := s.head? = some 0x2d
  let s := if s.head? = some 0x2d ∨ s.head? = some 0x2b then s.tail else s
  let digits := readDigits (dropHexPrefix s)
  let value := digits.foldl (fun acc d => 16 * acc + d) 0
  if digits = [] then none               -- no digit where one must stand: also `-`, `+` and `0x`
  else if 2 ^ bits ≤ value then none     -- out of range sets the fail bit, too
  else some (if negative then (2 ^ bits - value) % 2 ^ bits else value)

theorem hexDigit?_lt {b : UInt8} {d : Nat} (h : hexDigit? b = some d) : d < 16 := by
  unfold hexDigit? at h
  simp only [UInt8.le_iff_toNat_le] at h
  simp at h
  split at h
  · cases h; omega
  · split at h
    · cases h; omega
    · split at h
      · cases h; omega
      · cases h

theorem hexDigit?_digitByte {d : Nat} (h : d < 16) : hexDigit? (digitByte d) = some d := by
  interval_cases d <;> decide

/-- A byte that is no digit differs from every digit. -/
theorem ne_of_hexDigit? {b c : UInt8} {d : Nat} (h : hexDigit? b = some d)
    (hc : hexDigit? c = none) : b ≠ c := by
  intro he; subst he; rw [hc] at h; cases h

theorem isspace_of_hexDigit? {b : UInt8} {d : Nat} (h : hexDigit? b = some d) :
    isspace b = false := by
  by_contra hs
  simp only [isspace, Bool.not_eq_false, Bool.or_eq_true, beq_iff_eq, Bool.and_eq_true,
    decide_eq_true_eq, UInt8.le_iff_toNat_le] at hs
  rcases hs with hs | ⟨h9, h13⟩
  · subst hs; cases h
  · have h13' : b.toNat ≤ 13 := h13
    have hn : hexDigit? b = none := by
      unfold hexDigit?
      simp only [UInt8.le_iff_toNat_le]
      rw [if_neg, if_neg, if_neg] <;> simp <;> omega
    rw [hn] at h; cases h

/-- The two-byte texts that are read as a 64-bit number, with the number. -/
inductive HexPair : UInt8 → UInt8 → Nat → Prop
  | digits {h l a b} (ha : hexDigit? h = some a) (hb : hexDigit? l = some b) : HexPair h l (16 * a + b)
  | blank {h l b} (hs : isspace h = true) (hb : hexDigit? l = some b) : HexPair h l b
  | plus {l b} (hb : hexDigit? l = some b) : HexPair 0x2b l b
  | minus {l b} (hb : hexDigit? l = some b) : HexPair 0x2d l ((2 ^ 64 - b) % 2 ^ 64)
  | single {h l a} (ha : hexDigit? h = some a) (hl : hexDigit? l = none)
      (hx : ¬ (h = 0x30 ∧ (l = 0x78 ∨ l = 0x58))) : HexPair h l a

/-- **Two digits denote their value.** -/
theorem extractHex_digits {h l : UInt8} {a b : Nat} (ha : hexDigit? h = some a)
    (hb : hexDigit? l = some b) : extractHex 64 [h, l] = some (16 * a + b) := by
  have hminus : h ≠ 0x2d := ne_of_hexDigit? ha (by decide)
  have hplus : h ≠ 0x2b := ne_of_hexDigit? ha (by decide)
  have hx : ¬ (l = 0x78 ∨ l = 0x58) := by
    rintro (he | he)
    · exact ne_of_hexDigit? hb (by decide) he
    · exact ne_of_hexDigit? hb (by decide) he
  have hlt : ¬ 2 ^ 64 ≤ 16 * a + b := by
    have := hexDigit?_lt ha
    have := hexDigit?_lt hb
    omega
  simp [extractHex, isspace_of_hexDigit? ha, hminus, hplus, dropHexPrefix, hx, readDigits, ha, hb]
  omega

/-- A blank is skipped. -/
theorem extractHex_blank {h l : UInt8} (hs : isspace h = true) :
    extractHex 64 [h, l] = hexDigit? l := by
  cases hd : hexDigit? l with
  | none =>
      by_cases hl : isspace l = true
      · simp [extractHex, hs, hl, dropHexPrefix, readDigits]
      · by_cases hsign : l = 0x2d ∨ l = 0x2b
        · simp [extractHex, hs, hl, hsign, dropHexPrefix, readDigits]
        · simp [extractHex, hs, hl, hsign, dropHexPrefix, readDigits, hd]
  | some b =>
      have hlt := hexDigit?_lt hd
      have hminus : l ≠ 0x2d := ne_of_hexDigit? hd (by decide)
      have hplus : l ≠ 0x2b := ne_of_hexDigit? hd (by decide)
      simp [extractHex, hs, isspace_of_hexDigit? hd, hminus, hplus, dropHexPrefix, readDigits, hd]
      omega

/-- A plus sign is skipped. -/
theorem extractHex_plus (l : UInt8) : extractHex 64 [0x2b, l] = hexDigit? l := by
  have hs : isspace 0x2b = false := by decide
  cases hd : hexDigit? l with
  | none => simp [extractHex, hs, dropHexPrefix, readDigits, hd]
  | some b =>
      have hlt := hexDigit?_lt hd
      simp [extractHex, hs, dropHexPrefix, readDigits, hd]
      omega

/-- A minus sign negates. -/
theorem extractHex_minus (l : UInt8) :
    extractHex 64 [0x2d, l] = (hexDigit? l).map fun b => (2 ^ 64 - b) % 2 ^ 64 := by
  have hs : isspace 0x2d = false := by decide
  cases hd : hexDigit? l with
  | none => simp [extractHex, hs, dropHexPrefix, readDigits, hd]
  | some b =>
      have hlt := hexDigit?_lt hd
      simp [extractHex, hs, dropHexPrefix, readDigits, hd]
      omega

/-- A minus sign and a non-zero digit denote a size just below `2 ^ 64`. -/
theorem extractHex_negative {l : UInt8} {v : Nat} (hl : hexDigit? l = some v) (hv : 0 < v) :
    extractHex 64 [0x2d, l] = some (2 ^ 64 - v) := by
  rw [extractHex_minus, hl, Option.map_some, Nat.mod_eq_of_lt (by omega)]

theorem extractHex_noDigit {h l : UInt8} (hs : isspace h = false) (hplus : h ≠ 0x2b)
    (hminus : h ≠ 0x2d) (hh : hexDigit? h = none) : extractHex 64 [h, l] = none := by
  have hzero : h ≠ 0x30 := by rintro rfl; cases hh
  simp [extractHex, hs, hplus, hminus, dropHexPrefix, hzero, readDigits, hh]

/-- A digit counts alone if the byte behind it is none, unless they are a prefix without digits. -/
theorem extractHex_single {h l : UInt8} {a : Nat} (ha : hexDigit? h = some a)
    (hl : hexDigit? l = none) :
    extractHex 64 [h, l] = if h = 0x30 ∧ (l = 0x78 ∨ l = 0x58) then none else some a := by
  have hminus : h ≠ 0x2d := ne_of_hexDigit? ha (by decide)
  have hplus : h ≠ 0x2b := ne_of_hexDigit? ha (by decide)
  have hlt := hexDigit?_lt ha
  by_cases hx : h = 0x30 ∧ (l = 0x78 ∨ l = 0x58)
  · rw [if_pos hx]
    obtain ⟨rfl, rfl | rfl⟩ := hx <;> decide
  · simp [extractHex, isspace_of_hexDigit? ha, hminus, hplus, dropHexPrefix, hx, readDigits, ha, hl]
    omega

/-- **What is read from two bytes.** -/
theorem extractHex_two_iff {h l : UInt8} {n : Nat} : extractHex 64 [h, l] = some n ↔ HexPair h l n := by
  constructor
  · intro hn
    by_cases hs : isspace h = true
    · rw [extractHex_blank hs] at hn
      exact .blank hs hn
    · rw [Bool.not_eq_true] at hs
      by_cases hplus : h = 0x2b
      · subst hplus
        rw [extractHex_plus] at hn
        exact .plus hn
      · by_cases hminus : h = 0x2d
        · subst hminus
          rw [extractHex_minus] at hn
          obtain ⟨b, hb, rfl⟩ := Option.map_eq_some_iff.mp hn
          exact .minus hb
        · cases hh : hexDigit? h with
          | none => rw [extractHex_noDigit hs hplus hminus hh] at hn; cases hn
          | some a =>
              cases hl : hexDigit? l with
              | none =>
                  rw [extractHex_single hh hl] at hn
                  split at hn
                  · cases hn
                  · cases hn; exact .single hh hl ‹_›
              | some b =>
                  rw [extractHex_digits hh hl] at hn
                  cases hn; exact .digits hh hl
  · intro hpair
    cases hpair with
    | digits ha hb => exact extractHex_digits ha hb
    | blank hs hb => rw [extractHex_blank hs, hb]
    | plus hb => rw [extractHex_plus, hb]
    | minus hb => rw [extractHex_minus, hb]; rfl
    | single ha hl hx => rw [extractHex_single ha hl, if_neg hx]

/-- **Every value two bytes can denote** is below 256 or comes from a minus sign. -/
theorem extractHex_two_cases {h l : UInt8} {n : Nat} (hn : extractHex 64 [h, l] = some n) :
    n < 256 ∨ (h = 0x2d ∧ ∃ v, hexDigit? l = some v ∧ 0 < v ∧ n = 2 ^ 64 - v) := by
  cases extractHex_two_iff.mp hn with
  | digits ha hb =>
      have ha := hexDigit?_lt ha
      have hb := hexDigit?_lt hb
      exact Or.inl (by omega)
  | blank _ hb => exact Or.inl (Nat.lt_trans (hexDigit?_lt hb) (by decide))
  | plus hb => exact Or.inl (Nat.lt_trans (hexDigit?_lt hb) (by decide))
  | single ha _ _ => exact Or.inl (Nat.lt_trans (hexDigit?_lt ha) (by decide))
  | @minus _ b hb =>
      have hlt := hexDigit?_lt hb
      rcases Nat.eq_zero_or_pos b with rfl | hpos
      · exact Or.inl (by decide)
      · exact Or.inr ⟨rfl, b, hb, hpos, by omega⟩

/-- A digit in front denotes less than 256. -/
theorem extractHex_two_lt {d : Nat} (hd : d < 16) {l : UInt8} {n : Nat}
    (hn : extractHex 64 [digitByte d, l] = some n) : n < 256 := by
  rcases extractHex_two_cases hn with h | ⟨h, -⟩
  · exact h
  · exact absurd h (ne_of_hexDigit? (hexDigit?_digitByte hd) (by decide))

/-- The two-column text of a number below 256 reads back as the number. -/
theorem extractHex_hexText {n : Nat} (h : n < 256) : extractHex 64 (hexText 2 n) = some n := by
  rw [hexText_two h,
    extractHex_digits (hexDigit?_digitByte (by omega)) (hexDigit?_digitByte (by omega))]
  exact congrArg some (Nat.div_add_mod n 16)

end HexText
