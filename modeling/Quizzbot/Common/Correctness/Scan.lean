import Quizzbot.Common.Correctness.Incremental

/-!
# `Common.Correctness.Scan` — which frames the readers accept, and what the loop drops

The readers accept a byte sequence exactly if it starts with a frame (`read_accepts_iff`). The size field
of a frame is any two bytes that formatted extraction reads as the length of the content: two digits, but
also one digit with a blank or a sign in front of it or with another byte behind it (`HexPair`).

The loop of `protocol::parse` splits a buffer into what it drops and what it keeps. No byte that is dropped
starts a frame, whatever comes later, and what is kept starts with the frame that is returned, if one is
(`parse_split`). The message object that all attempts share leaves no trace, since decoding overwrites it.
-/

namespace Quizzbot

open HexText (HexPair extractHex extractHex_two_iff extractHex_minus hexDigit? hexDigit?_lt)

/-! ## The language of the readers -/

/-- `sync_parser::read`, with the naive codec, returns `PARSE_OK` at the front of `s`. -/
def Accepts (msg : Command) (s : Packet) : Prop :=
  ∃ msg' it, SyncParser.read naiveCommandProtocol msg ⟨s, 0⟩ s.length = .ok (.parseOk, msg', it)

theorem accepts_iff_front {msg : Command} {s : Packet} :
    Accepts msg s ↔ ∃ c tail, front s = .body c tail ∧ checksumCode c tail = .parseOk := by
  unfold Accepts
  cases hf : front s with
  | short =>
      obtain ⟨it, hr⟩ := read_short naiveCommandProtocol msg hf
      simp [hr]
  | noise =>
      obtain ⟨it, hr⟩ := read_noise naiveCommandProtocol msg hf
      simp [hr]
  | body c tail =>
      obtain ⟨it, hr, -⟩ := read_body naiveCommandProtocol msg hf
      have hdec : naiveCommandProtocol.parse msg c = .ok (NaiveCommandProtocol.parse msg c) := rfl
      rw [hr, hdec, ok_bind]
      simp

/-- **The readers accept exactly the frames**: the sync bytes, two bytes that are read as the length of the
    content, the content, and its checksum. In a buffer that fits in memory a minus sign is accepted in
    front of a zero only. -/
theorem read_accepts_iff (msg : Command) (s : Packet) :
    (Accepts msg s ↔ ∃ h l content k₁ k₂ rest,
      s = 0x01 :: 0x02 :: h :: l :: (content ++ k₁ :: k₂ :: rest) ∧ HexPair h l content.length ∧
        [k₁, k₂] = checksumText content) ∧
    (Accepts msg s → s.length < 2 ^ 63 → ∀ l v rest, s = 0x01 :: 0x02 :: 0x2d :: l :: rest →
      hexDigit? l = some v → v = 0) := by
  have hiff : Accepts msg s ↔ ∃ h l content k₁ k₂ rest,
      s = 0x01 :: 0x02 :: h :: l :: (content ++ k₁ :: k₂ :: rest) ∧ HexPair h l content.length ∧
        [k₁, k₂] = checksumText content := by
    rw [accepts_iff_front]
    constructor
    · rintro ⟨c, tail, hf, hcode⟩
      obtain ⟨h, l, rfl, hx⟩ := front_eq_body_iff.mp hf
      obtain ⟨k₁, k₂, rest, rfl, hk⟩ := checksumCode_parseOk_iff.mp hcode
      exact ⟨h, l, c, k₁, k₂, rest, rfl, extractHex_two_iff.mp hx, hk⟩
    · rintro ⟨h, l, c, k₁, k₂, rest, rfl, hx, hk⟩
      exact ⟨c, k₁ :: k₂ :: rest, front_eq_body_iff.mpr ⟨h, l, rfl, extractHex_two_iff.mpr hx⟩,
        checksumCode_parseOk_iff.mpr ⟨k₁, k₂, rest, rfl, hk⟩⟩
  refine ⟨hiff, ?_⟩
  intro hacc hlen l v rest hs hv
  obtain ⟨h, l', c, k₁, k₂, rest', hs', hpair, -⟩ := hiff.mp hacc
  rw [hs'] at hs hlen
  injection hs with _ hs
  injection hs with _ hs
  injection hs with hh hs
  injection hs with hl _
  subst hh hl
  -- the content would have `2 ^ 64 - v` bytes
  have hx := extractHex_two_iff.mpr hpair
  rw [extractHex_minus, hv, Option.map_some, Option.some.injEq] at hx
  have hlt := hexDigit?_lt hv
  simp only [List.length_cons, List.length_append] at hlen
  omega

/-- The grammar with two digits for the size. -/
def TwoDigitFrame (s : Packet) : Prop :=
  ∃ h l a b content k₁ k₂ rest, s = 0x01 :: 0x02 :: h :: l :: (content ++ k₁ :: k₂ :: rest) ∧
    hexDigit? h = some a ∧ hexDigit? l = some b ∧ content.length = 16 * a + b ∧
    [k₁, k₂] = checksumText content

/-- A blank and the digit 1 as the size of the content `B`. -/
def blankSize : Packet := [0x01, 0x02, 0x20, 0x31, 0x42, 0x34, 0x32]

theorem not_twoDigitFrame_blankSize : Accepts {} blankSize ∧ ¬ TwoDigitFrame blankSize := by
  refine ⟨⟨_, _, rfl⟩, ?_⟩
  rintro ⟨h, l, a, b, content, k₁, k₂, rest, hs, ha, -⟩
  injection hs with _ hs
  injection hs with _ hs
  injection hs with hh _
  subst hh
  cases ha

/-! ## The loop -/

/-- Where a byte was dropped no frame starts, whatever comes later. -/
theorem not_accepts_of_reject {s : Packet}
    (h : (protocolReader naiveCommandProtocol).read s = .reject) (msg : Command) (c : Packet) :
    ¬ Accepts msg (s ++ c) := by
  have hstable : (protocolReader naiveCommandProtocol).read (s ++ c) = .reject := by
    rw [(protocolReader naiveCommandProtocol).stable (by rw [h]; simp), h]
  rw [accepts_iff_front]
  rintro ⟨content, tail, hf, hcode⟩
  rcases (rejected_marks naiveCommandProtocol).of_reject hstable with hno | ⟨c', tail', hf', hbad⟩
  · rw [hf] at hno; cases hno
  · rw [hf] at hf'
    cases hf'
    rw [hcode] at hbad; cases hbad

/-- **Exact behaviour of the scan.** -/
theorem parse_split (b : Packet) : ∃ dropped kept, b = dropped ++ kept ∧
    (∀ pre s, dropped = pre ++ s → s ≠ [] → ∀ msg c, ¬ Accepts msg (s ++ kept ++ c)) ∧
    ((Protocol.parse naiveCommandProtocol b = .ok (none, kept) ∧ (kept = [] → b = [])) ∨
      ∃ frame rest h l n content k₁ k₂, kept = frame ++ rest ∧
        Protocol.parse naiveCommandProtocol b = .ok (some (NaiveCommandProtocol.parse {} content), rest) ∧
        frame = 0x01 :: 0x02 :: h :: l :: (content ++ [k₁, k₂]) ∧ extractHex 64 [h, l] = some n ∧
        content.length = n ∧ [k₁, k₂] = checksumText content ∧ frame.length = 6 + n) := by
  obtain ⟨⟨m?, r⟩, hparse⟩ := naive_total b
  have hscan := hparse
  rw [parse_eq_scan naive_overwrites] at hscan
  obtain ⟨dropped, kept, rfl, hdropped, hkept⟩ := Resync.scan_split hscan
  refine ⟨dropped, kept, rfl, ?_, ?_⟩
  · intro pre s hsplit hne msg c
    exact not_accepts_of_reject (hdropped pre s hsplit hne) msg c
  · rcases hkept with ⟨rfl, rfl⟩ | ⟨m, n, rfl, hread, rfl⟩
    · refine Or.inl ⟨hparse, ?_⟩
      intro hnil
      subst hnil
      -- the last byte of a buffer is not enough to be rejected
      rcases List.eq_nil_or_concat' dropped with rfl | ⟨pre, x, rfl⟩
      · rfl
      · have hlast := hdropped pre [x] rfl (by simp)
        cases hlast
    · obtain ⟨c, tail, m', hf, hcode, hdec, hcopy, rfl⟩ := verdict_accept
        (show verdict naiveCommandProtocol kept = .accept m n from hread)
      obtain ⟨h, l, rfl, hx⟩ := front_eq_body_iff.mp hf
      obtain ⟨k₁, k₂, rest, rfl, hchecksum⟩ := checksumCode_parseOk_iff.mp hcode
      rw [drop_frame hf] at hparse
      cases hdec
      cases hcopy
      refine Or.inr ⟨0x01 :: 0x02 :: h :: l :: (c ++ [k₁, k₂]), rest, h, l, c.length, c, k₁, k₂, ?_, hparse,
        rfl, hx, rfl, hchecksum, ?_⟩
      · simp
      · simp only [List.length_cons, List.length_append, List.length_nil]; omega

end Quizzbot
