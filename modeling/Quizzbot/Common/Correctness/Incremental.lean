import Quizzbot.Common.Correctness.Front

/-!
# `Common.Correctness.Incremental` — the naive protocol on arbitrary bytes

The naive codec never fails, so its parser drains every buffer. Because parsing is incremental, draining
a stream in two parts finds what draining it at once finds (`drain_append`).

What the parser keeps when it finds nothing is a suffix at which the readers wait. Which suffixes these
are depends on the sizes that two bytes can denote: all below 256, except that a minus sign and a digit
denote a size just below `2 ^ 64`. So the parser keeps fewer than 261 bytes exactly if it gets to no such
header (`kept_lt_iff`).
-/

namespace Quizzbot

open HexText (extractHex hexDigit? extractHex_two_cases extractHex_negative)
open PullParser (drain Drains)
open Resync (Reached)

/-! ## The naive parser is total -/

theorem naive_ne_fail (s : Packet) (e : Fault) :
    (protocolReader naiveCommandProtocol).read s ≠ .fail e := by
  intro h
  simp only [protocolReader, verdict, naiveCommandProtocol] at h
  -- whatever the front is, decoding and copying a command succeed
  cases hf : front s with
  | short => simp [hf] at h
  | noise => simp [hf] at h
  | body c tail => cases hcode : checksumCode c tail <;> simp [hf, bodyVerdict, hcode] at h

theorem naive_overwrites : naiveCommandProtocol.Overwrites := fun _ _ _ => rfl

theorem naive_total (b : Packet) : ∃ res, Protocol.parse naiveCommandProtocol b = .ok res := by
  rw [parse_eq_scan naive_overwrites]
  apply (Resync.scan_ok_iff (rejected_marks _)).mpr
  intro s _ e
  exact naive_ne_fail s e

theorem naive_incremental : PullParser.Incremental (Protocol.parse naiveCommandProtocol) :=
  parse_incremental naive_overwrites

/-- **Incremental parsing equals one-shot parsing.** -/
theorem drain_append (b c : Packet) :
    ∃ ms r ms' r', drain (Protocol.parse naiveCommandProtocol) b = .ok (ms, r) ∧
      drain (Protocol.parse naiveCommandProtocol) (r ++ c) = .ok (ms', r') ∧
      drain (Protocol.parse naiveCommandProtocol) (b ++ c) = .ok (ms ++ ms', r') := by
  have hp := naive_incremental
  obtain ⟨ms, r, hd⟩ := PullParser.exists_drains hp naive_total b
  obtain ⟨ms', r', hd'⟩ := PullParser.exists_drains hp naive_total (r ++ c)
  exact ⟨ms, r, ms', r', (PullParser.drain_eq_ok_iff hp).mpr hd,
    (PullParser.drain_eq_ok_iff hp).mpr hd', (PullParser.drain_eq_ok_iff hp).mpr (hd.append hp hd')⟩

/-- Noise that hides half a header, completed by the second part of the stream. -/
example : drain (Protocol.parse naiveCommandProtocol) ([0x01, 0x01] ++ [0x02, 0x30, 0x31, 0x42, 0x34, 0x32])
    = .ok ([⟨.joinNack, []⟩], []) := by decide

/-! ## What is kept -/

/-- The readers wait at the front of `s`. -/
def Waits (s : Packet) : Prop :=
  front s = .short ∨ ∃ c tail, front s = .body c tail ∧ checksumCode c tail = .notEnough

theorem naive_wait_iff {s : Packet} :
    (protocolReader naiveCommandProtocol).read s = .wait ↔ Waits s := by
  show verdict naiveCommandProtocol s = .wait ↔ _
  cases hf : front s with
  | short => simp [verdict, Waits, hf]
  | noise => simp [verdict, Waits, hf]
  | body c tail =>
      cases hcode : checksumCode c tail <;>
        simp [verdict, Waits, hf, hcode, bodyVerdict, naiveCommandProtocol]

/-- A checksum is missing if fewer than two bytes follow the content. -/
theorem checksumCode_notEnough_iff {c tail : Packet} :
    checksumCode c tail = .notEnough ↔ tail.length < 2 := by
  match tail with
  | [] => simp [checksumCode]
  | [_] => simp [checksumCode]
  | k₁ :: k₂ :: rest =>
    constructor
    · simp only [checksumCode]; split <;> simp
    · intro h; simp only [List.length_cons] at h; omega

/-- **Where the readers wait**: in front of less than a header, or of a header whose frame is not yet
    complete. -/
theorem waits_header_iff {h l : UInt8} {rest : Packet} :
    Waits (0x01 :: 0x02 :: h :: l :: rest) ↔ ∃ n, extractHex 64 [h, l] = some n ∧ rest.length < n + 2 := by
  have hfront : front (0x01 :: 0x02 :: h :: l :: rest) = sizeFront (h :: l :: rest) := by
    rw [front, if_neg (by simp)]
  rw [Waits, hfront, sizeFront]
  cases hx : extractHex 64 [h, l] with
  | none => simp
  | some n =>
      by_cases hn : rest.length < n
      · simp [hn]; omega
      · simp [hn, checksumCode_notEnough_iff]; omega

theorem waits_cases {s : Packet} (h : Waits s) :
    s.length < 4 ∨ ∃ hi lo rest, s = 0x01 :: 0x02 :: hi :: lo :: rest := by
  have hb := begins s
  rcases h with hf | ⟨c, tail, hf, -⟩
  · rw [hf] at hb
    cases hb with
    | noSync hlen => exact Or.inl (by omega)
    | noSize hlen => exact Or.inl (by simp only [List.length_cons]; omega)
    | cut _ _ => exact Or.inr ⟨_, _, _, rfl⟩
  · rw [hf] at hb
    cases hb with
    | frame _ => exact Or.inr ⟨_, _, _, rfl⟩

/-- A header with a negative size, and the frame it announces is not complete. -/
def NegativeHeader (s : Packet) : Prop :=
  ∃ l v rest, s = 0x01 :: 0x02 :: 0x2d :: l :: rest ∧ hexDigit? l = some v ∧ 0 < v ∧
    rest.length < 2 ^ 64 - v + 2

theorem waits_of_negativeHeader {s : Packet} (h : NegativeHeader s) : Waits s := by
  obtain ⟨l, v, rest, rfl, hl, hv, hlen⟩ := h
  exact waits_header_iff.mpr ⟨_, extractHex_negative hl hv, hlen⟩

/-- **Waiting in front of more than a maximal frame** takes a negative size. -/
theorem negativeHeader_of_waits {s : Packet} (h : Waits s) (hlen : 261 ≤ s.length) :
    NegativeHeader s := by
  rcases waits_cases h with hlt | ⟨hi, lo, rest, rfl⟩
  · omega
  · obtain ⟨n, hx, hn⟩ := waits_header_iff.mp h
    simp only [List.length_cons] at hlen
    -- a size below 256 would have let the frame end inside the packet
    rcases extractHex_two_cases hx with hlt | ⟨rfl, v, hv, hpos, rfl⟩
    · omega
    · exact ⟨lo, v, rest, rfl, hv, hpos, hn⟩

/-- What the parser keeps when it finds nothing has fewer bytes than a maximal frame. -/
def KeepsLittle (b : Packet) : Prop :=
  ∀ r, Protocol.parse naiveCommandProtocol b = .ok (none, r) → r.length < 261

theorem not_keepsLittle {b s : Packet} (hs : Reached Rejected b s) (hneg : NegativeHeader s)
    (hlen : 261 ≤ s.length) : ¬ KeepsLittle b := by
  intro hk
  have hwait := naive_wait_iff.mpr (waits_of_negativeHeader hneg)
  have hscan := Resync.scan_of_reached (rejected_marks _) hs hwait naive_ne_fail
  rw [← parse_eq_scan naive_overwrites] at hscan
  exact absurd (hk s hscan) (Nat.not_lt.mpr hlen)

/-- **No header blocks the parser** for more than one maximal frame, exactly if it gets to no header with
    a negative size and 257 bytes behind it. -/
theorem kept_lt_iff (b : Packet) :
    KeepsLittle b ↔ ∀ s, Reached Rejected b s → NegativeHeader s → s.length < 261 := by
  constructor
  · intro hk s hs hneg
    by_contra hlen
    exact not_keepsLittle hs hneg (Nat.le_of_not_lt hlen) hk
  · intro hcond r hr
    rw [parse_eq_scan naive_overwrites] at hr
    rcases Resync.scan_none_cases (rejected_marks _) hr with rfl | ⟨hs, hwait⟩
    · decide
    · by_contra hlen
      have hneg := negativeHeader_of_waits (naive_wait_iff.mp hwait) (Nat.le_of_not_lt hlen)
      exact hlen (hcond r hs hneg)

/-- A size of `-1`, and 257 bytes behind the header. -/
theorem not_keepsLittle_negative :
    ¬ KeepsLittle (0x01 :: 0x02 :: 0x2d :: 0x31 :: List.replicate 257 0x41) :=
  not_keepsLittle .here ⟨0x31, 1, List.replicate 257 0x41, rfl, by decide, by decide,
    by rw [List.length_replicate]; decide⟩ (by simp only [List.length_cons, List.length_replicate]; decide)

end Quizzbot
