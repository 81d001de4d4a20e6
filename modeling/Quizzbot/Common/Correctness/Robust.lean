import Quizzbot.Common.Correctness.MessageCodec
import Quizzbot.Lib.MsgpackFormat

/-!
# `Common.Correctness.Robust` — when `message_protocol::parse` returns

`content_parser` decodes a candidate's content before it looks at the checksum, and what the MessagePack
library throws, or the assertion of `create_data`, goes through `protocol::parse` to its caller. So the
parser returns exactly if every candidate it gets to has a content that can be decoded
(`parse_tolerant_iff`).
-/

namespace Quizzbot

open Resync (Reached)

variable {mp : Msgpack}

/-- `Message::unpack` returns on this content. -/
def Decodable (mp : Msgpack) (c : Packet) : Prop := ∃ m, Message.unpack mp .new c = .ok m

/-- The reader fails exactly at a candidate that cannot be decoded: copying what was decoded does not
    fail. -/
theorem message_fail_iff (hlaw : mp.Lawful) (hmp : mp.Sized) {s : Packet} :
    (∃ e, (protocolReader (messageCodec mp)).read s = .fail e) ↔
      ∃ c tail, front s = .body c tail ∧ ¬ Decodable mp c := by
  show (∃ e, verdict (messageCodec mp) s = .fail e) ↔ _
  cases hf : front s with
  | short => simp [verdict, hf]
  | noise => simp [verdict, hf]
  | body c tail =>
      have hdec : Decodable mp c ↔ ∃ m, (messageCodec mp).parse (messageCodec mp).new c = .ok m :=
        Iff.rfl
      simp only [verdict, hf, Front.body.injEq]
      constructor
      · rintro ⟨e, he⟩
        refine ⟨c, tail, ⟨rfl, rfl⟩, ?_⟩
        intro hd
        obtain ⟨m, hm⟩ := hdec.mp hd
        -- what was decoded can be packed, so the copy that `protocol::parse` returns can be made
        obtain ⟨d, p, rfl, hpack, -, -⟩ :=
          Message.unpack_shrinks hlaw hmp (show Message.unpack mp .new c = .ok m from hm)
        have hcopy : (messageCodec mp).copy (.ofData d) = .ok (.ofData d) :=
          Message.copy_eq hlaw hpack
        rw [hm] at he
        cases hcode : checksumCode c tail <;> simp [bodyVerdict, hcode, hcopy] at he
      · rintro ⟨c', tail', ⟨rfl, rfl⟩, hd⟩
        cases hm : (messageCodec mp).parse (messageCodec mp).new c with
        | error e => exact ⟨e, rfl⟩
        | ok m => exact absurd (hdec.mpr ⟨m, hm⟩) hd

/-- What is asked of the parser on a buffer: it returns, and it drops the first byte of a candidate that
    cannot be decoded, as it does for a wrong checksum. -/
structure Tolerant (mp : Msgpack) (b : Packet) : Prop where
  returns  : ∃ res, Protocol.parse (messageCodec mp) b = .ok res
  discards : ∀ s c tail, Reached Rejected b s → front s = .body c tail → ¬ Decodable mp c →
    Protocol.parse (messageCodec mp) b = Protocol.parse (messageCodec mp) s.tail

/-- The parser returns only if it gets to no candidate that cannot be decoded. -/
theorem decodable_of_returns (hlaw : mp.Lawful) (hmp : mp.Sized) {b : Packet}
    (h : ∃ res, Protocol.parse (messageCodec mp) b = .ok res) {s c tail : Packet}
    (hs : Reached Rejected b s) (hf : front s = .body c tail) : Decodable mp c := by
  by_contra hd
  rw [parse_eq_scan (messageCodec_overwrites mp)] at h
  obtain ⟨e, he⟩ := (message_fail_iff hlaw hmp).mpr ⟨c, tail, hf, hd⟩
  exact (Resync.scan_ok_iff (rejected_marks _)).mp h s hs e he

/-- **The parser tolerates a buffer exactly if every candidate it gets to can be decoded**, whatever its
    checksum. -/
theorem parse_tolerant_iff (hlaw : mp.Lawful) (hmp : mp.Sized) (b : Packet) :
    Tolerant mp b ↔
      ∀ s c tail, Reached Rejected b s → front s = .body c tail → Decodable mp c := by
  constructor
  · intro h s c tail hs hf
    exact decodable_of_returns hlaw hmp h.returns hs hf
  · intro hcond
    constructor
    · rw [parse_eq_scan (messageCodec_overwrites mp)]
      apply (Resync.scan_ok_iff (rejected_marks _)).mpr
      intro s hs e he
      obtain ⟨c, tail, hf, hd⟩ := (message_fail_iff hlaw hmp).mp ⟨e, he⟩
      exact hd (hcond s c tail hs hf)
    · intro s c tail hs hf hd
      exact absurd (hcond s c tail hs hf) hd

/-- A join acknowledgement: the parser gets to one candidate, and decodes it. -/
theorem parse_tolerant_iff_joinAck :
    Tolerant Msgpack.reference [0x01, 0x02, 0x30, 0x31, 0x03, 0x30, 0x33] := by
  have hfront : front [0x01, 0x02, 0x30, 0x31, 0x03, 0x30, 0x33] = .body [0x03] [0x30, 0x33] := by decide
  refine (parse_tolerant_iff Msgpack.reference_lawful Msgpack.reference_sized _).mpr ?_
  intro s c tail hs hf
  cases hs with
  | here =>
      rw [hfront] at hf; cases hf
      exact ⟨.ofData .joinAckMessage, by decide⟩
  | skip hrej _ =>
      rcases hrej with hf' | ⟨c', tail', hf', hcode⟩ <;> rw [hfront] at hf' <;> cases hf'
      exact absurd hcode (by decide)

/-- An empty content, on which the library throws, and a content of a type that names no class, on which
    the assertion fails; neither candidate has a checksum yet. -/
theorem not_tolerant_malformed :
    ¬ Tolerant Msgpack.reference [0x01, 0x02, 0x30, 0x30] ∧
    ¬ Tolerant Msgpack.reference [0x01, 0x02, 0x30, 0x31, 0x07] := by
  constructor
  · rintro ⟨⟨res, h⟩, -⟩
    have herr : Protocol.parse (messageCodec Msgpack.reference) [0x01, 0x02, 0x30, 0x30]
        = .error (.msgpack .insufficientBytes) := by decide
    rw [herr] at h; cases h
  · rintro ⟨⟨res, h⟩, -⟩
    have herr : Protocol.parse (messageCodec Msgpack.reference) [0x01, 0x02, 0x30, 0x31, 0x07]
        = .error .assertion := by decide
    rw [herr] at h; cases h

end Quizzbot
