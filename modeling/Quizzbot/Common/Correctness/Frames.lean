import Quizzbot.Common.Correctness.RoundTrip
import Quizzbot.Lib.Framing

/-!
# `Common.Correctness.Frames` — packets are frames of the stream

What `protocol::pack` makes of a message that fits is a frame in the sense of `Lib.Framing`: `protocol::parse`
finds it whatever is behind it, and keeps all of it as long as a byte is missing.
-/

namespace Quizzbot

open PullParser (Frames)

/-- **A packet is a frame of its message**, for any faithful codec. -/
theorem frames_of_faithful {Msg : Type} {T : Codec Msg} (hT : T.Overwrites) {m : Msg} (hm : T.Faithful m) :
    ∃ p, Protocol.pack T m = .ok p ∧ Frames (Protocol.parse T) m p := by
  obtain ⟨p, hpack, hparse⟩ := parse_frame hm
  obtain ⟨c, hc, hlen, -, -⟩ := hm
  obtain ⟨p', hpack', hfront⟩ := pack_frame hc hlen
  rw [hpack] at hpack'
  cases hpack'
  refine ⟨_, hpack, ?_⟩
  rw [parse_eq_scan hT] at hparse ⊢
  have hfirst := hfront []
  have hscan := hparse []
  rw [List.append_nil] at hfirst hscan
  apply PullParser.frames_of_read _ hscan
  intro hreject
  -- the front is a content with its own checksum, which is not passed over
  rcases (rejected_marks T).of_reject hreject with hnoise | ⟨c', tail, hbody, hbad⟩
  · rw [hfirst] at hnoise; cases hnoise
  · rw [hfirst] at hbody
    cases hbody
    rw [checksumCode_checksumText hlen] at hbad
    cases hbad

/-- The content of the message fits in a frame. -/
def Fits (m : Message) : Prop := ∀ d, m.data_ = some d → d.packedSize ≤ 255

instance (m : Message) : Decidable (Fits m) :=
  match h : m.data_ with
  | none => .isTrue (by intro d hd; rw [h] at hd; cases hd)
  | some d => decidable_of_iff (d.packedSize ≤ 255) (by simp [Fits, h])

/-- What was packed for a message that fits, of an object and no longer than a frame can be. -/
theorem content_of_fits {mp : Msgpack} (hmp : mp.Sized) {m : Message} {p : Packet}
    (hp : Protocol.pack (messageCodec mp) m = .ok p) (hm : Fits m) :
    ∃ d c, m.data_ = some d ∧ m.pack mp = .ok c ∧ c.length ≤ 255 := by
  obtain ⟨c, hc⟩ := content_of_pack hp
  cases hd : m.data_ with
  | none =>
      unfold Message.pack at hc
      simp only [hd] at hc
      cases hc
  | some d =>
      have hlen : c.length = d.packedSize := by
        rw [Message.eq_ofData hd] at hc
        exact Message.pack_length hmp hc
      exact ⟨d, c, rfl, hc, hlen ▸ hm d hd⟩

/-- **What the client and the server write** are frames, as long as the messages fit. -/
theorem frames_of_pack {mp : Msgpack} (hlaw : mp.Lawful) (hmp : mp.Sized) {m : Message} {p : Packet}
    (hp : Protocol.pack (messageCodec mp) m = .ok p) (hm : Fits m) :
    Frames (Protocol.parse (messageCodec mp)) m p := by
  obtain ⟨d, c, hd, hc, hlen⟩ := content_of_fits hmp hp hm
  have hfaithful := message_faithful hlaw hd hc hlen
  obtain ⟨p', hp', hframe⟩ := frames_of_faithful (messageCodec_overwrites mp) hfaithful
  rw [hp] at hp'
  cases hp'
  exact hframe

/-- No frame is longer than its header, 255 bytes, and the checksum. -/
theorem packet_length {mp : Msgpack} (hmp : mp.Sized) {m : Message} {p : Packet}
    (hp : Protocol.pack (messageCodec mp) m = .ok p) (hm : Fits m) : p.length ≤ 261 := by
  obtain ⟨d, c, -, hc, hlen⟩ := content_of_fits hmp hp hm
  rw [pack_header_trailer (show (messageCodec mp).pack m = .ok c from hc)] at hp
  cases hp
  simp only [header, trailer, List.length_append, List.length_cons, List.length_nil]
  omega

end Quizzbot
