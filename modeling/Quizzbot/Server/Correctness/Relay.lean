import Quizzbot.Common.Correctness.RoundTrip
import Quizzbot.Server.Correctness.Chat
import Quizzbot.Server.Correctness.Game

/-!
# `Server.Correctness.Relay` — what the room makes of a message

A relayed message is decoded and encoded again. The sender may have used longer forms than the server
does, but never shorter ones, so what fitted in a frame once fits again and reads back the same
(`relay_transparent`).

What is inside the message is not looked at: the room hands on the `from` that the client wrote, while the
name of the connection only goes into the event for the game (`relay_from`).
-/

namespace Quizzbot

open HexText (extractHex_two_cases hexDigit?_lt)
open LabelledRun (Run)

variable {mp : Msgpack}

/-! ## Encoding again -/

/-- The frame of a message found in a buffer that fits in memory has a size of two digits. -/
theorem packedSize_le_of_parsed (hlaw : mp.Lawful) (hmp : mp.Sized) {b r : Packet} {d : MessageData}
    (hb : b.length < 2 ^ 32) (h : Protocol.parse (messageCodec mp) b = .ok (some (.ofData d), r)) :
    d.packedSize ≤ 255 := by
  obtain ⟨pre, s, c, tail, rfl, hf, -, hle⟩ := packedSize_le_content hlaw hmp h
  obtain ⟨hi, lo, rfl, hx⟩ := front_eq_body_iff.mp hf
  simp only [List.length_append, List.length_cons] at hb
  rcases extractHex_two_cases hx with hlt | ⟨-, v, hv, -, hn⟩
  · omega
  · -- a negative size announces more bytes than there are
    have hv16 := hexDigit?_lt hv
    omega

/-- **Relaying is transparent**: whatever encoding a `MESSAGE` was parsed from, the packet `send_command`
    makes of it has a content that fits, and it is parsed as the same message. -/
theorem relay_transparent (hlaw : mp.Lawful) (hmp : mp.Sized) {b r : Packet} {m : Message}
    (hb : b.length < 2 ^ 32) (h : Protocol.parse (messageCodec mp) b = .ok (some m, r))
    (hm : m.messageType = .message) :
    ∃ text sender content packet, m = .ofData (.messageMessage text sender) ∧
      m.pack mp = .ok content ∧ content.length ≤ 255 ∧
      (∀ c, sendCommand mp c m = .ok [.asyncWrite c m packet]) ∧
      Protocol.parse (messageCodec mp) packet = .ok (some (.ofData (.messageMessage text sender)), []) := by
  obtain ⟨d, content, rfl, hcontent, -⟩ := parse_message hlaw h
  obtain ⟨text, sender, rfl⟩ := MessageData.eq_messageMessage hm
  have hsize := packedSize_le_of_parsed hlaw hmp hb h
  obtain ⟨⟨packet, hpacket, hparse⟩, -⟩ := roundTrips_of_packedSize_le hlaw hmp
    (m := .ofData (.messageMessage text sender)) rfl hsize
  refine ⟨text, sender, content, packet, rfl, hcontent, ?_, ?_, hparse⟩
  · rw [Message.pack_length hmp hcontent]; exact hsize
  · intro c
    rw [sendCommand, hpacket]; rfl

/-- The text `h` of the player `a`, with the type in two bytes, the text as `str 8`, the sender as
    `bin 8`, and a byte after the fields. -/
def wideMessage : Packet :=
  [0x01, 0x02, 0x30, 0x39, 0xcc, 0x00, 0xd9, 0x01, 0x68, 0xc4, 0x01, 0x61, 0xff, 0x33, 0x37]

theorem relay_transparent_wide : ∃ packet,
    (∀ c, sendCommand Msgpack.reference c (.ofData (.messageMessage [0x68] [0x61]))
      = .ok [.asyncWrite c (.ofData (.messageMessage [0x68] [0x61])) packet]) ∧
    Protocol.parse (messageCodec Msgpack.reference) packet
      = .ok (some (.ofData (.messageMessage [0x68] [0x61])), []) := by
  have hparse : Protocol.parse (messageCodec Msgpack.reference) wideMessage
      = .ok (some (.ofData (.messageMessage [0x68] [0x61])), []) := by decide
  obtain ⟨_, _, _, packet, hm, -, -, hsend, hback⟩ :=
    relay_transparent Msgpack.reference_lawful Msgpack.reference_sized (by decide) hparse rfl
  rw [← hm] at hback
  exact ⟨packet, hsend, hback⟩

/-! ## Who speaks -/

/-- Every `MESSAGE` sent carries as its sender the name of the connection it was parsed on. -/
def Authentic (s : Server) (t : List Record) : Prop :=
  ∀ r ∈ t, ∀ x ∈ sent r.effects, ∀ text sender, x.2 = .ofData (.messageMessage text sender) →
    sender = s.name r.event.conn

/-- What is known of a record whose step sent the `MESSAGE` `m` to `p`, where `s` is any later state: `m`
    is what was parsed, and only the event for the game tells whose connection it was. -/
def Relayed (s : Server) (r : Record) (p : ConnId) (m : Message) : Prop :=
  ∃ text sender, m = .ofData (.messageMessage text sender) ∧ r.parsed = some m ∧
    r.name ≠ [] ∧ s.name r.event.conn = r.name ∧ p ≠ r.event.conn ∧
    pushed r.effects = [⟨s.name r.event.conn, m⟩]

theorem relayed_step (hmp : mp.Lawful) {s s' : Server} {r : Record} (h : s.Step mp r s')
    {x : ConnId × Message} (hx : x ∈ sent r.effects) (hm : x.2.messageType = .message) :
    Relayed s' r x.1 x.2 := by
  rcases sent_step hmp h hx with ⟨-, -, hack | hnack⟩ | ⟨hname, hother, hparsed, -⟩
  · rw [hm] at hack; cases hack
  · rw [hm] at hnack; cases hnack
  · rcases (step_cases hmp h).view with ⟨hp, -, -⟩ | ⟨c, bytes, m, he, hp, hn, hdisp⟩
    · rw [hparsed] at hp; cases hp
    · have hsame : m = x.2 := by rw [hparsed] at hp; exact (Option.some.inj hp).symm
      obtain ⟨rest, hparse⟩ := ((step_cases hmp h).parsed_iff he).mp hp
      obtain ⟨d, -, hd, -⟩ := parse_message hmp hparse
      rw [hsame] at hd hdisp
      rw [hd] at hm
      obtain ⟨text, sender, rfl⟩ := MessageData.eq_messageMessage hm
      -- the connection keeps the name it had, and the event is stamped with it
      have hstay : s'.name c = s.name c := hdisp.name_eq (by rw [← hn]; exact hname)
      have hconn : r.event.conn = c := by rw [he]; rfl
      refine ⟨text, sender, hd, hparsed, hname, by rw [hconn, hstay, hn], hother, ?_⟩
      rw [hconn, pushed_dispatched hdisp, if_neg (by rw [hstay, ← hn]; exact hname)]

/-- **The room hands on what it was given**: in every run, a `MESSAGE` that is sent is, unchanged, the one
    parsed in that step on another connection, which has a name; what it says about its sender is what the
    client on that connection wrote. The event pushed for the game is stamped with the connection's name. -/
theorem relay_from (hmp : mp.Lawful) {s : Server} {t : List Record}
    (h : Run (Server.Step mp) Server.init t s) :
    ∀ r ∈ t, ∀ x ∈ sent r.effects, x.2.messageType = .message → Relayed s r x.1 x.2 := by
  induction h with
  | refl => intro r hr; cases hr
  | tail _ hstep ih =>
      intro r hr x hx hm
      rcases List.mem_append.mp hr with hr | hr
      · obtain ⟨text, sender, hmsg, hp, hne, hname, hother, hpushed⟩ := ih r hr x hx hm
        have hsame := name_step hmp hstep (c := r.event.conn) (by rw [hname]; exact hne)
        exact ⟨text, sender, hmsg, hp, hne, by rw [hsame, hname], hother, by rw [hsame]; exact hpushed⟩
      · rw [List.mem_singleton.mp hr] at hx ⊢
        exact relayed_step hmp hstep hx hm

/-- Player `a` speaks as `b`. -/
def forged : Event := .read 0 [0x01, 0x02, 0x30, 0x35, 0x00, 0xa1, 0x68, 0xa1, 0x62, 0x30, 0x65]

theorem exec_forged : ∃ s t, Server.init.exec Msgpack.reference (twoPlayers ++ [forged]) = .ok (s, t) ∧
    s.name 0 = [0x61] ∧ ∃ r ∈ t, r.event.conn = 0 ∧
      (1, .ofData (.messageMessage [0x68] [0x62])) ∈ sent r.effects := by
  have hrun : (Server.init.exec Msgpack.reference (twoPlayers ++ [forged])).toOption.map
      (fun x => (x.1.name 0, decide (∃ r ∈ x.2, r.event.conn = 0 ∧
        (1, .ofData (.messageMessage [0x68] [0x62])) ∈ sent r.effects))) = some ([0x61], true) := by
    decide
  obtain ⟨s, t, hexec, hpair⟩ := Server.exec_eval hrun
  obtain ⟨hname, hsent⟩ := Prod.mk.inj hpair
  exact ⟨s, t, hexec, hname, of_decide_eq_true hsent⟩

/-- What `a` said as `b` is relayed with the sender `b`. -/
theorem relay_from_forged : ∃ s t r, Run (Server.Step Msgpack.reference) Server.init t s ∧ r ∈ t ∧
    Relayed s r 1 (.ofData (.messageMessage [0x68] [0x62])) := by
  obtain ⟨s, t, hexec, -, r, hr, -, hx⟩ := exec_forged
  have hrun := Server.run_of_exec hexec
  exact ⟨s, t, r, hrun, hr, relay_from Msgpack.reference_lawful hrun r hr _ hx rfl⟩

theorem not_authentic_forged : ∃ s t, Server.init.exec Msgpack.reference (twoPlayers ++ [forged]) = .ok (s, t) ∧
    ¬ Authentic s t := by
  obtain ⟨s, t, hexec, hname, r, hr, hconn, hx⟩ := exec_forged
  refine ⟨s, t, hexec, ?_⟩
  intro h
  have hsender := h r hr _ hx _ _ rfl
  rw [hconn, hname] at hsender
  cases hsender

end Quizzbot
