import Quizzbot.Common.Correctness.Checksum
import Quizzbot.Common.Correctness.MessageCodec
import Quizzbot.Lib.MsgpackFormat
import Mathlib.Algebra.Order.BigOperators.Group.List
import Mathlib.Algebra.Order.Group.Nat

/-!
# `Common.Correctness.RoundTrip` — what `protocol::pack` emits and `protocol::parse` finds again

A content of at most 255 bytes is framed by a size field that denotes its length and a checksum field that
is the whole checksum text (`pack_frame`), so the parser finds it wherever it stands behind noise
(`parse_frame`, `parse_noise`). From this the round trip over a stream of messages with noise in between,
for any codec that gives back what it packed (`drain_stream`).

Past 255 bytes the size field is cut to the first two digits. A message still comes back from its own
packet exactly if the content fits (`pack_parse_iff`).
-/

namespace Quizzbot

open HexText (hexText_getD_zero digitByte extractHex extractHex_two_lt)
open PullParser (drain Drains)

variable {Msg : Type} {T : Codec Msg}

/-! ## One frame -/

/-- **The packet of a content that fits**: its front is that content, followed by its checksum. -/
theorem pack_frame {m : Msg} {c : Packet} (hc : T.pack m = .ok c) (hlen : c.length ≤ 255) :
    ∃ p, Protocol.pack T m = .ok (0x01 :: p) ∧
      ∀ s, front (0x01 :: p ++ s) = .body c (checksumText c ++ s) := by
  refine ⟨(header c).tail ++ c ++ checksumText c, ?_, ?_⟩
  · rw [pack_header_trailer hc, trailer_eq hlen]; rfl
  · intro s
    have hfront : front (header c ++ c ++ (checksumText c ++ s)) = .body c (checksumText c ++ s) :=
      front_header hlen rfl (checksumText c ++ s)
    rw [← hfront]
    simp [header]

/-- A message whose packed content fits in a frame, and that the codec gives back from that content. -/
def Codec.Faithful (T : Codec Msg) (m : Msg) : Prop :=
  ∃ c, T.pack m = .ok c ∧ c.length ≤ 255 ∧ T.parse T.new c = .ok m ∧ T.copy m = .ok m

/-- **A frame at the front is the next message**, whatever follows. -/
theorem parse_frame {m : Msg} (hm : T.Faithful m) :
    ∃ p, Protocol.pack T m = .ok (0x01 :: p) ∧
      ∀ s, Protocol.parse T (0x01 :: p ++ s) = .ok (some m, s) := by
  obtain ⟨c, hc, hlen, hparse, hcopy⟩ := hm
  obtain ⟨p, hpack, hfront⟩ := pack_frame hc hlen
  refine ⟨p, hpack, ?_⟩
  intro s
  have hf : front (0x01 :: (p ++ s)) = .body c (checksumText c ++ s) := hfront s
  rw [Protocol.parse, List.cons_append, parseLoop_body hf, hparse, ok_bind,
    checksumCode_checksumText hlen, hcopy]
  show Except.ok (some m, (checksumText c ++ s).drop 2) = _
  rw [← checksumText_length hlen, List.drop_left]

/-! ## Noise -/

/-- No two adjacent bytes are the sync bytes. -/
def SyncFree (n : Packet) : Prop := ¬ [0x01, 0x02] <:+: n

instance (n : Packet) : Decidable (SyncFree n) := inferInstanceAs (Decidable (¬ _))

theorem SyncFree.tail {b : UInt8} {n : Packet} (h : SyncFree (b :: n)) : SyncFree n := by
  intro hn
  exact h (List.infix_cons hn)

/-- Two bytes of noise are dropped one at a time. -/
theorem front_syncFree {b b' : UInt8} {n s : Packet} (h : SyncFree (b :: b' :: n)) :
    front (b :: b' :: s) = .noise := by
  apply if_pos
  intro hsync
  apply h
  obtain ⟨rfl, rfl⟩ : b = 0x01 ∧ b' = 0x02 := by simpa using hsync
  exact ⟨[], n, rfl⟩

/-- **Noise in front of a frame is dropped**, also when it ends in half a sync pair. -/
theorem parse_noise {n : Packet} (hn : SyncFree n) (msg : Msg) (p : Packet) :
    Protocol.parseLoop T msg (n ++ 0x01 :: p) = Protocol.parseLoop T msg (0x01 :: p) := by
  induction n with
  | nil => rfl
  | cons b n ih =>
      have hfront : front (b :: (n ++ 0x01 :: p)) = .noise := by
        cases n with
        -- the last byte of the noise and the first of the frame, which is no `0x02`
        | nil => exact if_pos (by simp)
        | cons b' n => exact front_syncFree hn
      rw [List.cons_append, parseLoop_noise hfront, ih hn.tail]

/-- Noise at the end of the stream: nothing is found, and at most its last byte is kept. -/
theorem parse_only_noise {n : Packet} (hn : SyncFree n) (msg : Msg) :
    ∃ r, Protocol.parseLoop T msg n = .ok (none, r) ∧ r.length ≤ 1 := by
  induction n with
  | nil => exact ⟨[], rfl, Nat.zero_le 1⟩
  | cons b n ih =>
      cases n with
      | nil => exact ⟨[b], parseLoop_short rfl, Nat.le_refl 1⟩
      | cons b' n =>
          obtain ⟨r, hr, hlen⟩ := ih hn.tail
          exact ⟨r, by rw [parseLoop_noise (front_syncFree hn), hr], hlen⟩

/-! ## A stream of frames and noise -/

/-- `n ++ pack(m₁) ++ n₁ ++ … ++ pack(mₖ) ++ nₖ`. -/
def stream (T : Codec Msg) : Packet → List (Msg × Packet) → Except Fault Packet
  | n, [] => .ok n
  | n, (m, n') :: segments => do
      let p ← Protocol.pack T m
      let s ← stream T n' segments
      .ok (n ++ (p ++ s))

/-- Parsing the stream until nothing is found yields its messages. -/
def Recovers (T : Codec Msg) (n : Packet) (segments : List (Msg × Packet)) : Prop :=
  ∃ s r, stream T n segments = .ok s ∧
    drain (Protocol.parse T) s = .ok (segments.map Prod.fst, r) ∧ r.length ≤ 1

theorem drains_stream {n : Packet} {segments : List (Msg × Packet)} (hn : SyncFree n)
    (hseg : ∀ x ∈ segments, T.Faithful x.1 ∧ SyncFree x.2) :
    ∃ s r, stream T n segments = .ok s ∧
      Drains (Protocol.parse T) s (segments.map Prod.fst) r ∧ segments.length ≤ s.length ∧
      r.length ≤ 1 := by
  induction segments generalizing n with
  | nil =>
      obtain ⟨r, hr, hlen⟩ := parse_only_noise (T := T) hn T.new
      exact ⟨n, r, rfl, .done hr, Nat.zero_le _, hlen⟩
  | cons x segments ih =>
      obtain ⟨m, n'⟩ := x
      obtain ⟨hm, hn'⟩ := hseg _ (List.mem_cons_self ..)
      have hrest : ∀ x ∈ segments, T.Faithful x.1 ∧ SyncFree x.2 := by
        intro x hx
        exact hseg x (List.mem_cons_of_mem _ hx)
      obtain ⟨s, r, hs, hd, hlen, hr⟩ := ih hn' hrest
      obtain ⟨p, hpack, hparse⟩ := parse_frame hm
      refine ⟨n ++ (0x01 :: p ++ s), r, ?_, .next ?_ hd, ?_, hr⟩
      · rw [stream, hpack, ok_bind, hs]; rfl
      · rw [Protocol.parse, List.cons_append, parse_noise hn]
        exact hparse s
      · simp only [List.length_append, List.length_cons]; omega

theorem recovers_of_faithful {n : Packet} {segments : List (Msg × Packet)} (hn : SyncFree n)
    (hseg : ∀ x ∈ segments, T.Faithful x.1 ∧ SyncFree x.2) : Recovers T n segments := by
  obtain ⟨s, r, hs, hd, hlen, hr⟩ := drains_stream hn hseg
  exact ⟨s, r, hs, PullParser.drain_of_drains hd (by rwa [List.length_map]), hr⟩

/-- Commands of a lettered type that fit in a frame. -/
theorem naive_faithful {cmd : Command} (hcmd : NaiveCommandProtocol.Lettered cmd.type_)
    (hlen : cmd.content_.length < 255) : naiveCommandProtocol.Faithful cmd :=
  ⟨NaiveCommandProtocol.pack cmd, rfl, Nat.succ_le_of_lt hlen,
    congrArg Except.ok (NaiveCommandProtocol.parse_pack hcmd _), rfl⟩

/-- Messages with data that fit in a frame. -/
theorem message_faithful {mp : Msgpack} (hmp : mp.Lawful) {m : Message} {d : MessageData}
    (hd : m.data_ = some d) {c : Packet} (hc : m.pack mp = .ok c) (hlen : c.length ≤ 255) :
    (messageCodec mp).Faithful m := by
  rw [Message.eq_ofData hd] at hc ⊢
  have hun := Message.unpack_pack hmp hc .new []
  rw [List.append_nil] at hun
  exact ⟨c, hc, hlen, hun, Message.copy_eq hmp hc⟩

/-- **The framing round trip over a whole stream**, for any faithful codec, for the naive commands and
    for messages. -/
theorem drain_stream :
    (∀ {Msg : Type} (T : Codec Msg) (n : Packet) (segments : List (Msg × Packet)), SyncFree n →
      (∀ x ∈ segments, T.Faithful x.1 ∧ SyncFree x.2) → Recovers T n segments) ∧
    (∀ (n : Packet) (segments : List (Command × Packet)), SyncFree n →
      (∀ x ∈ segments, (NaiveCommandProtocol.Lettered x.1.type_ ∧
        (NaiveCommandProtocol.pack x.1).length ≤ 255) ∧ SyncFree x.2) →
      Recovers naiveCommandProtocol n segments) ∧
    (∀ (mp : Msgpack), mp.Lawful → ∀ (n : Packet) (segments : List (Message × Packet)), SyncFree n →
      (∀ x ∈ segments, (x.1.data_.isSome ∧ ∃ c, x.1.pack mp = .ok c ∧ c.length ≤ 255) ∧
        SyncFree x.2) → Recovers (messageCodec mp) n segments) := by
  refine ⟨?_, ?_, ?_⟩
  · intro Msg T n segments hn hseg
    exact recovers_of_faithful hn hseg
  · intro n segments hn hseg
    apply recovers_of_faithful hn
    intro x hx
    obtain ⟨⟨hcmd, hlen⟩, hx⟩ := hseg x hx
    exact ⟨naive_faithful hcmd (Nat.lt_of_succ_le hlen), hx⟩
  · intro mp hmp n segments hn hseg
    apply recovers_of_faithful hn
    intro x hx
    obtain ⟨⟨hdata, c, hc, hlen⟩, hx⟩ := hseg x hx
    obtain ⟨d, hd⟩ := Option.isSome_iff_exists.mp hdata
    exact ⟨message_faithful hmp hd hc hlen, hx⟩

/-- Noise that ends in half a sync pair, an embedded frame, and a message. -/
theorem drain_stream_embedded :
    Recovers naiveCommandProtocol [0x01, 0x01] [(⟨.answer, HexText.ascii "1"⟩, [0x01])] ∧
    Recovers naiveCommandProtocol [0x02]
      [(⟨.message, [0x01, 0x02] ++ HexText.ascii "0aMaaaa"⟩, [0x41, 0x01]), (⟨.joinAck, []⟩, [])] ∧
    Recovers (messageCodec Msgpack.reference) []
      [(.ofData (.joinMessage (HexText.ascii "ada")), [0x02, 0x01])] := by
  refine ⟨drain_stream.1 _ _ _ (by decide) fun x hx => ?_,
    drain_stream.2.1 _ _ (by decide) (by decide),
    drain_stream.2.2 _ Msgpack.reference_lawful _ _ (by decide) fun x hx => ?_⟩
  · obtain rfl := List.mem_singleton.mp hx
    exact ⟨naive_faithful (by decide) (by decide), by decide⟩
  · obtain rfl := List.mem_singleton.mp hx
    exact ⟨⟨rfl, _, rfl, by decide⟩, by decide⟩

/-! ## Contents of any length

`protocol::pack` takes the first two characters of the size, however many there are. -/

/-- What `protocol::pack` puts around a content. -/
theorem pack_eq {m : Msg} {c p : Packet} (hc : T.pack m = .ok c) (hp : Protocol.pack T m = .ok p) :
    ∃ d < 16, ∃ lo k₁ k₂, p = 0x01 :: 0x02 :: digitByte d :: lo :: (c ++ [k₁, k₂]) := by
  obtain ⟨d, hd, hhi⟩ := hexText_getD_zero (n := c.length) (show 0 < 2 by decide) 0
  rw [pack_header_trailer hc] at hp
  cases hp
  exact ⟨d, hd, _, _, _, by rw [header, hhi, List.append_assoc]; rfl⟩

/-- The message comes back from its own packet, and nothing is left. -/
def RoundTrips (mp : Msgpack) (m : Message) : Prop :=
  ∃ p, Protocol.pack (messageCodec mp) m = .ok p ∧
    Protocol.parse (messageCodec mp) p = .ok (some m, [])

/-- The size field denotes the length of the content. -/
def SizeDenotes (mp : Msgpack) (m : Message) : Prop :=
  ∃ c p, m.pack mp = .ok c ∧ Protocol.pack (messageCodec mp) m = .ok p ∧
    extractHex 64 [p.getD 2 0, p.getD 3 0] = some c.length

section
variable {mp : Msgpack} {m : Message} {d : MessageData}

/-- A packet is packed from a content. -/
theorem content_of_pack {p : Packet} (hp : Protocol.pack (messageCodec mp) m = .ok p) :
    ∃ c, m.pack mp = .ok c := by
  obtain ⟨c, hc, -⟩ := bind_ok hp
  exact ⟨c, hc⟩

/-- **A message that is found** was unpacked from a content that is as long as its own. -/
theorem packedSize_le_content (hlaw : mp.Lawful) (hmp : mp.Sized) {p r : Packet}
    (h : Protocol.parse (messageCodec mp) p = .ok (some (.ofData d), r)) :
    ∃ pre s c tail, p = pre ++ s ∧ front s = .body c tail ∧ checksumCode c tail = .parseOk ∧
      d.packedSize ≤ c.length := by
  rw [parse_eq_scan (messageCodec_overwrites mp)] at h
  obtain ⟨pre, s, n, hs, hread, -⟩ := Resync.scan_some h
  obtain ⟨c, tail, m', hf, hcode, hparse, hcopy, -⟩ := verdict_accept hread
  obtain ⟨d', p', rfl, hpack, hlen, hle⟩ :=
    Message.unpack_shrinks hlaw hmp (show Message.unpack mp .new c = .ok m' from hparse)
  -- the copy that is returned equals what was unpacked
  have hsame := (Message.copy_eq hlaw hpack).symm.trans hcopy
  have hd : d' = d := by
    have := congrArg Message.data_ (Except.ok.inj hsame)
    exact Option.some.inj this
  exact ⟨pre, s, c, tail, hs, hf, hcode, hd ▸ hlen ▸ hle⟩

/-- A message comes back from its own packet only if its content fits. -/
theorem packedSize_le_of_roundTrips (hlaw : mp.Lawful) (hmp : mp.Sized) (hd : m.data_ = some d)
    (h : RoundTrips mp m) : d.packedSize ≤ 255 := by
  rw [Message.eq_ofData hd] at h
  obtain ⟨p, hp, hparse⟩ := h
  obtain ⟨c, hc⟩ := content_of_pack hp
  obtain ⟨k, hk, lo, k₁, k₂, rfl⟩ := pack_eq hc hp
  have hlen : c.length = d.packedSize := Message.pack_length hmp hc
  obtain ⟨pre, s, c', tail, hs, hf, hcode, hle⟩ := packedSize_le_content hlaw hmp hparse
  -- the content found is as long as the one that was packed, so it is found at the front
  obtain ⟨hi, lo', rfl, hx⟩ := front_eq_body_iff.mp hf
  obtain ⟨rest, rfl⟩ := checksumCode_parseOk hcode
  have htext := checksumText_length_ge c'
  have hlens := congrArg List.length hs
  simp only [List.length_cons, List.length_append, List.length_nil] at hlens
  have hpre : pre = [] := List.eq_nil_of_length_eq_zero (by omega)
  subst hpre
  injection hs with _ hs
  injection hs with _ hs
  injection hs with hhi _
  have hlt : c'.length < 256 := extractHex_two_lt hk (hhi ▸ hx)
  omega

theorem roundTrips_of_packedSize_le (hlaw : mp.Lawful) (hmp : mp.Sized) (hd : m.data_ = some d)
    (h : d.packedSize ≤ 255) : RoundTrips mp m ∧ SizeDenotes mp m := by
  have hshort : ∀ s ∈ d.fields, s.length < 2 ^ 32 := by
    intro s hs
    have hle := List.le_sum_of_mem (List.mem_map_of_mem (f := Msgpack.strSize) hs)
    have hsize : s.length ≤ Msgpack.strSize s := Nat.le_add_left _ _
    rw [MessageData.packedSize] at h
    omega
  obtain ⟨c, hc⟩ := Message.pack_ok hlaw hshort
  rw [← Message.eq_ofData hd] at hc
  have hlen : c.length ≤ 255 := by
    rw [Message.eq_ofData hd] at hc
    exact Message.pack_length hmp hc ▸ h
  obtain ⟨p, hp, hparse⟩ := parse_frame (message_faithful hlaw hd hc hlen)
  have hnil := hparse []
  rw [List.append_nil] at hnil
  refine ⟨⟨0x01 :: p, hp, hnil⟩, c, 0x01 :: p, hc, hp, ?_⟩
  obtain ⟨p', hp', hfront⟩ := pack_frame (T := messageCodec mp) hc hlen
  -- the packet that comes back and the packet whose size field is read are the same
  obtain rfl : p' = p := by
    have := hp'.symm.trans hp
    injection this with this
    exact List.tail_eq_of_cons_eq this
  have hbody := hfront []
  rw [List.append_nil] at hbody
  obtain ⟨hi, lo, he, hx⟩ := front_eq_body_iff.mp hbody
  rw [he]
  exact hx

theorem packedSize_le_of_sizeDenotes (hmp : mp.Sized) (hd : m.data_ = some d)
    (h : SizeDenotes mp m) : d.packedSize ≤ 255 := by
  rw [Message.eq_ofData hd] at h
  obtain ⟨c, p, hc, hp, hx⟩ := h
  obtain ⟨k, hk, lo, k₁, k₂, rfl⟩ := pack_eq hc hp
  have hlt : c.length < 256 := extractHex_two_lt hk hx
  have hlen : c.length = d.packedSize := Message.pack_length hmp hc
  omega

/-- **A message comes back from its own packet exactly if its content fits** in 255 bytes, and exactly
    then the size field denotes its length. -/
theorem pack_parse_iff (hlaw : mp.Lawful) (hmp : mp.Sized) (hd : m.data_ = some d) :
    (RoundTrips mp m ↔ d.packedSize ≤ 255) ∧ (SizeDenotes mp m ↔ d.packedSize ≤ 255) := by
  constructor
  · constructor
    · exact packedSize_le_of_roundTrips hlaw hmp hd
    · intro h; exact (roundTrips_of_packedSize_le hlaw hmp hd h).1
  · constructor
    · exact packedSize_le_of_sizeDenotes hmp hd
    · intro h; exact (roundTrips_of_packedSize_le hlaw hmp hd h).2

end

/-- A message of two short fields. -/
theorem pack_parse_iff_short :
    RoundTrips Msgpack.reference (.ofData (.answerMessage (HexText.ascii "ada") (HexText.ascii "1"))) :=
  ((pack_parse_iff Msgpack.reference_lawful Msgpack.reference_sized rfl).1).mpr (by decide)

/-- A text of 256 bytes does not come back. -/
theorem not_roundTrips_long :
    ¬ RoundTrips Msgpack.reference (.ofData (.messageMessage (List.replicate 256 0x61) [])) := by
  intro h
  have hle := packedSize_le_of_roundTrips Msgpack.reference_lawful Msgpack.reference_sized rfl h
  rw [MessageData.packedSize_messageMessage, Msgpack.strSize, List.length_replicate] at hle
  exact absurd hle (by decide)

end Quizzbot
