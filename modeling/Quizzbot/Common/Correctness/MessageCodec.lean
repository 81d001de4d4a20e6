import Quizzbot.Common.Correctness.Front
import Quizzbot.Common.Correctness.Schema
import Quizzbot.Lib.MsgpackFormat

/-!
# `Common.Correctness.MessageCodec` — the message codec under the laws of MessagePack

The sizes, for a library that is `Sized`: the packed content of a message is as long as `packedSize` says,
and a message that was unpacked from a content packs into no more bytes than it was read from
(`unpack_shrinks`), whatever forms the sender used. With the round trip of `Common.Correctness.Schema` this
gives what the protocol parses: a message that survives its copies (`message_survives`).
-/

namespace Quizzbot

variable {mp : Msgpack}

/-! ## Sizes of the fields -/

/-- Fields that were unpacked occupy at least their shortest forms, and can be packed again. -/
theorem unpackArgs_size (hmp : mp.Sized) {ss : CString} {k offset : Nat}
    {fields : {fields : List CString // fields.length = k}}
    (h : unpackArgs mp ss k offset = .ok fields) (hoff : offset ≤ ss.length) :
    (∀ s ∈ fields.val, s.length < 2 ^ 32) ∧
      offset + (fields.val.map Msgpack.strSize).sum ≤ ss.length := by
  induction k generalizing offset with
  | zero => cases h; exact ⟨by simp, by simpa using hoff⟩
  | succ k ih =>
      rw [unpackArgs] at h
      obtain ⟨⟨o, offset'⟩, hun, h⟩ := bind_ok h
      obtain ⟨arg, harg, h⟩ := bind_ok h
      obtain ⟨rest, hrest, h⟩ := bind_ok h
      cases h
      rw [liftMsgpack_eq_ok] at hun harg
      obtain ⟨-, hend⟩ := hmp.unpack_bounds _ _ _ _ hun
      obtain ⟨hlt, hsize⟩ := hmp.unpack_string _ _ _ _ _ hun harg
      obtain ⟨hall, hsum⟩ := ih hrest hend
      constructor
      · intro s hs
        rcases List.mem_cons.mp hs with he | ht
        · exact he ▸ hlt
        · exact hall s ht
      · rw [List.map_cons, List.sum_cons]; omega

theorem packArgs_length (hmp : mp.Sized) {args : List CString} {p : Packet}
    (h : packArgs mp args = .ok p) : p.length = (args.map Msgpack.strSize).sum := by
  induction args generalizing p with
  | nil => cases h; rfl
  | cons arg args ih =>
      obtain ⟨head, rest, hhead, hrest, rfl⟩ := packArgs_cons h
      rw [List.length_append, hmp.packStr_length _ _ hhead, ih hrest, List.map_cons, List.sum_cons]

/-! ## Message objects -/

theorem MessageClass.toInt_bounds (cls : MessageClass) :
    0 ≤ cls.messageType.toInt ∧ cls.messageType.toInt < 2 ^ 7 := by cases cls <;> decide

/-- Length of the packed content of a message object: the type takes one byte. -/
def MessageData.packedSize (d : MessageData) : Nat := 1 + (d.fields.map Msgpack.strSize).sum

theorem MessageData.packedSize_messageMessage (msg sender : CString) :
    (MessageData.messageMessage msg sender).packedSize
      = 1 + (Msgpack.strSize msg + Msgpack.strSize sender) := rfl

/-- An object of type `MESSAGE` is a `MessageMessage`. -/
theorem MessageData.eq_messageMessage {d : MessageData} (h : d.messageType = .message) :
    ∃ msg sender, d = .messageMessage msg sender := by
  obtain ⟨cls, fields, arity⟩ := d
  cases cls with
  | messageMessage =>
      obtain ⟨msg, sender, rfl⟩ := List.length_eq_two.mp arity
      exact ⟨msg, sender, rfl⟩
  | _ => cases h

namespace Message

/-- Packing a message that owns an object: the type, then the object. -/
theorem pack_ofData {d : MessageData} {p : Packet} (h : (ofData d).pack mp = .ok p) :
    ∃ data, packArgs mp d.fields = .ok data ∧ p = mp.packInt d.messageType.toInt ++ data := by
  obtain ⟨data, hdata, h⟩ := bind_ok (show _ >>= _ = Except.ok p from h)
  cases h
  exact ⟨data, hdata, rfl⟩

/-- Whatever is copied owns an object, and can be packed. -/
theorem copy_data {m m' : Message} (h : m.copy mp = .ok m') :
    ∃ d p, m = ofData d ∧ m.pack mp = .ok p := by
  obtain ⟨p, hp, -⟩ := bind_ok h
  cases hd : m.data_ with
  | none => rw [pack, hd] at hp; cases hp
  | some d => exact ⟨d, p, eq_ofData hd, hp⟩

/-- The copy of a message is the message. -/
theorem eq_of_copy (hmp : mp.Lawful) {m m' : Message} (h : m.copy mp = .ok m') : m' = m := by
  obtain ⟨d, p, rfl, hp⟩ := copy_data h
  rw [copy_eq hmp hp] at h
  exact (Except.ok.inj h).symm

theorem pack_length (hmp : mp.Sized) {d : MessageData} {p : Packet}
    (h : (ofData d).pack mp = .ok p) : p.length = d.packedSize := by
  obtain ⟨data, hdata, rfl⟩ := pack_ofData h
  obtain ⟨hlo, hhi⟩ : 0 ≤ d.messageType.toInt ∧ d.messageType.toInt < 2 ^ 7 := d.cls.toInt_bounds
  rw [List.length_append, hmp.packInt_length _ hlo hhi, packArgs_length hmp hdata]; rfl

/-- Whatever is unpacked owns an object. -/
theorem unpack_data {prev m : Message} {c : Packet} (h : unpack mp prev c = .ok m) :
    ∃ d, m = ofData d := by
  obtain ⟨⟨o, offset⟩, -, h⟩ := bind_ok h
  obtain ⟨type, -, h⟩ := bind_ok h
  obtain ⟨buf, -, h⟩ := bind_ok h
  obtain ⟨data, -, h⟩ := bind_ok h
  obtain ⟨data', -, h⟩ := bind_ok h
  cases h
  exact ⟨data'.val, eq_ofData rfl⟩

/-- **What was unpacked from a content** is a message that owns an object, can be packed, and packs into
    no more bytes than it was read from. -/
theorem unpack_shrinks (hlaw : mp.Lawful) (hmp : mp.Sized) {prev m : Message} {c : Packet}
    (h : unpack mp prev c = .ok m) :
    ∃ d p, m = ofData d ∧ m.pack mp = .ok p ∧ p.length = d.packedSize ∧ p.length ≤ c.length := by
  obtain ⟨⟨o, offset⟩, hun, h⟩ := bind_ok h
  obtain ⟨type, hint, h⟩ := bind_ok h
  obtain ⟨buf, hbuf, h⟩ := bind_ok h
  obtain ⟨data, hdata, h⟩ := bind_ok h
  obtain ⟨data', hdata', h⟩ := bind_ok h
  cases h
  obtain ⟨hpos, hend⟩ := hmp.unpack_bounds _ _ _ _ (liftMsgpack_eq_ok.mp hun)
  rw [substr, if_pos hend] at hbuf
  cases hbuf
  obtain ⟨fields, hfields, hd⟩ := bind_ok hdata'
  cases hd
  obtain ⟨hall, hsum⟩ := unpackArgs_size hmp hfields (Nat.zero_le _)
  rw [List.length_drop, Nat.zero_add] at hsum
  let d : MessageData := ⟨data.val.cls, fields.val, fields.property⟩
  have hm : ∀ sync, ({ type_ := .ofInt type, data_ := some d, sync := sync } : Message) = ofData d := by
    intro sync
    exact eq_ofData rfl
  obtain ⟨p, hp⟩ := pack_ok hlaw (d := d) hall
  have hlen := pack_length hmp hp
  refine ⟨d, p, hm _, by rw [hm]; exact hp, hlen, ?_⟩
  rw [hlen, MessageData.packedSize]
  show 1 + (fields.val.map Msgpack.strSize).sum ≤ c.length
  omega

end Message

/-! ## The codec -/

/-- `Message::unpack` overwrites the object. -/
theorem messageCodec_overwrites (mp : Msgpack) : (messageCodec mp).Overwrites := fun _ _ _ => rfl

/-- **A message that was parsed** owns an object and can be packed, so its copies equal it. -/
theorem parse_message (hmp : mp.Lawful) {b r : Packet} {m : Message}
    (h : Protocol.parse (messageCodec mp) b = .ok (some m, r)) :
    ∃ d p, m = .ofData d ∧ m.pack mp = .ok p ∧ m.copy mp = .ok m := by
  rw [parse_eq_scan (messageCodec_overwrites mp)] at h
  obtain ⟨pre, s, n, -, hread, -⟩ := Resync.scan_some h
  obtain ⟨c, tail, m', -, -, hparse, hcopy, -⟩ := verdict_accept hread
  obtain ⟨d, rfl⟩ := Message.unpack_data (show Message.unpack mp .new c = .ok m' from hparse)
  have hcopied : Message.copy mp (.ofData d) = .ok m := hcopy
  obtain rfl := Message.eq_of_copy hmp hcopied
  obtain ⟨-, p, -, hp⟩ := Message.copy_data hcopied
  exact ⟨d, p, rfl, hp, hcopied⟩

/-- **Every message survives its encoding and its copies**: the messages of every specification, whatever
    the class of their object, those of this program among them; and what the protocol parsed is not
    changed by any number of copies. -/
theorem message_survives (hmp : mp.Lawful) :
    (∀ (schema : Schema) (m : schema.Message) (d : schema.MessageData), m.data_ = some d →
        Survives (Schema.Message.pack mp) (Schema.Message.unpack mp) (Schema.Message.copy mp) d.fields m) ∧
      (∀ (m : Message) (d : MessageData), m.data_ = some d →
        Survives (Message.pack mp) (Message.unpack mp) (Message.copy mp) d.fields m) ∧
      ∀ (b r : Packet) (m : Message), Protocol.parse (messageCodec mp) b = .ok (some m, r) →
        ∀ n, copies (Message.copy mp) n m = .ok m := by
  refine ⟨fun schema m d hd => Schema.Message.survives hmp hd, fun m d hd => Message.survives hmp hd, ?_⟩
  intro b r m h n
  obtain ⟨d, p, -, -, hcopy⟩ := parse_message hmp h
  exact copies_eq hcopy n

theorem message_survives_reference :
    Survives (Schema.Message.pack Msgpack.reference) (Schema.Message.unpack Msgpack.reference)
      (Schema.Message.copy Msgpack.reference) [[72, 105], [66, 111, 98]]
      (Message.ofData (.messageMessage [72, 105] [66, 111, 98])).generic :=
  (message_survives Msgpack.reference_lawful).1 messagesYaml _
    (MessageData.messageMessage [72, 105] [66, 111, 98]).generic rfl

end Quizzbot
