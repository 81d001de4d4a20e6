import Mathlib.Tactic.SplitIfs
import Quizzbot.Common.Schema

/-!
# `Common.Correctness.Schema` — the codec of every specification

Whatever classes a specification asks for, a message comes back from its encoding, with any bytes behind
it, and from any number of copies (`Schema.Message.survives`), for any library that is `Lawful`. The tag and the fields are read in two stages: the
tag selects the class (`select_enumerator`), and behind the tag the fields are read with an offset of their
own (`unpackArgs_packArgs`).

The messages of this program are those of `messagesYaml`: `Message.generic` maps the one model to the
other, and packing, unpacking and copying commute with it.
-/

namespace Quizzbot

variable {mp : Msgpack}

/-! ## Copies -/

/-- `n` copies, each made from the one before. -/
def copies {ε α : Type} (copy : α → Except ε α) : Nat → α → Except ε α
  | 0, m => .ok m
  | n + 1, m => do
      let m' ← copy m
      copies copy n m'

theorem copies_eq {ε α : Type} {copy : α → Except ε α} {m : α} (h : copy m = .ok m) (n : Nat) :
    copies copy n m = .ok m := by
  induction n with
  | zero => rfl
  | succ n ih => rw [copies, h, ok_bind, ih]

/-- A message is packed if its fields fit the format, and then comes back from its encoding and from any
    number of copies. -/
structure Survives {M : Type} (pack : M → Except Fault Packet) (unpack : M → CString → Except Fault M)
    (copy : M → Except Fault M) (fields : List CString) (m : M) : Prop where
  packed   : (∀ s ∈ fields, s.length < 2 ^ 32) → ∃ p, pack m = .ok p
  unpacked : ∀ p, pack m = .ok p → ∀ prev rest, unpack prev (p ++ rest) = .ok m
  copied   : ∀ p, pack m = .ok p → ∀ n, copies copy n m = .ok m

/-! ## The template -/

/-- Fields short enough for the format can be packed. -/
theorem packArgs_ok (hmp : mp.Lawful) {args : List CString} (h : ∀ s ∈ args, s.length < 2 ^ 32) :
    ∃ p, packArgs mp args = .ok p := by
  induction args with
  | nil => exact ⟨[], rfl⟩
  | cons arg args ih =>
      obtain ⟨head, hhead⟩ := hmp.packStr_ok arg (h arg (by simp))
      have hargs : ∀ s ∈ args, s.length < 2 ^ 32 := by
        intro s hs
        exact h s (List.mem_cons_of_mem _ hs)
      obtain ⟨rest, hrest⟩ := ih hargs
      exact ⟨head ++ rest, by rw [packArgs, hhead, hrest]; rfl⟩

/-- What packing a list of fields is made of. -/
theorem packArgs_cons {arg : CString} {args : List CString} {p : Packet}
    (h : packArgs mp (arg :: args) = .ok p) :
    ∃ head rest, mp.packStr arg = .ok head ∧ packArgs mp args = .ok rest ∧ p = head ++ rest := by
  rw [packArgs] at h
  obtain ⟨head, hhead, h⟩ := bind_ok h
  obtain ⟨rest, hrest, h⟩ := bind_ok h
  cases h
  exact ⟨head, rest, liftMsgpack_eq_ok.mp hhead, hrest, rfl⟩

/-- **The template's round trip**, with any bytes before and after. -/
theorem unpackArgs_packArgs (hmp : mp.Lawful) {args : List CString} {p : Packet}
    (h : packArgs mp args = .ok p) {k : Nat} (hk : args.length = k) (pre rest : Packet) :
    unpackArgs mp (pre ++ (p ++ rest)) k pre.length = .ok ⟨args, hk⟩ := by
  induction args generalizing p k pre with
  | nil => subst hk; rfl
  | cons arg args ih =>
      subst hk
      obtain ⟨head, tail, hhead, htail, rfl⟩ := packArgs_cons h
      -- the first field is read in front of the others, and these behind it
      have hun := hmp.unpack_packStr arg head hhead pre (tail ++ rest)
      have hih := ih htail rfl (pre ++ head)
      rw [List.append_assoc, List.length_append] at hih
      simp only [List.length_cons, unpackArgs, List.append_assoc, hun, liftMsgpack_ok, ok_bind,
        Msgpack.Object.asString, hih]

/-! ## Any specification -/

namespace Schema

variable {schema : Schema}

/-- `create_data` makes an object of the class that the type selects. -/
theorem createData_eq {type : Int} {cls : MessageSpec} (h : schema.select type = some cls) :
    schema.createData type = .ok ⟨.default cls (generated_of_select h), h⟩ := by
  have hattach : (schema.select type).attach = some ⟨cls, h⟩ := Option.attach_eq_some_iff.mpr h
  rw [createData, hattach]

theorem createData_error {type : Int} (h : schema.select type = none) :
    schema.createData type = .error .assertion := by
  have hattach : (schema.select type).attach = none := Option.attach_eq_none_iff.mpr h
  rw [createData, hattach]

/-- An object unpacks what an object of its class packed. -/
theorem MessageData.unpack_pack (hmp : mp.Lawful) {d : schema.MessageData} {p : Packet}
    (h : d.pack mp = .ok p) (rest : Packet) :
    (MessageData.default d.cls d.generated).unpack mp (p ++ rest) = .ok ⟨d, rfl⟩ := by
  have hun : unpackArgs mp (p ++ rest) d.cls.args.length 0 = .ok ⟨d.fields, d.arity⟩ :=
    unpackArgs_packArgs hmp h d.arity [] rest
  simp only [MessageData.unpack, MessageData.default, hun, ok_bind]

namespace Message

theorem ext {a b : schema.Message} (ht : a.type_ = b.type_) (hd : a.data_ = b.data_) : a = b := by
  cases a; cases b; cases ht; cases hd; rfl

/-- What is packed: the type, then the object. -/
theorem pack_inv {m : schema.Message} {p : Packet} (h : m.pack mp = .ok p) :
    ∃ d data, m.data_ = some d ∧ d.pack mp = .ok data ∧ p = mp.packInt m.type_ ++ data := by
  rw [pack] at h
  cases hd : m.data_ with
  | none => simp only [hd] at h; cases h
  | some d =>
      simp only [hd] at h
      obtain ⟨data, hdata, h⟩ := bind_ok h
      cases h
      exact ⟨d, data, rfl, hdata, rfl⟩

/-- **The round trip**, with any bytes behind the encoding. -/
theorem unpack_pack (hmp : mp.Lawful) {m : schema.Message} {p : Packet} (h : m.pack mp = .ok p)
    (prev : schema.Message) (rest : Packet) : unpack mp prev (p ++ rest) = .ok m := by
  obtain ⟨d, data, hd, hdata, rfl⟩ := pack_inv h
  have hsel := m.sync d hd
  -- the first stage reads the tag, and the rest of the buffer starts behind it
  obtain ⟨hlo, hhi⟩ := select_bounds hsel
  have hint := hmp.unpack_packInt m.type_ (by omega) hhi [] (data ++ rest)
  rw [List.nil_append, List.length_nil, Nat.zero_add] at hint
  have has : Msgpack.Object.asInt (.int m.type_) = .ok m.type_ := if_pos ⟨by omega, hhi⟩
  have hsub : substr (mp.packInt m.type_ ++ (data ++ rest)) (mp.packInt m.type_).length
      = .ok (data ++ rest) := by
    rw [substr, if_pos (by simp), List.drop_left]
  -- the second stage reads the fields of the class that the tag selects
  rw [unpack, List.append_assoc, hint]
  simp only [liftMsgpack_ok, ok_bind, has, hsub, createData_eq hsel,
    MessageData.unpack_pack hmp hdata, Except.ok.injEq]
  exact ext rfl hd.symm

theorem copy_eq (hmp : mp.Lawful) {m : schema.Message} {p : Packet} (h : m.pack mp = .ok p) :
    m.copy mp = .ok m := by
  have hun := unpack_pack hmp h new []
  rw [List.append_nil] at hun
  rw [copy, h, ok_bind, hun]

theorem pack_ok (hmp : mp.Lawful) {m : schema.Message} {d : schema.MessageData} (hd : m.data_ = some d)
    (h : ∀ s ∈ d.fields, s.length < 2 ^ 32) : ∃ p, m.pack mp = .ok p := by
  obtain ⟨data, hdata⟩ := packArgs_ok hmp h
  have hpack : d.pack mp = .ok data := hdata
  exact ⟨mp.packInt m.type_ ++ data, by rw [pack]; simp only [hd, hpack, ok_bind]⟩

/-- A message survives whatever the class of its object is. -/
theorem survives (hmp : mp.Lawful) {m : schema.Message} {d : schema.MessageData} (hd : m.data_ = some d) :
    Survives (pack mp) (unpack mp) (copy mp) d.fields m where
  packed   := fun h => pack_ok hmp hd h
  unpacked := fun _ h prev rest => unpack_pack hmp h prev rest
  copied   := fun _ h n => copies_eq (copy_eq hmp h) n

end Message

end Schema

/-! ## The messages of this program -/

/-- The entry of `messages.yaml` that a class was generated from. -/
def MessageClass.spec : MessageClass → MessageSpec
  | .messageMessage => ⟨"Message", ["msg", "from"], "MESSAGE"⟩
  | .answerMessage => ⟨"Answer", ["from", "answer"], "ANSWER"⟩
  | .joinMessage => ⟨"Join", ["name"], "JOIN_REQUEST"⟩
  | .joinAckMessage => ⟨"JoinAck", [], "JOIN_ACK"⟩
  | .joinNackMessage => ⟨"JoinNack", ["error"], "JOIN_NACK"⟩
  | .errorMessage => ⟨"Error", ["error"], "ERROR"⟩

theorem MessageClass.spec_inj {cls cls' : MessageClass} (h : cls.spec = cls'.spec) : cls = cls' := by
  cases cls <;> cases cls' <;> first | rfl | exact absurd h (by decide)

theorem MessageClass.spec_args (cls : MessageClass) : cls.spec.args = cls.args := by cases cls <;> rfl

theorem MessageClass.spec_generated (cls : MessageClass) :
    messagesYaml.header cls.spec.name = some cls.spec := by cases cls <;> decide

theorem MessageClass.spec_enumerator (cls : MessageClass) :
    messagesYaml.enumerator cls.spec.messageType = cls.messageType.toInt := by cases cls <;> decide

theorem MessageClass.select_toInt (cls : MessageClass) :
    messagesYaml.select cls.messageType.toInt = some cls.spec :=
  cls.spec_enumerator ▸ Schema.select_enumerator cls.spec_generated

/-- A message object as an object of a generated class. -/
def MessageData.generic (d : MessageData) : messagesYaml.MessageData where
  cls := d.cls.spec
  generated := d.cls.spec_generated
  fields := d.fields
  arity := d.arity.trans (congrArg List.length d.cls.spec_args.symm)

/-- A message as a message of `messages.yaml`. -/
def Message.generic (m : Message) : messagesYaml.Message where
  type_ := m.type_.toInt
  data_ := m.data_.map MessageData.generic
  sync := fun d' h => by
    obtain ⟨d, hd, rfl⟩ := Option.map_eq_some_iff.mp h
    rw [← m.sync d hd]
    exact d.cls.select_toInt

theorem MessageData.generic_inj {d d' : MessageData} (h : d.generic = d'.generic) : d = d' :=
  MessageData.ext (MessageClass.spec_inj (congrArg Schema.MessageData.cls h))
    (congrArg Schema.MessageData.fields h)

/-- Distinct messages that own an object stay distinct. -/
theorem Message.generic_inj {m : Message} {d : MessageData} (h : m.generic = (ofData d).generic) :
    m = ofData d := by
  obtain ⟨d', hd', heq⟩ := Option.map_eq_some_iff.mp (congrArg Schema.Message.data_ h)
  exact eq_ofData (hd'.trans (congrArg some (MessageData.generic_inj heq)))

theorem Message.messageType_generic (m : Message) : m.generic.messageType = m.messageType.toInt := by
  rw [Schema.Message.messageType, Message.messageType]
  cases hd : m.data_ with
  | none => simp only [generic, hd, Option.map_none]; decide
  | some d => simp only [generic, hd, Option.map_some]; exact d.cls.spec_enumerator

theorem Message.pack_generic (m : Message) : m.generic.pack mp = m.pack mp := by
  rw [Schema.Message.pack, Message.pack]
  cases hd : m.data_ with
  | none => simp only [generic, hd, Option.map_none]
  | some d => simp only [generic, hd, Option.map_some]; rfl

/-! `create_data` selects the same class in both models, and fails in both at the same numbers. -/

theorem MessageType.ofInt_toInt (cls : MessageClass) :
    MessageType.ofInt cls.messageType.toInt = cls.messageType := by cases cls <;> rfl

theorem MessageType.toInt_ofInt (value : Int) : (MessageType.ofInt value).toInt = value := by
  rw [MessageType.ofInt]
  split_ifs with h0 h1 h2 h3 h4 h5 h6 <;> first | rfl | exact Eq.symm ‹_›

/-- `create_data` dispatches each class's own tag, cast to `int` and back, to that class. -/
theorem createData_ofInt_toInt (d : MessageData) :
    createData (MessageType.ofInt d.messageType.toInt)
      = .ok ⟨.default d.cls, (MessageType.ofInt_toInt d.cls).symm⟩ := by
  obtain ⟨cls, fields, arity⟩ := d
  cases cls <;> rfl

theorem createData_unnamed {type : MessageType} (h : ∀ cls : MessageClass, type ≠ cls.messageType) :
    createData type = .error .assertion := by
  cases type with
  | message => exact absurd rfl (h .messageMessage)
  | answer => exact absurd rfl (h .answerMessage)
  | joinRequest => exact absurd rfl (h .joinMessage)
  | joinAck => exact absurd rfl (h .joinAckMessage)
  | joinNack => exact absurd rfl (h .joinNackMessage)
  | error => exact absurd rfl (h .errorMessage)
  | none => rfl
  | unnamed value => rfl

theorem messagesYaml_mem {msg : MessageSpec} (h : msg ∈ messagesYaml.messages) :
    ∃ cls : MessageClass, msg = cls.spec := by
  simp only [messagesYaml, List.mem_cons, List.not_mem_nil, or_false] at h
  rcases h with rfl | rfl | rfl | rfl | rfl | rfl
  · exact ⟨.messageMessage, rfl⟩
  · exact ⟨.answerMessage, rfl⟩
  · exact ⟨.joinMessage, rfl⟩
  · exact ⟨.joinAckMessage, rfl⟩
  · exact ⟨.joinNackMessage, rfl⟩
  · exact ⟨.errorMessage, rfl⟩

theorem select_unnamed {type : Int} (h : ∀ cls : MessageClass, type ≠ cls.messageType.toInt) :
    messagesYaml.select type = none := by
  have hfind : messagesYaml.messages.find? (messagesYaml.enumerator ·.messageType = type) = none := by
    rw [List.find?_eq_none]
    intro msg hmem
    obtain ⟨cls, rfl⟩ := messagesYaml_mem hmem
    rw [decide_eq_true_eq, cls.spec_enumerator]
    exact fun he => h cls he.symm
  rw [Schema.select, hfind]

theorem unpackArgs_cast {ss : CString} {k k' : Nat} (hk : k = k') (offset : Nat) :
    unpackArgs mp ss k' offset
      = (unpackArgs mp ss k offset).map fun fields => ⟨fields.val, hk ▸ fields.property⟩ := by
  subst hk
  cases unpackArgs mp ss k offset <;> rfl

/-- **Unpacking commutes**, on every buffer. -/
theorem Message.unpack_generic (prev : Message) (prev' : messagesYaml.Message) (ss : CString) :
    Schema.Message.unpack mp prev' ss = (unpack mp prev ss).map generic := by
  refine Except.bind_map fun ⟨o, offset⟩ => Except.bind_map fun type => Except.bind_map fun data_buf => ?_
  by_cases h : ∃ cls : MessageClass, type = cls.messageType.toInt
  · obtain ⟨cls, rfl⟩ := h
    have hdata : createData (.ofInt cls.messageType.toInt) = .ok ⟨.default cls, _⟩ :=
      createData_ofInt_toInt (.default cls)
    simp only [Schema.createData_eq cls.select_toInt, hdata, ok_bind, Schema.MessageData.unpack,
      Schema.MessageData.default, MessageData.unpack, MessageData.default,
      unpackArgs_cast (congrArg List.length cls.spec_args.symm)]
    cases unpackArgs mp data_buf cls.args.length 0 with
    | error e => rfl
    | ok fields => exact congrArg Except.ok (Schema.Message.ext (MessageType.toInt_ofInt _).symm rfl)
  · have hne : ∀ cls : MessageClass, type ≠ cls.messageType.toInt := by
      intro cls he
      exact h ⟨cls, he⟩
    have hne' : ∀ cls : MessageClass, MessageType.ofInt type ≠ cls.messageType := by
      intro cls he
      exact hne cls (by rw [← he, MessageType.toInt_ofInt])
    rw [Schema.createData_error (select_unnamed hne), createData_unnamed hne']
    rfl

/-- **Copying commutes.** -/
theorem Message.copy_generic (m : Message) : m.generic.copy mp = (m.copy mp).map generic := by
  rw [Schema.Message.copy, copy, pack_generic]
  exact Except.bind_map fun packet => unpack_generic new _ packet

theorem Message.of_generic {x : Except Fault Message} {d : MessageData}
    (h : x.map generic = .ok (ofData d).generic) : x = .ok (ofData d) := by
  cases x with
  | error e => cases h
  | ok m => rw [generic_inj (Except.ok.inj h)]

namespace Message

/-- A message whose fields fit the format can be packed. -/
theorem pack_ok (hmp : mp.Lawful) {d : MessageData} (h : ∀ s ∈ d.fields, s.length < 2 ^ 32) :
    ∃ p, (ofData d).pack mp = .ok p := by
  have hdata : (ofData d).generic.data_ = some d.generic := rfl
  obtain ⟨p, hp⟩ := Schema.Message.pack_ok hmp hdata h
  exact ⟨p, by rw [← pack_generic, hp]⟩

/-- **The round trip of `Message`**, with any bytes behind the encoding. -/
theorem unpack_pack (hmp : mp.Lawful) {d : MessageData} {p : Packet}
    (h : (ofData d).pack mp = .ok p) (prev : Message) (rest : Packet) :
    unpack mp prev (p ++ rest) = .ok (ofData d) := by
  rw [← pack_generic] at h
  have hun := Schema.Message.unpack_pack hmp h prev.generic rest
  rw [unpack_generic prev] at hun
  exact of_generic hun

/-- **A copy equals its source**, if the source can be packed. -/
theorem copy_eq (hmp : mp.Lawful) {d : MessageData} {p : Packet} (h : (ofData d).pack mp = .ok p) :
    (ofData d).copy mp = .ok (ofData d) := by
  rw [← pack_generic] at h
  have hcopy := Schema.Message.copy_eq hmp h
  rw [copy_generic] at hcopy
  exact of_generic hcopy

/-- The messages of this program survive because those of `messages.yaml` do. -/
theorem survives (hmp : mp.Lawful) {m : Message} {d : MessageData} (hd : m.data_ = some d) :
    Survives (pack mp) (unpack mp) (copy mp) d.fields m := by
  obtain rfl := eq_ofData hd
  exact {
    packed   := fun h => pack_ok hmp h
    unpacked := fun _ h prev rest => unpack_pack hmp h prev rest
    copied   := fun _ h n => copies_eq (copy_eq hmp h) n }

end Message

end Quizzbot
