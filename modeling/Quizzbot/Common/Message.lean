import Quizzbot.Common.Types

/-!
# `Common.Message` — messages and their MessagePack codec (`message.h`, `message.cc`, `messages/*.h`)

The message classes are generated from `messages.yaml` by one template: a class has a `MessageType` and a
list of `std::string` members, packs its members in order and unpacks them in order with a running
offset. `MessageClass` lists the six classes with their members, and an object of one of them
(`MessageData`) carries a proof that it has as many fields as its class declares.

A `Message` owns at most one such object; its field `sync` is the class invariant of the C++ code, that
`type_` is the type of the object it owns.
-/

namespace Quizzbot

/-- `MessageType`. A cast from `int` can produce a value that names no enumerator. -/
inductive MessageType where
  | message
  | answer
  | joinRequest
  | joinAck
  | joinNack
  | error
  | none
  | unnamed (value : Int)
deriving DecidableEq, Repr

/-- `(int) type`. -/
def MessageType.toInt : MessageType → Int
  | .message => 0
  | .answer => 1
  | .joinRequest => 2
  | .joinAck => 3
  | .joinNack => 4
  | .error => 5
  | .none => 6
  | .unnamed value => value

/-- `static_cast<MessageType>(value)`. -/
def MessageType.ofInt (value : Int) : MessageType :=
  if value = 0 then .message
  else if value = 1 then .answer
  else if value = 2 then .joinRequest
  else if value = 3 then .joinAck
  else if value = 4 then .joinNack
  else if value = 5 then .error
  else if value = 6 then .none
  else .unnamed value

/-! ## The generated classes -/

/-- The classes of `messages.yaml`. -/
inductive MessageClass where
  | messageMessage
  | answerMessage
  | joinMessage
  | joinAckMessage
  | joinNackMessage
  | errorMessage
deriving DecidableEq, Repr

/-- `msg_type` of a class. -/
def MessageClass.messageType : MessageClass → MessageType
  | .messageMessage => .message
  | .answerMessage => .answer
  | .joinMessage => .joinRequest
  | .joinAckMessage => .joinAck
  | .joinNackMessage => .joinNack
  | .errorMessage => .error

/-- `elements` of a class: its members in order, all of type `std::string`. -/
def MessageClass.args : MessageClass → List String
  | .messageMessage => ["msg", "from"]
  | .answerMessage => ["from", "answer"]
  | .joinMessage => ["name"]
  | .joinAckMessage => []
  | .joinNackMessage => ["error"]
  | .errorMessage => ["error"]

/-- An object of a generated class: a value for each member. -/
structure MessageData where
  cls    : MessageClass
  fields : List CString
  arity  : fields.length = cls.args.length
deriving DecidableEq

namespace MessageData

@[ext] theorem ext {d d' : MessageData} (hc : d.cls = d'.cls) (hf : d.fields = d'.fields) :
    d = d' := by
  cases d; cases d'; cases hc; cases hf; rfl

/-- `message_type()`. -/
def messageType (d : MessageData) : MessageType := d.cls.messageType

/-- The default constructor of a class. -/
def default (cls : MessageClass) : MessageData :=
  ⟨cls, List.replicate cls.args.length [], List.length_replicate⟩

/-- The other constructors, with the parameters in the order the template declares them. -/
def messageMessage (msg sender : CString) : MessageData := ⟨.messageMessage, [msg, sender], rfl⟩
def answerMessage (sender answer : CString) : MessageData := ⟨.answerMessage, [sender, answer], rfl⟩
def joinMessage (name : CString) : MessageData := ⟨.joinMessage, [name], rfl⟩
def joinAckMessage : MessageData := ⟨.joinAckMessage, [], rfl⟩
def joinNackMessage (error : CString) : MessageData := ⟨.joinNackMessage, [error], rfl⟩
def errorMessage (error : CString) : MessageData := ⟨.errorMessage, [error], rfl⟩

theorem messageMessage_inj {msg sender msg' sender' : CString} :
    messageMessage msg sender = messageMessage msg' sender' ↔ msg = msg' ∧ sender = sender' := by
  simp [messageMessage, MessageData.ext_iff]

theorem answerMessage_inj {sender answer sender' answer' : CString} :
    answerMessage sender answer = answerMessage sender' answer' ↔ sender = sender' ∧ answer = answer' := by
  simp [answerMessage, MessageData.ext_iff]

/-- `dynamic_cast<const JoinMessage*>` followed by `name()`. -/
def joinName? (d : MessageData) : Option CString :=
  match d.cls, d.fields with
  | .joinMessage, [name] => some name
  | _, _ => Option.none

/-- `dynamic_cast<const MessageMessage*>` followed by `msg()` and `from()`. -/
def chatText? (d : MessageData) : Option (CString × CString) :=
  match d.cls, d.fields with
  | .messageMessage, [msg, sender] => some (msg, sender)
  | _, _ => Option.none

/-- `dynamic_cast<const ErrorMessage*>` followed by `error()`. -/
def errorText? (d : MessageData) : Option CString :=
  match d.cls, d.fields with
  | .errorMessage, [error] => some error
  | _, _ => Option.none

end MessageData

/-- `create_data`. -/
def createData (type : MessageType) : Except Fault {d : MessageData // d.messageType = type} :=
  match type with
  | .message => .ok ⟨.default .messageMessage, rfl⟩
  | .answer => .ok ⟨.default .answerMessage, rfl⟩
  | .joinRequest => .ok ⟨.default .joinMessage, rfl⟩
  | .joinAck => .ok ⟨.default .joinAckMessage, rfl⟩
  | .joinNack => .ok ⟨.default .joinNackMessage, rfl⟩
  | .error => .ok ⟨.default .errorMessage, rfl⟩
  | .none => .error .assertion
  | .unnamed _ => .error .assertion

/-! ## Packing and unpacking -/

section
variable (mp : Msgpack)

/-- The template's `pack`: one `msgpack::pack` for each member. -/
def packArgs : List CString → Except Fault Packet
  | [] => .ok []
  | arg :: args => do
      let head ← liftMsgpack (mp.packStr arg)
      let rest ← packArgs args
      .ok (head ++ rest)

/-- The template's `unpack`: for each member, unpack an object at the running offset and convert it. -/
def unpackArgs (ss : CString) : (k : Nat) → (offset : Nat) →
    Except Fault {fields : List CString // fields.length = k}
  | 0, _ => .ok ⟨[], rfl⟩
  | k + 1, offset => do
      let (o, offset) ← liftMsgpack (mp.unpack ss offset)
      let arg ← liftMsgpack o.asString
      let rest ← unpackArgs ss k offset
      .ok ⟨arg :: rest.val, congrArg Nat.succ rest.property⟩

/-- `MessageData::pack`. -/
def MessageData.pack (d : MessageData) : Except Fault Packet := packArgs mp d.fields

/-- `MessageData::unpack`: overwrites every member. -/
def MessageData.unpack (d : MessageData) (ss : CString) :
    Except Fault {d' : MessageData // d'.cls = d.cls} := do
  let fields ← unpackArgs mp ss d.cls.args.length 0
  .ok ⟨⟨d.cls, fields.val, fields.property⟩, rfl⟩

end

/-- `std::string::substr(pos)`. -/
def substr (s : CString) (pos : Nat) : Except Fault CString :=
  if pos ≤ s.length then .ok (s.drop pos) else .error .outOfRange

/-- `Message`. -/
structure Message where
  type_ : MessageType
  data_ : Option MessageData
  sync  : ∀ d, data_ = some d → d.messageType = type_

theorem Message.ext_iff' {a b : Message} : a = b ↔ a.type_ = b.type_ ∧ a.data_ = b.data_ :=
  ⟨fun h => by cases h; exact ⟨rfl, rfl⟩, fun h => by cases a; cases b; cases h.1; cases h.2; rfl⟩

instance : DecidableEq Message := fun _ _ => decidable_of_iff _ Message.ext_iff'.symm

namespace Message

/-- The default constructor. -/
def new : Message := { type_ := .none, data_ := Option.none, sync := fun _ h => nomatch h }

/-- `Message(std::unique_ptr<MessageData>&&)` and `set_data`, for a non-null pointer. -/
def ofData (d : MessageData) : Message :=
  { type_ := d.messageType, data_ := some d, sync := fun d' h => by cases h; rfl }

/-- `message_type()`. -/
def messageType (m : Message) : MessageType :=
  match m.data_ with
  | some d => d.messageType
  | Option.none => .none

section
variable (mp : Msgpack)

/-- `Message::pack`. -/
def pack (m : Message) : Except Fault Packet :=
  let ss := mp.packInt m.type_.toInt
  match m.data_ with
  | Option.none => .error .nullData
  | some d => do
      let data ← d.pack mp
      .ok (ss ++ data)

/-- `Message::unpack`. The previous contents of the object are not read. -/
def unpack (_prev : Message) (ss : CString) : Except Fault Message := do
  let (o, offset) ← liftMsgpack (mp.unpack ss 0)
  let type ← liftMsgpack o.asInt
  let data_buf ← substr ss offset
  -- a type outside the six classes fails an assertion, and so does `NONE`
  let data ← createData (.ofInt type)
  let data' ← data.val.unpack mp data_buf
  .ok { type_ := .ofInt type, data_ := some data'.val,
        sync := fun d h => by
          cases h
          exact (congrArg MessageClass.messageType data'.property).trans data.property }

/-- The copy constructor: pack the source, unpack into the copy. -/
def copy (other : Message) : Except Fault Message := do
  let packet ← other.pack mp
  unpack mp new packet

end

theorem ofData_inj {d d' : MessageData} : ofData d = ofData d' ↔ d = d' := by
  constructor
  · intro h
    exact Option.some.inj (congrArg Message.data_ h)
  · exact congrArg ofData

@[simp] theorem ofData_messageType (d : MessageData) : (ofData d).messageType = d.messageType := rfl

/-- A message that owns an object is the message made from it. -/
theorem eq_ofData {m : Message} {d : MessageData} (h : m.data_ = some d) : m = ofData d := by
  have hsync := m.sync d h
  cases m; cases h; cases hsync; rfl

end Message

end Quizzbot
