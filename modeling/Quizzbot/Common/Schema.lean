import Mathlib.Data.List.Nodup
import Quizzbot.Common.Message

/-!
# `Common.Schema` — the generated code for any specification (`generate.py`, `msg_template.cpp`)

`generate.py` reads the enumerators and the messages of a specification and writes one header for each
message, `MessageType` and `create_data`. `Schema` is such a specification, with what the C++ compiler
checks of the result; over it stand `MessageData`, `create_data` and `Message` as the templates have them,
for any list of `std::string` members. `messagesYaml` is the specification of this program.

A `MessageType` is its `int` here. The class invariant of a `Message` is that its `type_` selects the class
of the object it owns: two messages of one name share a header, and then the object's own type can be the
other one's.
-/

namespace Quizzbot

/-- `Message` of `generate.py`: an entry of `messages`. The members are all of type `std::string`. -/
structure MessageSpec where
  name        : String
  args        : List String
  messageType : String
deriving DecidableEq, Repr

/-- A specification whose generated code compiles. -/
structure Schema where
  types    : List String
  messages : List MessageSpec
  -- an enumerator fits the type that underlies the enumeration
  fits     : types.length < 2 ^ 31
  -- every label of `create_data` is an enumerator, and none occurs twice
  declared : ∀ msg ∈ messages, msg.messageType ∈ types ++ ["NONE"]
  labels   : (messages.map (·.messageType)).Nodup

namespace Schema

/-- `MessageType::name`, as an `int`. The template puts `NONE` behind the enumerators. -/
def enumerator (schema : Schema) (name : String) : Int := ((schema.types ++ ["NONE"]).idxOf name : Nat)

/-- The class in the header of a name: the file of an earlier message of that name was overwritten. -/
def header (schema : Schema) (name : String) : Option MessageSpec :=
  (schema.messages.filter (·.name = name)).getLast?

/-- The `switch` of `create_data`: the class that a type selects. -/
def select (schema : Schema) (type : Int) : Option MessageSpec :=
  match schema.messages.find? (schema.enumerator ·.messageType = type) with
  | some msg => schema.header msg.name
  | none => none

/-- An object of a generated class: a value for each member. -/
structure MessageData (schema : Schema) where
  cls       : MessageSpec
  generated : schema.header cls.name = some cls
  fields    : List CString
  arity     : fields.length = cls.args.length

variable {schema : Schema}

/-! ## The selected class -/

theorem header_name {name : String} {cls : MessageSpec} (h : schema.header name = some cls) :
    cls.name = name ∧ cls ∈ schema.messages := by
  have hmem : cls ∈ schema.messages.filter (·.name = name) := List.mem_of_getLast? h
  rw [List.mem_filter, decide_eq_true_eq] at hmem
  exact ⟨hmem.2, hmem.1⟩

/-- A class that a type selects is the class of its own header. -/
theorem generated_of_select {type : Int} {cls : MessageSpec} (h : schema.select type = some cls) :
    schema.header cls.name = some cls := by
  rw [select] at h
  split at h
  · rw [(header_name h).1]; exact h
  · cases h

theorem enumerator_inj {a b : String} (ha : a ∈ schema.types ++ ["NONE"]) :
    schema.enumerator a = schema.enumerator b ↔ a = b := by
  rw [enumerator, enumerator, Int.ofNat_inj, List.idxOf_inj ha]

/-- An enumerator is an `int`. -/
theorem enumerator_bounds {a : String} (ha : a ∈ schema.types ++ ["NONE"]) :
    0 ≤ schema.enumerator a ∧ schema.enumerator a < 2 ^ 31 := by
  have hlt := List.idxOf_lt_length_of_mem ha
  have hfits := schema.fits
  rw [List.length_append, List.length_singleton] at hlt
  rw [enumerator]
  omega

/-- No two messages share a label, so the label of a message is found at the message itself. -/
theorem find_label {msg : MessageSpec} (hmem : msg ∈ schema.messages) :
    schema.messages.find? (schema.enumerator ·.messageType = schema.enumerator msg.messageType)
      = some msg := by
  cases hfind : schema.messages.find?
      (schema.enumerator ·.messageType = schema.enumerator msg.messageType) with
  | none =>
      have hno := List.find?_eq_none.mp hfind msg hmem
      simp at hno
  | some msg' =>
      have hlabel := List.find?_some hfind
      rw [decide_eq_true_eq] at hlabel
      have hmem' := List.mem_of_find?_eq_some hfind
      rw [List.inj_on_of_nodup_map schema.labels hmem' hmem
        ((enumerator_inj (schema.declared msg' hmem')).mp hlabel)]

/-- **The `switch` inverts the tag**: the type of a generated class selects that class. -/
theorem select_enumerator {cls : MessageSpec} (h : schema.header cls.name = some cls) :
    schema.select (schema.enumerator cls.messageType) = some cls := by
  rw [select, find_label (header_name h).2]
  exact h

/-- Only enumerators select a class. -/
theorem select_bounds {type : Int} {cls : MessageSpec} (h : schema.select type = some cls) :
    0 ≤ type ∧ type < 2 ^ 31 := by
  rw [select] at h
  split at h
  · rename_i msg hfind
    have htype := List.find?_some hfind
    rw [decide_eq_true_eq] at htype
    exact htype ▸ enumerator_bounds (schema.declared msg (List.mem_of_find?_eq_some hfind))
  · cases h

/-! ## Objects -/

namespace MessageData

@[ext] theorem ext {d d' : schema.MessageData} (hc : d.cls = d'.cls) (hf : d.fields = d'.fields) :
    d = d' := by
  cases d; cases d'; cases hc; cases hf; rfl

/-- `message_type()`. -/
def messageType (d : schema.MessageData) : Int := schema.enumerator d.cls.messageType

/-- The default constructor of a class. -/
def default (cls : MessageSpec) (h : schema.header cls.name = some cls) : schema.MessageData :=
  ⟨cls, h, List.replicate cls.args.length [], List.length_replicate⟩

section
variable (mp : Msgpack)

/-- The template's `pack`. -/
def pack (d : schema.MessageData) : Except Fault Packet := packArgs mp d.fields

/-- The template's `unpack`: overwrites every member. -/
def unpack (d : schema.MessageData) (ss : CString) :
    Except Fault {d' : schema.MessageData // d'.cls = d.cls} := do
  let fields ← unpackArgs mp ss d.cls.args.length 0
  .ok ⟨⟨d.cls, d.generated, fields.val, fields.property⟩, rfl⟩

end

end MessageData

/-- `create_data`. -/
def createData (schema : Schema) (type : Int) :
    Except Fault {d : schema.MessageData // schema.select type = some d.cls} :=
  match (schema.select type).attach with
  | some ⟨cls, h⟩ => .ok ⟨.default cls (generated_of_select h), h⟩
  | none => .error .assertion

/-- `Message`. -/
structure Message (schema : Schema) where
  type_ : Int
  data_ : Option schema.MessageData
  sync  : ∀ d, data_ = some d → schema.select type_ = some d.cls

namespace Message

/-- The default constructor. -/
def new : schema.Message :=
  { type_ := schema.enumerator "NONE", data_ := none, sync := fun _ h => nomatch h }

/-- `Message(std::unique_ptr<MessageData>&&)` and `set_data`, for a non-null pointer. -/
def ofData (d : schema.MessageData) : schema.Message :=
  { type_ := d.messageType, data_ := some d,
    sync := fun d' h => by cases h; exact select_enumerator d.generated }

/-- `message_type()`. -/
def messageType (m : schema.Message) : Int :=
  match m.data_ with
  | some d => d.messageType
  | none => schema.enumerator "NONE"

section
variable (mp : Msgpack)

/-- `Message::pack`. -/
def pack (m : schema.Message) : Except Fault Packet :=
  let ss := mp.packInt m.type_
  match m.data_ with
  | none => .error .nullData
  | some d => do
      let data ← d.pack mp
      .ok (ss ++ data)

/-- `Message::unpack`. -/
def unpack (_prev : schema.Message) (ss : CString) : Except Fault schema.Message := do
  let (o, offset) ← liftMsgpack (mp.unpack ss 0)
  let type ← liftMsgpack o.asInt
  let data_buf ← substr ss offset
  let data ← schema.createData type
  let data' ← data.val.unpack mp data_buf
  .ok { type_ := type, data_ := some data'.val,
        sync := fun d h => by
          cases h
          exact data.property.trans (congrArg some data'.property.symm) }

/-- The copy constructor: pack the source, unpack into the copy. -/
def copy (other : schema.Message) : Except Fault schema.Message := do
  let packet ← other.pack mp
  unpack mp new packet

end

end Message

end Schema

/-- `messages.yaml`. -/
def messagesYaml : Schema where
  types := ["MESSAGE", "ANSWER", "JOIN_REQUEST", "JOIN_ACK", "JOIN_NACK", "ERROR"]
  messages := [
    ⟨"Message", ["msg", "from"], "MESSAGE"⟩,
    ⟨"Answer", ["from", "answer"], "ANSWER"⟩,
    ⟨"Join", ["name"], "JOIN_REQUEST"⟩,
    ⟨"JoinAck", [], "JOIN_ACK"⟩,
    ⟨"JoinNack", ["error"], "JOIN_NACK"⟩,
    ⟨"Error", ["error"], "ERROR"⟩]
  fits := by decide
  declared := by decide
  labels := by decide

end Quizzbot
