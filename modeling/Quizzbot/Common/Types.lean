import Quizzbot.Lib.Msgpack

/-!
# `Common.Types` — packets, iterators and the faults of the C++ code (`quizzbot_types.h`)

`Packet` and `std::string` are both byte lists. Code that can throw, hit an assertion or run into
undefined behaviour returns `Except Fault`; an iterator (`Iter`) remembers the packet it points into, so
that reading or moving past its end is a fault of the model and its absence a theorem.
-/

namespace Quizzbot

/-- `std::vector<std::uint8_t>`. -/
abbrev Packet := List UInt8

/-- `std::string`, any bytes. -/
abbrev CString := List UInt8

/-- How a step of the C++ code ends when it does not return. -/
inductive Fault where
  | outOfRange                  -- an iterator or an offset past the end
  | nullData                    -- `data_` dereferenced while null
  | assertion                   -- a failed `assert`
  | notConnected                -- `boost::system::system_error`, of a socket whose peer is gone
  | msgpack (e : Msgpack.Error) -- thrown by the MessagePack library
deriving DecidableEq, Repr

/-- `parse_code`. -/
inductive ParseCode where
  | notEnough
  | parseOk
  | badChecksum
  | blurp
deriving DecidableEq, Repr

/-- `Packet::iterator`: a position in a packet. -/
structure Iter where
  packet : Packet
  pos    : Nat
deriving DecidableEq, Repr

/-- The range `[it, it + n)`. -/
def Iter.slice (it : Iter) (n : Nat) : Except Fault Packet :=
  if it.pos + n ≤ it.packet.length then .ok ((it.packet.drop it.pos).take n) else .error .outOfRange

/-- `it += n`. -/
def Iter.advance (it : Iter) (n : Nat) : Except Fault Iter :=
  if it.pos + n ≤ it.packet.length then .ok { it with pos := it.pos + n } else .error .outOfRange

theorem Iter.slice_ok {it : Iter} {n : Nat} (h : it.pos + n ≤ it.packet.length) :
    it.slice n = .ok ((it.packet.drop it.pos).take n) := if_pos h

theorem Iter.advance_ok {it : Iter} {n : Nat} (h : it.pos + n ≤ it.packet.length) :
    it.advance n = .ok { it with pos := it.pos + n } := if_pos h

/-! ## The fault monad -/

export Except (ok_bind error_bind bind_ok)

/-- A call into the MessagePack library. -/
def liftMsgpack {α : Type} : Except Msgpack.Error α → Except Fault α
  | .ok a => .ok a
  | .error e => .error (.msgpack e)

@[simp] theorem liftMsgpack_ok {α : Type} (a : α) :
    liftMsgpack (.ok a : Except Msgpack.Error α) = .ok a := rfl

theorem liftMsgpack_eq_ok {α : Type} {x : Except Msgpack.Error α} {a : α} :
    liftMsgpack x = .ok a ↔ x = .ok a := by
  cases x with
  | error e => constructor <;> intro h <;> cases h
  | ok b => simp

end Quizzbot
