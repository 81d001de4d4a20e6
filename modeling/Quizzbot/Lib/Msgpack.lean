import Mathlib.Data.List.Basic
import Mathlib.Algebra.Ring.Int.Defs
import Mathlib.Algebra.Ring.Nat

/-!
# `Lib.Msgpack` — the interface of a MessagePack library

A MessagePack library as its clients see it: `pack` for ints and strings, `unpack` of one object at an
offset of a buffer, and the conversions `as<int>` and `as<std::string>` of an unpacked object. The
library itself is a parameter; what its documentation promises is stated as two groups of laws.

- `Lawful`: reading undoes writing, also with other bytes before and after.
- `Sized`: the format uses the shortest form when writing, and an object read lies inside the buffer and
  is at least as long as the shortest form of its string.
-/

/-! ## Sequences of calls that can fail -/

namespace Except

variable {ε α β : Type}

@[simp] theorem ok_bind (a : α) (f : α → Except ε β) : (Except.ok a >>= f) = f a := rfl
@[simp] theorem error_bind (e : ε) (f : α → Except ε β) : (Except.error e >>= f) = .error e := rfl

/-- A sequence that returns has returned at its first step. -/
theorem bind_ok {x : Except ε α} {f : α → Except ε β} {b : β} (h : (x >>= f) = .ok b) :
    ∃ a, x = .ok a ∧ f a = .ok b := by
  cases x with
  | error e => cases h
  | ok a => exact ⟨a, rfl, h⟩

/-- A result is carried over step by step. -/
theorem bind_map {γ : Type} {φ : β → γ} {x : Except ε α} {f : α → Except ε β} {g : α → Except ε γ}
    (h : ∀ a, g a = (f a).map φ) : (x >>= g) = (x >>= f).map φ := by
  cases x with
  | error e => rfl
  | ok a => exact h a

end Except

/-! ## The interface -/

/-- What the library throws. -/
inductive Msgpack.Error where
  | insufficientBytes
  | parseError
  | typeError
  | containerSizeOverflow
deriving DecidableEq, Repr

/-- An unpacked object, as far as the conversions tell objects apart. -/
inductive Msgpack.Object where
  | int (n : Int)
  | str (s : List UInt8)
  | bin (s : List UInt8)
  | other
deriving DecidableEq, Repr

/-- The library: `unpack data offset` yields an object and the offset just past it. -/
structure Msgpack where
  packInt : Int → List UInt8
  packStr : List UInt8 → Except Msgpack.Error (List UInt8)
  unpack  : List UInt8 → Nat → Except Msgpack.Error (Msgpack.Object × Nat)

namespace Msgpack

/-- `o.as<int>()`: only integers, and only those that fit. -/
def Object.asInt : Object → Except Error Int
  | .int n => if -(2 ^ 31) ≤ n ∧ n < 2 ^ 31 then .ok n else .error .typeError
  | _ => .error .typeError

/-- `o.as<std::string>()`: strings and binaries. -/
def Object.asString : Object → Except Error (List UInt8)
  | .str s => .ok s
  | .bin s => .ok s
  | _ => .error .typeError

/-- Bytes the shortest `str` form spends on the length of a string of `n` bytes. -/
def strHeader (n : Nat) : Nat :=
  if n < 2 ^ 5 then 1 else if n < 2 ^ 8 then 2 else if n < 2 ^ 16 then 3 else 5

/-- Length of the shortest form of a string. -/
def strSize (s : List UInt8) : Nat := strHeader s.length + s.length

/-- Reading undoes writing. -/
structure Lawful (mp : Msgpack) : Prop where
  packStr_ok     : ∀ s, s.length < 2 ^ 32 → ∃ p, mp.packStr s = .ok p
  unpack_packInt : ∀ n, -(2 ^ 31) ≤ n → n < 2 ^ 31 → ∀ pre rest,
    mp.unpack (pre ++ (mp.packInt n ++ rest)) pre.length
      = .ok (.int n, pre.length + (mp.packInt n).length)
  unpack_packStr : ∀ s p, mp.packStr s = .ok p → ∀ pre rest,
    mp.unpack (pre ++ (p ++ rest)) pre.length = .ok (.str s, pre.length + p.length)

/-- Sizes of what is written and what is read. -/
structure Sized (mp : Msgpack) : Prop where
  packInt_length : ∀ n, 0 ≤ n → n < 2 ^ 7 → (mp.packInt n).length = 1
  packStr_length : ∀ s p, mp.packStr s = .ok p → p.length = strSize s
  unpack_bounds  : ∀ data off o off', mp.unpack data off = .ok (o, off') →
    off < off' ∧ off' ≤ data.length
  unpack_string  : ∀ data off o off' s, mp.unpack data off = .ok (o, off') → o.asString = .ok s →
    s.length < 2 ^ 32 ∧ off + strSize s ≤ off'

end Msgpack
