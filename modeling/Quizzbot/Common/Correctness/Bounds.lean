import Quizzbot.Common.Correctness.Front
import Quizzbot.Lib.Traced

/-!
# `Common.Correctness.Bounds` — the readers stay inside the packet

The readers track the iterator and the number of bytes behind it separately. Here they are written once
more with everything recorded that could go wrong (`Access`): what each of them is entered with, the ranges
it reads and skips, its subtractions of lengths, and what is erased in the end. Without the records they
are the readers (`parse_traced`), and every record is as it should be (`accesses_inside`): by the guard in
front of it, or because the length handed on is that of what is left.
-/

namespace Quizzbot

open HexText (extractHex)
open Traced (emit lift Safe)

/-! ## Accesses -/

inductive ReaderKind where
  | sync
  | size
  | content
  | checksum
deriving DecidableEq, Repr

/-- What is recorded. -/
inductive Access where
  | enter (reader : ReaderKind) (input_iter : Iter) (len : Nat)
  | slice (it : Iter) (n : Nat)
  | advance (it : Iter) (n : Nat)
  | subtract (len n : Nat)
  | erase (packet : Packet) (iter : Iter)
deriving DecidableEq, Repr

/-- The length is that of what is behind the iterator; ranges end inside the packet; a subtraction does not
    wrap around; and what is erased is a frame: six bytes and the content that the size field announces. -/
def Access.Inside : Access → Prop
  | .enter _ it len => it.pos + len = it.packet.length
  | .slice it n => it.pos + n ≤ it.packet.length
  | .advance it n => it.pos + n ≤ it.packet.length
  | .subtract len n => n ≤ len
  | .erase packet it => ∃ h l content tail, packet = 0x01 :: 0x02 :: h :: l :: (content ++ tail) ∧
      extractHex 64 [h, l] = some content.length ∧ it = ⟨packet, 6 + content.length⟩ ∧
      it.pos ≤ packet.length

/-! ## The readers, recorded -/

def Iter.sliceTraced (it : Iter) (n : Nat) : Traced Access Fault Packet := do
  emit (.slice it n)
  lift (it.slice n)

def Iter.advanceTraced (it : Iter) (n : Nat) : Traced Access Fault Iter := do
  emit (.advance it n)
  lift (it.advance n)

/-- `len -= n`. -/
def subtractTraced (len n : Nat) : Traced Access Fault Nat := do
  emit (.subtract len n)
  pure (len - n)

def ChecksumParser.traced (msg_bytes_ : Packet) (input_iter : Iter) (len : Nat) :
    Traced Access Fault (ParseCode × Iter) := do
  emit (.enter .checksum input_iter len)
  if len < 2 then pure (.notEnough, input_iter)
  else do
    let checksum ← input_iter.sliceTraced 2
    let input_iter ← input_iter.advanceTraced 2
    if checksum ≠ checksumText msg_bytes_ then pure (.badChecksum, input_iter)
    else pure (.parseOk, input_iter)

section
variable {Msg : Type} (T : Codec Msg)

def ContentParser.traced (msg : Msg) (input_iter : Iter) (to_read remaining : Nat) :
    Traced Access Fault (ParseCode × Msg × Iter) := do
  emit (.enter .content input_iter remaining)
  if remaining < to_read then pure (.notEnough, msg, input_iter)
  else do
    let msg_bytes ← input_iter.sliceTraced to_read
    let msg ← lift (T.parse msg msg_bytes)
    let input_iter ← input_iter.advanceTraced to_read
    let remaining ← subtractTraced remaining to_read
    let (code, input_iter) ← ChecksumParser.traced msg_bytes input_iter remaining
    pure (code, msg, input_iter)

def SizeParser.traced (msg : Msg) (input_iter : Iter) (len : Nat) :
    Traced Access Fault (ParseCode × Msg × Iter) := do
  emit (.enter .size input_iter len)
  if len < 2 then pure (.notEnough, msg, input_iter)
  else do
    let candidate_size ← input_iter.sliceTraced 2
    let input_iter ← input_iter.advanceTraced 2
    let len ← subtractTraced len 2
    match extractHex 64 candidate_size with
    | none => pure (.blurp, msg, input_iter)
    | some size => ContentParser.traced T msg input_iter size len

def SyncParser.traced (msg : Msg) (input_iter : Iter) (len : Nat) :
    Traced Access Fault (ParseCode × Msg × Iter) := do
  emit (.enter .sync input_iter len)
  if len < 2 then pure (.notEnough, msg, input_iter)
  else do
    let candidate ← input_iter.sliceTraced 2
    if candidate ≠ [0x01, 0x02] then pure (.blurp, msg, input_iter)
    else do
      let input_iter ← input_iter.advanceTraced 2
      let len ← subtractTraced len 2
      SizeParser.traced T msg input_iter len

def Protocol.loopTraced (msg : Msg) : Packet → Traced Access Fault (Option Msg × Packet)
  | [] => pure (none, [])
  | b :: packet => do
    let (code, msg, iter) ← SyncParser.traced T msg ⟨b :: packet, 0⟩ (b :: packet).length
    match code with
    | .notEnough => pure (none, b :: packet)
    | .parseOk => do
        emit (.erase (b :: packet) iter)
        let msg ← lift (T.copy msg)
        pure (some msg, (b :: packet).drop iter.pos)
    | _ => Protocol.loopTraced msg packet

def Protocol.traced (packet : Packet) : Traced Access Fault (Option Msg × Packet) :=
  Protocol.loopTraced T T.new packet

/-! ## Without the records -/

@[simp] theorem sliceTraced_result (it : Iter) (n : Nat) : (it.sliceTraced n).result = it.slice n := rfl

@[simp] theorem advanceTraced_result (it : Iter) (n : Nat) :
    (it.advanceTraced n).result = it.advance n := rfl

@[simp] theorem subtractTraced_result (len n : Nat) : (subtractTraced len n).result = .ok (len - n) := rfl

@[simp] theorem checksum_traced (msg_bytes_ : Packet) (it : Iter) (len : Nat) :
    (ChecksumParser.traced msg_bytes_ it len).result = ChecksumParser.read msg_bytes_ it len := by
  simp [ChecksumParser.traced, ChecksumParser.read]

@[simp] theorem content_traced (msg : Msg) (it : Iter) (to_read remaining : Nat) :
    (ContentParser.traced T msg it to_read remaining).result
      = ContentParser.read T msg it to_read remaining := by
  simp [ContentParser.traced, ContentParser.read]

@[simp] theorem size_traced (msg : Msg) (it : Iter) (len : Nat) :
    (SizeParser.traced T msg it len).result = SizeParser.read T msg it len := by
  by_cases hlen : len < 2
  · simp [SizeParser.traced, SizeParser.read, hlen]
  · simp only [SizeParser.traced, SizeParser.read, if_neg hlen, Traced.result_bind, Traced.result_emit,
      sliceTraced_result, advanceTraced_result, subtractTraced_result, ok_bind]
    refine bind_congr fun bytes => bind_congr fun it => ?_
    cases extractHex 64 bytes with
    | none => rfl
    | some size => exact content_traced T msg it size (len - 2)

@[simp] theorem sync_traced (msg : Msg) (it : Iter) (len : Nat) :
    (SyncParser.traced T msg it len).result = SyncParser.read T msg it len := by
  simp [SyncParser.traced, SyncParser.read]

theorem loop_traced (msg : Msg) (packet : Packet) :
    (Protocol.loopTraced T msg packet).result = Protocol.parseLoop T msg packet := by
  induction packet generalizing msg with
  | nil => rfl
  | cons b packet ih =>
      rw [Protocol.loopTraced, Protocol.parseLoop, Traced.result_bind, sync_traced]
      congr 1
      funext x
      obtain ⟨code, msg, it⟩ := x
      cases code with
      | notEnough => rfl
      | parseOk => simp
      | badChecksum => exact ih msg
      | blurp => exact ih msg

theorem parse_traced (packet : Packet) :
    (Protocol.traced T packet).result = Protocol.parse T packet := loop_traced T T.new packet

/-! ## Inside the packet -/

theorem slice_inside {it : Iter} {n : Nat} (h : it.pos + n ≤ it.packet.length) :
    Safe Access.Inside (it.sliceTraced n) :=
  Traced.safe_emit_bind h (Traced.safe_lift _)

theorem advance_inside {it : Iter} {n : Nat} (h : it.pos + n ≤ it.packet.length) :
    Safe Access.Inside (it.advanceTraced n) :=
  Traced.safe_emit_bind h (Traced.safe_lift _)

theorem subtract_inside {len n : Nat} (h : n ≤ len) : Safe Access.Inside (subtractTraced len n) :=
  Traced.safe_emit_bind h (Traced.safe_pure _)

/-- Where an iterator stands after it has moved. -/
theorem advance_eq {it it' : Iter} {n : Nat} (h : it.advance n = .ok it') :
    it' = { it with pos := it.pos + n } := by
  rw [Iter.advance] at h
  split at h
  · exact (Except.ok.inj h).symm
  · cases h

/-- A reader moves its iterator and its length on by the same number, so what follows is entered with the
    length of what is left. -/
theorem moveOn_inside {α : Type} {it : Iter} {len n : Nat} {f : Iter → Nat → Traced Access Fault α}
    (h : it.pos + len = it.packet.length) (hn : n ≤ len)
    (hf : ∀ it' : Iter, it'.pos + (len - n) = it'.packet.length → Safe Access.Inside (f it' (len - n))) :
    Safe Access.Inside (it.advanceTraced n >>= fun it' => subtractTraced len n >>= f it') := by
  apply Traced.safe_bind (advance_inside (by omega))
  intro it' hadvance
  obtain rfl := advance_eq hadvance
  apply Traced.safe_bind (subtract_inside hn)
  intro len' hsub
  obtain rfl := Except.ok.inj hsub
  exact hf _ (by dsimp only; omega)

theorem checksum_inside (msg_bytes_ : Packet) {it : Iter} {len : Nat}
    (h : it.pos + len = it.packet.length) : Safe Access.Inside (ChecksumParser.traced msg_bytes_ it len) := by
  have henter : Access.Inside (.enter .checksum it len) := h
  apply Traced.safe_emit_bind henter
  split
  · exact Traced.safe_pure _
  · apply Traced.safe_bind (slice_inside (by omega))
    intro checksum _
    apply Traced.safe_bind (advance_inside (by omega))
    intro it' _
    split <;> exact Traced.safe_pure _

/-- The content reader, whatever size it is given. -/
theorem content_inside (msg : Msg) {it : Iter} (to_read : Nat) {remaining : Nat}
    (h : it.pos + remaining = it.packet.length) :
    Safe Access.Inside (ContentParser.traced T msg it to_read remaining) := by
  have henter : Access.Inside (.enter .content it remaining) := h
  apply Traced.safe_emit_bind henter
  split
  · exact Traced.safe_pure _
  · apply Traced.safe_bind (slice_inside (by omega))
    intro msg_bytes _
    refine Traced.safe_bind (Traced.safe_lift _) ?_
    intro msg' _
    refine moveOn_inside h (by omega) ?_
    intro it' hit'
    apply Traced.safe_bind (checksum_inside msg_bytes hit')
    intro _ _
    exact Traced.safe_pure _

theorem size_inside (msg : Msg) {it : Iter} {len : Nat} (h : it.pos + len = it.packet.length) :
    Safe Access.Inside (SizeParser.traced T msg it len) := by
  have henter : Access.Inside (.enter .size it len) := h
  apply Traced.safe_emit_bind henter
  split
  · exact Traced.safe_pure _
  · apply Traced.safe_bind (slice_inside (by omega))
    intro candidate_size _
    refine moveOn_inside h (by omega) ?_
    intro it' hit'
    split
    · exact Traced.safe_pure _
    · exact content_inside T msg _ hit'

theorem sync_inside (msg : Msg) {it : Iter} {len : Nat} (h : it.pos + len = it.packet.length) :
    Safe Access.Inside (SyncParser.traced T msg it len) := by
  have henter : Access.Inside (.enter .sync it len) := h
  apply Traced.safe_emit_bind henter
  split
  · exact Traced.safe_pure _
  · apply Traced.safe_bind (slice_inside (by omega))
    intro candidate _
    split
    · exact Traced.safe_pure _
    · refine moveOn_inside h (by omega) ?_
      intro it' hit'
      exact size_inside T msg hit'

/-- What is accepted is a frame, and the iterator stands behind it. -/
theorem read_parseOk {msg msg' : Msg} {s : Packet} {it : Iter}
    (h : SyncParser.read T msg ⟨s, 0⟩ s.length = .ok (.parseOk, msg', it)) :
    Access.Inside (.erase s it) := by
  cases hf : front s with
  | short =>
      obtain ⟨it', hr⟩ := read_short T msg hf
      rw [hr] at h; cases h
  | noise =>
      obtain ⟨it', hr⟩ := read_noise T msg hf
      rw [hr] at h; cases h
  | body c tail =>
      obtain ⟨it', hr, hpos⟩ := read_body T msg hf
      rw [hr] at h
      obtain ⟨m, -, h⟩ := bind_ok h
      injection h with h
      obtain ⟨hcode, h⟩ := Prod.mk.inj h
      obtain ⟨-, rfl⟩ := Prod.mk.inj h
      obtain rfl := hpos hcode
      obtain ⟨hi, lo, rfl, hx⟩ := front_eq_body_iff.mp hf
      obtain ⟨k₁, k₂, rest, rfl, -⟩ := checksumCode_parseOk_iff.mp hcode
      refine ⟨hi, lo, c, k₁ :: k₂ :: rest, rfl, hx, by rw [Nat.add_comm], ?_⟩
      simp only [List.length_cons, List.length_append]
      omega

theorem loop_inside (msg : Msg) (packet : Packet) :
    Safe Access.Inside (Protocol.loopTraced T msg packet) := by
  induction packet generalizing msg with
  | nil => exact Traced.safe_pure _
  | cons b packet ih =>
      refine Traced.safe_bind (sync_inside T msg (Nat.zero_add _)) ?_
      intro x hread
      obtain ⟨code, msg', it⟩ := x
      rw [sync_traced] at hread
      cases code with
      | notEnough => exact Traced.safe_pure _
      | parseOk =>
          refine Traced.safe_emit_bind (read_parseOk T hread) ?_
          refine Traced.safe_bind (Traced.safe_lift _) ?_
          intro _ _
          exact Traced.safe_pure _
      | badChecksum => exact ih msg'
      | blurp => exact ih msg'

/-- **The readers stay inside the packet**, for every packet and codec: with the records they compute what
    `protocol::parse` computes, and every record is as it should be. -/
theorem accesses_inside (packet : Packet) :
    (Protocol.traced T packet).result = Protocol.parse T packet ∧
      ∀ access ∈ (Protocol.traced T packet).events, access.Inside :=
  ⟨parse_traced T packet, loop_inside T T.new packet⟩

end

/-- A minus sign makes the content reader look for `2 ^ 64 - 1` bytes. -/
example : (Protocol.traced naiveCommandProtocol [0x01, 0x02, 0x2d, 0x31, 0x41]).events
    = [.enter .sync ⟨[0x01, 0x02, 0x2d, 0x31, 0x41], 0⟩ 5, .slice ⟨[0x01, 0x02, 0x2d, 0x31, 0x41], 0⟩ 2,
      .advance ⟨[0x01, 0x02, 0x2d, 0x31, 0x41], 0⟩ 2, .subtract 5 2,
      .enter .size ⟨[0x01, 0x02, 0x2d, 0x31, 0x41], 2⟩ 3, .slice ⟨[0x01, 0x02, 0x2d, 0x31, 0x41], 2⟩ 2,
      .advance ⟨[0x01, 0x02, 0x2d, 0x31, 0x41], 2⟩ 2, .subtract 3 2,
      .enter .content ⟨[0x01, 0x02, 0x2d, 0x31, 0x41], 4⟩ 1] := by decide

end Quizzbot
