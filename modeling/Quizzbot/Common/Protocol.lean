import Quizzbot.Common.Command
import Quizzbot.Common.Message

/-!
# `Common.Protocol` — the transport frame (`protocol.h`, `protocol.cc`)

A frame is `0x01 0x02`, two hexadecimal digits for the content length, the content, and two hexadecimal
digits for the checksum. The four nested readers (`SyncParser`, `SizeParser`, `ContentParser`,
`ChecksumParser`) each take the iterator and the number of bytes behind it, move the iterator, and return
a `ParseCode`. Everything is generic in the content codec (`Codec`), as the C++ templates are.

Lengths are natural numbers: the `size_t` subtractions of the readers stand behind a comparison, and the
sizes themselves come from `extractHex 64`, so they are below `2 ^ 64`.
-/

namespace Quizzbot

open HexText (hexText extractHex)

/-- A content codec `T` for messages `Msg`: its `parse` writes into a message object, its `pack` reads
    one, and returning a message copies it. -/
structure Codec (Msg : Type) where
  new   : Msg
  parse : Msg → Packet → Except Fault Msg
  pack  : Msg → Except Fault Packet
  copy  : Msg → Except Fault Msg

/-- `naive_command_protocol` on `command`. -/
def naiveCommandProtocol : Codec Command where
  new := {}
  parse cmd packet := .ok (NaiveCommandProtocol.parse cmd packet)
  pack cmd := .ok (NaiveCommandProtocol.pack cmd)
  copy cmd := .ok cmd

/-- `MessageProtocol` on `Message`. -/
def messageCodec (mp : Msgpack) : Codec Message where
  new := .new
  parse msg packet := msg.unpack mp packet
  pack msg := msg.pack mp
  copy msg := msg.copy mp

/-! ## Checksum -/

/-- Addition of `int`s, two's complement. -/
def addInt (a b : Int) : Int := Int.bmod (a + b) (2 ^ 32)

/-- `compute_cc`: the sum of the bytes, an `int`, modulo 255 with the sign of the sum. -/
def computeCc (content : Packet) : Int :=
  (content.foldl (fun sum b => addInt sum b.toNat) 0).tmod 255

/-- `std::setfill('0') << std::setw(2) << std::hex << n` for an `int`, printed as `unsigned`. -/
def hexInt (n : Int) : CString := hexText 2 (n % 2 ^ 32).toNat

/-- The text a checksum is compared with. -/
def checksumText (content : Packet) : CString := hexInt (computeCc content)

/-! ## The readers -/

/-- `checksum_parser::read`. -/
def ChecksumParser.read (msg_bytes_ : Packet) (input_iter : Iter) (len : Nat) :
    Except Fault (ParseCode × Iter) :=
  if len < 2 then .ok (.notEnough, input_iter)
  else do
    let checksum ← input_iter.slice 2
    let input_iter ← input_iter.advance 2
    if checksum ≠ checksumText msg_bytes_ then .ok (.badChecksum, input_iter)
    else .ok (.parseOk, input_iter)

section
variable {Msg : Type} (T : Codec Msg)

/-- `content_parser::read`. The content is decoded into `msg` before its checksum is looked at. -/
def ContentParser.read (msg : Msg) (input_iter : Iter) (to_read remaining : Nat) :
    Except Fault (ParseCode × Msg × Iter) :=
  if remaining < to_read then .ok (.notEnough, msg, input_iter)
  else do
    let msg_bytes ← input_iter.slice to_read
    -- what `parse` throws is not caught here or in the readers above
    let msg ← T.parse msg msg_bytes
    let input_iter ← input_iter.advance to_read
    let remaining := remaining - to_read
    let (code, input_iter) ← ChecksumParser.read msg_bytes input_iter remaining
    .ok (code, msg, input_iter)

/-- `size_parser::read`. The two bytes of the size go through formatted extraction. -/
def SizeParser.read (msg : Msg) (input_iter : Iter) (len : Nat) :
    Except Fault (ParseCode × Msg × Iter) :=
  if len < 2 then .ok (.notEnough, msg, input_iter)
  else do
    let candidate_size ← input_iter.slice 2
    let input_iter ← input_iter.advance 2
    let len := len - 2
    match extractHex 64 candidate_size with
    | none => .ok (.blurp, msg, input_iter)
    | some size => ContentParser.read T msg input_iter size len

/-- `sync_parser::read`. -/
def SyncParser.read (msg : Msg) (input_iter : Iter) (len : Nat) :
    Except Fault (ParseCode × Msg × Iter) :=
  if len < 2 then .ok (.notEnough, msg, input_iter)
  else do
    let candidate ← input_iter.slice 2
    if candidate ≠ [0x01, 0x02] then .ok (.blurp, msg, input_iter)
    else do
      let input_iter ← input_iter.advance 2
      let len := len - 2
      SizeParser.read T msg input_iter len

/-! ## The protocol -/

/-- The loop of `protocol::parse`: one message object is shared by all attempts, and a rejected attempt
    costs the first byte of the packet. -/
def Protocol.parseLoop (msg : Msg) : Packet → Except Fault (Option Msg × Packet)
  | [] => .ok (none, [])
  | b :: packet => do
    let (code, msg, iter) ← SyncParser.read T msg ⟨b :: packet, 0⟩ (b :: packet).length
    match code with
    | .notEnough => .ok (none, b :: packet)
    | .parseOk => do
        let msg ← T.copy msg
        .ok (some msg, (b :: packet).drop iter.pos)
    -- a bad checksum and no frame alike
    | _ => Protocol.parseLoop msg packet

/-- `protocol::parse`: maybe a message, and the packet that is left. -/
def Protocol.parse (packet : Packet) : Except Fault (Option Msg × Packet) :=
  Protocol.parseLoop T T.new packet

/-- `protocol::pack`. -/
def Protocol.pack (msg : Msg) : Except Fault Packet := do
  let msg_content ← T.pack msg
  -- `setw` pads but does not cut: of a longer text the first two characters are sent
  let size := hexText 2 msg_content.length
  let cc := checksumText msg_content
  .ok ([0x01, 0x02, size.getD 0 0, size.getD 1 0] ++ msg_content ++ [cc.getD 0 0, cc.getD 1 0])

end

/-- Test of the repository: noise in front of a frame. -/
example : Protocol.parse naiveCommandProtocol
    (HexText.ascii "lo;" ++ [0x01, 0x02] ++ HexText.ascii "0AM1234567892c")
      = .ok (some ⟨.message, HexText.ascii "123456789"⟩, []) := by decide

end Quizzbot
