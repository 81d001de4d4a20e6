import Quizzbot.Common.Protocol
import Quizzbot.Lib.Resync

/-!
# `Common.Correctness.Front` — what the four readers see at the front of a packet

The four nested readers decide one question: what stands at the front of the packet. `front` answers it
on the bytes alone, without iterators, lengths or a codec: not enough bytes to tell (`short`), no frame
(`noise`), or a complete content followed by some tail (`body`). The lemmas `read_*` say that the readers
compute exactly this and never leave the packet; `parseLoop_*` carries it to one turn of the loop of
`protocol::parse`.

For codecs whose `parse` overwrites the message object, the loop is the scan of a stable reader
(`parse_eq_scan`), which makes all of `Lib.Resync` and `Lib.PullParser` available.
-/

namespace Quizzbot

open HexText (extractHex)
open Resync (Verdict)

/-! ## The front of a packet -/

/-- What stands at the front of a packet. -/
inductive Front where
  | short
  | noise
  | body (content tail : Packet)
deriving DecidableEq, Repr

/-- The front after the sync bytes. -/
def sizeFront : Packet → Front
  | h :: l :: rest =>
    match extractHex 64 [h, l] with
    | none => .noise
    | some n => if rest.length < n then .short else .body (rest.take n) (rest.drop n)
  | _ => .short

/-- The front of a packet. -/
def front : Packet → Front
  | a :: b :: s => if [a, b] ≠ [0x01, 0x02] then .noise else sizeFront s
  | _ => .short

/-- The ways a packet can begin, each with its front. -/
inductive Begins : Packet → Front → Prop
  | noSync {s} : s.length < 2 → Begins s .short
  | badSync {a b s} : [a, b] ≠ [0x01, 0x02] → Begins (a :: b :: s) .noise
  | noSize {s} : s.length < 2 → Begins (0x01 :: 0x02 :: s) .short
  | badSize {h l rest} : extractHex 64 [h, l] = none → Begins (0x01 :: 0x02 :: h :: l :: rest) .noise
  | cut {h l rest n} : extractHex 64 [h, l] = some n → rest.length < n →
      Begins (0x01 :: 0x02 :: h :: l :: rest) .short
  | frame {h l c tail} : extractHex 64 [h, l] = some c.length →
      Begins (0x01 :: 0x02 :: h :: l :: (c ++ tail)) (.body c tail)

theorem begins_sync (s : Packet) : Begins (0x01 :: 0x02 :: s) (sizeFront s) := by
  match s with
  | [] => exact .noSize (by decide)
  | [_] => exact .noSize (by simp)
  | h :: l :: rest =>
    cases hx : extractHex 64 [h, l] with
    | none =>
        rw [sizeFront, hx]
        exact .badSize hx
    | some n =>
        simp only [sizeFront, hx]
        split_ifs with hn
        · exact .cut hx hn
        · have hc : (rest.take n).length = n := List.length_take_of_le (Nat.le_of_not_lt hn)
          have hframe : Begins (0x01 :: 0x02 :: h :: l :: (rest.take n ++ rest.drop n))
              (.body (rest.take n) (rest.drop n)) := .frame (by rw [hx, hc])
          rwa [List.take_append_drop] at hframe

/-- Every packet begins in one of these ways. -/
theorem begins (s : Packet) : Begins s (front s) := by
  match s with
  | [] => exact .noSync (by decide)
  | [_] => exact .noSync (by simp)
  | a :: b :: s =>
    rw [front]
    split_ifs with hab
    · exact .badSync hab
    · obtain ⟨rfl, rfl⟩ : a = 0x01 ∧ b = 0x02 := by simpa using hab
      exact begins_sync s

/-- A body is preceded by the sync bytes and a size that denotes its length. -/
theorem front_eq_body_iff {s c tail : Packet} : front s = .body c tail ↔
    ∃ h l, s = 0x01 :: 0x02 :: h :: l :: (c ++ tail) ∧ extractHex 64 [h, l] = some c.length := by
  constructor
  · intro hf
    have hb := begins s
    rw [hf] at hb
    cases hb with
    | frame hx => exact ⟨_, _, rfl, hx⟩
  · rintro ⟨h, l, rfl, hx⟩
    simp [front, sizeFront, hx]

/-- Once the front can be told, more bytes behind the packet change nothing but the tail. -/
theorem front_append {s : Packet} (h : front s ≠ .short) (x : Packet) :
    front (s ++ x) = match front s with
      | .body c tail => .body c (tail ++ x)
      | f => f := by
  have hb := begins s
  cases hf : front s with
  | short => exact absurd hf h
  | noise =>
      rw [hf] at hb
      cases hb with
      | badSync hab => exact if_pos hab
      | badSize hx =>
          show (match extractHex 64 _ with | none => Front.noise | some n => _) = _
          rw [hx]
  | body c tail =>
      obtain ⟨hi, lo, rfl, hx⟩ := front_eq_body_iff.mp hf
      exact front_eq_body_iff.mpr ⟨hi, lo, by simp, hx⟩

/-- Dropping a frame leaves what follows the checksum. -/
theorem drop_frame {s c tail : Packet} (h : front s = .body c tail) :
    s.drop (c.length + 6) = tail.drop 2 := by
  obtain ⟨hi, lo, rfl, -⟩ := front_eq_body_iff.mp h
  rw [show c.length + 6 = c.length + 2 + 4 by omega]
  show (c ++ tail).drop (c.length + 2) = tail.drop 2
  rw [← List.drop_drop, List.drop_left]

/-! ## Iterators inside a packet -/

/-- The iterator stands in front of `s`. -/
def Iter.At (it : Iter) (s : Packet) : Prop := ∃ pre, it.packet = pre ++ s ∧ it.pos = pre.length

theorem Iter.at_begin (s : Packet) : Iter.At ⟨s, 0⟩ s := ⟨[], rfl, rfl⟩

/-- Reading what stands there. -/
theorem Iter.At.slice {it : Iter} {x s : Packet} (h : it.At (x ++ s)) :
    it.slice x.length = .ok x := by
  obtain ⟨pre, hp, hpos⟩ := h
  rw [Iter.slice_ok (by simp [hp, hpos]), hp, hpos, List.drop_left, List.take_left]

/-- Moving past it. -/
theorem Iter.At.advance {it : Iter} {x s : Packet} (h : it.At (x ++ s)) :
    it.advance x.length = .ok { it with pos := it.pos + x.length } ∧
      Iter.At { it with pos := it.pos + x.length } s := by
  obtain ⟨pre, hp, hpos⟩ := h
  exact ⟨Iter.advance_ok (by simp [hp, hpos]), pre ++ x, by simp [hp], by simp [hpos]⟩

/-- The two bytes the readers take at a time. -/
theorem Iter.At.two {it : Iter} {a b : UInt8} {s : Packet} (h : it.At (a :: b :: s)) :
    it.slice 2 = .ok [a, b] ∧ it.advance 2 = .ok { it with pos := it.pos + 2 } ∧
      Iter.At { it with pos := it.pos + 2 } s :=
  ⟨Iter.At.slice (x := [a, b]) h, (Iter.At.advance (x := [a, b]) h).1,
    (Iter.At.advance (x := [a, b]) h).2⟩

/-! ## The readers compute the front -/

/-- The verdict on a content with the checksum in front of `tail`. -/
def checksumCode (content : Packet) : Packet → ParseCode
  | k₁ :: k₂ :: _ => if [k₁, k₂] = checksumText content then .parseOk else .badChecksum
  | _ => .notEnough

/-- The checksum reader computes the verdict, and stands behind the checksum if there is one. -/
theorem checksumRead {c tail : Packet} {it : Iter} (h : it.At tail) :
    ∃ it', ChecksumParser.read c it tail.length = .ok (checksumCode c tail, it') ∧
      (checksumCode c tail = .parseOk → it' = { it with pos := it.pos + 2 }) := by
  match tail with
  | [] => exact ⟨it, rfl, fun hc => nomatch hc⟩
  | [_] => exact ⟨it, rfl, fun hc => nomatch hc⟩
  | k₁ :: k₂ :: rest =>
    obtain ⟨hs, ha, -⟩ := h.two
    refine ⟨{ it with pos := it.pos + 2 }, ?_, fun _ => rfl⟩
    rw [ChecksumParser.read, if_neg (by simp), hs, ha]
    by_cases hk : [k₁, k₂] = checksumText c
    · simp only [ok_bind, checksumCode, if_pos hk, if_neg (not_not.mpr hk)]
    · simp only [ok_bind, checksumCode, if_neg hk, if_pos hk]

variable {Msg : Type} (T : Codec Msg) (msg : Msg)

/-- The content reader on a complete content: decode, then the verdict of the checksum. -/
theorem contentRead {c tail : Packet} {it : Iter} (h : it.At (c ++ tail)) :
    ∃ it', ContentParser.read T msg it c.length (c ++ tail).length
        = (T.parse msg c >>= fun m => .ok (checksumCode c tail, m, it')) ∧
      (checksumCode c tail = .parseOk → it' = { it with pos := it.pos + c.length + 2 }) := by
  have hlen : (c ++ tail).length - c.length = tail.length := by simp
  obtain ⟨it', hr, hpos⟩ := checksumRead (c := c) h.advance.2
  refine ⟨it', ?_, hpos⟩
  -- decoding comes first, so its failure is the failure of the reader
  rw [ContentParser.read, if_neg (by simp), h.slice, h.advance.1, hlen]
  cases hp : T.parse msg c with
  | error e => simp only [ok_bind, hp, error_bind]
  | ok m => simp only [ok_bind, hp, hr]

/-- One turn of the size reader, with two bytes there. -/
theorem sizeRead_two {hi lo : UInt8} {rest : Packet} {it : Iter} (h : it.At (hi :: lo :: rest)) :
    SizeParser.read T msg it (hi :: lo :: rest).length
      = match extractHex 64 [hi, lo] with
        | none => .ok (.blurp, msg, { it with pos := it.pos + 2 })
        | some n => ContentParser.read T msg { it with pos := it.pos + 2 } n rest.length := by
  obtain ⟨hs, ha, -⟩ := h.two
  rw [SizeParser.read, if_neg (by simp), hs, ha]
  rfl

/-- One turn of the sync reader, with the sync bytes there. -/
theorem syncRead_sync {s : Packet} :
    SyncParser.read T msg ⟨0x01 :: 0x02 :: s, 0⟩ (0x01 :: 0x02 :: s).length
      = SizeParser.read T msg ⟨0x01 :: 0x02 :: s, 2⟩ s.length := by
  obtain ⟨hs, ha, -⟩ := (Iter.at_begin (0x01 :: 0x02 :: s)).two
  rw [SyncParser.read, if_neg (by simp), hs, ha]
  simp only [ok_bind, ne_eq, not_true_eq_false, if_false]
  rfl

/-- The iterator behind the sync bytes. -/
theorem at_sync (s : Packet) : Iter.At ⟨0x01 :: 0x02 :: s, 2⟩ s := ⟨[0x01, 0x02], rfl, rfl⟩

/-- **A short front** makes the readers wait. -/
theorem read_short {s : Packet} (hf : front s = .short) :
    ∃ it, SyncParser.read T msg ⟨s, 0⟩ s.length = .ok (.notEnough, msg, it) := by
  have hb := begins s
  rw [hf] at hb
  cases hb with
  | noSync hlen => exact ⟨_, if_pos hlen⟩
  | noSize hlen =>
      rw [syncRead_sync]
      exact ⟨_, if_pos hlen⟩
  | cut hx hn =>
      rw [syncRead_sync, sizeRead_two T msg (at_sync _), hx]
      exact ⟨_, if_pos hn⟩

/-- **No frame at the front** makes the readers give up. -/
theorem read_noise {s : Packet} (hf : front s = .noise) :
    ∃ it, SyncParser.read T msg ⟨s, 0⟩ s.length = .ok (.blurp, msg, it) := by
  have hb := begins s
  rw [hf] at hb
  cases hb with
  | @badSync a b s hab =>
      obtain ⟨hs, -, -⟩ := (Iter.at_begin (a :: b :: s)).two
      rw [SyncParser.read, if_neg (by simp), hs]
      exact ⟨_, if_pos hab⟩
  | badSize hx =>
      rw [syncRead_sync, sizeRead_two T msg (at_sync _), hx]
      exact ⟨_, rfl⟩

/-- **A complete content** is decoded, and then its checksum decides. -/
theorem read_body {s c tail : Packet} (hf : front s = .body c tail) :
    ∃ it, SyncParser.read T msg ⟨s, 0⟩ s.length
        = (T.parse msg c >>= fun m => .ok (checksumCode c tail, m, it)) ∧
      (checksumCode c tail = .parseOk → it = ⟨s, c.length + 6⟩) := by
  obtain ⟨hi, lo, rfl, hx⟩ := front_eq_body_iff.mp hf
  have hat := at_sync (hi :: lo :: (c ++ tail))
  obtain ⟨it, hr, hpos⟩ := contentRead T msg hat.two.2.2
  refine ⟨it, ?_, ?_⟩
  · rw [syncRead_sync, sizeRead_two T msg hat, hx]
    exact hr
  · intro hc
    rw [hpos hc]
    show Iter.mk _ (2 + 2 + c.length + 2) = _
    rw [show 2 + 2 + c.length + 2 = c.length + 6 by omega]

/-! ## One turn of the loop -/

variable {T msg}

theorem parseLoop_short {s : Packet} (hf : front s = .short) :
    Protocol.parseLoop T msg s = .ok (none, s) := by
  cases s with
  | nil => rfl
  | cons b p =>
      obtain ⟨it, hr⟩ := read_short T msg hf
      rw [Protocol.parseLoop, hr]; rfl

theorem parseLoop_noise {b : UInt8} {p : Packet} (hf : front (b :: p) = .noise) :
    Protocol.parseLoop T msg (b :: p) = Protocol.parseLoop T msg p := by
  obtain ⟨it, hr⟩ := read_noise T msg hf
  rw [Protocol.parseLoop, hr]; rfl

/-- A complete content: decoded first, then accepted, rejected or kept by its checksum. -/
theorem parseLoop_body {b : UInt8} {p c tail : Packet} (hf : front (b :: p) = .body c tail) :
    Protocol.parseLoop T msg (b :: p) = (T.parse msg c >>= fun m =>
      match checksumCode c tail with
      | .notEnough => .ok (none, b :: p)
      | .parseOk => T.copy m >>= fun m => .ok (some m, tail.drop 2)
      | _ => Protocol.parseLoop T m p) := by
  obtain ⟨it, hr, hpos⟩ := read_body T msg hf
  rw [Protocol.parseLoop, hr]
  cases T.parse msg c with
  | error e => rfl
  | ok m =>
      cases hcode : checksumCode c tail with
      | notEnough => rfl
      | badChecksum => rfl
      | blurp => rfl
      | parseOk => simp only [ok_bind, hpos hcode, drop_frame hf]

/-! ## The loop is the scan of a stable reader

For a codec that overwrites the message object, what the readers say at a place depends only on the bytes
from there on. The verdict is stable because the front is, and the loop of `protocol::parse` drops bytes
exactly where the verdict rejects. -/

/-- Parsing into an object does not depend on what the object held. -/
def Codec.Overwrites (T : Codec Msg) : Prop := ∀ m m' c, T.parse m c = T.parse m' c

/-- The verdict on a decoded content, by its checksum. -/
def bodyVerdict (T : Codec Msg) (m : Msg) (c tail : Packet) : Verdict Msg Fault :=
  match checksumCode c tail with
  | .notEnough => .wait
  | .parseOk =>
    match T.copy m with
    | .ok m' => .accept m' (c.length + 6)
    | .error e => .fail e
  | _ => .reject

/-- The verdict of the readers at the front of a packet. -/
def verdict (T : Codec Msg) (s : Packet) : Verdict Msg Fault :=
  match front s with
  | .short => .wait
  | .noise => .reject
  | .body c tail =>
    match T.parse T.new c with
    | .ok m => bodyVerdict T m c tail
    | .error e => .fail e

theorem checksumCode_append {c tail : Packet} (h : checksumCode c tail ≠ .notEnough) (x : Packet) :
    checksumCode c (tail ++ x) = checksumCode c tail := by
  match tail with
  | [] => exact absurd rfl h
  | [_] => exact absurd rfl h
  | k₁ :: k₂ :: rest => rfl

theorem checksumCode_ne_blurp {c tail : Packet} : checksumCode c tail ≠ .blurp := by
  match tail with
  | [] => simp [checksumCode]
  | [_] => simp [checksumCode]
  | k₁ :: k₂ :: rest => simp only [checksumCode]; split <;> simp

/-- The checksum stands behind the content. -/
theorem checksumCode_parseOk_iff {c tail : Packet} :
    checksumCode c tail = .parseOk ↔ ∃ k₁ k₂ rest, tail = k₁ :: k₂ :: rest ∧ [k₁, k₂] = checksumText c := by
  match tail with
  | [] => simp [checksumCode]
  | [_] => simp [checksumCode]
  | k₁ :: k₂ :: rest =>
    by_cases hk : [k₁, k₂] = checksumText c <;> simp [checksumCode, hk]

theorem checksumCode_parseOk {c tail : Packet} (h : checksumCode c tail = .parseOk) :
    ∃ rest, tail = checksumText c ++ rest := by
  obtain ⟨k₁, k₂, rest, rfl, hk⟩ := checksumCode_parseOk_iff.mp h
  exact ⟨rest, by rw [← hk]; rfl⟩

/-- What an accepted message was made of. -/
theorem verdict_accept {s : Packet} {m : Msg} {n : Nat} (h : verdict T s = .accept m n) :
    ∃ c tail m', front s = .body c tail ∧ checksumCode c tail = .parseOk ∧
      T.parse T.new c = .ok m' ∧ T.copy m' = .ok m ∧ n = c.length + 6 := by
  unfold verdict at h
  cases hf : front s with
  | short => simp [hf] at h
  | noise => simp [hf] at h
  | body c tail =>
      cases hp : T.parse T.new c with
      | error e => simp [hf, hp] at h
      | ok m' =>
          simp only [hf, hp, bodyVerdict] at h
          cases hcode : checksumCode c tail with
          | notEnough => simp [hcode] at h
          | badChecksum => simp [hcode] at h
          | blurp => simp [hcode] at h
          | parseOk =>
              cases hcopy : T.copy m' with
              | error e => simp [hcode, hcopy] at h
              | ok m'' =>
                  simp only [hcode, hcopy, Verdict.accept.injEq] at h
                  exact ⟨c, tail, m', rfl, hcode, hp, h.1 ▸ hcopy, h.2.symm⟩

theorem verdict_accept_len {s : Packet} {m : Msg} {n : Nat} (h : verdict T s = .accept m n) :
    0 < n ∧ n ≤ s.length := by
  obtain ⟨c, tail, m', hf, hcode, -, -, rfl⟩ := verdict_accept h
  obtain ⟨hi, lo, rfl, -⟩ := front_eq_body_iff.mp hf
  obtain ⟨k₁, k₂, rest, rfl, -⟩ := checksumCode_parseOk_iff.mp hcode
  simp only [List.length_cons, List.length_append]
  omega

theorem verdict_stable {s : Packet} (h : verdict T s ≠ .wait) (x : Packet) :
    verdict T (s ++ x) = verdict T s := by
  have hshort : front s ≠ .short := by
    intro hs
    exact h (by rw [verdict, hs])
  have happ := front_append hshort x
  cases hf : front s with
  | short => exact absurd hf hshort
  | noise =>
      rw [hf] at happ
      rw [verdict, verdict, happ, hf]
  | body c tail =>
      rw [hf] at happ
      cases hp : T.parse T.new c with
      | error e => simp only [verdict, happ, hf, hp]
      | ok m =>
          -- the checksum was there, or the verdict would have been to wait
          have hcode : checksumCode c tail ≠ .notEnough := by
            intro hc
            exact h (by simp only [verdict, hf, hp, bodyVerdict, hc])
          simp only [verdict, happ, hf, hp, bodyVerdict, checksumCode_append hcode x]

/-- The readers of the protocol as one stable reader. -/
def protocolReader (T : Codec Msg) : Resync.Reader UInt8 Msg Fault where
  read := verdict T
  accept_len := verdict_accept_len
  stable := verdict_stable

/-- **The loop of `protocol::parse` is a scan**, whatever the shared object holds. -/
theorem parseLoop_eq_scan (hT : T.Overwrites) (msg : Msg) (s : Packet) :
    Protocol.parseLoop T msg s = (protocolReader T).scan s := by
  induction s generalizing msg with
  | nil => rfl
  | cons b p ih =>
      cases hf : front (b :: p) with
      | short =>
          rw [parseLoop_short hf]
          exact (Resync.scan_wait (by simp only [protocolReader, verdict, hf])).symm
      | noise =>
          rw [parseLoop_noise hf, ih]
          exact (Resync.scan_reject (by simp only [protocolReader, verdict, hf])).symm
      | body c tail =>
          rw [parseLoop_body hf, hT msg T.new c]
          have hread : (protocolReader T).read (b :: p) = match T.parse T.new c with
              | .ok m => bodyVerdict T m c tail
              | .error e => .fail e := by
            simp only [protocolReader, verdict, hf]
          cases hp : T.parse T.new c with
          | error e =>
              rw [hp] at hread
              exact (Resync.scan_fail hread).symm
          | ok m =>
              rw [hp] at hread
              simp only [ok_bind]
              -- a rejected attempt leaves the decoded message in the object, which `ih` allows
              cases hcode : checksumCode c tail with
              | notEnough =>
                  exact (Resync.scan_wait (by rw [hread]; simp only [bodyVerdict, hcode])).symm
              | badChecksum =>
                  rw [Resync.scan_reject (by rw [hread]; simp only [bodyVerdict, hcode])]
                  exact ih m
              | blurp =>
                  rw [Resync.scan_reject (by rw [hread]; simp only [bodyVerdict, hcode])]
                  exact ih m
              | parseOk =>
                  cases hcopy : T.copy m with
                  | error e =>
                      exact (Resync.scan_fail (by
                        rw [hread]; simp only [bodyVerdict, hcode, hcopy])).symm
                  | ok m' =>
                      have haccept : (protocolReader T).read (b :: p) = .accept m' (c.length + 6) := by
                        rw [hread]; simp only [bodyVerdict, hcode, hcopy]
                      rw [Resync.scan_accept haccept, drop_frame hf]; rfl

theorem parse_eq_scan (hT : T.Overwrites) : Protocol.parse T = (protocolReader T).scan := by
  funext s
  exact parseLoop_eq_scan hT T.new s

/-- **`protocol::parse` is incremental.** -/
theorem parse_incremental (hT : T.Overwrites) : PullParser.Incremental (Protocol.parse T) :=
  parse_eq_scan hT ▸ Resync.scan_incremental _

/-! ## Fronts that are passed over -/

/-- The bytes at the front are dropped, unless decoding raises: no frame starts there, or one with a
    wrong checksum. -/
def Rejected (s : Packet) : Prop :=
  front s = .noise ∨ ∃ c tail, front s = .body c tail ∧ checksumCode c tail = .badChecksum

theorem rejected_marks (T : Codec Msg) : Resync.Marks Rejected (protocolReader T) where
  of_reject := by
    intro s h
    simp only [protocolReader, verdict] at h
    cases hf : front s with
    | short => simp [hf] at h
    | noise => exact Or.inl hf
    | body c tail =>
        refine Or.inr ⟨c, tail, hf, ?_⟩
        cases hp : T.parse T.new c with
        | error e => simp [hf, hp] at h
        | ok m =>
            simp only [hf, hp, bodyVerdict] at h
            cases hcode : checksumCode c tail with
            | notEnough => simp [hcode] at h
            | badChecksum => rfl
            | blurp => exact absurd hcode checksumCode_ne_blurp
            | parseOk => cases hcopy : T.copy m <;> simp [hcode, hcopy] at h
  cases := by
    intro s h
    simp only [protocolReader, verdict]
    rcases h with hf | ⟨c, tail, hf, hcode⟩
    · rw [hf]; exact Or.inl rfl
    · rw [hf]
      cases hp : T.parse T.new c with
      | error e => exact Or.inr ⟨e, by simp only [hp]⟩
      | ok m => exact Or.inl (by simp only [bodyVerdict, hp, hcode])

end Quizzbot
