import Quizzbot.Common.Correctness.Front
import Quizzbot.Lib.MsgpackFormat

/-!
# `Common.Correctness.Checksum` — what the checksum sees

On the contents that fit in a frame the `int` of `compute_cc` does not overflow, so the checksum is the sum
of the bytes modulo 255, printed with two digits (`checksumText_eq`). Two contents have the same text
exactly if their sums agree modulo 255 (`checksumText_inj`).

A frame in which one byte of the content was replaced still has a size field that denotes the length, so
the readers get as far as the checksum if the altered content decodes. It notices the change unless a zero
was replaced by 255 or the other way round (`alteredByte_read_iff`).
-/

namespace Quizzbot

open HexText (ascii hexText hexText_two digitByte extractHex extractHex_hexText)

/-! ## The sum -/

theorem addInt_of_lt {a b : Int} (hlo : 0 ≤ a + b) (hhi : a + b < 2 ^ 31) : addInt a b = a + b := by
  have hmod : (a + b) % (2 ^ 32 : Nat) = a + b := Int.emod_eq_of_lt hlo (by omega)
  rw [addInt, Int.bmod_def, hmod, if_pos (by omega)]

/-- The sum of the bytes. -/
def byteSum (c : Packet) : Nat := (c.map UInt8.toNat).sum

theorem byteSum_cons (b : UInt8) (c : Packet) : byteSum (b :: c) = b.toNat + byteSum c := rfl

theorem byteSum_append (c c' : Packet) : byteSum (c ++ c') = byteSum c + byteSum c' := by
  rw [byteSum, List.map_append, List.sum_append]; rfl

theorem byteSum_le (c : Packet) : byteSum c ≤ 255 * c.length := by
  induction c with
  | nil => exact Nat.le_refl 0
  | cons b c ih =>
      have hb : b.toNat < 256 := b.toNat_lt
      rw [byteSum_cons, List.length_cons]
      omega

/-- The loop of `compute_cc` computes it, as long as it fits in an `int`. -/
theorem foldl_addInt (c : Packet) {acc : Nat} (h : acc + byteSum c < 2 ^ 31) :
    c.foldl (fun sum b => addInt sum b.toNat) (acc : Int) = (acc + byteSum c : Nat) := by
  induction c generalizing acc with
  | nil => rfl
  | cons b c ih =>
      rw [byteSum_cons] at h ⊢
      have hadd : addInt acc b.toNat = (acc + b.toNat : Nat) := by
        rw [addInt_of_lt (by omega) (by omega)]; rfl
      rw [List.foldl_cons, hadd, ih (by omega), Nat.add_assoc]

/-- The sum that the code computes is the sum of the bytes. -/
theorem foldl_addInt_zero {c : Packet} (h : byteSum c < 2 ^ 31) :
    c.foldl (fun sum b => addInt sum b.toNat) (0 : Int) = byteSum c := by
  have hfold : c.foldl (fun sum b => addInt sum b.toNat) ((0 : Nat) : Int) = (0 + byteSum c : Nat) :=
    foldl_addInt c (by rw [Nat.zero_add]; exact h)
  rw [Nat.zero_add] at hfold
  exact hfold

/-- The sum of a content that fits does not overflow. -/
theorem byteSum_lt {c : Packet} (h : c.length ≤ 255) : byteSum c < 2 ^ 31 := by
  have hle := byteSum_le c
  omega

/-! ## The text -/

/-- The checksum text of a content that fits. -/
theorem checksumText_eq {c : Packet} (h : c.length ≤ 255) :
    checksumText c = hexText 2 (byteSum c % 255) := by
  have hcc : computeCc c = (byteSum c % 255 : Nat) := by
    rw [computeCc, foldl_addInt_zero (byteSum_lt h)]; rfl
  have hmod : ((byteSum c % 255 : Nat) : Int) % 2 ^ 32 = (byteSum c % 255 : Nat) := by omega
  rw [checksumText, hcc, hexInt, hmod, Int.toNat_natCast]

theorem checksumText_digits {c : Packet} (h : c.length ≤ 255) :
    checksumText c = [digitByte (byteSum c % 255 / 16), digitByte (byteSum c % 255 % 16)] := by
  have hlt : byteSum c % 255 < 256 := by omega
  rw [checksumText_eq h, hexText_two hlt]

/-- The checksum of a content that fits is printed with two digits. -/
theorem checksumText_length {c : Packet} (h : c.length ≤ 255) : (checksumText c).length = 2 := by
  rw [checksumText_digits h]; rfl

/-- They are digits in lower case. -/
theorem mem_checksumText {c : Packet} (h : c.length ≤ 255) {b : UInt8} (hb : b ∈ checksumText c) :
    b ∈ ascii "0123456789abcdef" := by
  have hdigit : ∀ d < 16, digitByte d ∈ ascii "0123456789abcdef" := by decide
  rw [checksumText_digits h] at hb
  rcases List.mem_cons.mp hb with rfl | hb
  · exact hdigit _ (by omega)
  · rw [List.mem_singleton.mp hb]
    exact hdigit _ (Nat.mod_lt _ (by decide))

/-- A checksum text has two columns at least. -/
theorem checksumText_length_ge (c : Packet) : 2 ≤ (checksumText c).length := by
  rw [checksumText, hexInt, hexText, HexText.setw, List.length_append, List.length_replicate]
  omega

/-- The text determines the sum modulo 255. -/
theorem checksumText_inj {c c' : Packet} (h : c.length ≤ 255) (h' : c'.length ≤ 255) :
    checksumText c = checksumText c' ↔ byteSum c % 255 = byteSum c' % 255 := by
  rw [checksumText_eq h, checksumText_eq h']
  constructor
  · intro he
    have hx := extractHex_hexText (n := byteSum c % 255) (by omega)
    rw [he, extractHex_hexText (by omega)] at hx
    exact (Option.some.inj hx).symm
  · intro he
    rw [he]

theorem checksumCode_checksumText {c : Packet} (h : c.length ≤ 255) (s : Packet) :
    checksumCode c (checksumText c ++ s) = .parseOk := by
  obtain ⟨k₁, k₂, hk⟩ := List.length_eq_two.mp (checksumText_length h)
  rw [hk]
  exact if_pos hk.symm

/-! ## Frames -/

/-- What `protocol::pack` puts in front of a content. -/
def header (c : Packet) : Packet :=
  [0x01, 0x02, (hexText 2 c.length).getD 0 0, (hexText 2 c.length).getD 1 0]

/-- What it puts behind. -/
def trailer (c : Packet) : Packet := [(checksumText c).getD 0 0, (checksumText c).getD 1 0]

theorem pack_header_trailer {Msg : Type} {T : Codec Msg} {m : Msg} {c : Packet} (hc : T.pack m = .ok c) :
    Protocol.pack T m = .ok (header c ++ c ++ trailer c) := by
  rw [Protocol.pack, hc]; rfl

theorem trailer_eq {c : Packet} (h : c.length ≤ 255) : trailer c = checksumText c := by
  rw [trailer, checksumText_digits h]; rfl

/-- Behind the header of a content, contents of its length are read. -/
theorem front_header {c c' : Packet} (h : c.length ≤ 255) (hlen : c'.length = c.length) (tail : Packet) :
    front (header c ++ c' ++ tail) = .body c' tail := by
  have hsize := hexText_two (n := c.length) (by omega)
  have hx := extractHex_hexText (n := c.length) (by omega)
  rw [hsize] at hx
  refine front_eq_body_iff.mpr ⟨digitByte (c.length / 16), digitByte (c.length % 16), ?_, ?_⟩
  · rw [header, hsize, List.append_assoc]; rfl
  · rw [hx, hlen]

/-! ## Altered frames -/

/-- One of the bytes is `0x00`, and the other `0xff`. -/
def ZeroAndMax (a b : UInt8) : Prop := a = 0x00 ∧ b = 0xff ∨ a = 0xff ∧ b = 0x00

instance (a b : UInt8) : Decidable (ZeroAndMax a b) := inferInstanceAs (Decidable (_ ∨ _))

/-- Replacing a byte changes the sum by the difference. -/
theorem byteSum_set {s : Packet} {i : Nat} (hi : i < s.length) (b : UInt8) :
    byteSum (s.set i b) + s[i].toNat = byteSum s + b.toNat := by
  have hc : byteSum s = byteSum (s.take i) + (s[i].toNat + byteSum (s.drop (i + 1))) := by
    rw [← byteSum_cons, List.getElem_cons_drop, ← byteSum_append, List.take_append_drop]
  have hset : byteSum (s.set i b) = byteSum (s.take i) + (b.toNat + byteSum (s.drop (i + 1))) := by
    rw [List.set_eq_take_append_cons_drop, if_pos hi, byteSum_append, byteSum_cons]
  omega

/-- A replaced byte keeps the sum modulo 255 exactly if it is a zero and a 255. -/
theorem byteSum_set_mod {s : Packet} {i : Nat} (hi : i < s.length) {b : UInt8} (hb : b ≠ s[i]) :
    byteSum s % 255 = byteSum (s.set i b) % 255 ↔ ZeroAndMax s[i] b := by
  have hsum := byteSum_set hi b
  have hold : s[i].toNat < 256 := s[i].toNat_lt
  have hnew : b.toNat < 256 := b.toNat_lt
  have hne : b.toNat ≠ s[i].toNat := fun he => hb (UInt8.toNat_inj.mp he)
  have hval : ZeroAndMax s[i] b ↔ (s[i].toNat = 0 ∧ b.toNat = 255) ∨ (s[i].toNat = 255 ∧ b.toNat = 0) := by
    rw [ZeroAndMax, ← UInt8.toNat_inj, ← UInt8.toNat_inj, ← UInt8.toNat_inj, ← UInt8.toNat_inj]
    rfl
  rw [hval]
  omega

/-- The verdict on an altered content by the checksum of the original one. -/
theorem checksumCode_set {s : Packet} (h : s.length ≤ 255) {i : Nat} (hi : i < s.length) {b : UInt8}
    (hb : b ≠ s[i]) : checksumCode (s.set i b) (trailer s)
      = if ZeroAndMax s[i] b then .parseOk else .badChecksum := by
  have hlen : (s.set i b).length ≤ 255 := by rw [List.length_set]; exact h
  have hsame : [(checksumText s).getD 0 0, (checksumText s).getD 1 0] = checksumText (s.set i b) ↔
      ZeroAndMax s[i] b := by
    show trailer s = _ ↔ _
    rw [trailer_eq h, checksumText_inj h hlen, byteSum_set_mod hi hb]
  rw [trailer, checksumCode]
  by_cases hz : ZeroAndMax s[i] b
  · rw [if_pos hz, if_pos (hsame.mpr hz)]
  · rw [if_neg hz, if_neg (fun he => hz (hsame.mp he))]

/-- The frame of the content `s` with one byte replaced is read up to the verdict on its checksum, which is
    bad unless a zero and a 255 were exchanged. -/
def AlterationJudged {Msg : Type} (T : Codec Msg) (msg : Msg) (s : Packet) (i : Nat) (hi : i < s.length)
    (b : UInt8) : Prop :=
  ∃ m it, SyncParser.read T msg ⟨header s ++ s.set i b ++ trailer s, 0⟩
      (header s ++ s.set i b ++ trailer s).length
    = .ok (if ZeroAndMax s[i] b then .parseOk else .badChecksum, m, it)

/-- The readers get to the checksum if the content decodes. -/
theorem alterationJudged_iff {Msg : Type} (T : Codec Msg) (msg : Msg) {s : Packet} (h : s.length ≤ 255)
    {i : Nat} (hi : i < s.length) {b : UInt8} (hb : b ≠ s[i]) :
    AlterationJudged T msg s i hi b ↔ ∃ m, T.parse msg (s.set i b) = .ok m := by
  have hfront : front (header s ++ s.set i b ++ trailer s) = .body (s.set i b) (trailer s) :=
    front_header h List.length_set (trailer s)
  obtain ⟨it, hread, -⟩ := read_body T msg hfront
  rw [checksumCode_set h hi hb] at hread
  rw [AlterationJudged, hread]
  constructor
  · rintro ⟨m, it', hok⟩
    obtain ⟨m', hm', -⟩ := bind_ok hok
    exact ⟨m', hm'⟩
  · rintro ⟨m, hm⟩
    exact ⟨m, it, by rw [hm, ok_bind]⟩

/-- **A replaced byte is noticed, if the altered content decodes**, unless a zero and a 255 were exchanged:
    the content is decoded before its checksum is looked at. For every content that fits, `pack` makes the
    frame of it that is altered here, the checksum text is two digits in lower case, and none of the partial
    sums overflows. -/
theorem alteredByte_read_iff {Msg : Type} (T : Codec Msg) {s : Packet} (h : s.length ≤ 255) :
    (∀ m, T.pack m = .ok s → Protocol.pack T m = .ok (header s ++ s ++ trailer s)) ∧
    (∀ (msg : Msg) (i : Nat) (hi : i < s.length) (b : UInt8), b ≠ s[i] →
      (AlterationJudged T msg s i hi b ↔ ∃ m, T.parse msg (s.set i b) = .ok m)) ∧
    ((checksumText s).length = 2 ∧ ∀ b ∈ checksumText s, b ∈ ascii "0123456789abcdef") ∧
    (∀ k, (s.take k).foldl (fun sum b => addInt sum b.toNat) 0 = byteSum (s.take k) ∧
      byteSum (s.take k) < 2 ^ 31) := by
  refine ⟨fun m hc => pack_header_trailer hc, ?_, ⟨checksumText_length h, ?_⟩, ?_⟩
  · intro msg i hi b hb
    exact alterationJudged_iff T msg h hi hb
  · intro b hb
    exact mem_checksumText h hb
  · intro k
    have hlt : byteSum (s.take k) < 2 ^ 31 :=
      byteSum_lt (Nat.le_trans (List.length_take_le' ..) h)
    exact ⟨foldl_addInt_zero hlt, hlt⟩

/-- With a codec that decodes everything: the content `A1` with the `1` replaced by a `2`, and a content with
    a zero replaced by a 255. -/
theorem alteredByte_read_iff_naive :
    AlterationJudged naiveCommandProtocol {} [0x41, 0x31] 1 (by decide) 0x32 ∧
    AlterationJudged naiveCommandProtocol {} [0x41, 0x00] 1 (by decide) 0xff := by
  obtain ⟨-, hbad, -⟩ := alteredByte_read_iff naiveCommandProtocol (s := [0x41, 0x31]) (by decide)
  obtain ⟨-, hok, -⟩ := alteredByte_read_iff naiveCommandProtocol (s := [0x41, 0x00]) (by decide)
  exact ⟨(hbad {} 1 (by decide) 0x32 (by decide)).mpr ⟨_, rfl⟩,
    (hok {} 1 (by decide) 0xff (by decide)).mpr ⟨_, rfl⟩⟩

/-- The frame of a `JoinAckMessage`, with its type replaced by a number that names no class. -/
theorem not_alteredByte_read_message :
    Protocol.pack (messageCodec Msgpack.reference) (.ofData .joinAckMessage)
      = .ok (header [0x03] ++ [0x03] ++ trailer [0x03]) ∧
    ¬ AlterationJudged (messageCodec Msgpack.reference) .new [0x03] 0 (by decide) 0x07 := by
  constructor
  · decide
  · rintro ⟨m, it, h⟩
    have herr : SyncParser.read (messageCodec Msgpack.reference) .new
        ⟨header [0x03] ++ [0x07] ++ trailer [0x03], 0⟩ 7 = .error .assertion := by decide
    exact absurd (herr.symm.trans h) nofun

end Quizzbot
