import Quizzbot.Lib.Msgpack
import Mathlib.Data.List.Induction
import Mathlib.Tactic.Ring
import Mathlib.Tactic.SplitIfs

/-!
# `Lib.MsgpackFormat` — the MessagePack format

A library that writes and reads the format as it is specified (`Msgpack.reference`), and the proof that it
obeys the laws of `Lib.Msgpack`. A first byte determines a `Form`: what follows it, and how that is read.
Writing always takes the shortest form; reading takes all of them. Containers are walked over but not
kept, since no conversion of `Lib.Msgpack` tells them apart.
-/

namespace Msgpack

/-! ## Numbers in network order -/

/-- The number that bytes denote, most significant byte first. -/
def number (bs : List UInt8) : Nat := bs.foldl (fun acc b => 256 * acc + b.toNat) 0

/-- The lowest `w` bytes of a number, most significant byte first. -/
def netBytes : Nat → Nat → List UInt8
  | 0, _ => []
  | w + 1, n => netBytes w (n / 256) ++ [(n % 256).toUInt8]

@[simp] theorem netBytes_length (w n : Nat) : (netBytes w n).length = w := by
  induction w generalizing n with
  | zero => rfl
  | succ w ih => rw [netBytes, List.length_append, ih]; rfl

theorem number_concat (bs : List UInt8) (b : UInt8) : number (bs ++ [b]) = 256 * number bs + b.toNat := by
  rw [number, List.foldl_append]; rfl

theorem number_netBytes {w n : Nat} (h : n < 256 ^ w) : number (netBytes w n) = n := by
  induction w generalizing n with
  | zero =>
      rw [pow_zero] at h
      exact (Nat.lt_one_iff.mp h).symm
  | succ w ih =>
      have hdiv : n / 256 < 256 ^ w := by
        rw [Nat.div_lt_iff_lt_mul (by decide), ← pow_succ]; exact h
      have hbyte : ((n % 256).toUInt8).toNat = n % 256 := by simp
      rw [netBytes, number_concat, ih hdiv, hbyte]
      exact Nat.div_add_mod n 256

theorem number_lt (bs : List UInt8) : number bs < 256 ^ bs.length := by
  induction bs using List.reverseRecOn with
  | nil => decide
  | append_singleton bs b ih =>
      have hb : b.toNat < 256 := b.toNat_lt
      rw [number_concat, List.length_append, List.length_singleton, pow_succ]
      omega

/-- Two's complement of `w` bytes. -/
def signed (w n : Nat) : Int := if 2 * n < 256 ^ w then n else (n : Int) - 256 ^ w

/-! ## Forms -/

/-- The width of a length field. -/
inductive Width where
  | one
  | two
  | four
deriving DecidableEq, Repr

def Width.bytes : Width → Nat
  | .one => 1
  | .two => 2
  | .four => 4

/-- What follows a first byte. -/
inductive Form where
  | fixint (n : Int)               -- nothing, the byte is the number
  | uint (w : Nat)                 -- a number of `w` bytes
  | int (w : Nat)                  -- the same, signed
  | fixstr (n : Fin 32)            -- a string of `n` bytes
  | str (w : Width)                -- a length, and a string of that length
  | bin (w : Width)
  | skip (n : Nat)                 -- nil, booleans, floats, extensions of fixed size
  | ext (w : Width)                -- a length, a type byte, and that many bytes
  | fixnest (n : Nat)              -- `n` objects
  | nest (w : Width) (each : Nat)  -- a count, and `each` objects for each element
deriving DecidableEq, Repr

/-- The form a first byte announces; `0xc1` is never used. -/
def form (b : UInt8) : Option Form :=
  if b < 0x80 then some (.fixint b.toNat)
  else if b < 0x90 then some (.fixnest (2 * (b.toNat % 16)))
  else if b < 0xa0 then some (.fixnest (b.toNat % 16))
  else if b < 0xc0 then some (.fixstr (Fin.ofNat 32 b.toNat))
  else if 0xe0 ≤ b then some (.fixint ((b.toNat : Int) - 256))
  else match b with
    | 0xc0 | 0xc2 | 0xc3 => some (.skip 0)
    | 0xc4 => some (.bin .one)
    | 0xc5 => some (.bin .two)
    | 0xc6 => some (.bin .four)
    | 0xc7 => some (.ext .one)
    | 0xc8 => some (.ext .two)
    | 0xc9 => some (.ext .four)
    | 0xca => some (.skip 4)
    | 0xcb => some (.skip 8)
    | 0xcc => some (.uint 1)
    | 0xcd => some (.uint 2)
    | 0xce => some (.uint 4)
    | 0xcf => some (.uint 8)
    | 0xd0 => some (.int 1)
    | 0xd1 => some (.int 2)
    | 0xd2 => some (.int 4)
    | 0xd3 => some (.int 8)
    | 0xd4 => some (.skip 2)
    | 0xd5 => some (.skip 3)
    | 0xd6 => some (.skip 5)
    | 0xd7 => some (.skip 9)
    | 0xd8 => some (.skip 17)
    | 0xd9 => some (.str .one)
    | 0xda => some (.str .two)
    | 0xdb => some (.str .four)
    | 0xdc => some (.nest .two 1)
    | 0xdd => some (.nest .four 1)
    | 0xde => some (.nest .two 2)
    | 0xdf => some (.nest .four 2)
    | _ => none

/-! ## Writing -/

/-- `pack(int)`. -/
def writeInt (n : Int) : List UInt8 :=
  if n < -2 ^ 15 then 0xd2 :: netBytes 4 (n + 2 ^ 32).toNat
  else if n < -2 ^ 7 then 0xd1 :: netBytes 2 (n + 2 ^ 16).toNat
  else if n < -2 ^ 5 then 0xd0 :: netBytes 1 (n + 2 ^ 8).toNat
  else if n < 0 then [(n + 2 ^ 8).toNat.toUInt8]
  else if n < 2 ^ 7 then [n.toNat.toUInt8]
  else if n < 2 ^ 8 then 0xcc :: netBytes 1 n.toNat
  else if n < 2 ^ 16 then 0xcd :: netBytes 2 n.toNat
  else 0xce :: netBytes 4 n.toNat

/-- `pack(std::string)`. -/
def writeStr (s : List UInt8) : Except Error (List UInt8) :=
  if s.length < 2 ^ 5 then .ok ((0xa0 + s.length).toUInt8 :: s)
  else if s.length < 2 ^ 8 then .ok (0xd9 :: (netBytes 1 s.length ++ s))
  else if s.length < 2 ^ 16 then .ok (0xda :: (netBytes 2 s.length ++ s))
  else if s.length < 2 ^ 32 then .ok (0xdb :: (netBytes 4 s.length ++ s))
  else .error .containerSizeOverflow

/-! ## Reading -/

/-- Split off `n` bytes. -/
def splitOff (n : Nat) (bs : List UInt8) : Except Error (List UInt8 × List UInt8) :=
  if n ≤ bs.length then .ok (bs.take n, bs.drop n) else .error .insufficientBytes

/-- Split off a length and as many bytes. -/
def splitSized (w : Width) (bs : List UInt8) : Except Error (List UInt8 × List UInt8) := do
  let (len, bs) ← splitOff w.bytes bs
  splitOff (number len) bs

/-- Read what follows a first byte: the object, how many objects are nested in it and still to be read,
    and the bytes that are left. -/
def Form.read (bs : List UInt8) : Form → Except Error (Object × Nat × List UInt8)
  | .fixint n => .ok (.int n, 0, bs)
  | .uint w => do
      let (x, bs) ← splitOff w bs
      .ok (.int (number x), 0, bs)
  | .int w => do
      let (x, bs) ← splitOff w bs
      .ok (.int (signed w (number x)), 0, bs)
  | .fixstr n => do
      let (s, bs) ← splitOff n bs
      .ok (.str s, 0, bs)
  | .str w => do
      let (s, bs) ← splitSized w bs
      .ok (.str s, 0, bs)
  | .bin w => do
      let (s, bs) ← splitSized w bs
      .ok (.bin s, 0, bs)
  | .skip n => do
      let (_, bs) ← splitOff n bs
      .ok (.other, 0, bs)
  | .ext w => do
      let (len, bs) ← splitOff w.bytes bs
      let (_, bs) ← splitOff (1 + number len) bs
      .ok (.other, 0, bs)
  | .fixnest n => .ok (.other, n, bs)
  | .nest w each => do
      let (count, bs) ← splitOff w.bytes bs
      .ok (.other, each * number count, bs)

/-- Read one object without what is nested in it. -/
def readHead : List UInt8 → Except Error (Object × Nat × List UInt8)
  | [] => .error .insufficientBytes
  | b :: bs =>
    match form b with
    | none => .error .parseError
    | some f => f.read bs

/-- Walk over `pending` objects. Each takes a byte at least, so as much fuel as there are bytes runs out
    only together with them. -/
def walk : (fuel : Nat) → (pending : Nat) → List UInt8 → Except Error (List UInt8)
  | _, 0, bs => .ok bs
  | 0, _ + 1, _ => .error .insufficientBytes
  | fuel + 1, pending + 1, bs => do
      let (_, nested, bs) ← readHead bs
      walk fuel (pending + nested) bs

/-- Read one object. -/
def readObject (bs : List UInt8) : Except Error (Object × List UInt8) := do
  let (o, nested, bs) ← readHead bs
  let bs ← walk bs.length nested bs
  .ok (o, bs)

/-- **The MessagePack format.** -/
def reference : Msgpack where
  packInt := writeInt
  packStr := writeStr
  unpack data off := do
    let (o, bs) ← readObject (data.drop off)
    .ok (o, data.length - bs.length)

/-! ## Reading undoes writing -/

theorem splitOff_append (x bs : List UInt8) : splitOff x.length (x ++ bs) = .ok (x, bs) := by
  rw [splitOff, if_pos (by simp), List.take_left, List.drop_left]

theorem splitOff_netBytes (w n : Nat) (bs : List UInt8) :
    splitOff w (netBytes w n ++ bs) = .ok (netBytes w n, bs) := by
  have h := splitOff_append (netBytes w n) bs
  rwa [netBytes_length] at h

theorem splitSized_append (w : Width) {s : List UInt8} (h : s.length < 256 ^ w.bytes)
    (bs : List UInt8) :
    splitSized w (netBytes w.bytes s.length ++ (s ++ bs)) = .ok (s, bs) := by
  rw [splitSized, splitOff_netBytes]
  show splitOff (number (netBytes w.bytes s.length)) (s ++ bs) = _
  rw [number_netBytes h, splitOff_append]

/-- An object without nested ones is read by its head. -/
theorem readObject_of_head {b : UInt8} {bs bs' : List UInt8} {f : Form} {o : Object}
    (hf : form b = some f) (hr : f.read bs = .ok (o, 0, bs')) :
    readObject (b :: bs) = .ok (o, bs') := by
  have hhead : readHead (b :: bs) = .ok (o, 0, bs') := by rw [readHead, hf]; exact hr
  rw [readObject, hhead, Except.ok_bind]
  simp only [walk, Except.ok_bind]

theorem signed_netBytes {w : Nat} {n : Int} (hlo : -(256 ^ w : Int) ≤ 2 * n) (hhi : n < 0) :
    signed w (number (netBytes w (n + 256 ^ w).toNat)) = n := by
  have hnat : ((n + 256 ^ w).toNat : Int) = n + 256 ^ w := Int.toNat_of_nonneg (by omega)
  have hpow : ((256 ^ w : Nat) : Int) = 256 ^ w := by push_cast; rfl
  have hlt : (n + 256 ^ w).toNat < 256 ^ w := by omega
  rw [number_netBytes hlt, signed, if_neg (by omega), hnat]
  omega

theorem readObject_int {b : UInt8} {w : Nat} (hb : form b = some (.int w)) {n : Int}
    (hlo : -(256 ^ w : Int) ≤ 2 * n) (hhi : n < 0) (bs : List UInt8) :
    readObject (b :: (netBytes w (n + 256 ^ w).toNat ++ bs)) = .ok (.int n, bs) := by
  apply readObject_of_head hb
  rw [Form.read, splitOff_netBytes]
  show Except.ok (Object.int (signed w (number _)), 0, bs) = _
  rw [signed_netBytes hlo hhi]

theorem readObject_uint {b : UInt8} {w : Nat} (hb : form b = some (.uint w)) {n : Int}
    (hlo : 0 ≤ n) (hhi : n < 256 ^ w) (bs : List UInt8) :
    readObject (b :: (netBytes w n.toNat ++ bs)) = .ok (.int n, bs) := by
  apply readObject_of_head hb
  have hpow : ((256 ^ w : Nat) : Int) = 256 ^ w := by push_cast; rfl
  rw [Form.read, splitOff_netBytes]
  show Except.ok (Object.int (number _), 0, bs) = _
  rw [number_netBytes (by omega), Int.toNat_of_nonneg hlo]

theorem readObject_str {b : UInt8} {w : Width} (hb : form b = some (.str w)) {s : List UInt8}
    (hs : s.length < 256 ^ w.bytes) (bs : List UInt8) :
    readObject (b :: (netBytes w.bytes s.length ++ s) ++ bs) = .ok (.str s, bs) := by
  apply readObject_of_head hb
  rw [Form.read, List.append_eq, List.append_assoc, splitSized_append w hs]; rfl

theorem form_negative : ∀ k : Fin 32,
    form (0xe0 + k.val).toUInt8 = some (.fixint ((k.val : Int) - 32)) := by decide

theorem form_positive : ∀ k : Fin 128, form k.val.toUInt8 = some (.fixint k.val) := by decide

theorem form_fixstr : ∀ k : Fin 32, form (0xa0 + k.val).toUInt8 = some (.fixstr k) := by decide

theorem readObject_writeInt {n : Int} (hlo : -(2 ^ 31) ≤ n) (hhi : n < 2 ^ 31) (bs : List UInt8) :
    readObject (writeInt n ++ bs) = .ok (.int n, bs) := by
  unfold writeInt
  split_ifs with h1 h2 h3 h4 h5 h6 h7
  -- the three sizes of negative numbers, and the one-byte forms of either sign
  · exact readObject_int (b := 0xd2) (w := 4) rfl (by omega) (by omega) bs
  · exact readObject_int (b := 0xd1) (w := 2) rfl (by omega) (by omega) bs
  · exact readObject_int (b := 0xd0) (w := 1) rfl (by omega) (by omega) bs
  · have hk := form_negative ⟨(n + 32).toNat, by omega⟩
    simp only at hk
    rw [show 0xe0 + (n + 32).toNat = (n + 2 ^ 8).toNat by omega,
      show (((n + 32).toNat : Int) - 32) = n by omega] at hk
    exact readObject_of_head hk rfl
  · have hk := form_positive ⟨n.toNat, by omega⟩
    simp only at hk
    rw [Int.toNat_of_nonneg (by omega)] at hk
    exact readObject_of_head hk rfl
  · exact readObject_uint (b := 0xcc) (w := 1) rfl (by omega) (by omega) bs
  · exact readObject_uint (b := 0xcd) (w := 2) rfl (by omega) (by omega) bs
  · exact readObject_uint (b := 0xce) (w := 4) rfl (by omega) (by omega) bs

theorem readObject_writeStr {s p : List UInt8} (h : writeStr s = .ok p) (bs : List UInt8) :
    readObject (p ++ bs) = .ok (.str s, bs) := by
  unfold writeStr at h
  split_ifs at h with h1 h2 h3 h4 <;> cases h
  · apply readObject_of_head (form_fixstr ⟨s.length, h1⟩)
    show (splitOff s.length (s ++ bs) >>= _) = _
    rw [splitOff_append]; rfl
  · exact readObject_str (b := 0xd9) (w := .one) rfl h2 bs
  · exact readObject_str (b := 0xda) (w := .two) rfl (by simpa [Width.bytes] using h3) bs
  · exact readObject_str (b := 0xdb) (w := .four) rfl (by simpa [Width.bytes] using h4) bs

/-- Reading behind a prefix. -/
theorem reference_unpack {pre x bs : List UInt8} {o : Object} (h : readObject (x ++ bs) = .ok (o, bs)) :
    reference.unpack (pre ++ (x ++ bs)) pre.length = .ok (o, pre.length + x.length) := by
  show (readObject ((pre ++ (x ++ bs)).drop pre.length) >>= _) = _
  rw [List.drop_left, h]
  show Except.ok (o, (pre ++ (x ++ bs)).length - bs.length) = _
  rw [List.length_append, List.length_append]
  congr 2
  omega

/-- **The format is lawful.** -/
theorem reference_lawful : reference.Lawful where
  packStr_ok s hs := by
    show ∃ p, writeStr s = .ok p
    unfold writeStr
    split_ifs <;> exact ⟨_, rfl⟩
  unpack_packInt n hlo hhi pre rest := reference_unpack (readObject_writeInt hlo hhi rest)
  unpack_packStr s p h pre rest := reference_unpack (readObject_writeStr h rest)

/-! ## Sizes -/

/-- What a reader promises about the bytes behind a first byte: it consumes some of them, and a string is
    no shorter than its header and its contents. -/
def Reads (bs : List UInt8) (o : Object) (bs' : List UInt8) : Prop :=
  bs'.length ≤ bs.length ∧
    ∀ s, o.asString = .ok s → s.length < 2 ^ 32 ∧ bs'.length + strSize s ≤ bs.length + 1

theorem splitOff_length {n : Nat} {bs x bs' : List UInt8} (h : splitOff n bs = .ok (x, bs')) :
    x.length = n ∧ bs'.length + n = bs.length := by
  unfold splitOff at h
  split_ifs at h with hn
  cases h
  rw [List.length_take, List.length_drop]
  omega

/-- The shortest header of a string fits in any length field that can hold its length. -/
theorem strHeader_le {w : Width} {n : Nat} (h : n < 256 ^ w.bytes) : strHeader n ≤ w.bytes + 1 := by
  unfold strHeader
  cases w <;> simp only [Width.bytes] at h ⊢ <;> split_ifs <;> omega

theorem splitSized_length {w : Width} {bs x bs' : List UInt8} (h : splitSized w bs = .ok (x, bs')) :
    x.length < 2 ^ 32 ∧ bs'.length + strSize x ≤ bs.length + 1 := by
  obtain ⟨⟨len, rest⟩, hlen, hx⟩ := Except.bind_ok h
  -- the field holds the length of what follows it, so that length fits in the field
  obtain ⟨hl, hrest⟩ := splitOff_length hlen
  obtain ⟨hx, hbs⟩ := splitOff_length hx
  have hlt : x.length < 256 ^ w.bytes := by rw [hx, ← hl]; exact number_lt len
  have hhead := strHeader_le hlt
  refine ⟨hlt.trans_le ?_, by rw [strSize]; omega⟩
  cases w <;> decide

theorem reads_str {w : Width} {bs s bs' : List UInt8} {o : Object} (ho : o.asString = .ok s)
    (h : splitSized w bs = .ok (s, bs')) : Reads bs o bs' := by
  obtain ⟨hlt, hsize⟩ := splitSized_length h
  have hpos : 1 ≤ strHeader s.length := by unfold strHeader; split_ifs <;> decide
  constructor
  · rw [strSize] at hsize; omega
  · intro s' hs'
    rw [ho] at hs'; cases hs'
    exact ⟨hlt, hsize⟩

/-- What is not a string only has to consume. -/
theorem reads_of_le {bs bs' : List UInt8} {o : Object} (ho : ∀ s, o.asString ≠ .ok s)
    (h : bs'.length ≤ bs.length) : Reads bs o bs' := by
  constructor
  · exact h
  · intro s hs
    exact absurd hs (ho s)

theorem splitOff_le {n : Nat} {bs x bs' : List UInt8} (h : splitOff n bs = .ok (x, bs')) :
    bs'.length ≤ bs.length := Nat.le.intro (splitOff_length h).2

theorem Form.read_reads {f : Form} {bs bs' : List UInt8} {o : Object} {k : Nat}
    (h : f.read bs = .ok (o, k, bs')) : Reads bs o bs' := by
  cases f with
  | fixint n | fixnest n =>
      cases h
      exact reads_of_le (by intro s hs; cases hs) (Nat.le_refl _)
  | uint w | int w | skip n | nest w each =>
      obtain ⟨⟨x, rest⟩, hx, h⟩ := Except.bind_ok h
      cases h
      exact reads_of_le (by intro s hs; cases hs) (splitOff_le hx)
  | ext w =>
      obtain ⟨⟨len, rest⟩, hlen, h⟩ := Except.bind_ok h
      obtain ⟨⟨x, rest'⟩, hx, h⟩ := Except.bind_ok h
      cases h
      exact reads_of_le (by intro s hs; cases hs) ((splitOff_le hx).trans (splitOff_le hlen))
  | str w | bin w =>
      obtain ⟨⟨s, rest⟩, hx, h⟩ := Except.bind_ok h
      cases h
      exact reads_str rfl hx
  | fixstr n =>
      obtain ⟨⟨s, rest⟩, hx, h⟩ := Except.bind_ok h
      cases h
      obtain ⟨hs, hlen⟩ := splitOff_length hx
      have hn := n.isLt
      have hhead : strHeader s.length = 1 := by rw [strHeader, if_pos (by omega)]
      constructor
      · exact splitOff_le hx
      · intro s' hs'
        cases hs'
        exact ⟨by omega, by rw [strSize]; omega⟩

/-- A head takes its first byte and what its form reads. -/
theorem readHead_reads {bs bs' : List UInt8} {o : Object} {k : Nat}
    (h : readHead bs = .ok (o, k, bs')) : ∃ b bs₁, bs = b :: bs₁ ∧ Reads bs₁ o bs' := by
  cases bs with
  | nil => cases h
  | cons b bs =>
      rw [readHead] at h
      cases hf : form b with
      | none => simp [hf] at h
      | some f =>
          rw [hf] at h
          exact ⟨b, bs, rfl, Form.read_reads h⟩

theorem walk_length {fuel pending : Nat} {bs bs' : List UInt8} (h : walk fuel pending bs = .ok bs') :
    bs'.length ≤ bs.length := by
  induction fuel generalizing pending bs with
  | zero =>
      cases pending with
      | zero => cases h; exact Nat.le_refl _
      | succ pending => cases h
  | succ fuel ih =>
      cases pending with
      | zero => cases h; exact Nat.le_refl _
      | succ pending =>
          obtain ⟨⟨o, k, rest⟩, hhead, hwalk⟩ := Except.bind_ok h
          obtain ⟨b, bs₁, rfl, hle, -⟩ := readHead_reads hhead
          exact Nat.le_succ_of_le ((ih hwalk).trans hle)

theorem readObject_reads {bs bs' : List UInt8} {o : Object} (h : readObject bs = .ok (o, bs')) :
    ∃ b bs₁, bs = b :: bs₁ ∧ Reads bs₁ o bs' := by
  obtain ⟨⟨o, k, rest⟩, hhead, h⟩ := Except.bind_ok h
  obtain ⟨rest', hwalk, h⟩ := Except.bind_ok h
  cases h
  obtain ⟨b, bs₁, rfl, hle, hstr⟩ := readHead_reads hhead
  have hlen := walk_length hwalk
  refine ⟨b, bs₁, rfl, hlen.trans hle, ?_⟩
  intro s hs
  obtain ⟨hlt, hsize⟩ := hstr s hs
  exact ⟨hlt, by omega⟩

theorem writeInt_length {n : Int} (hlo : 0 ≤ n) (hhi : n < 2 ^ 7) : (writeInt n).length = 1 := by
  unfold writeInt
  split_ifs <;> first | rfl | omega

theorem writeStr_length {s p : List UInt8} (h : writeStr s = .ok p) : p.length = strSize s := by
  unfold writeStr at h
  split_ifs at h <;> cases h <;> simp only [strSize, strHeader, List.length_cons, List.length_append,
    netBytes_length] <;> split_ifs <;> omega

/-- **The format is sized.** -/
theorem reference_sized : reference.Sized where
  packInt_length _ := writeInt_length
  packStr_length _ _ := writeStr_length
  unpack_bounds data off o off' h := by
    obtain ⟨⟨o, rest⟩, hread, h⟩ := Except.bind_ok h
    cases h
    obtain ⟨b, bs₁, hbs, hle, -⟩ := readObject_reads hread
    have hlen := congrArg List.length hbs
    rw [List.length_drop, List.length_cons] at hlen
    omega
  unpack_string data off o off' s h hs := by
    obtain ⟨⟨o, rest⟩, hread, h⟩ := Except.bind_ok h
    cases h
    obtain ⟨b, bs₁, hbs, -, hstr⟩ := readObject_reads hread
    have hlen := congrArg List.length hbs
    rw [List.length_drop, List.length_cons] at hlen
    obtain ⟨hlt, hsize⟩ := hstr s hs
    exact ⟨hlt, by omega⟩

end Msgpack
