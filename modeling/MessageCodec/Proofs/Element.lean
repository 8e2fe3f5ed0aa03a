import MessageCodec.Proofs.Coerce
import MessageCodec.Proofs.Loop
import MessageCodec.Proofs.Single
import MessageCodec.Proofs.Utf8

/-!
# Elements written and read

The values that the reader of a type yields. Each of them is written and read back unchanged, and it is
left out as a zero only if it is the zero of its type. Whatever value is written, one of these values
is written in the same way, singles apart: rounding to a single may lose a small number altogether.
-/

namespace MessageCodec.Codec.ElementType

open Wire

/-! ### Payloads -/

theorem number_eq {n : Int} (h : n.natAbs < 0x10000000000000000) :
    number n = .ok ⟨varintOfNat (Word.unsigned64 n), n == 0⟩ := by
  rw [number, varintOfValue, Value.toUnsignedNumeral_of_signed (Value.toSignedNumeral_int h),
    ← varintOfNumeral_ofNat]
  rfl

theorem numeral_eq {u : Nat} (h : u < 0x10000000000000000) :
    numeral (Numeral.ofNat u) = .ok ⟨varintOfNat u, u == 0⟩ := by
  have hzero : (Numeral.ofNat u == ['0']) = (u == 0) := by
    rw [Bool.eq_iff_iff, beq_iff_eq, beq_iff_eq, Numeral.ofNat_eq_zero_iff]
  rw [numeral, varintOfValue, Value.toUnsignedNumeral_ofNat h, hzero, ← varintOfNumeral_ofNat]
  rfl

theorem word_eq {u : Nat} (h : u < 0x10000000000000000) :
    word (Numeral.ofNat u) = .ok ⟨Word.toBytes 8 u, u == 0⟩ := by
  have hzero : (Numeral.ofNat u == ['0']) = (u == 0) := by
    rw [Bool.eq_iff_iff, beq_iff_eq, beq_iff_eq, Numeral.ofNat_eq_zero_iff]
  rw [word, fixed64OfValue, Value.toUnsignedNumeral_ofNat h, hzero, ← Numeral.toBytes_ofNat]
  rfl

theorem map_readVarint64 {α : Type} (f : Numeral → α) {u : Nat} (h : u < 0x10000000000000000)
    (rest : List UInt8) : readVarint64.map f (varintOfNat u ++ rest) = some (f (Numeral.ofNat u), rest) :=
  Reader.map_of_some (readVarint64_varintOfNat h rest)

theorem map_take {α : Type} (f : List UInt8 → α) (count n : Nat) (rest : List UInt8) :
    (take count).map f (Word.toBytes count n ++ rest) = some (f (Word.toBytes count n), rest) :=
  Reader.map_of_some (take_append (Word.length_toBytes count n) rest)

/-! ### The values that are read -/

def DecodedScalar (type : ScalarType) (v : Value) : Prop :=
  match type with
  | .string => ∃ s, v = .text s
  | .bytes => ∃ bs, v = .text (Base64.encodeText bs)
  | .bool => ∃ b, v = .bool b
  | .int32 | .sint32 | .sfixed32 => ∃ n, IsInt32 n ∧ v = .int n
  | .uint32 | .fixed32 => ∃ n, IsUInt32 n ∧ v = .int n
  | .int64 | .sint64 | .sfixed64 => ∃ n, IsInt64 n ∧ v = textOf (Numeral.ofInt n)
  | .uint64 | .fixed64 => ∃ u : Nat, u < 0x10000000000000000 ∧ v = textOf (Numeral.ofNat u)
  | .float => ∃ bits, bits < 0x100000000 ∧ v = .float (Binary64.ofSingle bits)
  | .double => ∃ x, v = .float x

def Decoded (type : ElementType) (v : Value) : Prop :=
  match type with
  | scalar type => DecodedScalar type v
  | enum _ byNumber zeroName => ∃ n, IsInt32 n ∧ v = Value.ofEnumNumber byNumber zeroName n

/-- The value of a scalar type that takes no bytes where presence is not kept. -/
def zeroScalar : ScalarType → Value
  | .string | .bytes => .text ""
  | .bool => .bool false
  | .int32 | .uint32 | .sint32 | .fixed32 | .sfixed32 => .int 0
  | .int64 | .uint64 | .sint64 | .fixed64 | .sfixed64 => .text "0"
  | .float | .double => .float .zero

def zero : ElementType → Value
  | scalar type => zeroScalar type
  | enum _ byNumber zeroName => Value.ofEnumNumber byNumber zeroName 0

/-- The tables of an enum agree: a number that has a name is read back from it, and the name of zero is
the one that the table gives. -/
def Sound : ElementType → Prop
  | scalar _ => True
  | enum byName byNumber zeroName =>
    zeroName = Table.get? byNumber (String.ofList (Numeral.ofInt 0)) ∧
      ∀ n name, Table.get? byNumber (String.ofList (Numeral.ofInt n)) = some name →
        IsInt32 n ∧ (Value.text name).toEnumNumber byName = .ok n

def Fits (type : ElementType) (p : Payload) : Prop :=
  ∀ block, type.wireType = .delimited → p.bytes = delimited block → block.length < 0x100000000

/-- A value is written as a payload and read back from it. -/
structure Settled (type : ElementType) (v : Value) (p : Payload) : Prop where
  payload_eq : type.payload v = .ok p
  reads : type.Fits p → ∀ rest, type.reader (p.bytes ++ rest) = some (v, rest)
  isZero_iff : p.isZero = true ↔ v = type.zero

private theorem exists_of_map_varint {α : Type} {f : Numeral → α} {bs rest : List UInt8} {a : α}
    (h : readVarint64.map f bs = some (a, rest)) : ∃ u < 0x10000000000000000, a = f (Numeral.ofNat u) := by
  obtain ⟨_, hread, rfl⟩ := Reader.map_some h
  obtain ⟨_, _, _, rfl⟩ := readVarint64_some hread
  exact ⟨_, Nat.mod_lt _ (by decide), rfl⟩

private theorem exists_of_map_take {α : Type} {count : Nat} {f : List UInt8 → α} {bs rest : List UInt8} {a : α}
    (h : (take count).map f bs = some (a, rest)) : ∃ block, Word.ofBytes block < 256 ^ count ∧ a = f block := by
  obtain ⟨block, hread, rfl⟩ := Reader.map_some h
  have hlt := Word.ofBytes_lt block
  rw [(take_some hread).2] at hlt
  exact ⟨block, hlt, rfl⟩

private theorem reader_decodedScalar {type : ScalarType} {bs rest : List UInt8} {v : Value}
    (h : scalarReader type bs = some (v, rest)) : DecodedScalar type v := by
  cases type
  case string | double =>
    obtain ⟨x, _, rfl⟩ := Reader.map_some h
    exact ⟨x, rfl⟩
  case bytes =>
    obtain ⟨_, hread, rfl⟩ := Reader.map_some h
    obtain ⟨block, _, rfl⟩ := Reader.map_some hread
    exact ⟨block, rfl⟩
  case bool =>
    obtain ⟨u, _, rfl⟩ := exists_of_map_varint h
    exact ⟨_, rfl⟩
  case int32 =>
    obtain ⟨u, _, rfl⟩ := exists_of_map_varint h
    exact ⟨_, Word.signed32OfNumeral_ofNat _ ▸ Word.signed32_mem _, rfl⟩
  case sint32 =>
    obtain ⟨u, _, rfl⟩ := exists_of_map_varint h
    exact ⟨_, Word.decodeZigzag32OfNumeral_ofNat _ ▸ Word.unzigzag32_mem _, rfl⟩
  case uint32 =>
    obtain ⟨u, _, rfl⟩ := exists_of_map_varint h
    refine ⟨_, ?_, rfl⟩
    rw [Word.unsigned32OfNumeral_ofNat]
    exact ⟨by omega, by omega⟩
  case int64 =>
    obtain ⟨u, hu, rfl⟩ := exists_of_map_varint h
    exact ⟨_, Word.signed64_mem hu, by rw [Numeral.toSigned64_ofNat hu]⟩
  case sint64 =>
    obtain ⟨u, hu, rfl⟩ := exists_of_map_varint h
    exact ⟨_, Word.unzigzag_mem hu, by rw [Numeral.decodeZigzag64_ofNat]⟩
  case uint64 =>
    obtain ⟨u, hu, rfl⟩ := exists_of_map_varint h
    exact ⟨u, hu, rfl⟩
  case sfixed32 =>
    obtain ⟨_, hread, rfl⟩ := Reader.map_some h
    obtain ⟨block, _, rfl⟩ := exists_of_map_take hread
    exact ⟨_, Word.signed32_mem _, rfl⟩
  case fixed32 =>
    obtain ⟨_, hread, rfl⟩ := Reader.map_some h
    obtain ⟨block, hlt, rfl⟩ := exists_of_map_take hread
    exact ⟨_, ⟨by omega, by omega⟩, rfl⟩
  case float =>
    obtain ⟨_, hread, rfl⟩ := Reader.map_some h
    obtain ⟨block, hlt, rfl⟩ := exists_of_map_take hread
    exact ⟨_, hlt, rfl⟩
  case fixed64 =>
    obtain ⟨_, hread, rfl⟩ := Reader.map_some h
    obtain ⟨block, hlt, rfl⟩ := exists_of_map_take hread
    exact ⟨_, hlt, by rw [Numeral.ofBytes_eq]⟩
  case sfixed64 =>
    obtain ⟨_, hread, rfl⟩ := Reader.map_some h
    obtain ⟨_, hword, rfl⟩ := Reader.map_some hread
    obtain ⟨block, hlt, rfl⟩ := exists_of_map_take hword
    exact ⟨_, Word.signed64_mem hlt, by rw [Numeral.ofBytes_eq, Numeral.toSigned64_ofNat hlt]⟩

/-- A reader yields no other values. -/
theorem decoded_of_reader {type : ElementType} {bs rest : List UInt8} {v : Value}
    (h : type.reader bs = some (v, rest)) : type.Decoded v := by
  cases type with
  | scalar type => exact reader_decodedScalar h
  | enum byName byNumber zeroName =>
    obtain ⟨a, ha, rfl⟩ := Reader.map_some h
    obtain ⟨p, _, _, rfl⟩ := readVarint64_some ha
    exact ⟨_, Word.signed32OfNumeral_ofNat _ ▸ Word.signed32_mem _, rfl⟩

private theorem isNull_ofEnumNumber (byNumber : Table String) (zeroName : Option String) (n : Int) :
    (Value.ofEnumNumber byNumber zeroName n).isNull = false := by
  unfold Value.ofEnumNumber
  dsimp only
  split
  · rfl
  · split <;> rfl

/-- What is read is never null. -/
theorem isNull_of_decoded {type : ElementType} {v : Value} (h : type.Decoded v) : v.isNull = false := by
  cases type with
  | enum byName byNumber zeroName =>
    obtain ⟨n, _, rfl⟩ := h
    exact isNull_ofEnumNumber byNumber zeroName n
  | scalar type =>
    cases type
    case string | bytes | bool | double =>
      obtain ⟨_, rfl⟩ := h
      rfl
    all_goals
      obtain ⟨_, _, rfl⟩ := h
      rfl

/-! ### Writing and reading back -/

theorem settled_varint {type : ElementType} {v : Value} {u : Nat} {isZero : Bool} (f : Numeral → Value)
    (hreader : type.reader = readVarint64.map f) (hu : u < 0x10000000000000000)
    (hpayload : type.payload v = .ok ⟨varintOfNat u, isZero⟩) (hf : f (Numeral.ofNat u) = v)
    (hzero : isZero = true ↔ v = type.zero) : type.Settled v ⟨varintOfNat u, isZero⟩ where
  payload_eq := hpayload
  reads _ rest := by rw [hreader, map_readVarint64 f hu, hf]
  isZero_iff := hzero

theorem settled_take {type : ElementType} {v : Value} {count n : Nat} {isZero : Bool} (f : List UInt8 → Value)
    (hreader : type.reader = (take count).map f) (hpayload : type.payload v = .ok ⟨Word.toBytes count n, isZero⟩)
    (hf : f (Word.toBytes count n) = v) (hzero : isZero = true ↔ v = type.zero) :
    type.Settled v ⟨Word.toBytes count n, isZero⟩ where
  payload_eq := hpayload
  reads _ rest := by rw [hreader, map_take, hf]
  isZero_iff := hzero

theorem settled_block {type : ElementType} {v : Value} {bytes : List UInt8} (f : List UInt8 → Value)
    (hreader : type.reader = readDelimited.map f) (hform : type.wireType = .delimited)
    (hpayload : type.payload v = .ok (block bytes)) (hf : f bytes = v)
    (hzero : bytes = [] ↔ v = type.zero) : type.Settled v (block bytes) where
  payload_eq := hpayload
  reads hfits rest := by
    rw [hreader, ← hf]
    exact Reader.map_of_some (readDelimited_delimited (hfits bytes hform rfl) rest)
  isZero_iff := by rw [← hzero, block, List.isEmpty_iff]

theorem map_map {α β γ : Type} (r : Reader α) (f : α → β) (g : β → γ) :
    (r.map f).map g = r.map fun a => g (f a) := by
  funext bs
  unfold Reader.map
  cases r bs <;> rfl

theorem textOf_eq_zero_iff {a : Numeral} : textOf a = .text "0" ↔ a = ['0'] := by
  rw [textOf, Value.text.injEq, show ("0" : String) = String.ofList ['0'] from rfl, String.ofList_inj]

theorem encode_eq_nil_iff {cs : List Char} : Utf8.encode cs = [] ↔ cs = [] := by
  constructor
  · intro h
    rw [← Utf8.decodeLossy_encode cs, h, Utf8.decodeLossy]
  · rintro rfl
    rfl

theorem toList_encodeText (bs : List UInt8) : (Base64.encodeText bs).toList = Base64.encode bs :=
  String.toList_ofList

private theorem encodeText_eq_empty_iff {bs : List UInt8} : Base64.encodeText bs = "" ↔ bs = [] := by
  constructor
  · intro h
    rw [← Base64.decode_encode bs, ← toList_encodeText, h]
    rfl
  · rintro rfl
    rfl

theorem settled_string (s : String) : (scalar .string).Settled (.text s) (block (Utf8.encode s.toList)) := by
  refine settled_block (fun bs => .text (String.ofList (Utf8.decodeLossy bs))) (map_map _ _ _) rfl rfl ?_ ?_
  · rw [Utf8.decodeLossy_encode, String.ofList_toList]
  · rw [encode_eq_nil_iff, String.toList_eq_nil_iff]
    exact ⟨fun h => h ▸ rfl, fun h => Value.text.inj h⟩

theorem settled_bytes (bs : List UInt8) : (scalar .bytes).Settled (.text (Base64.encodeText bs)) (block bs) := by
  refine settled_block (fun bs => .text (Base64.encodeText bs)) (map_map _ _ _) rfl ?_ rfl ?_
  · show Except.ok (block (Base64.decode (Base64.encodeText bs).toList)) = .ok (block bs)
    rw [toList_encodeText, Base64.decode_encode]
  · rw [← encodeText_eq_empty_iff]
    exact ⟨fun h => h ▸ rfl, fun h => Value.text.inj h⟩

theorem settled_bool (b : Bool) :
    (scalar .bool).Settled (.bool b) ⟨varintOfNat (if b then 1 else 0), !b⟩ := by
  refine settled_varint _ rfl (by cases b <;> decide) (by cases b <;> rfl) ?_ ?_
  · cases b
    · rw [if_neg (by simp), Numeral.ofNat_zero]
      rfl
    · rw [if_pos rfl, Numeral.ofNat_of_lt (by decide)]
      rfl
  · cases b <;> simp [zero, zeroScalar]

theorem int_eq_zero_iff {n : Int} : (n == 0) = true ↔ Value.int n = .int 0 := by
  rw [beq_iff_eq, Value.int.injEq]

theorem settled_int32 {n : Int} (h : IsInt32 n) :
    (scalar .int32).Settled (.int n) ⟨varintOfNat (Word.unsigned64 n), n == 0⟩ := by
  have hsize : n.natAbs < 0x10000000000000000 := by have := h.1; have := h.2; omega
  refine settled_varint _ rfl (Word.unsigned64_lt n) ?_ ?_ int_eq_zero_iff
  · show scalarPayload .int32 (.int n) = _
    rw [scalarPayload, Value.toInt32_int h, ok_bind]
    exact number_eq hsize
  · rw [Word.signed32OfNumeral_ofNat, Word.signed32_unsigned64 h.1 h.2]

theorem settled_uint32 {n : Int} (h : IsUInt32 n) :
    (scalar .uint32).Settled (.int n) ⟨varintOfNat (Word.unsigned64 n), n == 0⟩ := by
  obtain ⟨hlow, hhigh⟩ := id h
  obtain ⟨u, rfl⟩ := Int.eq_ofNat_of_zero_le hlow
  refine settled_varint _ rfl (Word.unsigned64_lt u) ?_ ?_ int_eq_zero_iff
  · show scalarPayload .uint32 (.int u) = _
    rw [scalarPayload, Value.toUInt32_int h, ok_bind]
    exact number_eq (by omega)
  · rw [Word.unsigned64_of_lt (by omega), Word.unsigned32OfNumeral_ofNat, Nat.mod_eq_of_lt (by omega)]

theorem settled_sint32 {n : Int} (h : IsInt32 n) :
    (scalar .sint32).Settled (.int n)
      ⟨varintOfNat (Word.unsigned64 (Word.encodeZigzag32 n)), Word.encodeZigzag32 n == 0⟩ := by
  obtain ⟨hlow, hhigh⟩ := Word.encodeZigzag32_mem h.1 h.2
  refine settled_varint _ rfl (Word.unsigned64_lt _) ?_ ?_ ?_
  · show scalarPayload .sint32 (.int n) = _
    rw [scalarPayload, Value.toInt32_int h, ok_bind]
    exact number_eq (by omega)
  · obtain ⟨u, hu⟩ := Int.eq_ofNat_of_zero_le hlow
    rw [hu, Word.unsigned64_of_lt (by omega), Word.decodeZigzag32OfNumeral_ofNat, Nat.mod_eq_of_lt (by omega), ← hu,
      Word.unzigzag_encodeZigzag32]
  · have hzero : Word.encodeZigzag32 n = 0 ↔ n = 0 := by
      rw [Word.encodeZigzag32]
      split <;> omega
    rw [beq_iff_eq, hzero, zero, zeroScalar, Value.int.injEq]

theorem settled_fixed32 {n : Int} (h : IsUInt32 n) :
    (scalar .fixed32).Settled (.int n) ⟨Word.toBytes 4 n.toNat, n == 0⟩ := by
  obtain ⟨hlow, hhigh⟩ := id h
  refine settled_take (fun bs => .int (Word.ofBytes bs : Nat)) (map_map _ _ _) ?_ ?_ int_eq_zero_iff
  · show scalarPayload .fixed32 (.int n) = _
    rw [scalarPayload, Value.toUInt32_int h]
    show Except.ok (Payload.mk (fixed32 n) (n == 0)) = _
    rw [fixed32, Word.toUnsigned32, if_neg (by omega), Int.emod_eq_of_lt hlow hhigh]
  · rw [Word.ofBytes_toBytes, Nat.mod_eq_of_lt (by norm_num; omega), Int.toNat_of_nonneg hlow]

theorem settled_sfixed32 {n : Int} (h : IsInt32 n) :
    (scalar .sfixed32).Settled (.int n) ⟨Word.toBytes 4 (n % 0x100000000).toNat, n == 0⟩ := by
  obtain ⟨hlow, hhigh⟩ := id h
  refine settled_take (fun bs => .int (Word.signed32 (Word.ofBytes bs))) (map_map _ _ _) ?_ ?_ int_eq_zero_iff
  · have hword : sfixed32 n = .ok (Word.toBytes 4 (n % 0x100000000).toNat) := by
      rw [sfixed32, Word.toSigned32_of_mem hlow hhigh]
      exact if_pos (by simp only [Bool.and_eq_true, decide_eq_true_eq]; omega)
    show scalarPayload .sfixed32 (.int n) = _
    rw [scalarPayload, Value.toInt32_int h]
    show (do let bytes ← sfixed32 n; pure (Payload.mk bytes (n == 0))) = _
    rw [hword]
    rfl
  · rw [Word.signed32_ofBytes_toBytes hlow hhigh]

/-- A 64-bit integer is zero just where the word it is written as is. -/
theorem signed_eq_zero_iff {u : Nat} {n : Int} (h : u = 0 ↔ n = 0) :
    (u == 0) = true ↔ textOf (Numeral.ofInt n) = .text "0" := by
  rw [beq_iff_eq, h, textOf_eq_zero_iff, Numeral.ofInt_eq_zero_iff]

theorem unsigned64_eq_zero_iff {n : Int} (h : IsInt64 n) : Word.unsigned64 n = 0 ↔ n = 0 := by
  constructor
  · intro hzero
    rw [← Word.signed64_unsigned64 h.1 h.2, hzero]
    rfl
  · rintro rfl
    rfl

private theorem zigzag64_eq_zero_iff {n : Int} (h : IsInt64 n) : Word.zigzag64 n = 0 ↔ n = 0 := by
  constructor
  · intro hzero
    rw [← Word.unzigzag_zigzag64 h.1 h.2, hzero]
    rfl
  · rintro rfl
    rfl

theorem settled_int64 {n : Int} (h : IsInt64 n) :
    (scalar .int64).Settled (textOf (Numeral.ofInt n)) ⟨varintOfNat (Word.unsigned64 n), Word.unsigned64 n == 0⟩ := by
  refine settled_varint _ rfl (Word.unsigned64_lt n) ?_ ?_ (signed_eq_zero_iff (unsigned64_eq_zero_iff h))
  · show scalarPayload .int64 (textOf (Numeral.ofInt n)) = _
    rw [scalarPayload, textOf, Value.toUnsignedNumeral_of_signed (Value.toSignedNumeral_text n), ok_bind]
    exact numeral_eq (Word.unsigned64_lt n)
  · rw [Numeral.toSigned64_ofNat (Word.unsigned64_lt n), Word.signed64_unsigned64 h.1 h.2]

theorem settled_sint64 {n : Int} (h : IsInt64 n) :
    (scalar .sint64).Settled (textOf (Numeral.ofInt n)) ⟨varintOfNat (Word.zigzag64 n), Word.zigzag64 n == 0⟩ := by
  refine settled_varint _ rfl (Word.zigzag64_lt n) ?_ ?_ (signed_eq_zero_iff (zigzag64_eq_zero_iff h))
  · show scalarPayload .sint64 (textOf (Numeral.ofInt n)) = _
    rw [scalarPayload, textOf, Value.toZigzag64_of_signed (Value.toSignedNumeral_text n), ok_bind]
    exact numeral_eq (Word.zigzag64_lt n)
  · rw [Numeral.decodeZigzag64_ofNat, Word.unzigzag_zigzag64 h.1 h.2]

theorem settled_sfixed64 {n : Int} (h : IsInt64 n) :
    (scalar .sfixed64).Settled (textOf (Numeral.ofInt n))
      ⟨Word.toBytes 8 (Word.unsigned64 n), Word.unsigned64 n == 0⟩ := by
  refine settled_take (fun bs => textOf (Numeral.toSigned64 (Numeral.ofBytes bs))) ?_ ?_ ?_
    (signed_eq_zero_iff (unsigned64_eq_zero_iff h))
  · show (((take 8).map Numeral.ofBytes).map Numeral.toSigned64).map textOf = _
    rw [map_map, map_map]
  · show scalarPayload .sfixed64 (textOf (Numeral.ofInt n)) = _
    rw [scalarPayload, textOf, Value.toUnsignedNumeral_of_signed (Value.toSignedNumeral_text n), ok_bind]
    exact word_eq (Word.unsigned64_lt n)
  · have hlt := Word.unsigned64_lt n
    rw [Numeral.ofBytes_eq, Word.ofBytes_toBytes, Nat.mod_eq_of_lt (by norm_num; omega),
      Numeral.toSigned64_ofNat hlt, Word.signed64_unsigned64 h.1 h.2]

theorem unsigned_eq_zero_iff {u : Nat} : (u == 0) = true ↔ textOf (Numeral.ofNat u) = .text "0" := by
  rw [beq_iff_eq, textOf_eq_zero_iff, Numeral.ofNat_eq_zero_iff]

theorem settled_uint64 {u : Nat} (h : u < 0x10000000000000000) :
    (scalar .uint64).Settled (textOf (Numeral.ofNat u)) ⟨varintOfNat u, u == 0⟩ := by
  refine settled_varint _ rfl h ?_ rfl unsigned_eq_zero_iff
  show scalarPayload .uint64 (textOf (Numeral.ofNat u)) = _
  rw [scalarPayload, textOf, Value.toUnsignedNumeral_ofNat h, ok_bind]
  exact numeral_eq h

theorem settled_fixed64 {u : Nat} (h : u < 0x10000000000000000) :
    (scalar .fixed64).Settled (textOf (Numeral.ofNat u)) ⟨Word.toBytes 8 u, u == 0⟩ := by
  refine settled_take (fun bs => textOf (Numeral.ofBytes bs)) (map_map _ _ _) ?_ ?_ unsigned_eq_zero_iff
  · show scalarPayload .fixed64 (textOf (Numeral.ofNat u)) = _
    rw [scalarPayload, textOf, Value.toUnsignedNumeral_ofNat h, ok_bind]
    exact word_eq h
  · rw [Numeral.ofBytes_eq, Word.ofBytes_toBytes, Nat.mod_eq_of_lt (by norm_num; omega)]

theorem isPositiveZero_iff {x : Binary64} : x.isPositiveZero = true ↔ Value.float x = .float .zero := by
  rw [Binary64.isPositiveZero, beq_iff_eq, Value.float.injEq]
  constructor
  · intro h
    cases x
    exact congrArg Binary64.mk h
  · rintro rfl
    rfl

private theorem settled_float {bits : Nat} (h : bits < 0x100000000) :
    (scalar .float).Settled (.float (Binary64.ofSingle bits))
      ⟨single (Binary64.ofSingle bits), (Binary64.ofSingle bits).isPositiveZero⟩ := by
  obtain ⟨hlt, hsame⟩ := Binary64.ofSingle_toSingle_ofSingle h
  refine settled_take (fun bs => .float (Binary64.ofSingle (Word.ofBytes bs))) (map_map _ _ _) rfl ?_ isPositiveZero_iff
  rw [Word.ofBytes_toBytes, Nat.mod_eq_of_lt (by norm_num; omega), hsame]

theorem settled_double (x : Binary64) :
    (scalar .double).Settled (.float x) ⟨double x, x.isPositiveZero⟩ := by
  refine settled_take (fun bs => .float (Binary64.ofPattern (Word.ofBytes bs))) (map_map _ _ _) rfl ?_
    isPositiveZero_iff
  have hlt : x.pattern < 2 ^ 64 := x.bits.toNat_lt
  rw [Word.ofBytes_toBytes, Nat.mod_eq_of_lt (by norm_num; omega), Value.float.injEq]
  cases x
  exact congrArg Binary64.mk (UInt64.ofNat_toNat)

theorem exists_settled_scalar {type : ScalarType} {v : Value} (h : DecodedScalar type v) :
    ∃ p, (scalar type).Settled v p := by
  cases type
  case string => obtain ⟨s, rfl⟩ := h; exact ⟨_, settled_string s⟩
  case bytes => obtain ⟨bs, rfl⟩ := h; exact ⟨_, settled_bytes bs⟩
  case bool => obtain ⟨b, rfl⟩ := h; exact ⟨_, settled_bool b⟩
  case int32 => obtain ⟨n, hn, rfl⟩ := h; exact ⟨_, settled_int32 hn⟩
  case sint32 => obtain ⟨n, hn, rfl⟩ := h; exact ⟨_, settled_sint32 hn⟩
  case sfixed32 => obtain ⟨n, hn, rfl⟩ := h; exact ⟨_, settled_sfixed32 hn⟩
  case uint32 => obtain ⟨n, hn, rfl⟩ := h; exact ⟨_, settled_uint32 hn⟩
  case fixed32 => obtain ⟨n, hn, rfl⟩ := h; exact ⟨_, settled_fixed32 hn⟩
  case int64 => obtain ⟨n, hn, rfl⟩ := h; exact ⟨_, settled_int64 hn⟩
  case sint64 => obtain ⟨n, hn, rfl⟩ := h; exact ⟨_, settled_sint64 hn⟩
  case sfixed64 => obtain ⟨n, hn, rfl⟩ := h; exact ⟨_, settled_sfixed64 hn⟩
  case uint64 => obtain ⟨u, hu, rfl⟩ := h; exact ⟨_, settled_uint64 hu⟩
  case fixed64 => obtain ⟨u, hu, rfl⟩ := h; exact ⟨_, settled_fixed64 hu⟩
  case float => obtain ⟨bits, hbits, rfl⟩ := h; exact ⟨_, settled_float hbits⟩
  case double => obtain ⟨x, rfl⟩ := h; exact ⟨_, settled_double x⟩

theorem ofEnumNumber_of_get? {byNumber : Table String} {zeroName : Option String} {n : Int} {name : String}
    (h : Table.get? byNumber (String.ofList (Numeral.ofInt n)) = some name) :
    Value.ofEnumNumber byNumber zeroName n = .text name := by
  unfold Value.ofEnumNumber
  rw [Table.get?] at h
  simp only [h]

/-- A number without a name is read as the name of zero, or as it is where zero has none. -/
theorem ofEnumNumber_of_none {byNumber : Table String} {zeroName : Option String} {n : Int}
    (h : Table.get? byNumber (String.ofList (Numeral.ofInt n)) = none) :
    Value.ofEnumNumber byNumber zeroName n = (zeroName.map Value.text).getD (.int n) := by
  unfold Value.ofEnumNumber
  rw [Table.get?] at h
  simp only [h]
  cases zeroName <;> rfl

/-- A value that stands for a number of an enum and is what the number is read as. -/
theorem settled_enum {byName : Table Int} {byNumber : Table String} {zeroName : Option String} {v : Value} {n : Int}
    (hn : IsInt32 n) (hnumber : v.toEnumNumber byName = .ok n)
    (hname : Value.ofEnumNumber byNumber zeroName n = v)
    (hzero : n = 0 ↔ v = Value.ofEnumNumber byNumber zeroName 0) :
    (enum byName byNumber zeroName).Settled v ⟨varintOfNat (Word.unsigned64 n), n == 0⟩ := by
  obtain ⟨hlow, hhigh⟩ := id hn
  refine settled_varint _ rfl (Word.unsigned64_lt n) ?_ ?_ ?_
  · rw [payload, hnumber, ok_bind]
    exact number_eq (by omega)
  · rw [Word.signed32OfNumeral_ofNat, Word.signed32_unsigned64 hlow hhigh, hname]
  · rw [beq_iff_eq]
    exact hzero

private theorem settled_enum_name {byName : Table Int} {byNumber : Table String} {zeroName : Option String} {n : Int}
    {name : String} (hsound : (enum byName byNumber zeroName).Sound)
    (h : Table.get? byNumber (String.ofList (Numeral.ofInt n)) = some name) :
    ∃ p, (enum byName byNumber zeroName).Settled (.text name) p := by
  obtain ⟨hzero, hnames⟩ := hsound
  obtain ⟨hn, hnumber⟩ := hnames n name h
  refine ⟨_, settled_enum hn hnumber (ofEnumNumber_of_get? h) ⟨?_, fun heq => ?_⟩⟩
  · rintro rfl
    exact (ofEnumNumber_of_get? h).symm
  · -- the name is also that of zero, so it is read back as zero
    cases hget : Table.get? byNumber (String.ofList (Numeral.ofInt 0)) with
    | none =>
      rw [ofEnumNumber_of_none hget, hzero, hget] at heq
      simp at heq
    | some zero =>
      rw [ofEnumNumber_of_get? hget] at heq
      obtain rfl := Value.text.inj heq
      exact Except.ok.inj (hnumber.symm.trans (hnames 0 name hget).2)

private theorem exists_settled_enum {byName : Table Int} {byNumber : Table String} {zeroName : Option String} {n : Int}
    (hsound : (enum byName byNumber zeroName).Sound) (hn : IsInt32 n) :
    ∃ p, (enum byName byNumber zeroName).Settled (Value.ofEnumNumber byNumber zeroName n) p := by
  cases hget : Table.get? byNumber (String.ofList (Numeral.ofInt n)) with
  | some name =>
    rw [ofEnumNumber_of_get? hget]
    exact settled_enum_name hsound hget
  | none =>
    rw [ofEnumNumber_of_none hget]
    cases hzero : Table.get? byNumber (String.ofList (Numeral.ofInt 0)) with
    | some zero =>
      obtain rfl : zeroName = some zero := hsound.1.trans hzero
      exact settled_enum_name hsound hzero
    | none =>
      obtain rfl : zeroName = none := hsound.1.trans hzero
      refine ⟨_, settled_enum hn (Value.toInt32_int hn) (ofEnumNumber_of_none hget) ?_⟩
      rw [ofEnumNumber_of_none hzero]
      exact ⟨fun h => h ▸ rfl, fun h => Value.int.inj h⟩

/-- What is read is written and read back. -/
theorem exists_settled {type : ElementType} (hsound : type.Sound) {v : Value} (h : type.Decoded v) :
    ∃ p, type.Settled v p := by
  cases type with
  | scalar type => exact exists_settled_scalar h
  | enum byName byNumber zeroName =>
    obtain ⟨n, hn, rfl⟩ := h
    exact exists_settled_enum hsound hn

theorem decoded_zero (type : ElementType) : type.Decoded type.zero := by
  have hint : textOf (Numeral.ofInt 0) = .text "0" := textOf_eq_zero_iff.2 (Numeral.ofInt_eq_zero_iff.2 rfl)
  have hnat : textOf (Numeral.ofNat 0) = .text "0" := textOf_eq_zero_iff.2 (Numeral.ofNat_eq_zero_iff.2 rfl)
  cases type with
  | enum byName byNumber zeroName => exact ⟨0, ⟨by decide, by decide⟩, rfl⟩
  | scalar type =>
    cases type
    case string => exact ⟨"", rfl⟩
    case bytes => exact ⟨[], rfl⟩
    case bool => exact ⟨false, rfl⟩
    case float => exact ⟨0, by decide, congrArg Value.float (by decide)⟩
    case double => exact ⟨.zero, rfl⟩
    case int64 | sint64 | sfixed64 => exact ⟨0, ⟨by decide, by decide⟩, hint.symm⟩
    case uint64 | fixed64 => exact ⟨0, by decide, hnat.symm⟩
    all_goals exact ⟨0, ⟨by decide, by decide⟩, rfl⟩

/-! ### Whatever is written -/

/-- A value is written in the same way as one that is read. -/
theorem exists_decoded_scalar {type : ScalarType} (hfloat : type ≠ .float) {v : Value} {p : Payload}
    (h : scalarPayload type v = .ok p) : ∃ u, DecodedScalar type u ∧ scalarPayload type u = .ok p := by
  cases type
  case float => exact absurd rfl hfloat
  case string =>
    obtain ⟨s, _, heq⟩ := bind_eq_ok.1 h
    exact ⟨.text s, ⟨s, rfl⟩, heq⟩
  case bytes =>
    obtain ⟨bs, _, heq⟩ := bind_eq_ok.1 h
    exact ⟨_, ⟨bs, rfl⟩, (settled_bytes bs).payload_eq.trans heq⟩
  case bool =>
    exact ⟨.bool v.toTruth, ⟨_, rfl⟩, h⟩
  case double =>
    exact ⟨.float v.toDouble, ⟨_, rfl⟩, h⟩
  case int32 | sint32 | sfixed32 =>
    obtain ⟨n, hn, heq⟩ := bind_eq_ok.1 h
    have hrange := Value.isInt32_of_toInt32 hn
    refine ⟨.int n, ⟨n, hrange, rfl⟩, ?_⟩
    rw [scalarPayload, Value.toInt32_int hrange, ok_bind, heq]
  case uint32 | fixed32 =>
    obtain ⟨n, hn, heq⟩ := bind_eq_ok.1 h
    have hrange := Value.isUInt32_of_toUInt32 hn
    refine ⟨.int n, ⟨n, hrange, rfl⟩, ?_⟩
    rw [scalarPayload, Value.toUInt32_int hrange, ok_bind, heq]
  case uint64 | fixed64 =>
    obtain ⟨a, ha, heq⟩ := bind_eq_ok.1 h
    obtain ⟨u, hu, rfl⟩ := Value.exists_of_toUnsignedNumeral ha
    refine ⟨_, ⟨u, hu, rfl⟩, ?_⟩
    rw [scalarPayload, textOf, Value.toUnsignedNumeral_ofNat hu, ok_bind, heq]
  case int64 | sfixed64 =>
    obtain ⟨a, ha, heq⟩ := bind_eq_ok.1 h
    obtain ⟨u, hu, rfl⟩ := Value.exists_of_toUnsignedNumeral ha
    refine ⟨_, ⟨_, Word.signed64_mem hu, rfl⟩, ?_⟩
    rw [scalarPayload, textOf, Value.toUnsignedNumeral_of_signed (Value.toSignedNumeral_text _),
      Word.unsigned64_signed64 hu, ok_bind, heq]
  case sint64 =>
    obtain ⟨a, ha, heq⟩ := bind_eq_ok.1 h
    obtain ⟨u, hu, rfl⟩ := Value.exists_of_toZigzag64 ha
    refine ⟨_, ⟨_, Word.unzigzag_mem hu, rfl⟩, ?_⟩
    rw [scalarPayload, textOf, Value.toZigzag64_of_signed (Value.toSignedNumeral_text _),
      Word.zigzag64_unzigzag hu, ok_bind, heq]

/-- A value that settles after one trip: not a single, which may be rounded, and not an enum number
without a name, which is read as zero. -/
def Regular (type : ElementType) (v : Value) : Prop :=
  match type with
  | scalar type => type ≠ .float
  | enum byName byNumber _ => ∀ n, v.toEnumNumber byName = .ok n →
      (Table.get? byNumber (String.ofList (Numeral.ofInt n))).isSome = true

theorem exists_decoded {type : ElementType} (hsound : type.Sound) {v : Value} (hregular : type.Regular v)
    {p : Payload} (h : type.payload v = .ok p) : ∃ u, type.Decoded u ∧ type.payload u = .ok p := by
  cases type with
  | scalar type => exact exists_decoded_scalar hregular h
  | enum byName byNumber zeroName =>
    obtain ⟨n, hn, heq⟩ := bind_eq_ok.1 h
    obtain ⟨name, hname⟩ := Option.isSome_iff_exists.1 (hregular n hn)
    obtain ⟨hrange, hnumber⟩ := hsound.2 n name hname
    refine ⟨.text name, ⟨n, hrange, (ofEnumNumber_of_get? hname).symm⟩, ?_⟩
    rw [payload, hnumber, ok_bind, heq]

end MessageCodec.Codec.ElementType
