import MessageCodec.Schema.Scalar
import MessageCodec.Wire.Fixed

/-!
# Elements

How one value of a scalar type or an enum is written and read.
-/

namespace MessageCodec.Codec

/-- What a value becomes on the wire. -/
structure Payload where
  bytes : List UInt8
  /-- The value is the zero of its type. -/
  isZero : Bool

/-- A type whose values are written one after the other without a length of their own where they share
a record. -/
inductive ElementType where
  | scalar (type : ScalarType)
  /-- An enum: numbers by name, names by number, and the name of zero. -/
  | enum (byName : Table Int) (byNumber : Table String) (zeroName : Option String)

namespace ElementType

def wireType : ElementType → Wire.WireType
  | scalar type => type.wireType
  | enum .. => .varint

/-- Repeated values may share one record. -/
def isPackable : ElementType → Bool
  | scalar type => type.isPackable
  | enum .. => true

def number (n : Int) : Except Error Payload := do
  let bytes ← Wire.varintOfValue (.int n)
  return ⟨bytes, n == 0⟩

def numeral (a : Numeral) : Except Error Payload := do
  let bytes ← Wire.varintOfValue (.text (String.ofList a))
  return ⟨bytes, a == ['0']⟩

/-- A numeral as a 64-bit word. -/
def word (a : Numeral) : Except Error Payload := do
  let bytes ← Wire.fixed64OfValue (.text (String.ofList a))
  return ⟨bytes, a == ['0']⟩

def block (bytes : List UInt8) : Payload := ⟨Wire.delimited bytes, bytes.isEmpty⟩

def scalarPayload (type : ScalarType) (v : Value) : Except Error Payload := do
  match type with
  | .string => return block (Utf8.encode (← v.toText).toList)
  | .bytes => return block (← v.toByteString)
  | .bool => return ⟨Wire.varintOfInt (if v.toTruth then 1 else 0), !v.toTruth⟩
  | .int32 => number (← v.toInt32)
  | .uint32 => number (← v.toUInt32)
  | .sint32 => number (Word.encodeZigzag32 (← v.toInt32))
  | .int64 | .uint64 => numeral (← v.toUnsignedNumeral)
  | .sint64 => numeral (← v.toZigzag64)
  | .fixed32 =>
    let n ← v.toUInt32
    return ⟨Wire.fixed32 n, n == 0⟩
  | .sfixed32 =>
    let n ← v.toInt32
    return ⟨← Wire.sfixed32 n, n == 0⟩
  | .fixed64 | .sfixed64 => word (← v.toUnsignedNumeral)
  | .float => return ⟨Wire.single v.toDouble, (Value.float v.toDouble).isPositiveZero⟩
  | .double => return ⟨Wire.double v.toDouble, (Value.float v.toDouble).isPositiveZero⟩

def payload (type : ElementType) (v : Value) : Except Error Payload :=
  match type with
  | scalar type => scalarPayload type v
  | enum byName _ _ => do
    let n ← v.toEnumNumber byName
    number n

def textOf (a : Numeral) : Value := .text (String.ofList a)

def scalarReader : ScalarType → Wire.Reader Value
  | .string => Wire.readText.map .text
  | .bytes => Wire.readBase64.map .text
  | .bool => Wire.readVarint64.map fun a => .bool (a != ['0'])
  | .int32 => Wire.readVarint64.map fun a => .int (Word.signed32OfNumeral a)
  | .uint32 => Wire.readVarint64.map fun a => .int (Word.unsigned32OfNumeral a)
  | .sint32 => Wire.readVarint64.map fun a => .int (Word.decodeZigzag32OfNumeral a)
  | .int64 => Wire.readVarint64.map fun a => textOf (Numeral.toSigned64 a)
  | .uint64 => Wire.readVarint64.map textOf
  | .sint64 => Wire.readVarint64.map fun a => textOf (Numeral.decodeZigzag64 a)
  | .fixed32 => Wire.readFixed32.map fun (n : Nat) => .int n
  | .sfixed32 => Wire.readSfixed32.map .int
  | .fixed64 => Wire.readFixed64.map textOf
  | .sfixed64 => Wire.readSfixed64.map textOf
  | .float => Wire.readSingle.map .float
  | .double => Wire.readDouble.map .float

def reader : ElementType → Wire.Reader Value
  | scalar type => scalarReader type
  | enum _ byNumber zeroName =>
    Wire.readVarint64.map fun a => Value.ofEnumNumber byNumber zeroName (Word.signed32OfNumeral a)

theorem scalarReader_advances (type : ScalarType) : (scalarReader type).Advances := by
  cases type
  case string => exact (Wire.readDelimited_advances.map _).map _
  case bytes => exact (Wire.readDelimited_advances.map _).map _
  case fixed32 => exact Wire.readFixed32_advances.map _
  case sfixed32 => exact Wire.readSfixed32_advances.map _
  case fixed64 => exact Wire.readFixed64_advances.map _
  case sfixed64 => exact Wire.readSfixed64_advances.map _
  case float => exact Wire.readSingle_advances.map _
  case double => exact Wire.readDouble_advances.map _
  all_goals exact Wire.readVarint64_advances.map _

theorem reader_advances (type : ElementType) : type.reader.Advances := by
  cases type with
  | scalar type => exact scalarReader_advances type
  | enum byName byNumber zeroName => exact Wire.readVarint64_advances.map _

end ElementType

end MessageCodec.Codec
