import MessageCodec.Wire.Skip

/-!
# Scalar types

The fifteen types a field can hold besides enums and messages, with their names in a schema and the
form of their payload.
-/

namespace MessageCodec

inductive ScalarType where
  | int32
  | int64
  | uint32
  | uint64
  | sint32
  | sint64
  | bool
  | fixed64
  | sfixed64
  | double
  | string
  | bytes
  | fixed32
  | sfixed32
  | float
deriving DecidableEq

namespace ScalarType

def all : List ScalarType :=
  [int32, int64, uint32, uint64, sint32, sint64, bool, fixed64, sfixed64, double, string, bytes, fixed32,
    sfixed32, float]

def name : ScalarType → String
  | int32 => "int32"
  | int64 => "int64"
  | uint32 => "uint32"
  | uint64 => "uint64"
  | sint32 => "sint32"
  | sint64 => "sint64"
  | bool => "bool"
  | fixed64 => "fixed64"
  | sfixed64 => "sfixed64"
  | double => "double"
  | string => "string"
  | bytes => "bytes"
  | fixed32 => "fixed32"
  | sfixed32 => "sfixed32"
  | float => "float"

def ofName? (s : String) : Option ScalarType := all.find? fun t => t.name == s

def wireType : ScalarType → Wire.WireType
  | int32 | int64 | uint32 | uint64 | sint32 | sint64 | bool => .varint
  | fixed64 | sfixed64 | double => .fixed64
  | string | bytes => .delimited
  | fixed32 | sfixed32 | float => .fixed32

def isPackable : ScalarType → Bool
  | string | bytes => false
  | _ => true

/-- The integers of 64 bits, which are kept as numerals. -/
def isNumeral : ScalarType → Bool
  | int64 | uint64 | sint64 | fixed64 | sfixed64 => true
  | _ => false

end ScalarType

end MessageCodec
