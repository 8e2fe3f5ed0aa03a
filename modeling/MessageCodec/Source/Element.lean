import MessageCodec.Plan.Basic

/-!
# Statements on elements

The expressions by which generated code turns one value of a scalar type or an enum into its payload
and back. Generated code calls the shared runtime module `_pb`.
-/

namespace MessageCodec.Source

/-- The expressions for the values of a type. -/
structure ElementSource where
  /-- The value in the form in which it is written. -/
  coerce : String → String
  /-- Whether a coerced value is other than the zero of the type. -/
  nonDefault : String → String
  /-- The function that writes a coerced value. -/
  writer : String
  /-- The function that reads a raw value. -/
  reader : String
  /-- The value that a raw value stands for, where it is another. -/
  convert : Option (String → String) := none

def call (function argument : String) : String := function ++ "(" ++ argument ++ ")"

/-- The expressions for integers of 32 bits, read through their numerals. -/
def varint32 (coerce : String → String) (convert : String) : ElementSource :=
  { coerce
    nonDefault := (· ++ " != 0")
    writer := "_pb.write_varint64"
    reader := "_pb.read_varint64"
    convert := some (call convert) }

def numeral (coerce writer reader : String) (convert : Option (String → String)) :
    ElementSource :=
  { coerce := call coerce
    nonDefault := (· ++ " != \"0\"")
    writer, reader, convert }

def ofScalar : ScalarType → ElementSource
  | .string =>
    { coerce := fun v => call "_pb.coerce_string" v ++ ".encode(\"utf-8\")"
      nonDefault := id
      writer := "_pb.write_length_delimited"
      reader := "_pb.read_string" }
  | .bytes =>
    { coerce := call "_pb.coerce_bytes"
      nonDefault := id
      writer := "_pb.write_length_delimited"
      reader := "_pb.read_bytes" }
  | .bool =>
    { coerce := fun v => "1 if " ++ call "_pb.coerce_bool" v ++ " else 0"
      nonDefault := id
      writer := "_pb.write_varint32"
      reader := "_pb.read_varint64"
      convert := some (· ++ " != \"0\"") }
  | .int32 => varint32 (call "_pb.coerce_int32") "_pb.to_signed32_from_string"
  | .uint32 => varint32 (call "_pb.coerce_uint32") "_pb.to_unsigned32_from_string"
  | .sint32 =>
    varint32 (fun v => call "_pb.encode_zigzag32" (call "_pb.coerce_int32" v)) "_pb.decode_zigzag32"
  | .int64 =>
    numeral "_pb.normalize_unsigned_decimal" "_pb.write_varint64" "_pb.read_varint64"
      (some (call "_pb.to_signed64_decimal"))
  | .uint64 => numeral "_pb.normalize_unsigned_decimal" "_pb.write_varint64" "_pb.read_varint64" none
  | .sint64 =>
    numeral "_pb.encode_zigzag64" "_pb.write_varint64" "_pb.read_varint64"
      (some (call "_pb.decode_zigzag64"))
  | .fixed32 =>
    { coerce := call "_pb.coerce_uint32"
      nonDefault := (· ++ " != 0")
      writer := "_pb.write_fixed32"
      reader := "_pb.read_fixed32" }
  | .sfixed32 =>
    { coerce := call "_pb.coerce_int32"
      nonDefault := (· ++ " != 0")
      writer := "_pb.write_sfixed32"
      reader := "_pb.read_sfixed32" }
  | .fixed64 => numeral "_pb.normalize_unsigned_decimal" "_pb.write_fixed64" "_pb.read_fixed64" none
  | .sfixed64 => numeral "_pb.normalize_unsigned_decimal" "_pb.write_fixed64" "_pb.read_sfixed64" none
  | .float =>
    { coerce := call "_pb.coerce_float"
      nonDefault := fun v => "not " ++ call "_pb.is_positive_zero" v
      writer := "_pb.write_float"
      reader := "_pb.read_float" }
  | .double =>
    { coerce := call "_pb.coerce_float"
      nonDefault := fun v => "not " ++ call "_pb.is_positive_zero" v
      writer := "_pb.write_double"
      reader := "_pb.read_double" }

/-- The expressions for the values of an enum whose tables are named by a stem. -/
def ofEnum (stem : String) : ElementSource :=
  { coerce := fun v => "_pb.coerce_enum(" ++ v ++ ", _ENUM_" ++ stem ++ "_BY_NAME)"
    nonDefault := (· ++ " != 0")
    writer := "_pb.write_varint64"
    reader := "_pb.read_varint64"
    convert := some fun raw =>
      "_pb.enum_name(_pb.to_signed32_from_string(" ++ raw ++ "), _ENUM_" ++ stem ++ "_BY_NUMBER, _ENUM_"
        ++ stem ++ "_DEFAULT)" }

def ofField (stem : String) (f : FieldPlan) : Except Error ElementSource :=
  match f.kind with
  | .enum => .ok (ofEnum stem)
  | _ => (FieldPlan.scalarOf f.scalar).map ofScalar

end MessageCodec.Source
