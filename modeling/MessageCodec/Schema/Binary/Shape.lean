import MessageCodec.Wire.Record

/-!
# The shape of serialized descriptors

Which fields of a serialized descriptor hold further messages. Serialized descriptors are well formed
only if all of these are, down to a greatest depth, whether their content is of use here or not.
-/

namespace MessageCodec.Descriptor

/-- The kinds of messages in serialized descriptors. -/
inductive Shape where
  | set
  | request
  | file
  | message
  | extensionRange
  | field
  | oneof
  | enum
  | enumValue
  | service
  | method
  | fileOptions
  | messageOptions
  | fieldOptions
  | oneofOptions
  | enumOptions
  | enumValueOptions
  | serviceOptions
  | methodOptions
  | rangeOptions
  | uninterpreted
  | sourceInfo
  | location
  /-- A message without messages inside it. -/
  | plain
  /-- Not a message but varints that share a record. -/
  | varints

namespace Shape

/-- The shape of what a field holds, if it is a message or varints that share a record. -/
def part? : Shape → Nat → Option Shape
  | set, 1 => some file
  | request, 3 => some plain
  | request, 15 | request, 17 => some file
  | file, 4 => some message
  | file, 5 => some enum
  | file, 6 => some service
  | file, 7 => some field
  | file, 8 => some fileOptions
  | file, 9 => some sourceInfo
  | file, 10 | file, 11 => some varints
  | message, 2 | message, 6 => some field
  | message, 3 => some message
  | message, 4 => some enum
  | message, 5 => some extensionRange
  | message, 7 => some messageOptions
  | message, 8 => some oneof
  | message, 9 => some plain
  | extensionRange, 3 => some rangeOptions
  | field, 8 => some fieldOptions
  | oneof, 2 => some oneofOptions
  | enum, 2 => some enumValue
  | enum, 3 => some enumOptions
  | enum, 4 => some plain
  | enumValue, 3 => some enumValueOptions
  | service, 2 => some method
  | service, 3 => some serviceOptions
  | method, 4 => some methodOptions
  | fileOptions, 50 => some plain
  | messageOptions, 12 => some plain
  | fieldOptions, 19 => some varints
  | fieldOptions, 20 | fieldOptions, 21 | fieldOptions, 22 => some plain
  | oneofOptions, 1 => some plain
  | enumOptions, 7 => some plain
  | enumValueOptions, 2 | enumValueOptions, 4 => some plain
  | serviceOptions, 34 => some plain
  | methodOptions, 35 => some plain
  | rangeOptions, 2 | rangeOptions, 50 => some plain
  | fileOptions, 999 | messageOptions, 999 | fieldOptions, 999 | oneofOptions, 999 | enumOptions, 999
  | enumValueOptions, 999 | serviceOptions, 999 | methodOptions, 999 | rangeOptions, 999 =>
    some uninterpreted
  | uninterpreted, 2 => some plain
  | sourceInfo, 1 => some location
  | location, 1 | location, 2 => some varints
  | _, _ => none

def areVarints (bs : List UInt8) : Bool :=
  if bs.isEmpty then true
  else
    match h : Wire.wholeVarintFrom 0 1 Wire.maxVarintBytes bs with
    | none => false
    | some (_, rest) =>
      have := Wire.wholeVarintFrom_lt h
      areVarints rest
termination_by bs.length

/-- Whether bytes are a well-formed message of a shape whose parts pass a test. -/
def checkWith (part : Shape → List UInt8 → Bool) (shape : Shape) (bs : List UInt8) : Bool :=
  match Wire.records? bs with
  | none => false
  | some records =>
    records.all fun r =>
      match r with
      | (number, .block payload) =>
        match shape.part? number with
        | none => true
        | some varints => areVarints payload
        | some inner => part inner payload
      | _ => true

/-- Whether bytes are a well-formed message of a shape with at most `depth` levels below it. -/
def check : (depth : Nat) → Shape → List UInt8 → Bool
  | 0 => checkWith fun _ _ => false
  | depth + 1 => checkWith (check depth)

def maxDepth : Nat := 100

end Shape

end MessageCodec.Descriptor
