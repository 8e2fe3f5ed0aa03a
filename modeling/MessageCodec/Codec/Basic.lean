import MessageCodec.Codec.Element
import MessageCodec.Plan.Stem

/-!
# Codecs

A plan made ready to run: every field with the keys and tables that its constants hold. Fields that
share a stem share their constants, and those of the last one count.
-/

namespace MessageCodec

namespace Codec

inductive FieldType where
  | element (type : ElementType)
  /-- A message, by full name. -/
  | message (child : String)

def FieldType.wireType : FieldType → Wire.WireType
  | element type => type.wireType
  | message _ => .delimited

/-- A field ready to be encoded and decoded. -/
structure Field where
  number : Int
  type : FieldType
  repeated : Bool
  packed : Bool
  presence : Bool
  /-- The keys tried when the value is read from a message. -/
  keys : List String
  /-- The keys that a decoded value is put under. -/
  outputs : List String
  default : Value

namespace Field

def tag (f : Field) : Int := FieldPlan.tagOf f.number f.type.wireType

/-- The tag in front of several values that share a record. -/
def packedTag (f : Field) : Int := FieldPlan.tagOf f.number .delimited

end Field

end Codec

/-- A message ready to be encoded and decoded. -/
structure Codec where
  fullName : String
  symbol : String
  fields : List Codec.Field

/-- The codecs of a set of messages that may hold each other. -/
structure Codecs where
  codecs : List Codec
  /-- Whether absent fields are decoded as their defaults. -/
  fillDefaults : Bool

namespace Codecs

def codec? (cs : Codecs) (fullName : String) : Option Codec :=
  cs.codecs.find? fun c => c.fullName == fullName

def child (cs : Codecs) (fullName : String) : Except Error Codec :=
  match cs.codec? fullName with
  | some c => .ok c
  | none => .error (.unknownMessage (some fullName))

/-- What a field holds, with the tables of the fields that share its constants. -/
def fieldType (sharing : List FieldPlan) (f : FieldPlan) : Except Error Codec.FieldType :=
  match f.kind with
  | .message =>
    match f.child with
    | some child => .ok (.message child)
    | none => .error (.unknownMessage none)
  | .enum =>
    match sharing.findSome? FieldPlan.enum with
    | some t => .ok (.element (.enum t.byName t.byNumber t.defaultName))
    | none => .error .enumMissing
  | _ => do
    let type ← FieldPlan.scalarOf f.scalar
    return .element (.scalar type)

def fieldOf (settings : Settings) (m : MessagePlan) (f : FieldPlan) : Except Error Codec.Field := do
  let sharing := m.withStem (m.stemOf f.number)
  let type ← fieldType sharing f
  let last := sharing.head?.getD f
  return {
    number := f.number
    type
    repeated := f.repeated
    packed := f.packed
    presence := f.presence
    keys := last.lookupKeys
    outputs := last.outputKeys settings.decodeCase
    default := f.default }

def codecOf (settings : Settings) (m : MessagePlan) : Except Error Codec := do
  let fields ← m.fields.mapM (fieldOf settings m)
  return ⟨m.fullName, m.symbol, fields⟩

/-- Plans made ready to run. -/
def ofPlans (settings : Settings) (plans : List MessagePlan) : Except Error Codecs := do
  let codecs ← plans.mapM (codecOf settings)
  return ⟨codecs, settings.fillDefaults⟩

end Codecs

end MessageCodec
