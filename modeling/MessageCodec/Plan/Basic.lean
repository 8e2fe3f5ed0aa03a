import MessageCodec.Error
import MessageCodec.Naming.Case
import MessageCodec.Naming.Rules
import MessageCodec.Schema.Basic
import MessageCodec.Schema.Scalar

/-!
# Plans

A message reduced to what its wire codec needs: the fields that can be encoded, in order of
declaration, each with its number, its type and the keys of its value.
-/

namespace MessageCodec

structure EnumTable where
  name : String
  fullName : String
  /-- Numbers by name in upper case. -/
  byName : Table Int
  /-- Names by number; numbers are written in base ten. -/
  byNumber : Table String

def EnumTable.defaultName (t : EnumTable) : Option String := t.byNumber.get? "0"

/-- A field that can be encoded. -/
structure FieldPlan where
  name : String
  number : Int
  kind : Schema.FieldKind
  scalar : Option String := none
  enum : Option EnumTable := none
  /-- The full name of the message that the field holds. -/
  child : Option String := none
  repeated : Bool := false
  packed : Bool := false
  jsonName : Option String := none
  /-- Whether an absent field differs from one that holds its default. -/
  presence : Bool := false
  default : Value := .null

/-- A message selected for generation. -/
structure MessagePlan where
  name : String
  fullName : String
  symbol : String
  fields : List FieldPlan := []
  dialect : Schema.Dialect := .proto3
  fileName : Option String := none

namespace FieldPlan

def scalarOf (name : Option String) : Except Error ScalarType :=
  match name.bind ScalarType.ofName? with
  | some type => .ok type
  | none => .error (.unknownScalar name)

def wireType (f : FieldPlan) : Except Error Wire.WireType :=
  match f.kind with
  | .scalar => (scalarOf f.scalar).map ScalarType.wireType
  | .enum => .ok .varint
  | _ => .ok .delimited

def tagOf (number : Int) (type : Wire.WireType) : Int := 8 * number + type.code

def tag (f : FieldPlan) : Except Error Int := f.wireType.map (tagOf f.number)

def packedTag (f : FieldPlan) : Int := tagOf f.number .delimited

/-- Whether values of a kind may share a record. -/
def packable (kind : Schema.FieldKind) (scalar : Option String) : Bool :=
  match kind with
  | .enum => true
  | .scalar => scalar != some ScalarType.string.name && scalar != some ScalarType.bytes.name
  | _ => false

def isPackable (f : FieldPlan) : Bool := packable f.kind f.scalar

def camelName (f : FieldPlan) : String := Naming.camelCase f.name

/-- The name in JSON: the given one, or the name in camel case. -/
def jsonKey (f : FieldPlan) : String := (f.jsonName.filter fun s => !s.isEmpty).getD f.camelName

/-- The elements of a list that are not empty, each once. -/
def distinctKeys (keys : List String) : List String :=
  keys.foldl (fun set s => if s.isEmpty then set else Naming.insertNew s set) []

/-- The keys tried, in order, when the field is read from a message. -/
def lookupKeys (f : FieldPlan) : List String := distinctKeys [f.name, f.jsonKey, f.camelName]

end FieldPlan

end MessageCodec
