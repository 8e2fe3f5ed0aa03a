import MessageCodec.Value.Basic

/-!
# Schemas

The declarations of a set of files with their references resolved. A message carries a number that
tells it from every other message, also from one of the same name.
-/

namespace MessageCodec.Schema

inductive Dialect where
  | proto2
  | proto3
  | editions
deriving DecidableEq

namespace Dialect

def name : Dialect → String
  | proto2 => "proto2"
  | proto3 => "proto3"
  | editions => "editions"

def ofName? : String → Option Dialect
  | "proto2" => some proto2
  | "proto3" => some proto3
  | "editions" => some editions
  | _ => none

end Dialect

inductive Cardinality where
  | optional
  | required
  | repeated
deriving DecidableEq

def Cardinality.name : Cardinality → String
  | optional => "optional"
  | required => "required"
  | repeated => "repeated"

inductive FieldKind where
  | scalar
  | enum
  | message
  | map
  | group
  /-- A kind that nothing here knows. -/
  | other (name : String)
deriving DecidableEq

namespace FieldKind

def name : FieldKind → String
  | scalar => "scalar"
  | enum => "enum"
  | message => "message"
  | map => "map"
  | group => "group"
  | other name => name

end FieldKind

/-- An enum with its values in order of declaration. -/
structure Enum where
  name : String
  fullName : String
  values : List (String × Int) := []
  options : Value := .mapping []

inductive Reference where
  /-- The message with this number. -/
  | message (id : Nat) (fullName : String)
  | enum (type : Enum)

def Reference.fullName : Reference → String
  | message _ fullName => fullName
  | enum type => type.fullName

structure Field where
  name : String
  number : Int
  cardinality : Cardinality := .optional
  kind : FieldKind
  scalar : Option String := none
  typeName : Option String := none
  resolved : Option Reference := none
  default : Option String := none
  jsonName : Option String := none
  oneof : Option String := none
  oneofIndex : Option Int := none
  proto3Optional : Bool := false
  packed : Option Bool := none
  options : Value := .mapping []

/-- A set of fields of which at most one is given, by their names. -/
structure Oneof where
  name : String
  fullName : String
  fields : List String := []

structure Message where
  id : Nat
  name : String
  fullName : String
  fields : List Field := []
  nested : List Message := []
  enums : List Enum := []
  oneofs : List Oneof := []
  options : Value := .mapping []
  mapEntry : Bool := false
deriving Inhabited

structure File where
  name : String
  package : Option String := none
  dialect : Dialect := .proto2
  dependencies : List String := []
  messages : List Message := []
  enums : List Enum := []
  options : Value := .mapping []

end MessageCodec.Schema
