import MessageCodec.Schema.Scalar
import MessageCodec.Value.Basic

/-!
# Descriptors

What a schema compiler hands over: the declarations of each file, with references by name. A part that
is not given has its default.
-/

namespace MessageCodec.Descriptor

inductive FieldType where
  | scalar (type : ScalarType)
  | enum
  | message
  | group
deriving DecidableEq

inductive Label where
  | optional
  | required
  | repeated
deriving DecidableEq

structure Field where
  name : String := ""
  number : Int := 0
  type : FieldType := .scalar .double
  label : Label := .optional
  typeName : String := ""
  default : Option String := none
  jsonName : String := ""
  oneofIndex : Option Int := none
  proto3Optional : Bool := false
  options : Entries := []

structure Enum where
  name : String := ""
  values : List (String × Int) := []
  options : Entries := []

structure Message where
  name : String := ""
  fields : List Field := []
  nested : List Message := []
  enums : List Enum := []
  oneofs : List String := []
  options : Entries := []
deriving Inhabited

structure File where
  name : String := ""
  package : String := ""
  dialect : String := ""
  dependencies : List String := []
  messages : List Message := []
  enums : List Enum := []
  options : Entries := []

/-- What is to be generated: all the files known, those asked for, and the parameter string. -/
structure Request where
  files : List File := []
  targets : List String := []
  parameter : String := ""

def isSet (options : Entries) (key : String) : Bool :=
  match options.get? key with
  | some (.bool b) => b
  | _ => false

def switch? (options : Entries) (key : String) : Option Bool :=
  match options.get? key with
  | some (.bool b) => some b
  | _ => none

def Message.isMapEntry (m : Message) : Bool := isSet m.options "map_entry"

/-- A request for all the files of a set, or for some of them. -/
def Request.ofSet (files : List File) (targets : List String) : Request :=
  { files, targets := if targets.isEmpty then files.map File.name else targets }

end MessageCodec.Descriptor
