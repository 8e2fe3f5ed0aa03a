import MessageCodec.Number.Word
import MessageCodec.Schema.Binary.Shape
import MessageCodec.Schema.Descriptor

/-!
# Reading serialized descriptors

Requests and sets of files as a schema compiler serializes them. The last of several values of a field
counts, options given in several pieces are put together, and what is not known here is passed over. An
enum number that is not known counts as missing.
-/

namespace MessageCodec.Descriptor

namespace Binary

def collect {α : Type} (add : α → Wire.Record → α) (start : α) (bs : List UInt8) : α :=
  ((Wire.records? bs).getD []).foldl add start

def text (bs : List UInt8) : String := String.ofList (Utf8.decodeLossy bs)

def int32 (n : Nat) : Int := Word.signed32 (n % 0x100000000)

/-- The settings of the feature of presence, by number. -/
def presences : List (Nat × String) :=
  [(0, "FIELD_PRESENCE_UNKNOWN"), (1, "EXPLICIT"), (2, "IMPLICIT"), (3, "LEGACY_REQUIRED")]

def encodings : List (Nat × String) :=
  [(0, "REPEATED_FIELD_ENCODING_UNKNOWN"), (1, "PACKED"), (2, "EXPANDED")]

def nameOf? (names : List (Nat × String)) (n : Nat) : Option String :=
  (names.find? fun e => e.1 == n).map Prod.snd

def putSetting (features : Entries) (key : String) (name : Option String) : Entries :=
  match name with
  | some name => features.put key (.text name)
  | none => features

def addFeature (features : Entries) : Wire.Record → Entries
  | (1, .varint n) => putSetting features "field_presence" (nameOf? presences n)
  | (3, .varint n) => putSetting features "repeated_field_encoding" (nameOf? encodings n)
  | _ => features

def addFeatures (options : Entries) (bs : List UInt8) : Entries :=
  let before :=
    match options.get? "features" with
    | some (.mapping features) => features
    | _ => []
  options.put "features" (.mapping (collect addFeature before bs))

/-- The form of some options: the number of their features and of their switches. -/
structure OptionForm where
  features : Nat
  switches : List (Nat × String) := []

def addOption (form : OptionForm) (options : Entries) : Wire.Record → Entries
  | (number, .varint n) =>
    match nameOf? form.switches number with
    | some name => options.put name (.bool (n != 0))
    | none => options
  | (number, .block bs) => if number = form.features then addFeatures options bs else options
  | _ => options

def fileForm : OptionForm := { features := 50 }

def messageForm : OptionForm := { features := 12, switches := [(7, "map_entry")] }

def fieldForm : OptionForm := { features := 21, switches := [(2, "packed")] }

def fieldTypes : List (Nat × FieldType) :=
  [(1, .scalar .double), (2, .scalar .float), (3, .scalar .int64), (4, .scalar .uint64),
    (5, .scalar .int32), (6, .scalar .fixed64), (7, .scalar .fixed32), (8, .scalar .bool),
    (9, .scalar .string), (10, .group), (11, .message), (12, .scalar .bytes), (13, .scalar .uint32),
    (14, .enum), (15, .scalar .sfixed32), (16, .scalar .sfixed64), (17, .scalar .sint32),
    (18, .scalar .sint64)]

def labels : List (Nat × Label) := [(1, .optional), (2, .required), (3, .repeated)]

/-- What a number stands for in a list; a number that is not there changes nothing. -/
def known {α : Type} (table : List (Nat × α)) (n : Nat) (before : α) : α :=
  ((table.find? fun e => e.1 == n).map Prod.snd).getD before

def addField (f : Field) : Wire.Record → Field
  | (1, .block bs) => { f with name := text bs }
  | (3, .varint n) => { f with number := int32 n }
  | (4, .varint n) => { f with label := known labels n f.label }
  | (5, .varint n) => { f with type := known fieldTypes n f.type }
  | (6, .block bs) => { f with typeName := text bs }
  | (7, .block bs) => { f with default := some (text bs) }
  | (8, .block bs) => { f with options := collect (addOption fieldForm) f.options bs }
  | (9, .varint n) => { f with oneofIndex := some (int32 n) }
  | (10, .block bs) => { f with jsonName := text bs }
  | (17, .varint n) => { f with proto3Optional := n != 0 }
  | _ => f

def addEnumValue (v : String × Int) : Wire.Record → String × Int
  | (1, .block bs) => (text bs, v.2)
  | (2, .varint n) => (v.1, int32 n)
  | _ => v

def addEnum (e : Enum) : Wire.Record → Enum
  | (1, .block bs) => { e with name := text bs }
  | (2, .block bs) => { e with values := e.values ++ [collect addEnumValue ("", 0) bs] }
  | _ => e

def addOneof (name : String) : Wire.Record → String
  | (1, .block bs) => text bs
  | _ => name

/-- Add a record to a message whose inner messages are read as given. -/
def addMessage (inner : List UInt8 → Option Message) (m : Message) : Wire.Record → Message
  | (1, .block bs) => { m with name := text bs }
  | (2, .block bs) => { m with fields := m.fields ++ [collect addField {} bs] }
  | (3, .block bs) => { m with nested := m.nested ++ (inner bs).toList }
  | (4, .block bs) => { m with enums := m.enums ++ [collect addEnum {} bs] }
  | (7, .block bs) => { m with options := collect (addOption messageForm) m.options bs }
  | (8, .block bs) => { m with oneofs := m.oneofs ++ [collect addOneof "" bs] }
  | _ => m

/-- Read a message with at most `depth` levels of messages inside it. -/
def message : (depth : Nat) → List UInt8 → Message
  | 0 => collect (addMessage fun _ => none) {}
  | depth + 1 => collect (addMessage fun bs => some (message depth bs)) {}

def addFile (f : File) : Wire.Record → File
  | (1, .block bs) => { f with name := text bs }
  | (2, .block bs) => { f with package := text bs }
  | (3, .block bs) => { f with dependencies := f.dependencies ++ [text bs] }
  | (4, .block bs) => { f with messages := f.messages ++ [message Shape.maxDepth bs] }
  | (5, .block bs) => { f with enums := f.enums ++ [collect addEnum {} bs] }
  | (8, .block bs) => { f with options := collect (addOption fileForm) f.options bs }
  | (12, .block bs) => { f with dialect := text bs }
  | _ => f

def addSet (files : List File) : Wire.Record → List File
  | (1, .block bs) => files ++ [collect addFile {} bs]
  | _ => files

def addRequest (r : Request) : Wire.Record → Request
  | (1, .block bs) => { r with targets := r.targets ++ [text bs] }
  | (2, .block bs) => { r with parameter := text bs }
  | (15, .block bs) => { r with files := r.files ++ [collect addFile {} bs] }
  | _ => r

end Binary

/-- Read a serialized set of files. -/
def setOfBytes (bs : List UInt8) : Except Error (List File) :=
  if Shape.check Shape.maxDepth .set bs then .ok (Binary.collect Binary.addSet [] bs)
  else .error .malformedDescriptors

def Request.ofBytes (bs : List UInt8) : Except Error Request :=
  if Shape.check Shape.maxDepth .request bs then .ok (Binary.collect Binary.addRequest {} bs)
  else .error .malformedDescriptors

end MessageCodec.Descriptor
