import MessageCodec.Error
import MessageCodec.Journal
import MessageCodec.Schema.Basic
import MessageCodec.Schema.Descriptor

/-!
# Loading descriptors

A registry takes in the files of a request one after the other, notes every type under its full name
and every reference to a type, and resolves the references when all files are in. A type may thus be
used before it is declared and in any file. What a registry has taken in stays there also when loading
fails.
-/

namespace MessageCodec.Schema

/-- What has been taken in so far. -/
structure Registry where
  request : Descriptor.Request
  /-- The files by name. -/
  files : Table File := []
  /-- The types by full name; the last of a name counts. -/
  types : Table Reference := []
  /-- The type names to resolve, each with the place that mentions it. -/
  pending : List (String × String) := []
  /-- The messages that stand for the entries of a map. -/
  mapEntries : List String := []
  /-- All files are in and all references are resolved. -/
  complete : Bool := false
  /-- The number of the next message. -/
  nextId : Nat := 0
  journal : Journal := []

/-- Work on a registry; it keeps what was done before a failure. -/
abbrev Load := ExceptT Error (StateM Registry)

namespace Load

/-- The full name of a declaration: package, messages around it and its own name, without empty parts. -/
def qualify (package : String) (parents : List String) (name : String) : String :=
  ".".intercalate (((package :: parents) ++ [name]).filter fun s => !s.isEmpty)

/-- A type name without the leading point that marks it as complete. -/
def bareName (typeName : String) : String :=
  match typeName.toList with
  | '.' :: rest => String.ofList rest
  | _ => typeName

def nonempty (s : String) : Option String := if s.isEmpty then none else some s

def enum (package : String) (parents : List String) (d : Descriptor.Enum) : Load Enum := do
  let fullName := qualify package parents d.name
  let type : Enum := ⟨d.name, fullName, d.values, .mapping d.options⟩
  modify fun r => { r with types := r.types.put fullName (.enum type) }
  return type

/-- The kind of a field, its scalar type and the type it names. -/
def classify (d : Descriptor.Field) : FieldKind × Option String × Option String :=
  match d.type with
  | .scalar type => (.scalar, some type.name, none)
  | .enum => (.enum, none, nonempty (bareName d.typeName))
  | .message => (.message, none, nonempty (bareName d.typeName))
  | .group => (.group, none, nonempty (bareName d.typeName))

def cardinality : Descriptor.Label → Cardinality
  | .optional => .optional
  | .required => .required
  | .repeated => .repeated

/-- The place of a oneof index in a list; a negative one counts from the end. -/
def oneofPlace? (count : Nat) (index : Int) : Option Nat :=
  if 0 ≤ index then (if index < count then some index.toNat else none)
  else if 0 ≤ index + count then some (index + count).toNat
  else none

def oneofOf (file fullName : String) (oneofs : List String) (d : Descriptor.Field) :
    Except Error (Option String) :=
  match d.oneofIndex with
  | none => .ok none
  | some index =>
    if index ≥ oneofs.length then .error (.missingOneof file (fullName ++ "." ++ d.name) index)
    else
      match (oneofPlace? oneofs.length index).bind fun i => oneofs[i]? with
      | some name => .ok (some name)
      | none => .error .oneofIndex

/-- Note the type that a field refers to, if it is a message or an enum. -/
def refer (place : String) (kind : FieldKind) (typeName : Option String) : Load Unit :=
  match typeName with
  | some name =>
    if kind = .message || kind = .enum then
      modify fun r => { r with pending := r.pending ++ [(name, place)] }
    else return ()
  | none => return ()

/-- Take in a field of a message. A repeated field of a type known to hold map entries is a map. -/
def field (file fullName : String) (oneofs : List String) (d : Descriptor.Field) : Load Field := do
  let (kind, scalar, typeName) := classify d
  let r ← get
  let isMap := kind = .message && d.label = .repeated && r.mapEntries.contains (typeName.getD "")
  let kind := if isMap then FieldKind.map else kind
  let oneof ← (oneofOf file fullName oneofs d : Except Error _)
  refer (file ++ ": " ++ fullName ++ "." ++ d.name) kind typeName
  return {
    name := d.name
    number := d.number
    cardinality := cardinality d.label
    kind, scalar, typeName, oneof
    default := d.default
    jsonName := nonempty d.jsonName
    oneofIndex := d.oneofIndex
    proto3Optional := d.proto3Optional
    packed := Descriptor.switch? d.options "packed"
    options := .mapping d.options }

def oneofsOf (fullName : String) (names : List String) (fields : List Field) : List Oneof :=
  names.mapIdx fun i name =>
    let members := fields.filter fun f => (f.oneofIndex.bind (oneofPlace? names.length)) = some i
    ⟨name, fullName ++ "." ++ name, members.map Field.name⟩

mutual

/-- Take in a message: itself, the messages and enums inside it, and its fields. -/
def message (file package : String) (parents : List String) (d : Descriptor.Message) : Load Message :=
  match d with
  | ⟨name, fields, nested, enums, oneofs, options⟩ => do
    let fullName := qualify package parents name
    let id := (← get).nextId
    modify fun r => { r with
      nextId := id + 1
      types := r.types.put fullName (.message id fullName) }
    let parents := parents ++ [name]
    let nested ← messagesIn file package parents nested
    let enums ← enums.mapM (enum package parents)
    let fields ← fields.mapM (field file fullName oneofs)
    return {
      id, name, fullName, fields, nested, enums
      oneofs := oneofsOf fullName oneofs fields
      options := .mapping options
      mapEntry := Descriptor.isSet options "map_entry" }

/-- Take in the messages inside a message. Of one that holds map entries only the name is noted. -/
def messagesIn (file package : String) (parents : List String) :
    List Descriptor.Message → Load (List Message)
  | [] => return []
  | d :: rest => do
    if d.isMapEntry then
      modify fun r => { r with mapEntries := qualify package parents d.name :: r.mapEntries }
      messagesIn file package parents rest
    else
      let m ← message file package parents d
      let more ← messagesIn file package parents rest
      return m :: more

end

/-- The dialect of a file; a file that names none is written in the oldest. -/
def dialectOf (d : Descriptor.File) : Except Error Dialect :=
  if d.dialect.isEmpty then .ok .proto2
  else
    match Dialect.ofName? d.dialect with
    | some dialect => .ok dialect
    | none => .error (.unsupportedSyntax d.name d.dialect)

def declarations (d : Descriptor.File) : Load File := do
  let dialect ← (dialectOf d : Except Error _)
  let enums ← d.enums.mapM (enum d.package [])
  let messages ← d.messages.mapM (message d.name d.package [])
  return {
    name := d.name
    package := nonempty d.package
    dialect
    dependencies := d.dependencies
    messages, enums
    options := .mapping d.options }

/-- Take in a file whose dependencies are all part of the request. -/
def file (known : List String) (d : Descriptor.File) : Load Unit := do
  if let some missing := d.dependencies.find? fun name => !known.contains name then
    throw (.unresolvedDependency missing d.name)
  let f ← declarations d
  modify fun r => { r with
    files := r.files.put d.name f
    journal := r.journal ++ [⟨.debug, "Loaded " ++ d.name ++ " (" ++ f.dialect.name ++ ")"⟩] }

end Load

def Field.link (types : Table Reference) (f : Field) : Field :=
  if f.kind = .message || f.kind = .enum then { f with resolved := f.typeName.bind types.get? } else f

mutual

def Message.link (types : Table Reference) (m : Message) : Message :=
  match m with
  | ⟨id, name, fullName, fields, nested, enums, oneofs, options, mapEntry⟩ =>
    ⟨id, name, fullName, fields.map (Field.link types), linkIn types nested, enums, oneofs, options,
      mapEntry⟩

def linkIn (types : Table Reference) : List Message → List Message
  | [] => []
  | m :: rest => m.link types :: linkIn types rest

end

def File.link (types : Table Reference) (f : File) : File :=
  { f with messages := linkIn types f.messages }

namespace Registry

def new (request : Descriptor.Request) : Registry := { request }

/-- Resolve every reference, once all files are in. -/
def resolve : Load Unit := do
  let r ← get
  if let some (typeName, place) := r.pending.find? fun p => (r.types.get? p.1).isNone then
    throw (.unresolvedType typeName place)
  set { r with files := r.files.map fun (e : String × File) => (e.1, e.2.link r.types), complete := true }

/-- Take in all the files of the request unless that is done. -/
def ensure : Load Unit := do
  let r ← get
  if !r.complete then
    r.request.files.forM (Load.file (r.request.files.map Descriptor.File.name))
    resolve

def allFiles : Load (Table File) := do
  ensure
  return (← get).files

def select (names : List String) : Load (Table File) := do
  let files ← allFiles
  let missing := names.filter fun name => !files.has name
  if missing.isEmpty then
    return names.foldl (fun table name =>
      match files.get? name with
      | some f => table.put name f
      | none => table) []
  else throw (.filesNotInRequest (missing.mergeSort fun a b => a ≤ b))

def file (name : String) : Load File := do
  let files ← allFiles
  match files.get? name with
  | some f => return f
  | none => throw (.fileNotInRequest name)

end Registry

end MessageCodec.Schema
