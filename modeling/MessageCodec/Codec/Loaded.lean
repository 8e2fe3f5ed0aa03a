import MessageCodec.Codec.Decode
import MessageCodec.Codec.Encode
import MessageCodec.Source.Package

/-!
# Loaded packages

A generated package as it runs. The module of a message binds names from the top of its text to the end,
and of two bindings of one name the later counts. A function of another message is found through the name
that the module of that message was imported under, each time it is called. A package takes what its parts
are named after first for an attribute of its own, and only then for one of its files.

Names with two underscores at both ends mean something to packages and to those who load them. A message
with such a symbol may take the place of an attribute once it has been loaded, and so keep what comes after
it from being loaded at all; here it is only hidden from all others.

Messages are encoded and decoded by calls that nest as the messages do, and printing a value nests as its
brackets do. There is room for so many levels and no more.
-/

namespace MessageCodec

namespace Value

mutual

/-- How deep a value goes. What only a field is looked up in, or is handed over element by element, counts
unless the value is printed. -/
def depth (printed : Bool) : Value → Nat
  | list items | tuple items => depthOfItems printed items + 1
  | mapping entries => depthOfEntries printed entries + 1
  | stream items => if printed then 0 else depthOfItems printed items + 1
  | object attributes => if printed then 0 else depthOfEntries printed attributes + 1
  | _ => 0

def depthOfItems (printed : Bool) : List Value → Nat
  | [] => 0
  | v :: rest => max (depth printed v) (depthOfItems printed rest)

def depthOfEntries (printed : Bool) : List (String × Value) → Nat
  | [] => 0
  | e :: rest => max (depthOfEntry printed e) (depthOfEntries printed rest)

def depthOfEntry (printed : Bool) : String × Value → Nat
  | (_, v) => depth printed v

end

end Value

namespace Codec

/-- Values of the type are written as they are printed. -/
def ElementType.isPrinted : ElementType → Bool
  | scalar .string => true
  | _ => false

/-- The records of a field, with `child` for the encoder of a message and room for so many levels. -/
def Field.encodeBy (child : String → Value → Except Error (List UInt8)) (room : Nat) (f : Field) (w : Value) :
    Except Error (List UInt8) :=
  match f.type with
  | .element type =>
    if type.isPrinted && (f.itemsOf w).any (fun item => room < item.depth true) then .error .nestedTooDeep
    else encodeElements f type w
  | .message name => do
    let parts ← (f.itemsOf w).mapM fun item =>
      if item.isNull then .ok []
      else do
        let bytes ← child name item
        return record f.tag (Wire.delimited bytes)
    return parts.flatten

def encodeBy (child : String → Value → Except Error (List UInt8)) (room : Nat) (c : Codec) (v : Value) :
    Except Error (List UInt8) :=
  if v.isNull then .ok []
  else do
    let records ← c.fields.mapM fun f =>
      match v.field? f.keys with
      | none => .ok []
      | some w => f.encodeBy child room w
    let kept ← Wire.unknownOfValue v
    return records.flatten ++ kept

end Codec

/-- What a name of a message module stands for. -/
inductive Binding where
  | runtime
  /-- The module of a message, by its symbol. -/
  | message (symbol : String)
  /-- Something that the package has under the name of a module. -/
  | attribute
  | constant
  | function
deriving DecidableEq

namespace Source

/-- The names that every package has something under before one of its files is looked for. -/
def packageAttributes : List String :=
  ["__all__", "__annotations__", "__builtins__", "__cached__", "__class__", "__delattr__", "__dict__", "__dir__",
    "__doc__", "__eq__", "__file__", "__format__", "__ge__", "__getattribute__", "__getstate__", "__gt__", "__hash__",
    "__init__", "__init_subclass__", "__le__", "__loader__", "__lt__", "__name__", "__ne__", "__new__", "__package__",
    "__path__", "__reduce__", "__reduce_ex__", "__repr__", "__setattr__", "__sizeof__", "__spec__", "__str__",
    "__subclasshook__"]

/-- The names that the registry binds, and the package of the message modules below it. -/
def registryNames : List String :=
  ["namedtuple", "import_module", "MessageHandler", "_MESSAGES", "get_message_handlers", "messages"]

/-- The file of a module is where it is looked for. -/
def isPlaced (symbol : String) : Bool :=
  Naming.sanitizePath ("messages/" ++ symbol ++ ".py") = "messages/" ++ symbol ++ ".py"

/-- A text that is put into a comment stays there. -/
def fitsComment (s : String) : Bool := s.toList.all fun c => c != '\n' && c != '\r' && c != '\x00'

/-- A text that is put into a documentation string stays there. -/
def fitsDocstring (s : String) : Bool := fitsComment s && s.toList.all fun c => c != '"' && c != '\\'

/-- A comment at the top of a file that speaks of its encoding is followed, whatever it was meant for. -/
def namesEncoding (s : String) : Bool :=
  (List.range s.length).any fun n => ["coding:", "coding="].any fun word => word.toList.isPrefixOf (s.toList.drop n)

/-- The name that the module of another message is imported under. -/
def aliasOf (symbol : String) : String := "_m_" ++ symbol

namespace Emitter

/-- What the module binds, from the top of its text to the end, when it imports messages with some
symbols. -/
def bindings (e : Emitter) (imported : List String) : List (String × Binding) :=
  [("_pb", if (packageAttributes ++ registryNames).contains e.settings.runtimeModule then .attribute
      else .runtime)]
    ++ imported.map (fun s => (aliasOf s, if packageAttributes.contains s then .attribute else .message s))
    ++ [("FULL_NAME", .constant)]
    ++ (e.message.fields.flatMap e.constantNames).map (fun name => (name, .constant))
    ++ [(e.encodeName, .function), (e.decodeName, .function), ("__all__", .constant)]

/-- The names that are put into the text of the module as they are leave the rest of it as it is. Some of
those that do not may still give code, but not the code that was meant. -/
def isLegible (e : Emitter) : Bool :=
  [e.message.name, e.message.fullName].all fitsDocstring
    && e.message.fileName.all (fun s => fitsComment s && !namesEncoding s)
    && e.message.fields.all fun f => Text.isIdentifier (e.stem f) && fitsComment f.name
      && (typeName f).toOption.all fitsComment

/-- Load the module: its file has to be there, its text has to be code, and so have the files that it
imports to be there. -/
def load (e : Emitter) : Except Error (Table Binding) := do
  let imported ← e.imported
  if !isPlaced e.message.symbol then throw (.moduleMissing e.message.symbol)
  if !e.isLegible || !Text.isIdentifier e.message.symbol || !Text.isIdentifier e.settings.runtimeModule
      || (e.settings.runtimeModule :: imported).any Naming.isKeyword then
    throw (.moduleNotCode e.message.symbol)
  if !imported.all isPlaced then throw (.notImported e.message.symbol)
  return Table.ofPairs (e.bindings imported)

end Emitter

end Source

open Source

structure Package where
  codecs : Codecs
  /-- What the names of each module stand for, by the full name of its message. -/
  names : Table (Table Binding)

namespace Package

/-- Load all modules of the package of some plans. A runtime that is written over the registry leaves none to
ask for them. -/
def load (settings : Settings) (plans : List MessagePlan) : Except Error Package := do
  if settings.runtimeModule = "__init__" then throw .registryMissing
  let symbols := Table.ofPairs (plans.map fun m => (m.fullName, m.symbol))
  let names ← plans.mapM fun m => do
    let names ← ({ message := m, symbols, settings } : Emitter).load
    return (m.fullName, names)
  let codecs ← Codecs.ofPlans settings plans
  return ⟨codecs, names⟩

def binding? (p : Package) (c : Codec) (name : String) : Option Binding :=
  (p.names.get? c.fullName).bind fun names => names.get? name

/-- The functions of a message are run with the runtime at hand. -/
def enter (p : Package) (c : Codec) : Except Error Unit :=
  if p.binding? c "_pb" = some .runtime then .ok () else .error (.notAModule "_pb")

/-- Find the functions of a message that a message holds: in the same module, or in the one that was
imported. -/
def call (p : Package) (c : Codec) (name : String) : Except Error Codec := do
  let inner ← p.codecs.child name
  if inner.symbol = c.symbol || p.binding? c (aliasOf inner.symbol) = some (.message inner.symbol) then return inner
  else throw (.notAModule (aliasOf inner.symbol))

def encode (p : Package) : (room : Nat) → Codec → Value → Except Error (List UInt8)
  | 0, _, _ => .error .nestedTooDeep
  | room + 1, c, v => do
    p.enter c
    c.encodeBy (fun name item => do
      let inner ← p.call c name
      p.encode room inner item) room v

/-- The message that bytes stand for. Groups that are passed over nest as well; they are not counted. -/
def decode (p : Package) : (room : Nat) → Codec → List UInt8 → Except Error Value
  | 0, _, _ => .error .nestedTooDeep
  | room + 1, c, data => do
    p.enter c
    let gathered ← c.gatherBy (fun name payload => do
      let inner ← p.call c name
      p.decode room inner payload) {} data
    return Codec.finish p.codecs.fillDefaults c gathered

def encodeText (p : Package) (room : Nat) (c : Codec) (v : Value) : Except Error String := do
  let bytes ← p.encode room c v
  return Base64.encodeText bytes

def decodeValue (p : Package) (room : Nat) (c : Codec) (v : Value) : Except Error Value := do
  if room < v.depth true then throw .nestedTooDeep
  let data ← v.toEncoded
  p.decode room c data

end Package

end MessageCodec
