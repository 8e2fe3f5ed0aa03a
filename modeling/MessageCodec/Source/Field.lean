import MessageCodec.Plan.Stem
import MessageCodec.Source.Element
import MessageCodec.Value.Literal

/-!
# Statements on fields

The lines of generated code that belong to one field: its constants, the statements that encode it, the
arms that decode it, and the statement that fills in its default.
-/

namespace MessageCodec.Source

/-- Indent lines by some levels; empty lines stay empty. -/
def indent (level : Nat) (lines : List String) : List String :=
  lines.map fun line => if line.isEmpty then line else String.ofList (List.replicate (4 * level) ' ') ++ line

def decimal (n : Int) : String := String.ofList (Numeral.ofInt n)

/-- A number of the schema in source text, within the digit limit. -/
def schemaNumber (n : Int) : Except Error String :=
  match IntegerText.write? n with
  | some digits => .ok (String.ofList digits)
  | none => .error .integerTooLong

/-- A message whose code is generated: its plan, the symbols of the messages it may hold, and the
settings. -/
structure Emitter where
  message : MessagePlan
  symbols : Table String
  settings : Settings := {}

namespace Emitter

def stem (e : Emitter) (f : FieldPlan) : String := e.message.stemOf f.number

def outputKeys (e : Emitter) (f : FieldPlan) : List String := f.outputKeys e.settings.decodeCase

def keysLiteral (keys : List String) : Except Error String :=
  (Value.tuple (keys.map Value.text)).sourceLiteral

/-- What stands before and behind a stem in the names of constants. -/
def affixes : List (String × String) :=
  [("_KEYS_", ""), ("_OUT_", ""), ("_ENUM_", "_BY_NAME"), ("_ENUM_", "_BY_NUMBER"), ("_ENUM_", "_DEFAULT")]

def constantNames (e : Emitter) (f : FieldPlan) : List String :=
  (if f.enum.isSome then affixes else affixes.take 2).map fun a => a.1 ++ e.stem f ++ a.2

def constantLines (e : Emitter) (f : FieldPlan) : Except Error (List String) := do
  let stem := e.stem f
  let keys := "_KEYS_" ++ stem ++ " = " ++ (← keysLiteral f.lookupKeys)
  let out := "_OUT_" ++ stem ++ " = " ++ (← keysLiteral (e.outputKeys f))
  match f.enum with
  | none => return [keys, out]
  | some t =>
    let byName ← (Value.mapping (t.byName.map fun (p : String × Int) => (p.1, .int p.2))).sourceLiteral
    let byNumber ←
      (Value.mapping (t.byNumber.map fun (p : String × String) => (p.1, .text p.2))).sourceLiteral
    let zero ← ((t.defaultName.map Value.text).getD .null).sourceLiteral
    return [keys, out, "_ENUM_" ++ stem ++ "_BY_NAME = " ++ byName,
      "_ENUM_" ++ stem ++ "_BY_NUMBER = " ++ byNumber, "_ENUM_" ++ stem ++ "_DEFAULT = " ++ zero]

def childSymbol (e : Emitter) (f : FieldPlan) : Except Error String :=
  match f.child.bind e.symbols.get? with
  | some symbol => .ok symbol
  | none => .error (.unknownMessage f.child)

/-- The function of a child message; functions of another message are found in its module. -/
def childFunction (e : Emitter) (f : FieldPlan) (suffix : String) : Except Error String := do
  let symbol ← e.childSymbol f
  return if symbol == e.message.symbol then symbol ++ suffix
    else "_m_" ++ symbol ++ "." ++ symbol ++ suffix

def typeName (f : FieldPlan) : Except Error String :=
  match f.kind with
  | .message => .ok (f.child.getD "None")
  | .enum =>
    match f.enum with
    | some t => .ok t.fullName
    | none => .error .enumMissing
  | _ => .ok (f.scalar.getD "None")

/-- What a field holds, for a comment. -/
def describe (f : FieldPlan) : Except Error String := do
  let kind ← typeName f
  return if f.repeated then "repeated " ++ kind ++ ", " ++ (if f.packed then "packed" else "unpacked")
    else kind

def writeTag (tag : Int) : Except Error String := do
  let digits ← schemaNumber tag
  return "_pb.write_varint32(out, " ++ digits ++ ")"

def writeMessage (e : Emitter) (f : FieldPlan) (expression : String) : Except Error String := do
  let encode ← e.childFunction f "Encode"
  return "_pb.write_length_delimited(out, _pb.from_base64(" ++ encode ++ "(" ++ expression ++ ")))"

/-- The statements that encode the one value of a field. -/
def encodeSingle (e : Emitter) (f : FieldPlan) : Except Error (List String) := do
  if f.kind = .message then
    return [← writeTag (← f.tag), ← e.writeMessage f "value"]
  let source ← ofField (e.stem f) f
  let write := [← writeTag (← f.tag), source.writer ++ "(out, value)"]
  let coerced := "value = " ++ source.coerce "value"
  return if f.presence then coerced :: write
    else coerced :: ("if " ++ source.nonDefault "value" ++ ":") :: indent 1 write

def encodeUnpacked (e : Emitter) (f : FieldPlan) : Except Error (List String) := do
  let body ←
    if f.kind = .message then do
      pure ["if item is None:", "    continue", ← writeTag (← f.tag), ← e.writeMessage f "item"]
    else do
      let source ← ofField (e.stem f) f
      pure [← writeTag (← f.tag), source.writer ++ "(out, " ++ source.coerce "item" ++ ")"]
  return "for item in _pb.iter_repeated(value):" :: indent 1 body

def encodePacked (e : Emitter) (f : FieldPlan) : Except Error (List String) := do
  let source ← ofField (e.stem f) f
  let tag ← writeTag f.packedTag
  return ["packed = _pb.create_byte_buffer()",
    "for item in _pb.iter_repeated(value):",
    "    " ++ source.writer ++ "(packed, " ++ source.coerce "item" ++ ")",
    "if packed:",
    "    " ++ tag,
    "    _pb.write_length_delimited(out, packed)"]

def encodeLines (e : Emitter) (f : FieldPlan) : Except Error (List String) := do
  let head := ["# " ++ (← schemaNumber f.number) ++ ": " ++ f.name ++ " (" ++ (← describe f) ++ ")",
    "value = _pb.resolve_field_value(_KEYS_" ++ e.stem f ++ ", message)",
    "if value is not None:"]
  let body ←
    if f.repeated && f.packed then e.encodePacked f
    else if f.repeated then e.encodeUnpacked f
    else e.encodeSingle f
  return head ++ indent 1 body

def decodeSingle (e : Emitter) (f : FieldPlan) : Except Error (List String) := do
  let (reader, converted) ←
    if f.kind = .message then do
      pure ("_pb.read_length_delimited", (← e.childFunction f "Decode") ++ "(raw)")
    else do
      let source ← ofField (e.stem f) f
      pure (source.reader, (source.convert.getD id) "raw")
  let store :=
    if f.repeated then "_pb.append_field_value(_OUT_" ++ e.stem f ++ ", message, [" ++ converted ++ "])"
    else "_pb.assign_field_value(_OUT_" ++ e.stem f ++ ", message, " ++ converted ++ ")"
  return ["raw, cursor = " ++ reader ++ "(data, cursor)", "if raw is None:", "    break", store]

/-- The list of values that share a payload. -/
def packedValues (source : ElementSource) : String :=
  let values := "_pb.read_packed(payload, " ++ source.reader ++ ")"
  match source.convert with
  | none => values
  | some convert => "[" ++ convert "raw" ++ " for raw in " ++ values ++ "]"

def decodePacked (e : Emitter) (f : FieldPlan) : Except Error (List String) := do
  let source ← ofField (e.stem f) f
  return ["payload, cursor = _pb.read_length_delimited(data, cursor)", "if payload is None:", "    break",
    "_pb.append_field_value(_OUT_" ++ e.stem f ++ ", message, " ++ packedValues source ++ ")"]

def armLine (keyword : String) (number : Int) (type : Wire.WireType) : Except Error String := do
  let digits ← schemaNumber number
  return keyword ++ " field_number == " ++ digits ++ " and wire_type == " ++ decimal type.code ++ ":"

/-- The arm for values that share a record, where the field may have some. -/
def packedArm (e : Emitter) (f : FieldPlan) (keyword : String) : Except Error (List String) :=
  if f.repeated && f.isPackable then do
    let arm ← armLine keyword f.number .delimited
    let body ← e.decodePacked f
    return arm :: indent 1 body
  else .ok []

/-- The arms that decode a field; the first arm of a message opens the chain. -/
def decodeLines (e : Emitter) (f : FieldPlan) (first : Bool) : Except Error (List String) := do
  let opening := if first then "if" else "elif"
  let packed ← e.packedArm f opening
  let keyword := if packed.isEmpty then opening else "elif"
  let type ← f.wireType
  let arm ← armLine keyword f.number type
  let body ← e.decodeSingle f
  return packed ++ arm :: indent 1 body

/-- The statement that fills in the default of a field that was absent. A field with presence stays
absent. -/
def defaultLines (e : Emitter) (f : FieldPlan) : Except Error (List String) := do
  if !f.repeated && (f.presence || f.kind = .message) then return []
  let default ← (if f.repeated then Value.list [] else f.default).sourceLiteral
  return ["_pb.fill_default(_OUT_" ++ e.stem f ++ ", message, " ++ default ++ ")"]

end Emitter

end MessageCodec.Source
