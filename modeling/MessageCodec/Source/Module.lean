import MessageCodec.Source.Field

/-!
# Message modules

The module of one message: its imports and constants, the function that encodes it and the function
that decodes it.
-/

namespace MessageCodec.Source

def header : String := "# Generated by proto2wire. DO NOT EDIT."

def unlines (lines : List String) : String := "\n".intercalate lines

def docstring (text : String) : String := "\"\"\"" ++ text ++ "\"\"\""

def textLiteral (s : String) : String := Text.quotedText s

def importLine (symbol : String) : String := "from . import " ++ symbol ++ " as _m_" ++ symbol

namespace Emitter

def encodeName (e : Emitter) : String := e.message.symbol ++ "Encode"

def decodeName (e : Emitter) : String := e.message.symbol ++ "Decode"

/-- The symbols of the other messages that the message holds, each once. -/
def imported (e : Emitter) : Except Error (List String) :=
  (e.message.fields.filter fun f => f.kind = .message).foldlM (fun children f => do
    let symbol ← e.childSymbol f
    return if symbol == e.message.symbol then children else Naming.insertNew symbol children) []

def importLines (e : Emitter) : Except Error (List String) := do
  let children ← e.imported
  return ("from .. import " ++ e.settings.runtimeModule ++ " as _pb") :: children.map importLine

def encodeFunction (e : Emitter) : Except Error (List String) := do
  let fields ← e.message.fields.mapM e.encodeLines
  return ["def " ++ e.encodeName ++ "(message):",
    "    " ++ docstring ("Encode a ``" ++ e.message.name ++ "`` dict or object into base64 wire bytes."),
    "",
    "    out = _pb.create_byte_buffer()",
    "    if message is None:",
    "        return _pb.to_base64(out)"]
    ++ indent 1 fields.flatten
    ++ ["    _pb.append_unknown_fields(out, message)", "    return _pb.to_base64(out)"]

def arms (e : Emitter) : Except Error (List String) := do
  match e.message.fields with
  | [] => return []
  | f :: rest =>
    let opening ← e.decodeLines f true
    let others ← rest.mapM fun g => e.decodeLines g false
    return opening ++ others.flatten

/-- The statements on a record that fits no arm. -/
def unknownLines : List String :=
  ["next_cursor = _pb.skip_field(data, cursor, wire_type, field_number)",
    "if next_cursor <= cursor:",
    "    break",
    "unknown.extend(data[start:next_cursor])",
    "cursor = next_cursor"]

/-- The statements on a record: the arms of the fields, and what is done where none fits. -/
def recordLines (arms : List String) : List String :=
  if arms.isEmpty then unknownLines else arms ++ "else:" :: indent 1 unknownLines

/-- The statements that fill in the defaults of all fields, where the settings ask for them. -/
def fillLines (e : Emitter) : Except Error (List (List String)) :=
  if e.settings.fillDefaults then e.message.fields.mapM e.defaultLines else .ok []

def decodeFunction (e : Emitter) : Except Error (List String) := do
  let arms ← e.arms
  let defaults ← e.fillLines
  return ["def " ++ e.decodeName ++ "(encoded):",
    "    " ++ docstring ("Decode base64 (or raw) wire bytes into a ``" ++ e.message.name ++ "`` dict."),
    "",
    "    data = _pb.from_base64(encoded)",
    "    message = \x7b\x7d",
    "    unknown = _pb.create_byte_buffer()",
    "    cursor = 0",
    "    limit = len(data)",
    "    while cursor < limit:",
    "        start = cursor",
    "        tag, cursor = _pb.read_varint32(data, cursor)",
    "        if tag is None or tag >> 3 == 0:",
    "            break",
    "        field_number = tag >> 3",
    "        wire_type = tag & 0x07"]
    ++ indent 2 (recordLines arms)
    ++ indent 1 defaults.flatten
    ++ ["    _pb.attach_unknown_fields(message, unknown)", "    return message"]

/-- The comment that names the file of a message. -/
def sourceLines (e : Emitter) : List String :=
  match e.message.fileName with
  | some name => if name.isEmpty then [] else ["# source: " ++ name]
  | none => []

def lines (e : Emitter) : Except Error (List String) := do
  let imports ← e.importLines
  let constants ← e.message.fields.mapM e.constantLines
  let encode ← e.encodeFunction
  let decode ← e.decodeFunction
  return [header] ++ e.sourceLines
    ++ [docstring ("Protobuf wire codec for ``" ++ e.message.fullName ++ "``."), ""]
    ++ imports
    ++ ["", "FULL_NAME = " ++ textLiteral e.message.fullName, ""]
    ++ constants.flatten
    ++ ["", ""]
    ++ encode
    ++ ["", ""]
    ++ decode
    ++ ["", "", "__all__ = [" ++ textLiteral e.encodeName ++ ", " ++ textLiteral e.decodeName ++ "]", ""]

def render (e : Emitter) : Except Error String := do return unlines (← e.lines)

end Emitter

end MessageCodec.Source
