import MessageCodec.Text.Case
import MessageCodec.Text.Identifier
import MessageCodec.Workspace

/-!
# Settings

The options of a generation run. They come from one parameter string of `key=value` entries, in which
the last of equal keys wins; lists of identifiers may also come from files, one entry a line.
-/

namespace MessageCodec

/-- Which keys a decoder assigns. -/
inductive DecodeCase where
  | snake
  | camel
  | both
deriving DecidableEq

namespace DecodeCase

def name : DecodeCase → String
  | snake => "snake"
  | camel => "camel"
  | both => "both"

/-- Read a choice in any case and with surrounding blanks. -/
def parse (s : String) : Except Error DecodeCase :=
  match Text.lowerText (Text.trimText s) with
  | "snake" | "snake_case" => .ok snake
  | "camel" | "camelcase" | "camel_case" => .ok camel
  | "both" => .ok both
  | _ => .error (.decodeCase s)

end DecodeCase

structure Settings where
  decodeCase : DecodeCase := .snake
  fillDefaults : Bool := true
  packageInNames : Bool := false
  reserved : List String := ["MessageHandler"]
  renames : Table String := []
  runtimeModule : String := "_pb_runtime"
  namingConfig : Option String := none

namespace Settings

/-- The entries of a parameter string: pieces between commas and semicolons. A piece without an equals
sign switches its key on. -/
def entries (parameter : String) : Table String :=
  let pieces := (Text.cutAt (fun c => c == ',' || c == ';') parameter.toList).map fun cs =>
    String.ofList (Text.trim cs)
  pieces.foldl (fun table piece =>
    if piece.isEmpty then table
    else
      match Text.splitFirst? '=' piece with
      | some (key, v) => Table.put table (Text.lowerText (Text.trimText key)) (Text.trimText v)
      | none => Table.put table (Text.lowerText piece) "true") []

def truthWord? (s : String) : Option Bool :=
  let word := Text.lowerText (Text.trimText s)
  if ["true", "1", "yes", "on"].contains word then some true
  else if ["false", "0", "no", "off"].contains word then some false
  else none

/-- The truth value that a value stands for. -/
def truth? : Value → Option Bool
  | .bool b => some b
  | .text s => truthWord? s
  | .int n => some (n != 0)
  | .float x => some !x.isZero
  | _ => none

/-- The entries of a list: non-empty pieces between commas, semicolons and bars. -/
def tokens (s : String) : List String :=
  let pieces := (Text.cutAt (fun c => c == ',' || c == ';' || c == '|') s.toList).map fun cs =>
    String.ofList (Text.trim cs)
  pieces.filter fun p => !p.isEmpty

/-- The entries of a list file: its lines, without blank ones and comments. -/
def linesOfFile (w : Workspace) (path : String) : Except Error (List String) :=
  if path.isEmpty then .ok []
  else do
    let path ← w.expand (Path.ofString path)
    let cs ← w.readText path.toString
    let lines := (Text.lines cs).map Text.trim
    return (lines.filter fun l => !l.isEmpty && l.head? != some '#').map String.ofList

def rename (entry : String) : Except Error (String × String) :=
  match Text.splitFirst? ':' entry with
  | none => .error .renameWithoutColon
  | some (fullName, symbol) =>
    let fullName := Text.trimText fullName
    let symbol := Text.trimText symbol
    if fullName.isEmpty || symbol.isEmpty then .error .renameIncomplete
    else if !Text.isIdentifier symbol then .error (.renameNotIdentifier symbol)
    else .ok (fullName, symbol)

/-- Read the entries that rename types; empty ones do not count. -/
def renamesOf (entries : List String) : Except Error (Table String) :=
  (entries.filter fun e => !e.isEmpty).foldlM (fun table e => do
    let (fullName, symbol) ← rename e
    return Table.put table fullName symbol) []

/-- The value of a key that is given and not empty. -/
def given? (table : Table String) (key : String) : Option String :=
  (table.get? key).filter fun s => !s.isEmpty

def switch? (table : Table String) (key : String) : Option Bool :=
  (table.get? key).bind fun s => truth? (.text s)

def fileEntries (w : Workspace) (table : Table String) (key : String) :
    Except Error (List String) :=
  match given? table key with
  | some path => linesOfFile w path
  | none => .ok []

def decodeCaseOf (table : Table String) : Except Error DecodeCase :=
  match given? table "decode_case" with
  | some s => DecodeCase.parse s
  | none => .ok .snake

def ofEntries (w : Workspace) (table : Table String) : Except Error Settings := do
  let decodeCase ← decodeCaseOf table
  let base :=
    match given? table "reserved_identifiers" with
    | some s => tokens s
    | none => ["MessageHandler"]
  let extra := ((given? table "extra_reserved_identifiers").map tokens).getD []
  let listed ← fileEntries w table "reserved_identifiers_file"
  let renamed := ((given? table "rename_overrides").map tokens).getD []
  let renamedListed ← fileEntries w table "rename_overrides_file"
  let renames ← renamesOf (renamed ++ renamedListed)
  let runtimeModule := (given? table "runtime_module").getD "_pb_runtime"
  if !Text.isIdentifier runtimeModule then throw (.runtimeModule runtimeModule)
  return {
    decodeCase
    fillDefaults := (switch? table "fill_defaults").getD true
    packageInNames := (switch? table "include_package_in_names").getD false
    reserved := (base ++ extra ++ listed).foldl (fun set s => Naming.insertNew s set) []
    renames
    runtimeModule
    namingConfig := given? table "naming_config" }

def ofParameter (w : Workspace) (parameter : String) : Except Error Settings :=
  ofEntries w (entries parameter)

end Settings

end MessageCodec
