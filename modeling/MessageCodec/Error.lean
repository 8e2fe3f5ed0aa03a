import MessageCodec.Number.Numeral
import MessageCodec.Text.Hex
import MessageCodec.Text.Quoted
import MessageCodec.Text.Utf8

/-!
# Errors

Every cause of failure in the library, the kind it belongs to, and its wording.
-/

namespace MessageCodec

/-- The kinds of failure that a caller can tell apart. -/
inductive ErrorKind where
  /-- The schema does not hold together. -/
  | schema
  /-- A setting or a number has no acceptable meaning. -/
  | value
  /-- A configuration entry has the wrong shape. -/
  | shape
  /-- A name is not known where it is looked up. -/
  | key
  /-- A division has no positive divisor. -/
  | division
  /-- A list index is out of range. -/
  | index
  /-- A value lacks the operation asked of it. -/
  | operation
  /-- A number does not fit a fixed-width word. -/
  | word
  /-- A file does not exist. -/
  | missingFile
  /-- A directory stands where a file is to be read. -/
  | directory
  /-- A file stands where a path goes on below it. -/
  | notDirectory
  /-- A file may not be opened. -/
  | denied
  /-- The system refuses a path for another reason. -/
  | system
  /-- A user has no home directory. -/
  | home
  /-- A text is not JSON. -/
  | json
  /-- Bytes or escapes are not text. -/
  | textDecoding
  /-- A text has no bytes in the target encoding. -/
  | textEncoding
  /-- A text of an answer has no bytes when the answer is filled in, after all reporting. -/
  | unwritable
  /-- Bytes are not a serialized message. -/
  | serialized
  /-- Calls nest deeper than is allowed. -/
  | nesting
  /-- Code cannot be read. -/
  | code
  /-- A module has no file. -/
  | missingModule
  /-- A name cannot be imported. -/
  | importing
deriving DecidableEq

/-- The kind counts as an error of the input, which a run reports and does not pass on. -/
def ErrorKind.isReported : ErrorKind → Bool
  | .schema | .value | .shape | .json | .textDecoding | .textEncoding => true
  | _ => false

inductive EscapeError where
  /-- An escape is cut off or has no meaning. -/
  | escape (codec : String) (start last : Nat) (reason : String)
  /-- A character has no byte. -/
  | character (codec : String) (c : Nat) (position : Nat) (reason : String)
  /-- Several characters in a row have no byte. -/
  | characters (codec : String) (start last : Nat) (reason : String)

abbrev Unescaping := String → Except EscapeError (List UInt8)

inductive ReadFault where
  | missing
  | isDirectory
  /-- A component of the path other than the last is a file. -/
  | notDirectory
  | denied
  | nameTooLong
  /-- Any other refusal, with the number and the words of the system. -/
  | other (code : Nat) (reason : String)

structure JsonFault where
  reason : String
  line : Nat
  column : Nat
  position : Nat

inductive Error where
  /-- A digit text is longer than is ever converted to an integer. -/
  | numeralTooLong (digits : Nat)
  /-- An integer is longer than is ever converted to text. -/
  | integerTooLong
  /-- A digit has no character. -/
  | noSuchCharacter
  /-- A division by zero or less. -/
  | divisorNotPositive
  /-- An integer beyond a signed 32-bit word. -/
  | wordRange
  /-- Elements are appended to a value that is no list. -/
  | notAList (key : String)
  /-- A symbol chosen by hand is taken or is no identifier. -/
  | overrideConflict (symbol fullName : String)
  /-- A symbol chosen by hand holds half of a surrogate pair, so that it is no identifier and the words for
  this cannot be written. -/
  | tornOverride (symbol fullName : String)
  /-- A text of an answer holds half of a surrogate pair. -/
  | tornText
  /-- A type has no symbol yet. -/
  | notRegistered (fullName : String)
  | reservedNotSequence
  | reservedNotText
  | overridesNotMapping
  | overrideNotText
  /-- The naming rules are not a mapping. -/
  | rulesNotMapping
  | malformedJson (fault : JsonFault)
  | unreadable (path : String) (fault : ReadFault)
  | noHome (user : String)
  /-- No path has a null character in it. -/
  | nullInPath
  | notUtf8 (fault : Utf8.Fault)
  | decodeCase (given : String)
  | renameWithoutColon
  | renameIncomplete
  | renameNotIdentifier (symbol : String)
  | runtimeModule (name : String)
  | emptyIdentifier
  | fileNotInRequest (name : String)
  | filesNotInRequest (names : List String)
  | unresolvedDependency (dependency file : String)
  | unsupportedSyntax (file given : String)
  | missingOneof (file field : String) (index : Int)
  /-- A negative oneof index counts from the end and reaches before the first. -/
  | oneofIndex
  | unresolvedType (typeName location : String)
  | messageNotLoaded (fullName referrer : String)
  | notSelected (fullName : String)
  | badEscape (cause : EscapeError)
  | unknownScalar (name : Option String)
  | unknownMessage (fullName : Option String)
  | enumMissing
  | unknownHandler (name : String)
  | unreadableSet (path : String) (fault : ReadFault)
  | compilerMissing (program : String)
  | compilerFailed (status : Int) (report : String)
  | malformedDescriptors
  | nestedTooDeep
  /-- A name of a module stands for something else than the module that was imported under it. -/
  | notAModule (name : String)
  /-- The text of a module cannot be read as code. -/
  | moduleNotCode (symbol : String)
  | moduleMissing (symbol : String)
  /-- A module imports another whose file is missing. -/
  | notImported (symbol : String)
  /-- The runtime of a package is written over its registry. -/
  | registryMissing

namespace Error

def kind : Error → ErrorKind
  | numeralTooLong _ | integerTooLong | noSuchCharacter | overrideConflict .. | tornOverride .. | decodeCase _
  | renameWithoutColon | renameIncomplete | renameNotIdentifier _ | runtimeModule _ | nullInPath => .value
  | divisorNotPositive => .division
  | wordRange => .word
  | notAList _ | rulesNotMapping | enumMissing | notAModule _ | registryMissing => .operation
  | notRegistered _ | notSelected _ | unknownScalar _ | unknownMessage _ | unknownHandler _ => .key
  | reservedNotSequence | reservedNotText | overridesNotMapping | overrideNotText => .shape
  | malformedJson _ => .json
  | unreadable _ .missing => .missingFile
  | unreadable _ .isDirectory => .directory
  | unreadable _ .notDirectory => .notDirectory
  | unreadable _ .denied => .denied
  | unreadable _ .nameTooLong | unreadable _ (.other ..) => .system
  | noHome _ => .home
  | tornText => .unwritable
  | notUtf8 _ => .textDecoding
  | fileNotInRequest _ | filesNotInRequest _ | unresolvedDependency .. | unsupportedSyntax ..
  | missingOneof .. | unresolvedType .. | messageNotLoaded .. | unreadableSet .. | compilerMissing _
  | compilerFailed .. => .schema
  | oneofIndex | emptyIdentifier => .index
  | badEscape (.escape ..) => .textDecoding
  | badEscape _ => .textEncoding
  | malformedDescriptors => .serialized
  | nestedTooDeep => .nesting
  | moduleNotCode _ => .code
  | moduleMissing _ => .missingModule
  | notImported _ => .importing

private def decimal (n : Int) : String := String.ofList (Numeral.ofInt n)

private def hexByte (n : Nat) : String := String.ofList (Text.hexDigits 2 n)

/-- The wording of a place in undecodable bytes. -/
private def undecodable (codec : String) (start size firstByte : Nat) (reason : String) : String :=
  if size ≤ 1 then
    "'" ++ codec ++ "' codec can't decode byte 0x" ++ hexByte firstByte ++ " in position "
      ++ decimal start ++ ": " ++ reason
  else
    "'" ++ codec ++ "' codec can't decode bytes in position " ++ decimal start ++ "-"
      ++ decimal (start + size - 1) ++ ": " ++ reason

private def utf8Reason : Utf8.Malformed → String
  | .startByte => "invalid start byte"
  | .continuation => "invalid continuation byte"
  | .endOfData => "unexpected end of data"

private def characterName (n : Nat) : String :=
  if n < 0x100 then "\\x" ++ String.ofList (Text.hexDigits 2 n)
  else if n < 0x10000 then "\\u" ++ String.ofList (Text.hexDigits 4 n)
  else "\\U" ++ String.ofList (Text.hexDigits 8 n)

private def escapeMessage : EscapeError → String
  | .escape codec start last reason =>
    if start = last then
      "'" ++ codec ++ "' codec can't decode byte 0x5c in position " ++ decimal start ++ ": " ++ reason
    else
      "'" ++ codec ++ "' codec can't decode bytes in position " ++ decimal start ++ "-" ++ decimal last
        ++ ": " ++ reason
  | .character codec c position reason =>
    "'" ++ codec ++ "' codec can't encode character '" ++ characterName c ++ "' in position "
      ++ decimal position ++ ": " ++ reason
  | .characters codec start last reason =>
    "'" ++ codec ++ "' codec can't encode characters in position " ++ decimal start ++ "-"
      ++ decimal last ++ ": " ++ reason

private def faultMessage : ReadFault → String
  | .missing => "[Errno 2] No such file or directory"
  | .isDirectory => "[Errno 21] Is a directory"
  | .notDirectory => "[Errno 20] Not a directory"
  | .denied => "[Errno 13] Permission denied"
  | .nameTooLong => "[Errno 36] File name too long"
  | .other code reason => "[Errno " ++ decimal code ++ "] " ++ reason

def message : Error → String
  | numeralTooLong digits =>
    "Exceeds the limit (4300 digits) for integer string conversion: value has " ++ decimal digits
      ++ " digits; use sys.set_int_max_str_digits() to increase the limit"
  | integerTooLong =>
    "Exceeds the limit (4300 digits) for integer string conversion; "
      ++ "use sys.set_int_max_str_digits() to increase the limit"
  | noSuchCharacter => "chr() arg not in range(0x110000)"
  | divisorNotPositive => "decimal_divmod requires a positive divisor"
  | wordRange => "integer out of range for a 32-bit word"
  | notAList key => "the value under '" ++ key ++ "' is not a list"
  | overrideConflict symbol fullName | tornOverride symbol fullName =>
    "Override '" ++ symbol ++ "' for type '" ++ fullName ++ "' conflicts with an existing symbol"
  | notRegistered fullName => "Type '" ++ fullName ++ "' has not been registered"
  | reservedNotSequence => "'reserved_symbols' must be a sequence of strings"
  | reservedNotText => "Reserved symbol entries must be strings"
  | overridesNotMapping => "'overrides' must be a mapping of proto names to symbols"
  | overrideNotText => "Override keys and values must be strings"
  | rulesNotMapping => "the naming rules are not a mapping"
  | malformedJson fault =>
    fault.reason ++ ": line " ++ decimal fault.line ++ " column " ++ decimal fault.column ++ " (char "
      ++ decimal fault.position ++ ")"
  | unreadable path fault => faultMessage fault ++ ": " ++ Text.quotedText path
  | noHome _ => "Could not determine home directory."
  | tornText => "surrogates not allowed"
  | nullInPath => "embedded null byte"
  | notUtf8 fault =>
    undecodable "utf-8" fault.start fault.size fault.firstByte.toNat (utf8Reason fault.reason)
  | decodeCase given => "decode_case must be one of snake, camel, both, got '" ++ given ++ "'"
  | renameWithoutColon => "Rename override entries must use the form 'full.proto.Name:Symbol'"
  | renameIncomplete => "Rename override entries must include both a proto name and a symbol"
  | renameNotIdentifier symbol =>
    "Rename override '" ++ symbol ++ "' is not a valid Python identifier"
  | runtimeModule name => "runtime_module '" ++ name ++ "' is not a valid module name"
  | emptyIdentifier => "an identifier needs at least one character"
  | fileNotInRequest name => "Descriptor not found in request: " ++ name
  | filesNotInRequest names => "Descriptor(s) not found in request: " ++ ", ".intercalate names
  | unresolvedDependency dependency file =>
    "Unresolved dependency '" ++ dependency ++ "' referenced by " ++ file
  | unsupportedSyntax file given => file ++ ": unsupported syntax '" ++ given ++ "'"
  | missingOneof file field index =>
    file ++ ": field '" ++ field ++ "' references missing oneof #" ++ decimal index
  | oneofIndex => "oneof index out of range"
  | unresolvedType typeName location =>
    "Unable to resolve type reference '" ++ typeName ++ "' for field " ++ location
  | messageNotLoaded fullName referrer =>
    "Message '" ++ fullName ++ "' referenced by '" ++ referrer ++ "' is not part of the loaded files"
  | notSelected fullName => "Message '" ++ fullName ++ "' was not selected for generation"
  | badEscape cause => escapeMessage cause
  | unknownScalar name => name.getD "None"
  | unknownMessage fullName => fullName.getD "None"
  | enumMissing => "the field has no enum"
  | unknownHandler name => name
  | unreadableSet path fault =>
    "Unable to read descriptor set " ++ path ++ ": " ++ faultMessage fault ++ ": " ++ Text.quotedText path
  | compilerMissing program => "protoc executable not found: " ++ program
  | compilerFailed status report =>
    "protoc failed with exit status " ++ decimal status ++ ": " ++ report
  | malformedDescriptors => "Error parsing message"
  | nestedTooDeep => "maximum recursion depth exceeded"
  | notAModule name => "'" ++ name ++ "' is no module"
  | moduleNotCode symbol => "the module '" ++ symbol ++ "' is not code"
  | moduleMissing symbol => "No module named '" ++ symbol ++ "'"
  | notImported symbol => "the module '" ++ symbol ++ "' imports one that is missing"
  | registryMissing => "the package has no registry"

/-- The words for the error are torn. -/
def isTorn : Error → Bool
  | tornOverride .. => true
  | _ => false

/-- The error counts as an error of the input, and its words can be written. -/
def Reported (e : Error) : Prop := (e.kind.isReported && !e.isTorn) = true

/-- An error that is reported has words for it. -/
theorem message_ne_empty {e : Error} (h : e.Reported) : e.message ≠ "" := by
  unfold message
  cases e with
  | badEscape cause =>
    dsimp only
    unfold escapeMessage
    cases cause with
    | escape => dsimp only; split <;> simp
    | character => simp
    | characters => simp
  | notUtf8 fault =>
    dsimp only
    unfold undecodable
    split <;> simp
  | unknownScalar => cases h
  | unknownMessage => cases h
  | unknownHandler => cases h
  | unreadable path fault => cases fault <;> cases h
  | _ =>
    dsimp only
    simp

end Error

end MessageCodec
