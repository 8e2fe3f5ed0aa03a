import MessageCodec.Error
import MessageCodec.Text.Blank
import MessageCodec.Text.Digit
import MessageCodec.Text.Lines

/-!
# Names that can stand in generated code

Identifiers and module paths of generated packages. A name is reduced to ASCII letters, digits
and single underscores, kept off digits at the front and off the reserved words.
-/

namespace MessageCodec.Naming

def keywords : List String :=
  ["False", "None", "True", "and", "as", "assert", "async", "await", "break", "class", "continue",
    "def", "del", "elif", "else", "except", "finally", "for", "from", "global", "if", "import", "in",
    "is", "lambda", "nonlocal", "not", "or", "pass", "raise", "return", "try", "while", "with", "yield"]

def isKeyword (s : String) : Bool := keywords.contains s

/-- An ASCII letter, a digit or an underscore. -/
def isPlain (c : Char) : Bool := c.isAlphanum || c = '_'

def plain (cs : List Char) : List Char := cs.map fun c => if isPlain c then c else '_'

def collapse : List Char → List Char
  | [] => []
  | [c] => [c]
  | c :: d :: rest => if c = '_' && d = '_' then collapse (d :: rest) else c :: collapse (d :: rest)

/-- The plain characters of a text with single underscores, none at the ends. -/
def reduced (cs : List Char) : List Char := Text.trimWhile (· == '_') (collapse (plain cs))

/-- Keep a text off digits at the front and off the reserved words. -/
def guarded (cs : List Char) : List Char :=
  let opened :=
    match cs with
    | [] => []
    | c :: rest => if Text.isDigit c then '_' :: c :: rest else c :: rest
  if isKeyword (String.ofList opened) then opened ++ ['_'] else opened

/-- A text reduced to an identifier, or the fallback where nothing is left of it. -/
def identifier (s fallback : String) : String :=
  let body := reduced s.toList
  String.ofList (guarded (if body.isEmpty then fallback.toList else body))

/-- The same with a fallback that may be empty, which is refused when it is needed. -/
def identifierOr (s fallback : String) : Except Error String :=
  if (reduced s.toList).isEmpty && fallback.isEmpty then .error .emptyIdentifier
  else .ok (identifier s fallback)

/-- One component of a generated path: its stem made an identifier, its extension kept. -/
def component (stem extension : String) : String :=
  let body := plain stem.toList
  let filled := if body.isEmpty then ['_'] else body
  let opened :=
    match filled with
    | c :: _ => if c.isDigit then '_' :: filled else filled
    | [] => filled
  String.ofList opened ++ extension

def sanitizeComponents : List String → List String
  | [] => []
  | [last] =>
    match Text.splitLast? '.' last with
    | some (stem, extension) => [component stem ("." ++ extension)]
    | none => [component last ""]
  | part :: rest => component part "" :: sanitizeComponents rest

/-- A relative path whose components are identifiers up to the extension of the last. -/
def sanitizePath (path : String) : String :=
  let unified := path.toList.map fun c => if c = '\\' then '/' else c
  let parts := (Text.split '/' (String.ofList unified)).filter fun p => !p.isEmpty
  "/".intercalate (sanitizeComponents parts)

end MessageCodec.Naming
