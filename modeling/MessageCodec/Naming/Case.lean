import MessageCodec.Text.Blank
import MessageCodec.Text.Case

/-!
# Spelling of compound names

Field names come in `snake_case` and `lowerCamelCase`, type names in `PascalCase`.
-/

namespace MessageCodec.Naming

/-- Drop underscores and capitalise the character after each run of them. -/
def camelFrom (capitalise : Bool) : List Char → List Char
  | [] => []
  | c :: rest =>
    if c = '_' then camelFrom true rest
    else (if capitalise then Text.upperChar c else [c]) ++ camelFrom false rest

def camelCase (name : String) : String := String.ofList (camelFrom false name.toList)

/-- A small ASCII letter or a digit, after which a capital opens a new word. -/
def endsWord (c : Char) : Bool := c.isLower || c.isDigit

/-- Put an underscore before each ASCII capital that follows a small letter or a digit. -/
def separateWords : (afterWord : Bool) → List Char → List Char
  | _, [] => []
  | afterWord, c :: rest =>
    if afterWord && c.isUpper then '_' :: c :: separateWords (endsWord c) rest
    else c :: separateWords (endsWord c) rest

def snakeCase (name : String) : String :=
  String.ofList (Text.lower (separateWords false name.toList))

/-- The words of a name: maximal runs without underscores and blanks. -/
def words : List Char → List (List Char)
  | [] => []
  | c :: rest =>
    if c = '_' || Text.isBlank c then words rest
    else
      match rest with
      | [] => [[c]]
      | d :: _ =>
        if d = '_' || Text.isBlank d then [c] :: words rest
        else
          match words rest with
          | [] => [[c]]
          | word :: more => (c :: word) :: more

def capitalised : List Char → List Char
  | [] => []
  | c :: rest => Text.upperChar c ++ rest

/-- The Pascal case form of a name; a name without words stays as it is. -/
def pascalCase (name : String) : String :=
  match words name.toList with
  | [] => name
  | parts => String.ofList (parts.flatMap capitalised)

end MessageCodec.Naming
