import MessageCodec.Error
import MessageCodec.Value.Basic

/-!
# JSON

Reading a JSON text. Objects keep the order of their keys, the last of equal keys winning; integers are
exact, other numbers are doubles, and the names of the infinities and of NaN are accepted. A malformed
text is reported with its reason and place. Brackets may nest so many levels and no more.

The escapes of a string are code units, and half of a surrogate pair may be left on its own. Such a text
is torn: it has no bytes, and where it is shown a replacement stands for the half.
-/

namespace MessageCodec.Json

/-- A character, or half of a surrogate pair. -/
inductive Letter where
  | char (c : Char)
  | half (unit : Nat)
deriving DecidableEq

def letters (s : String) : List Letter := s.toList.map .char

/-- The text of some letters with a replacement for every half. -/
def shown (ls : List Letter) : String :=
  String.ofList (ls.map fun
    | .char c => c
    | .half _ => Utf8.replacement)

def isTorn (ls : List Letter) : Bool :=
  ls.any fun
    | .char _ => false
    | .half _ => true

inductive Tree where
  | null
  | bool (b : Bool)
  | int (n : Int)
  | float (x : Binary64)
  | text (s : List Letter)
  | list (items : List Tree)
  | object (members : List (List Letter × Tree))

/-- Put a member into an object, in place if its key is there and at the end if not. -/
def putMember (key : List Letter) (v : Tree) : List (List Letter × Tree) → List (List Letter × Tree)
  | [] => [(key, v)]
  | m :: rest => if m.1 = key then (key, v) :: rest else m :: putMember key v rest

def member? (members : List (List Letter × Tree)) (key : String) : Option Tree :=
  (members.find? fun m => m.1 = letters key).map Prod.snd

/-- The text still to be read and the position of its first character. -/
structure Input where
  position : Nat
  rest : List Char

inductive Failure where
  | malformed (reason : String) (position : Nat)
  | number (digits : Nat)
  | nesting

namespace Input

def drop (i : Input) (count : Nat) : Input := ⟨i.position + count, i.rest.drop count⟩

def skipSpace (i : Input) : Input :=
  i.drop (i.rest.takeWhile fun c => c = ' ' || c = '\t' || c = '\n' || c = '\r').length

def after? (i : Input) (word : String) : Option Input :=
  let cs := word.toList
  if i.rest.take cs.length = cs then some (i.drop cs.length) else none

end Input

def unit? (a b c d : Char) : Option Nat := do
  let a ← Text.hexValue? a
  let b ← Text.hexValue? b
  let c ← Text.hexValue? c
  let d ← Text.hexValue? d
  return a * 4096 + b * 256 + c * 16 + d

def escape? (c : Char) : Option Char :=
  match c with
  | '"' => some '"'
  | '\\' => some '\\'
  | '/' => some '/'
  | 'b' => some '\x08'
  | 'f' => some '\x0c'
  | 'n' => some '\n'
  | 'r' => some '\r'
  | 't' => some '\t'
  | _ => none

/-- Read the code units of a string that opened at `start`, up to its closing quote. -/
def units (start position : Nat) (done : List Nat) : List Char → Except Failure (List Nat × Input)
  | '"' :: rest => .ok (done.reverse, ⟨position + 1, rest⟩)
  | '\\' :: 'u' :: a :: b :: c :: d :: rest =>
    match unit? a b c d with
    | some n =>
      if rest.isEmpty then .error (.malformed "Invalid \\uXXXX escape" (position + 1))
      else units start (position + 6) (n :: done) rest
    | none => .error (.malformed "Invalid \\uXXXX escape" (position + 1))
  | '\\' :: 'u' :: _ => .error (.malformed "Invalid \\uXXXX escape" (position + 1))
  | '\\' :: c :: rest =>
    match escape? c with
    | some e => units start (position + 2) (e.toNat :: done) rest
    | none => .error (.malformed "Invalid \\escape" position)
  | '\\' :: [] | [] => .error (.malformed "Unterminated string starting at" start)
  | c :: rest =>
    if c.toNat < 0x20 then .error (.malformed "Invalid control character at" position)
    else units start (position + 1) (c.toNat :: done) rest

/-- The letter of a code unit that is not joined with another. -/
def letter (n : Nat) : Letter := if 0xd800 ≤ n && n ≤ 0xdfff then .half n else .char (Char.ofNat n)

def joinUnits : List Nat → List Letter
  | [] => []
  | [n] => [letter n]
  | n :: low :: rest =>
    if 0xd800 ≤ n && n ≤ 0xdbff && 0xdc00 ≤ low && low ≤ 0xdfff then
      .char (Char.ofNat (0x10000 + (n - 0xd800) * 1024 + (low - 0xdc00))) :: joinUnits rest
    else letter n :: joinUnits (low :: rest)

def string (i : Input) : Except Failure (List Letter × Input) := do
  let (found, next) ← units (i.position - 1) i.position [] i.rest
  return (joinUnits found, next)

def number? (i : Input) : Option (Except Failure (Tree × Input)) :=
  let (negative, body) :=
    match i.rest with
    | '-' :: more => (true, more)
    | cs => (false, cs)
  let whole :=
    match body with
    | '0' :: _ => ['0']
    | cs => cs.takeWhile Char.isDigit
  if whole.isEmpty then none
  else
    let rest := body.drop whole.length
    let places :=
      match rest with
      | '.' :: more => more.takeWhile Char.isDigit
      | _ => []
    let rest := if places.isEmpty then rest else rest.drop (places.length + 1)
    let power :=
      match rest with
      | c :: more =>
        if c = 'e' || c = 'E' then
          let mark := more.takeWhile fun c => c = '-' || c = '+'
          let digits := (more.drop mark.length).takeWhile Char.isDigit
          if mark.length ≤ 1 && !digits.isEmpty then c :: (mark ++ digits) else []
        else []
      | [] => []
    let signSize := if negative then 1 else 0
    let placeSize := if places.isEmpty then 0 else places.length + 1
    let next := i.drop (signSize + whole.length + placeSize + power.length)
    some <|
      if places.isEmpty && power.isEmpty then
        if IntegerText.digitLimit < whole.length then .error (.number whole.length)
        else .ok (.int (Numeral.signedVal negative whole), next)
      else
        let e := (NumberText.exponent? power).getD 0
        .ok (.float (Binary64.ofScientific negative (Numeral.val (whole ++ places)) (e - places.length)),
          next)

/-- Read a name that stands for a value. -/
def name? (i : Input) : Option (Tree × Input) :=
  let names : List (String × Tree) :=
    [("null", .null), ("true", .bool true), ("false", .bool false), ("NaN", .float .nan),
      ("Infinity", .float (.infinity false)), ("-Infinity", .float (.infinity true))]
  names.findSome? fun (word, v) => (i.after? word).map fun next => (v, next)

mutual

def value : (fuel room : Nat) → Input → Except Failure (Tree × Input)
  | 0, _, i => .error (.malformed "Expecting value" i.position)
  | fuel + 1, room, i =>
    match i.rest with
    | '"' :: _ => do
      let (s, next) ← string (i.drop 1)
      return (.text s, next)
    | '\x7b' :: _ => do
      if room = 0 then throw .nesting
      let inside := (i.drop 1).skipSpace
      match inside.rest with
      | '\x7d' :: _ => return (.object [], inside.drop 1)
      | _ =>
        let (entries, next) ← members fuel (room - 1) inside []
        return (.object entries, next)
    | '[' :: _ => do
      if room = 0 then throw .nesting
      let inside := (i.drop 1).skipSpace
      match inside.rest with
      | ']' :: _ => return (.list [], inside.drop 1)
      | _ =>
        let (items, next) ← elements fuel (room - 1) inside []
        return (.list items, next)
    | _ =>
      match name? i with
      | some found => .ok found
      | none =>
        match number? i with
        | some found => found
        | none => .error (.malformed "Expecting value" i.position)

def members : (fuel room : Nat) → Input → List (List Letter × Tree) →
    Except Failure (List (List Letter × Tree) × Input)
  | 0, _, i, _ => .error (.malformed "Expecting value" i.position)
  | fuel + 1, room, i, done =>
    match i.rest with
    | '"' :: _ => do
      let (key, next) ← string (i.drop 1)
      let next := next.skipSpace
      match next.rest with
      | ':' :: _ => do
        let (v, next) ← value fuel room (next.drop 1).skipSpace
        let next := next.skipSpace
        match next.rest with
        | '\x7d' :: _ => return (putMember key v done, next.drop 1)
        | ',' :: _ => members fuel room (next.drop 1).skipSpace (putMember key v done)
        | _ => .error (.malformed "Expecting ',' delimiter" next.position)
      | _ => .error (.malformed "Expecting ':' delimiter" next.position)
    | _ => .error (.malformed "Expecting property name enclosed in double quotes" i.position)

def elements : (fuel room : Nat) → Input → List Tree → Except Failure (List Tree × Input)
  | 0, _, i, _ => .error (.malformed "Expecting value" i.position)
  | fuel + 1, room, i, done => do
    let (v, next) ← value fuel room i
    let next := next.skipSpace
    match next.rest with
    | ']' :: _ => return ((v :: done).reverse, next.drop 1)
    | ',' :: _ => elements fuel room (next.drop 1).skipSpace (v :: done)
    | _ => .error (.malformed "Expecting ',' delimiter" next.position)

end

def locate (cs : List Char) (reason : String) (position : Nat) : JsonFault :=
  let before := cs.take position
  let column := (before.reverse.takeWhile (· != '\n')).length + 1
  ⟨reason, before.count '\n' + 1, column, position⟩

/-- Read a whole text, with room for so many levels. An opening bracket takes one call for the value and
one for what it holds, and every other call takes a character too, so twice the length of the text is fuel
enough. -/
def parse (room : Nat) (cs : List Char) : Except Error Tree :=
  let outcome : Except Failure Tree :=
    if cs.head? = some (Char.ofNat 0xfeff) then
      .error (.malformed "Unexpected UTF-8 BOM (decode using utf-8-sig)" 0)
    else do
      let (v, next) ← value (2 * cs.length + 2) room (Input.skipSpace ⟨0, cs⟩)
      let next := next.skipSpace
      if next.rest.isEmpty then return v else .error (.malformed "Extra data" next.position)
  match outcome with
  | .ok v => .ok v
  | .error (.malformed reason position) => .error (.malformedJson (locate cs reason position))
  | .error (.number digits) => .error (.numeralTooLong digits)
  | .error .nesting => .error .nestedTooDeep

end MessageCodec.Json
