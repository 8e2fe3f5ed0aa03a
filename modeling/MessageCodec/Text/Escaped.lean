import MessageCodec.Error

/-!
# Byte strings with escapes

The default of a byte string is written as text with escapes. Reading it takes several passes, and an
error names the place in the input of its own pass:

* a hexadecimal escape of one digit gets a zero in front;
* escapes of characters by number, four or eight digits long, become the characters;
* the text becomes UTF-8, whose bytes are then read once more with all the other escapes;
* what results must consist of characters that are single bytes.

Characters are held by number here, as an escape may name a surrogate.
-/

namespace MessageCodec.Escaped

def backslash : Nat := 0x5c

def hexOf? (n : Nat) : Option Nat := if n < 0x80 then Text.hexValue? (Char.ofNat n) else none

def hexNumber (digits : List Nat) : Nat := digits.foldl (fun n d => 16 * n + (hexOf? d).getD 0) 0

/-- The hexadecimal digits in front, at most `count` of them. -/
def hexRun (count : Nat) (cs : List Nat) : List Nat := (cs.take count).takeWhile fun c => (hexOf? c).isSome

/-- Put a zero into hexadecimal escapes of one digit. `opened` tells whether an escape has just been
opened, that is, whether an odd number of backslashes stands in front. -/
def padHex (opened : Bool) : List Char → List Char
  | 'x' :: h :: rest =>
    let single := (Text.hexValue? h).isSome && !(rest.head?.any fun c => (Text.hexValue? c).isSome)
    if opened && single then 'x' :: '0' :: h :: padHex false rest else 'x' :: padHex false (h :: rest)
  | c :: rest => c :: padHex (c == '\\' && !opened) rest
  | [] => []

/-- Characters beyond a byte are written as escapes by number. -/
def spellOut (c : Char) : List Nat :=
  let n := c.toNat
  if n < 0x100 then [n]
  else if n < 0x10000 then
    [backslash, 'u'.toNat] ++ (Text.hexDigits 4 n).map Char.toNat
  else [backslash, 'U'.toNat] ++ (Text.hexDigits 8 n).map Char.toNat

/-- The escape for a character by number that a letter opens: how many digits it has and how it is
called. -/
def numbered? (letter : Nat) : Option (Nat × String) :=
  if letter = 'u'.toNat then some (4, "\\uXXXX")
  else if letter = 'U'.toNat then some (8, "\\UXXXXXXXX")
  else none

/-- Resolve the escapes of characters by number; all other escapes stay as they are. -/
def resolveNumbers (position : Nat) (cs : List Nat) : Except EscapeError (List Nat) :=
  match cs with
  | [] => .ok []
  | [c] => .ok [c]
  | c :: d :: rest =>
    if c = backslash then
      match numbered? d with
      | some (count, name) =>
        let digits := hexRun count rest
        let last := position + 1 + digits.length
        if digits.length < count then
          .error (.escape "rawunicodeescape" position last ("truncated " ++ name ++ " escape"))
        else if 0x10ffff < hexNumber digits then
          .error (.escape "rawunicodeescape" position last "\\Uxxxxxxxx out of range")
        else do
          let more ← resolveNumbers (last + 1) (rest.drop count)
          return hexNumber digits :: more
      | none => do
        let more ← resolveNumbers (position + 2) rest
        return c :: d :: more
    else do
      let more ← resolveNumbers (position + 1) (d :: rest)
      return c :: more
termination_by cs.length
decreasing_by
  all_goals
    simp only [List.length_cons, List.length_drop]
    omega

/-- The first run of characters without a byte, as the error that it is. -/
def firstRun (codec reason : String) (bad : Nat → Bool) (position : Nat) : List Nat → Option EscapeError
  | [] => none
  | c :: rest =>
    if bad c then
      let more := (rest.takeWhile bad).length
      if more = 0 then some (.character codec c position reason)
      else some (.characters codec position (position + more) reason)
    else firstRun codec reason bad (position + 1) rest

def isSurrogate (n : Nat) : Bool := 0xd800 ≤ n && n ≤ 0xdfff

def toUtf8 (cs : List Nat) : Except EscapeError (List Nat) :=
  match firstRun "utf-8" "surrogates not allowed" isSurrogate 0 cs with
  | some e => .error e
  | none => .ok ((Utf8.encode (cs.map Char.ofNat)).map UInt8.toNat)

def simple? (letter : Nat) : Option (List Nat) :=
  match Char.ofNat letter with
  | '\n' => some []
  | '\\' => some [0x5c]
  | '\'' => some [0x27]
  | '"' => some [0x22]
  | 'a' => some [0x07]
  | 'b' => some [0x08]
  | 't' => some [0x09]
  | 'n' => some [0x0a]
  | 'v' => some [0x0b]
  | 'f' => some [0x0c]
  | 'r' => some [0x0d]
  | _ => none

def isOctal (n : Nat) : Bool := 0x30 ≤ n && n ≤ 0x37

/-- The error of an escape by name. No name is known here; `last` is the place where reading stops. -/
def nameError (position : Nat) (rest : List Nat) : EscapeError :=
  let malformed (last : Nat) := EscapeError.escape "unicodeescape" position last
    "malformed \\N character escape"
  match rest with
  | 0x7b :: rest =>
    let name := rest.takeWhile (· != 0x7d)
    if name.length = rest.length then malformed (position + 2 + name.length)
    else if name.isEmpty then malformed (position + 2)
    else .escape "unicodeescape" position (position + 3 + name.length) "unknown Unicode character name"
  | _ => malformed (position + 1)

/-- Resolve all escapes. An escape that means nothing stays with its backslash. -/
def resolve (position : Nat) (cs : List Nat) : Except EscapeError (List Nat) :=
  match cs with
  | [] => .ok []
  | [c] =>
    if c = backslash then .error (.escape "unicodeescape" position position "\\ at end of string")
    else .ok [c]
  | c :: d :: rest =>
    if c ≠ backslash then do
      let more ← resolve (position + 1) (d :: rest)
      return c :: more
    else if let some text := simple? d then do
      let more ← resolve (position + 2) rest
      return text ++ more
    else if isOctal d then do
      let digits := (rest.take 2).takeWhile isOctal
      let more ← resolve (position + 2 + digits.length) (rest.drop digits.length)
      return (d :: digits).foldl (fun n d => 8 * n + (d - 0x30)) 0 :: more
    else if d = 'x'.toNat then
      let digits := hexRun 2 rest
      if digits.length < 2 then
        .error (.escape "unicodeescape" position (position + 1 + digits.length) "truncated \\xXX escape")
      else do
        let more ← resolve (position + 4) (rest.drop 2)
        return hexNumber digits :: more
    else if let some (count, name) := numbered? d then
      let digits := hexRun count rest
      let last := position + 1 + digits.length
      if digits.length < count then
        .error (.escape "unicodeescape" position last ("truncated " ++ name ++ " escape"))
      else if 0x10ffff < hexNumber digits then
        .error (.escape "unicodeescape" position last "illegal Unicode character")
      else do
        let more ← resolve (last + 1) (rest.drop count)
        return hexNumber digits :: more
    else if d = 'N'.toNat then .error (nameError position rest)
    else do
      let more ← resolve (position + 2) rest
      return c :: d :: more
termination_by cs.length
decreasing_by
  all_goals
    simp only [List.length_cons, List.length_drop]
    omega

def toBytes (cs : List Nat) : Except EscapeError (List UInt8) :=
  match firstRun "latin-1" "ordinal not in range(256)" (0xff < ·) 0 cs with
  | some e => .error e
  | none => .ok (cs.map Nat.toUInt8)

/-- The bytes that a text with escapes stands for. -/
def decode : Unescaping := fun s => do
  let characters ← resolveNumbers 0 ((padHex false s.toList).flatMap spellOut)
  let bytes ← toUtf8 characters
  let resolved ← resolve 0 bytes
  toBytes resolved

end MessageCodec.Escaped
