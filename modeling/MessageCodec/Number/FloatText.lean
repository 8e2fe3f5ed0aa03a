import MessageCodec.Number.Shortest
import MessageCodec.Text.Blank
import MessageCodec.Text.Digit

/-!
# Doubles as text

Writing uses the shortest decimal, positional from `1e-04` up to but not including `1e+16` and with an
exponent of at least two digits outside, always with a point or an exponent. Reading takes decimal
digits of any script, single underscores between digits, and the names of the infinities and of NaN in
any case.
-/

namespace MessageCodec

/-- The decisions of a decimal notation for doubles. -/
structure FloatNotation where
  /-- Powers of ten of the leading digit from which the notation is positional. -/
  positionalFrom : Int
  /-- The first power of ten of the leading digit at which it no longer is. -/
  positionalBelow : Int
  /-- The least number of exponent digits. -/
  exponentWidth : Nat

namespace FloatNotation

/-- Positional from `1e-04` to just below `1e+16`, two exponent digits. -/
def standard : FloatNotation := ⟨-4, 16, 2⟩

/-- The digits of a positive decimal around its point. `digits` are significant digits and `place` is
the power of ten of the first. -/
def positional (digits : List Char) (place : Int) : List Char :=
  if place < 0 then ['0', '.'] ++ List.replicate (-place - 1).toNat '0' ++ digits
  else
    let whole := place.toNat + 1
    if digits.length ≤ whole then
      digits ++ List.replicate (whole - digits.length) '0' ++ ['.', '0']
    else digits.take whole ++ ['.'] ++ digits.drop whole

def scientific (format : FloatNotation) (digits : List Char) (place : Int) : List Char :=
  let exponent := Numeral.ofNat place.natAbs
  let padded := List.replicate (format.exponentWidth - exponent.length) '0' ++ exponent
  digits.take 1 ++ (if digits.length ≤ 1 then [] else '.' :: digits.drop 1) ++
    ['e', if place < 0 then '-' else '+'] ++ padded

def write (format : FloatNotation) (x : Binary64) : List Char :=
  let sign := if x.isNegative then ['-'] else []
  if x.isNaN then ['n', 'a', 'n']
  else if !x.isFinite then sign ++ ['i', 'n', 'f']
  else if x.isZero then sign ++ ['0', '.', '0']
  else
    let (value, grid) := Shortest.shortest x
    let all := Numeral.ofNat value
    let place := grid + all.length - 1
    let digits := (all.reverse.dropWhile (· == '0')).reverse
    sign ++
      if format.positionalFrom ≤ place && place < format.positionalBelow then positional digits place
      else format.scientific digits place

end FloatNotation

namespace NumberText

/-- The ASCII form of a character in a number: blanks beyond ASCII become a space, decimal digits of any
script their ASCII digit, and nothing else beyond ASCII can stand in a number. -/
def fold (c : Char) : Char :=
  if c.toNat < 0x80 then c
  else if Text.isBlank c then ' '
  else
    match Text.decimalValue? c with
    | some d => Char.ofNat (d + 0x30)
    | none => '?'

def isSpace (c : Char) : Bool := c = ' ' || (0x9 ≤ c.toNat && c.toNat ≤ 0xd)

def prepare (cs : List Char) : List Char := Text.trimWhile isSpace (cs.map fold)

/-- Drop the underscores of a text if each stands between two digits. `before` is the character in
front. -/
def dropUnderscores? (before : Char) : List Char → Option (List Char)
  | [] => some []
  | '_' :: rest =>
    match rest with
    | next :: _ => if before.isDigit && next.isDigit then dropUnderscores? '_' rest else none
    | [] => none
  | c :: rest => (dropUnderscores? c rest).map (c :: ·)

def sign (cs : List Char) : Bool × List Char :=
  match cs with
  | '-' :: rest => (true, rest)
  | '+' :: rest => (false, rest)
  | rest => (false, rest)

/-- Read an exponent part, which may be missing. -/
def exponent? (cs : List Char) : Option Int :=
  match cs with
  | [] => some 0
  | c :: rest =>
    if c = 'e' || c = 'E' then
      let (negative, digits) := sign rest
      if digits.isEmpty || !digits.all Char.isDigit then none
      else some (Numeral.signedVal negative digits)
    else none

/-- Read an unsigned decimal number with optional point and exponent: all its digits as one number, and
the power of ten to scale it by. -/
def scientific? (cs : List Char) : Option (Nat × Int) :=
  let whole := cs.takeWhile Char.isDigit
  let rest := cs.dropWhile Char.isDigit
  let (places, rest) :=
    match rest with
    | '.' :: more => (more.takeWhile Char.isDigit, more.dropWhile Char.isDigit)
    | _ => ([], rest)
  if whole.isEmpty && places.isEmpty then none
  else (exponent? rest).map fun e => (Numeral.val (whole ++ places), e - places.length)

def float? (cs : List Char) : Option Binary64 := do
  let plain ← dropUnderscores? ' ' (prepare cs)
  let (negative, body) := sign plain
  let name := String.ofList (body.map Char.toLower)
  if name == "inf" || name == "infinity" then some (Binary64.infinity negative)
  else if name == "nan" then some (if negative then Binary64.negativeNan else Binary64.nan)
  else (scientific? body).map fun (digits, e) => Binary64.ofScientific negative digits e

end NumberText

end MessageCodec
