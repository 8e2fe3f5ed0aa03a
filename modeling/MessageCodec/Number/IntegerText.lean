import MessageCodec.Number.FloatText
import MessageCodec.Text.Hex

/-!
# Integers as text

Conversion between integers and base ten is limited to 4300 digits. Reading takes a sign, single
underscores between digits and decimal digits of any script; in the open form a prefix `0x`, `0o` or
`0b` chooses the base, and a number without a prefix may not begin with zero unless it is zero.
-/

namespace MessageCodec.IntegerText

/-- The greatest number of base ten digits that is converted. -/
def digitLimit : Nat := 4300

def write? (n : Int) : Option Numeral :=
  let text := Numeral.ofNat n.natAbs
  if digitLimit < text.length then none
  else some (if n < 0 then '-' :: text else text)

/-- Read digits of a base, with single underscores between them. A leading underscore is allowed where
`after` says that something in front (a base prefix) takes the place of a digit. -/
def digits? (base : Nat) (after : Bool) : List Char → Option (List Nat)
  | [] => some []
  | '_' :: rest =>
    if after && !rest.isEmpty then digits? base false rest else none
  | c :: rest =>
    match Text.hexValue? c with
    | some d => if d < base then (digits? base true rest).map (d :: ·) else none
    | none => none

def valueIn (base : Nat) (digits : List Nat) : Nat := digits.foldl (fun n d => base * n + d) 0

def baseTen? (cs : List Char) : Option Nat := do
  let digits ← digits? 10 false cs
  if digits.isEmpty || digitLimit < digits.length then none else some (valueIn 10 digits)

/-- Read an unsigned number whose base is chosen by its prefix. -/
def anyBase? (cs : List Char) : Option Nat :=
  match cs with
  | '0' :: c :: rest =>
    let base := if c = 'x' || c = 'X' then 16 else if c = 'o' || c = 'O' then 8
      else if c = 'b' || c = 'B' then 2 else 0
    if base = 0 then do
      let value ← baseTen? cs
      if value = 0 then some 0 else none
    else do
      let digits ← digits? base true rest
      if digits.isEmpty then none else some (valueIn base digits)
  | _ => baseTen? cs

def signed? (read : List Char → Option Nat) (cs : List Char) : Option Int :=
  let (negative, body) := NumberText.sign (NumberText.prepare cs)
  (read body).map fun n => if negative then -(n : Int) else (n : Int)

end MessageCodec.IntegerText
