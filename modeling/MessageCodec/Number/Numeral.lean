/-!
# Decimal numerals

Exact arithmetic on numbers written as text, most significant character first. 64-bit values travel
as such texts, so nothing here is bounded by a machine word. A character counts for its distance from
`'0'`; on digits that is the usual place value, and on any other character the same loops still run.
-/

namespace MessageCodec

/-- A number written in base ten. -/
abbrev Numeral := List Char

namespace Numeral

def digitValue (c : Char) : Int := (c.toNat : Int) - 48

def digitChar (d : Int) : Char := Char.ofNat (d + 48).toNat

def ofNat (n : Nat) : Numeral :=
  if n < 10 then [digitChar n] else ofNat (n / 10) ++ [digitChar (n % 10 : Nat)]

/-- The number that a digit text denotes. -/
def val (cs : Numeral) : Nat := cs.foldl (fun n c => 10 * n + (c.toNat - 48)) 0

/-- Drop leading zeros; zero keeps one. -/
def trim (cs : Numeral) : Numeral :=
  match cs.dropWhile (· == '0') with
  | [] => ['0']
  | d :: ds => d :: ds

def compareText : List Char → List Char → Ordering
  | [], [] => .eq
  | [], _ :: _ => .lt
  | _ :: _, [] => .gt
  | a :: as, b :: bs =>
    if a = b then compareText as bs else if a.toNat < b.toNat then .lt else .gt

/-- Order by magnitude: the longer numeral is the greater one once leading zeros are gone. -/
def compare (a b : Numeral) : Ordering :=
  let left := trim a
  let right := trim b
  if left.length < right.length then .lt
  else if right.length < left.length then .gt
  else compareText left right

def carryDigits (carry : Nat) : List Char :=
  if carry = 0 then [] else digitChar (carry % 10 : Nat) :: carryDigits (carry / 10)

def addReversed : List Char → List Char → Int → List Char
  | [], [], carry => carryDigits carry.toNat
  | a :: as, [], carry =>
    let total := carry + digitValue a
    digitChar (total % 10) :: addReversed as [] (total / 10)
  | [], b :: bs, carry =>
    let total := carry + digitValue b
    digitChar (total % 10) :: addReversed [] bs (total / 10)
  | a :: as, b :: bs, carry =>
    let total := carry + digitValue a + digitValue b
    digitChar (total % 10) :: addReversed as bs (total / 10)

def add (a b : Numeral) : Numeral :=
  trim (addReversed (trim a).reverse (trim b).reverse 0).reverse

/-- The digits of a difference of reversed numerals with a borrow, least significant first. -/
def subtractReversed : List Char → List Char → Int → List Int
  | [], _, _ => []
  | a :: as, [], borrow =>
    let digit := digitValue a - borrow
    if digit < 0 then (digit + 10) :: subtractReversed as [] 1
    else digit :: subtractReversed as [] 0
  | a :: as, b :: bs, borrow =>
    let digit := digitValue a - borrow - digitValue b
    if digit < 0 then (digit + 10) :: subtractReversed as bs 1
    else digit :: subtractReversed as bs 0

def differenceDigits (a b : Numeral) : List Int :=
  subtractReversed (trim a).reverse (trim b).reverse 0

/-- The difference of two numerals, zero where the first is the smaller one. -/
def subtract (a b : Numeral) : Numeral :=
  if compare a b = .lt then ['0'] else trim ((differenceDigits a b).map digitChar).reverse

/-- Whether every digit of the difference has a character. Digit texts always do. -/
def hasDifference (a b : Numeral) : Bool :=
  compare a b = .lt || (differenceDigits a b).all fun d => 0 ≤ d + 48 && d + 48 ≤ 0x10ffff

def multiplyReversed (factor : Int) : List Char → Int → List Char
  | [], carry => carryDigits carry.toNat
  | a :: as, carry =>
    let total := digitValue a * factor + carry
    digitChar (total % 10) :: multiplyReversed factor as (total / 10)

/-- A numeral times an integer; a factor that is not positive gives zero. -/
def multiply (a : Numeral) (factor : Int) : Numeral :=
  let base := trim a
  if factor ≤ 0 || base == ['0'] then ['0']
  else trim (multiplyReversed factor base.reverse 0).reverse

/-- Long division from the most significant character on. A quotient digit is written once the first
one that is not zero has been. -/
def divideFrom (divisor : Int) (started : Bool) (remainder : Int) : List Char → List Char × Int
  | [] => ([], remainder)
  | c :: cs =>
    let current := remainder * 10 + digitValue c
    let digit := current / divisor
    let left := current - digit * divisor
    if started || digit ≠ 0 then
      let (quotient, rest) := divideFrom divisor true left cs
      (digitChar digit :: quotient, rest)
    else divideFrom divisor false left cs

def divide (a : Numeral) (divisor : Nat) : Numeral × Nat :=
  match divideFrom divisor false 0 (trim a) with
  | ([], remainder) => (['0'], remainder.toNat)
  | (quotient, remainder) => (quotient, remainder.toNat)

def toBytes (a : Numeral) : Nat → List UInt8
  | 0 => []
  | count + 1 =>
    let (quotient, remainder) := divide a 256
    remainder.toUInt8 :: toBytes quotient count

def ofBytes (bs : List UInt8) : Numeral :=
  bs.foldr (fun b high => add (multiply high 256) (ofNat b.toNat)) ['0']

def isDigit (c : Char) : Bool := c.isDigit

/-- Split a sign from a text that is otherwise a run of one or more digits. -/
def signed? (cs : List Char) : Option (Bool × Numeral) :=
  let (negative, digits) :=
    match cs with
    | '-' :: ds => (true, ds)
    | '+' :: ds => (false, ds)
    | ds => (false, ds)
  if digits.isEmpty then none
  else if digits.all isDigit then some (negative, digits) else none

def ofInt (n : Int) : Numeral :=
  if n < 0 then '-' :: ofNat n.natAbs else ofNat n.toNat

def signedVal (negative : Bool) (digits : Numeral) : Int :=
  if negative then -(val digits : Int) else (val digits : Int)

end Numeral

end MessageCodec
