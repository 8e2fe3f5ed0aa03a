import MessageCodec.Number.Power

/-!
# Binary floating point

IEEE 754 patterns and their exact values. A finite pattern is an integer times a power of two, and
every conversion goes through exact integers: rounding is to nearest, a tie goes to the even neighbour.
-/

namespace MessageCodec

/-- A binary interchange format: the widths of fraction and exponent. -/
structure BinaryFormat where
  fractionBits : Nat
  exponentBits : Nat

namespace BinaryFormat

def binary64 : BinaryFormat := ⟨52, 11⟩

def binary32 : BinaryFormat := ⟨23, 8⟩

variable (f : BinaryFormat)

/-- The exponent field of infinities and NaNs. -/
def topField : Nat := twoPow f.exponentBits - 1

/-- The power of two that the least positive value stands for. -/
def leastExponent : Int := 2 - twoPow (f.exponentBits - 1) - f.fractionBits

def pack (negative : Bool) (field fraction : Nat) : Nat :=
  (if negative then twoPow (f.exponentBits + f.fractionBits) else 0) + field * twoPow f.fractionBits + fraction

def infinity (negative : Bool) : Nat := f.pack negative f.topField 0

def negative (bits : Nat) : Bool := bits / twoPow (f.exponentBits + f.fractionBits) % 2 == 1

def field (bits : Nat) : Nat := bits / twoPow f.fractionBits % twoPow f.exponentBits

def fraction (bits : Nat) : Nat := bits % twoPow f.fractionBits

/-- The integer part of the value of a finite pattern. -/
def mantissa (bits : Nat) : Nat :=
  if f.field bits = 0 then f.fraction bits else f.fraction bits + twoPow f.fractionBits

/-- The power of two part of the value of a finite pattern. -/
def exponent (bits : Nat) : Int := f.leastExponent + (max (f.field bits) 1 - 1 : Nat)

/-- Nearest integer to a quotient, ties to even. -/
def roundDiv (num den : Nat) : Nat :=
  let quotient := num / den
  let twice := 2 * (num % den)
  if twice < den then quotient
  else if den < twice then quotient + 1
  else quotient + quotient % 2

/-- Numerator and denominator of `num / den` in units of `2 ^ q`. -/
def inUnits (num den : Nat) (q : Int) : Nat × Nat :=
  if 0 ≤ q then (num, den * twoPow q.toNat) else (num * twoPow (-q).toNat, den)

/-- The exponent at which a positive quotient has one digit more than the fraction. -/
def unitFor (num den : Nat) : Int :=
  let q : Int := (Nat.log2 num : Int) - Nat.log2 den - f.fractionBits - 1
  let (a, b) := inUnits num den q
  max (if twoPow (f.fractionBits + 1) ≤ a / b then q + 1 else q) f.leastExponent

/-- The pattern nearest to a quotient; beyond the greatest finite value it is an infinity. -/
def ofRatio (negative : Bool) (num den : Nat) : Nat :=
  if num = 0 then f.pack negative 0 0
  else
    let q := f.unitFor num den
    let (a, b) := inUnits num den q
    let m := roundDiv a b
    if m < twoPow f.fractionBits then f.pack negative 0 m
    else
      let (m, q) := if m = twoPow (f.fractionBits + 1) then (twoPow f.fractionBits, q + 1) else (m, q)
      let field := (q - f.leastExponent).toNat + 1
      if f.topField ≤ field then f.infinity negative
      else f.pack negative field (m - twoPow f.fractionBits)

end BinaryFormat

/-- A double, by its pattern. -/
structure Binary64 where
  bits : UInt64
deriving DecidableEq

namespace Binary64

open BinaryFormat

def pattern (x : Binary64) : Nat := x.bits.toNat

def ofPattern (n : Nat) : Binary64 := ⟨n.toUInt64⟩

def zero : Binary64 := ⟨0⟩

def one : Binary64 := ⟨0x3ff0000000000000⟩

/-- The quiet NaN without payload. -/
def nan : Binary64 := ⟨0x7ff8000000000000⟩

def negativeNan : Binary64 := ⟨0xfff8000000000000⟩

def infinity (negative : Bool) : Binary64 := ofPattern (binary64.infinity negative)

def isNegative (x : Binary64) : Bool := binary64.negative x.pattern

def isFinite (x : Binary64) : Bool := binary64.field x.pattern != binary64.topField

def isNaN (x : Binary64) : Bool := !x.isFinite && binary64.fraction x.pattern != 0

def isPositiveZero (x : Binary64) : Bool := x.bits == 0

def isZero (x : Binary64) : Bool := x.isFinite && binary64.mantissa x.pattern == 0

/-- The integer part of a finite double, toward zero. -/
def truncate (x : Binary64) : Int :=
  let m := binary64.mantissa x.pattern
  let q := binary64.exponent x.pattern
  let magnitude := if 0 ≤ q then m * twoPow q.toNat else m / twoPow (-q).toNat
  if x.isNegative then -(magnitude : Int) else (magnitude : Int)

def ofRatio (negative : Bool) (num den : Nat) : Binary64 :=
  ofPattern (binary64.ofRatio negative num den)

/-- The double nearest to an integer, where a finite one is. -/
def ofInt? (n : Int) : Option Binary64 :=
  let x := ofRatio (n < 0) n.natAbs 1
  if x.isFinite then some x else none

/-- The double nearest to `digits * 10 ^ exponent`. Far out of range the power is not computed. -/
def ofScientific (negative : Bool) (digits : Nat) (exponent : Int) : Binary64 :=
  if digits = 0 then ofRatio negative 0 1
  else
    let size : Int := (Nat.log2 digits : Int) / 4 + exponent
    let bound : Int := (Nat.log2 digits : Int) / 3 + 1 + exponent
    if 310 < size then infinity negative
    else if bound < -330 then ofRatio negative 0 1
    else if 0 ≤ exponent then ofRatio negative (digits * tenPow exponent.toNat) 1
    else ofRatio negative digits (tenPow (-exponent).toNat)

/-- The pattern of the nearest single. NaNs stay NaNs, keeping the top of their payload. -/
def toSingle (x : Binary64) : Nat :=
  if x.isFinite then
    let m := binary64.mantissa x.pattern
    let q := binary64.exponent x.pattern
    if 0 ≤ q then binary32.ofRatio x.isNegative (m * twoPow q.toNat) 1
    else binary32.ofRatio x.isNegative m (twoPow (-q).toNat)
  else if x.isNaN then
    binary32.pack x.isNegative binary32.topField
      (binary64.fraction x.pattern / twoPow 29 % twoPow 22 + twoPow 22)
  else binary32.infinity x.isNegative

def ofSingle (bits : Nat) : Binary64 :=
  let negative := binary32.negative bits
  if binary32.field bits = binary32.topField then
    if binary32.fraction bits = 0 then infinity negative
    else ofPattern (binary64.pack negative binary64.topField
      (binary32.fraction bits % twoPow 22 * twoPow 29 + twoPow 51))
  else
    let m := binary32.mantissa bits
    let q := binary32.exponent bits
    if 0 ≤ q then ofRatio negative (m * twoPow q.toNat) 1 else ofRatio negative m (twoPow (-q).toNat)

end Binary64

end MessageCodec
