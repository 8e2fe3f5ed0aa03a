import MessageCodec.Number.IntegerText

/-!
# Decimal floating point

Numbers with a sign, a coefficient and a power of ten, together with infinities and NaNs. Writing keeps
the power of ten visible: `1E+3` and `1000` are different texts of equal numbers.
-/

namespace MessageCodec

inductive Decimal where
  | finite (negative : Bool) (coefficient : Nat) (exponent : Int)
  | infinite (negative : Bool)
  | nan (negative signaling : Bool) (payload : Numeral)
deriving DecidableEq

namespace Decimal

/-- The text of a decimal number. The point is placed without an exponent when the power of ten is not
positive and the leading digit is not beyond the sixth place. -/
def write : Decimal → List Char
  | .infinite negative => (if negative then ['-'] else []) ++ "Infinity".toList
  | .nan negative signaling digits =>
    (if negative then ['-'] else []) ++ (if signaling then "sNaN" else "NaN").toList ++ digits
  | .finite negative coefficient exponent =>
    let digits := Numeral.ofNat coefficient
    let left : Int := exponent + digits.length
    let place : Int := if exponent ≤ 0 && -6 < left then left else 1
    let body :=
      if place ≤ 0 then ['0', '.'] ++ List.replicate (-place).toNat '0' ++ digits
      else if (digits.length : Int) ≤ place then
        digits ++ List.replicate (place.toNat - digits.length) '0'
      else digits.take place.toNat ++ ['.'] ++ digits.drop place.toNat
    let tail :=
      if left = place then []
      else 'E' :: (if left < place then '-' else '+') :: Numeral.ofNat (left - place).natAbs
    (if negative then ['-'] else []) ++ body ++ tail

/-- The integer part of a finite number, toward zero, unless its digits alone are beyond what is ever
converted to text. -/
def truncate? : Decimal → Option Int
  | .finite negative coefficient exponent =>
    if coefficient = 0 then some 0
    else if IntegerText.digitLimit < exponent then none
    else
      let size : Int := (Numeral.ofNat coefficient).length
      let magnitude :=
        if 0 ≤ exponent then coefficient * tenPow exponent.toNat
        else if size ≤ -exponent then 0
        else coefficient / tenPow (-exponent).toNat
      some (if negative then -(magnitude : Int) else (magnitude : Int))
  | _ => none

/-- The nearest double. A signaling NaN has none. -/
def toBinary64? : Decimal → Option Binary64
  | .finite negative coefficient exponent => some (.ofScientific negative coefficient exponent)
  | .infinite negative => some (.infinity negative)
  | .nan negative signaling _ => if signaling then none else some (if negative then .negativeNan else .nan)

end Decimal

end MessageCodec
