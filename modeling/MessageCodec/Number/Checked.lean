import MessageCodec.Error
import MessageCodec.Number.Word

/-!
# Operations that fail

On digit texts every operation on numerals gives one. On any other text a digit of a difference may have
no character, and no text can be divided by zero or less.
-/

namespace MessageCodec.Numeral

/-- The difference of two numerals, as `subtract` gives it. -/
def difference (a b : Numeral) : Except Error Numeral :=
  if hasDifference a b then .ok (subtract a b) else .error .noSuchCharacter

/-- Quotient and remainder, as `divide` gives them. -/
def quotient (a : Numeral) (divisor : Int) : Except Error (Numeral × Nat) :=
  if divisor ≤ 0 then .error .divisorNotPositive else .ok (a.divide divisor.toNat)

def unsigned64View (signed : Numeral) : Except Error Numeral :=
  if hasUnsigned64 signed then .ok signed.toUnsigned64 else .error .noSuchCharacter

def signed64View (unsigned : Numeral) : Except Error Numeral :=
  if hasSigned64 unsigned then .ok unsigned.toSigned64 else .error .noSuchCharacter

end MessageCodec.Numeral
