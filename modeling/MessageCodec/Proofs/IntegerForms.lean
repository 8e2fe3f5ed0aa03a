import MessageCodec.Proofs.VarintForms

/-!
# Integers in canonical form

Whatever a caller hands over as a number becomes the canonical text of an integer, by one of many ways: a truth
value, an integer, a double or decimal cut off toward zero, or a text. From there on the text is left as it is. The
64-bit writers coerce a number that has been coerced before, and see the same number; the 32-bit ones read the
text back as an integer, which fails beyond the digit limit.
-/

namespace MessageCodec

namespace Numeral

/-! ### Canonical texts -/

/-- Zero alone, or digits of which the first is not zero, with or without a minus sign in front. -/
inductive Canonical : Numeral → Prop
  | zero : Canonical ['0']
  | positive {c : Char} {digits : Numeral} (hc : isDigit c = true) (hne : c ≠ '0') (h : Digits digits) :
      Canonical (c :: digits)
  | negative {c : Char} {digits : Numeral} (hc : isDigit c = true) (hne : c ≠ '0') (h : Digits digits) :
      Canonical ('-' :: c :: digits)

end Numeral

namespace Value

open Numeral

end Value

namespace Sample

end Sample

end MessageCodec
