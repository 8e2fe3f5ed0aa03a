/-!
# Sets of characters as ranges

A character class of the Unicode standard is a list of closed ranges of code points.
-/

namespace MessageCodec.Text

/-- A set of code points, as closed ranges. -/
abbrev Ranges := List (Nat × Nat)

def Ranges.contains (table : Ranges) (c : Char) : Bool :=
  table.any fun r => r.1 ≤ c.toNat && c.toNat ≤ r.2

end MessageCodec.Text
