import MessageCodec.Number.Decimal
import MessageCodec.Table

/-!
# Message values

The values a message is built from before it is encoded and after it is decoded. They are dynamic: a
caller may hand over any of them for any field, and the coercions decide what goes on the wire. The
entries of a mapping keep their order and their keys are distinct.
-/

namespace MessageCodec

inductive Value where
  | null
  | bool (b : Bool)
  | int (n : Int)
  | float (x : Binary64)
  | text (s : String)
  | bytes (bs : List UInt8)
  | list (items : List Value)
  | tuple (items : List Value)
  | mapping (entries : List (String × Value))
  /-- A value with named attributes that is not a mapping. -/
  | object (attributes : List (String × Value))
  /-- A sequence that is handed over element by element. -/
  | stream (items : List Value)
  | decimal (d : Decimal)
deriving Inhabited

/-- The entries of a message, in order of their first assignment. -/
abbrev Entries := Table Value

namespace Value

def isNull : Value → Bool
  | null => true
  | _ => false

end Value

end MessageCodec
