import MessageCodec.Plan.Basic
import MessageCodec.Text.Case

/-!
# Tables of an enum

The first of several values with a number gives the number its name, and the first of several names
that agree up to case gives the name its number.
-/

namespace MessageCodec.EnumTable

def numbers (values : List (String × Int)) : Table Int :=
  let table := values.foldl (fun (t : Table Int) v => t.putNew (Text.upperText v.1) v.2) []
  table.mergeSort fun a b => a.1 ≤ b.1

def names (values : List (String × Int)) : List (Int × String) :=
  let table := values.foldl (fun t v =>
    if t.any fun (e : Int × String) => e.1 == v.2 then t else t ++ [(v.2, v.1)]) []
  table.mergeSort fun a b => a.1 ≤ b.1

def ofEnum (e : Schema.Enum) : EnumTable :=
  { name := e.name
    fullName := e.fullName
    byName := numbers e.values
    byNumber := (names e.values).map fun v => (String.ofList (Numeral.ofInt v.1), v.2) }

/-- The tables of an enum whose numbers are all within the digit limit. -/
def build (e : Schema.Enum) : Except Error EnumTable :=
  if e.values.all fun v => (IntegerText.write? v.2).isSome then .ok (ofEnum e) else .error .integerTooLong

end MessageCodec.EnumTable
