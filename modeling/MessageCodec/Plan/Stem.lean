import MessageCodec.Naming.Identifier
import MessageCodec.Plan.Basic
import MessageCodec.Settings

/-!
# Stems and keys

The constants of a field are named by its stem: its name in upper case, followed by its number where
that stem is in use already. A stem belongs to a field number, so of two fields with one number the
later gives its stem to both.
-/

namespace MessageCodec

namespace FieldPlan

/-- The stem of a field when some are in use. -/
def stem (used : List String) (f : FieldPlan) : String :=
  let plain := Naming.identifier (Text.upperText (Naming.snakeCase f.name)) "FIELD"
  if used.contains plain then plain ++ "_" ++ String.ofList (Numeral.ofInt f.number) else plain

def outputKeys (choice : DecodeCase) (f : FieldPlan) : List String :=
  match choice with
  | .snake => [f.name]
  | .camel => [f.jsonKey]
  | .both => Naming.insertNew f.jsonKey [f.name]

end FieldPlan

/-- The stems of fields in order of declaration, each with the number it belongs to. -/
def stemsFrom (used : List String) : List FieldPlan → List (Int × String)
  | [] => []
  | f :: rest => (f.number, f.stem used) :: stemsFrom (f.stem used :: used) rest

namespace MessagePlan

def stemOf (m : MessagePlan) (number : Int) : String :=
  (((stemsFrom [] m.fields).reverse.find? fun e => e.1 == number).map Prod.snd).getD "FIELD"

/-- The fields whose constants are named by a stem, the last first; its constants count. -/
def withStem (m : MessagePlan) (stem : String) : List FieldPlan :=
  (m.fields.filter fun f => m.stemOf f.number == stem).reverse

end MessagePlan

end MessageCodec
