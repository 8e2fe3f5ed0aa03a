import MessageCodec.Plan.EnumTable
import MessageCodec.Text.Base64

/-!
# Default values

The value of a field that is absent, in the form in which a decoder hands it out: the declared default,
or the zero of the type. A declared number that cannot be read counts as zero. How the escapes of a byte
string are read is a parameter.
-/

namespace MessageCodec.Plan

/-- A declared integer: in base ten, or with a prefix that names the base. -/
def declaredInteger (s : String) : Int :=
  let cs := Text.trim s.toList
  let written (n : Int) : Option Int := (IntegerText.write? n).map fun _ => n
  (((IntegerText.signed? IntegerText.baseTen? cs).bind written).or
    ((IntegerText.signed? IntegerText.anyBase? cs).bind written)).getD 0

def declaredFloat (s : String) : Binary64 :=
  let lowered := Text.lower (Text.trim s.toList)
  (NumberText.float? lowered).getD .zero

def scalarDefault (unescape : Unescaping) (type : ScalarType) (declared : String) : Except Error Value :=
  if declared.isEmpty then
    return match type with
      | .string | .bytes => .text ""
      | .bool => .bool false
      | .float | .double => .float .zero
      | _ => if type.isNumeral then .text "0" else .int 0
  else
    match type with
    | .string => .ok (.text declared)
    | .bytes =>
      match unescape declared with
      | .ok bs => .ok (.text (Base64.encodeText bs))
      | .error e => .error (.badEscape e)
    | .bool => .ok (.bool (Text.lowerText (Text.trimText declared) == "true"))
    | .float | .double => .ok (.float (declaredFloat declared))
    | _ =>
      let n := declaredInteger declared
      .ok (if type.isNumeral then .text (String.ofList (Numeral.ofInt n)) else .int n)

/-- The default of an enum field. In the oldest dialect it is the first value, later the value zero. -/
def enumDefault (dialect : Schema.Dialect) (e : Schema.Enum) (declared : String) : Value :=
  if !declared.isEmpty then .text declared
  else
    match dialect, e.values with
    | .proto2, v :: _ => .text v.1
    | _, _ =>
      match (EnumTable.ofEnum e).defaultName with
      | some name => .text name
      | none => .int 0

def fieldDefault (unescape : Unescaping) (dialect : Schema.Dialect) (f : Schema.Field) :
    Except Error Value :=
  if f.cardinality = .repeated then .ok (.list [])
  else
    let declared := f.default.getD ""
    match f.kind, f.resolved with
    | .message, _ => .ok .null
    | .enum, some (.enum e) => .ok (enumDefault dialect e declared)
    | _, _ => do
      let type ← FieldPlan.scalarOf f.scalar
      scalarDefault unescape type declared

end MessageCodec.Plan
