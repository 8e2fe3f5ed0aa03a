import MessageCodec.Error
import MessageCodec.Value.Basic

/-!
# Values as text

The plain text of a value and its source literal. They differ on texts, which are quoted only in a
literal, and so on everything that holds one. Integers beyond the digit limit have no text.
-/

namespace MessageCodec.Value

def enclosed (opening closing : String) (items : List String) : String :=
  opening ++ ", ".intercalate items ++ closing

/-- A tuple of one keeps its comma. -/
def tupleText (items : List String) : String :=
  match items with
  | [item] => "(" ++ item ++ ",)"
  | items => enclosed "(" ")" items

def literal : Value → Except Error String
  | null => .ok "None"
  | bool b => .ok (if b then "True" else "False")
  | int n =>
    match IntegerText.write? n with
    | some digits => .ok (String.ofList digits)
    | none => .error .integerTooLong
  | float x => .ok (String.ofList (FloatNotation.standard.write x))
  | text s => .ok (Text.quotedText s)
  | bytes bs => .ok (String.ofList (Text.quotedBytes bs))
  | list items => do
    let parts ← items.attach.mapM fun ⟨v, _⟩ => v.literal
    return enclosed "[" "]" parts
  | tuple items => do
    let parts ← items.attach.mapM fun ⟨v, _⟩ => v.literal
    return tupleText parts
  | mapping entries => do
    let parts ← entries.attach.mapM fun ⟨e, _⟩ => do
      let v ← e.2.literal
      return Text.quotedText e.1 ++ ": " ++ v
    return enclosed "\x7b" "\x7d" parts
  | object _ => .ok "<object>"
  | stream _ => .ok "<iterator>"
  | decimal d => .ok ("Decimal('" ++ String.ofList d.write ++ "')")
termination_by v => sizeOf v
decreasing_by
  all_goals simp_wf
  · have := List.sizeOf_lt_of_mem ‹_ ∈ items›; omega
  · have := List.sizeOf_lt_of_mem ‹_ ∈ items›; omega
  · rename_i h
    have h1 := List.sizeOf_lt_of_mem h
    have h2 : sizeOf e.2 < sizeOf e := by cases e; simp +arith
    omega

def plainText : Value → Except Error String
  | text s => .ok s
  | decimal d => .ok (String.ofList d.write)
  | v => v.literal

/-- The text of a value in which infinities and NaN are spelled out as calls. -/
def sourceLiteral : Value → Except Error String
  | float x =>
    if x.isFinite then (float x).literal
    else if x.isNaN then .ok "float(\"nan\")"
    else .ok (if x.isNegative then "float(\"-inf\")" else "float(\"inf\")")
  | v => v.literal

end MessageCodec.Value
