import MessageCodec.Schema.Basic
import MessageCodec.Text.Case
import MessageCodec.Value.Access
import MessageCodec.Value.Literal

/-!
# Features

A file of the newest dialect chooses features. A feature is looked up in the options of the field, of
its message, of the messages around it from the inside out, and of the file; the first of these scopes
that mentions it decides.
-/

namespace MessageCodec.Plan

/-- The setting of a feature among the options of one scope. -/
def featureIn? (name : String) (options : Value) : Option Value :=
  match options with
  | .mapping entries =>
    match Table.get? entries "features" with
    | some (.mapping features) => Table.get? features name
    | _ => none
  | _ => none

/-- The options of the scopes of a field, innermost first. -/
def scopes (f : Schema.Field) (m : Schema.Message) (around : List Schema.Message)
    (file : Schema.File) : List Value :=
  [f.options, m.options] ++ around.reverse.map Schema.Message.options ++ [file.options]

/-- The setting of a feature for a field; null stands for none. -/
def feature? (name : String) (scopes : List Value) : Option Value :=
  (scopes.findSome? (featureIn? name)).filter fun v => !v.isNull

def isSetting (v : Value) (word : String) : Except Error Bool := do
  let s ← v.plainText
  return Text.upperText s == word

end MessageCodec.Plan
