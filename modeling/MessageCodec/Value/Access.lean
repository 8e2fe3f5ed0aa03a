import MessageCodec.Error
import MessageCodec.Text.Base64
import MessageCodec.Value.Basic

/-!
# Reading and building messages

A field is looked up under several keys, the first value that is not null winning. Building a message
assigns, appends or fills in defaults under one or more keys at once.
-/

namespace MessageCodec

/-- The key under which a decoded message keeps the records that no field claimed. -/
def unknownKey : String := "__pb_unknown"

namespace Value

/-- The value under a key of a mapping or an attribute of an object. -/
def member? (v : Value) (key : String) : Option Value :=
  match v with
  | mapping entries => Table.get? entries key
  | object attributes => Table.get? attributes key
  | _ => none

/-- The first value under one of several keys that is not null. -/
def field? (keys : List String) (v : Value) : Option Value :=
  keys.findSome? fun key =>
    match v.member? key with
    | some w => if w.isNull then none else some w
    | none => none

/-- The elements of a value in a repeated position; anything that is not a sequence counts as one
element. -/
def items : Value → List Value
  | null => []
  | list items | tuple items | stream items => items
  | v => [v]

end Value

namespace Entries

def assign (keys : List String) (entries : Entries) (v : Value) : Entries :=
  keys.foldl (fun acc key => acc.put key v) entries

/-- Append elements to the list under a key, which is created if missing. -/
def appendOne (key : String) (entries : Entries) (values : List Value) : Option Entries :=
  match entries.get? key with
  | none => some (entries.put key (.list values))
  | some (.list items) => some (entries.put key (.list (items ++ values)))
  | some _ => none

/-- Append elements to the lists under every key. A key that holds something else ends the work: the
entries so far come back with the error. -/
def append (keys : List String) (entries : Entries) (values : List Value) :
    Except (Entries × Error) Entries :=
  match keys with
  | [] => .ok entries
  | key :: rest =>
    match entries.appendOne key values with
    | some next => append rest next values
    | none => .error (entries, .notAList key)

/-- Put a default under every key unless the first key is there already. -/
def fillDefault (keys : List String) (entries : Entries) (v : Value) : Entries :=
  match keys with
  | [] => entries
  | key :: _ => if entries.has key then entries else entries.assign keys v

/-- Keep bytes that no field claimed, if there are any. -/
def attachUnknown (entries : Entries) (unknown : List UInt8) : Entries :=
  if unknown.isEmpty then entries else entries.put unknownKey (.text (Base64.encodeText unknown))

end Entries

end MessageCodec
