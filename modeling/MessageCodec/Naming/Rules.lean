import MessageCodec.Text.Blank
import MessageCodec.Value.Json

/-!
# Naming rules

Which symbols are taken, which types have a symbol chosen by hand, and what is put into a symbol that
collides. Rules are read from a JSON object; entries are trimmed, and empty ones do not count. Torn texts
among them are kept as they are shown, and it is noted which they are.
-/

namespace MessageCodec.Naming

/-- Add an element to a list that stands for a set. -/
def insertNew (s : String) (set : List String) : List String :=
  if set.contains s then set else set ++ [s]

structure Rules where
  reserved : List String
  overrides : Table String
  collisionSuffix : String := "Proto"
  /-- The types whose symbol chosen by hand is torn. -/
  torn : List String := []
  tornSuffix : Bool := false
deriving DecidableEq

namespace Rules

def standard : Rules where
  reserved := ["MessageHandler", "get_message_handlers", "messages"]
  overrides := []

/-- Add symbols chosen by hand; empty ones do not count. -/
def withOverrides (rules : Rules) (more : Table String) : Rules :=
  let chosen := more.filter fun e => !e.2.isEmpty
  { rules with
    overrides := chosen.foldl (fun t e => t.put e.1 e.2) rules.overrides
    torn := rules.torn.filter fun name => !Table.has chosen name }

/-- The reserved symbols of a configuration. A torn one is left out: it is no symbol of a message. -/
def reservedOf (v : Json.Tree) : Except Error (List String) :=
  match v with
  | .list items =>
    items.foldlM (fun set item =>
      match item with
      | .text ls =>
        let s := Text.trimText (Json.shown ls)
        .ok (if s.isEmpty || Json.isTorn ls then set else insertNew s set)
      | _ => .error .reservedNotText) []
  | _ => .error .reservedNotSequence

/-- The symbols chosen by hand in a configuration, and whether they are torn. No type has a torn name. -/
def overridesOf (v : Json.Tree) : Except Error (Table (String × Bool)) :=
  match v with
  | .object members =>
    members.foldlM (fun table e =>
      match e.2 with
      | .text ls =>
        let key := Text.trimText (Json.shown e.1)
        let s := Text.trimText (Json.shown ls)
        .ok (if key.isEmpty || s.isEmpty || Json.isTorn e.1 then table else table.put key (s, Json.isTorn ls))
      | _ => .error .overrideNotText) []
  | _ => .error .overridesNotMapping

/-- The collision suffix of a configuration, and whether it is torn; anything but a non-empty text counts
as missing. -/
def suffixOf : Option Json.Tree → String × Bool
  | some (.text ls) => if ls.isEmpty then ("Proto", false) else (Json.shown ls, Json.isTorn ls)
  | _ => ("Proto", false)

/-- Rules from a configuration. Missing parts are empty. -/
def ofConfiguration (v : Json.Tree) : Except Error Rules :=
  match v with
  | .object members => do
    let reserved ← reservedOf ((Json.member? members "reserved_symbols").getD (.list []))
    let overrides ← overridesOf ((Json.member? members "overrides").getD (.object []))
    let (collisionSuffix, tornSuffix) := suffixOf (Json.member? members "collision_suffix")
    return {
      reserved
      overrides := overrides.map fun e => (e.1, e.2.1)
      collisionSuffix
      torn := (overrides.filter fun e => e.2.2).map Prod.fst
      tornSuffix }
  | _ => .error .rulesNotMapping

/-- A symbol that is not chosen by hand is torn where it has a torn suffix in it, which shows as the
replacement: no identifier has one. -/
def tears (rules : Rules) (symbol : String) : Bool := rules.tornSuffix && symbol.toList.contains Utf8.replacement

/-- The error of a symbol chosen by hand, told apart where it is torn. -/
def tear (rules : Rules) : Error → Error
  | .overrideConflict symbol fullName =>
    if rules.torn.contains fullName then .tornOverride symbol fullName else .overrideConflict symbol fullName
  | e => e

def ofText (room : Nat) (cs : List Char) : Except Error Rules := do
  let v ← Json.parse room cs
  ofConfiguration v

end Rules

end MessageCodec.Naming
