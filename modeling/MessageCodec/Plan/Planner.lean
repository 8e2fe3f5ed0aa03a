import MessageCodec.Naming.Case
import MessageCodec.Naming.Identifier
import MessageCodec.Naming.Resolver
import MessageCodec.Plan.Default
import MessageCodec.Plan.Feature
import MessageCodec.Plan.Selection
import MessageCodec.Settings

/-!
# Planning

A planner turns files into plans. It keeps the symbols it has handed out and the plans it has made, so
that a later set of files meets the same symbols.
-/

namespace MessageCodec

open Schema

structure Planner where
  settings : Settings
  resolver : Naming.Resolver
  /-- How the escapes of a byte-string default are read. -/
  unescape : Unescaping := Escaped.decode
  plans : Table MessagePlan := []
  journal : Journal := []

/-- Work of a planner; it keeps what was done before a failure. -/
abbrev Planning := ExceptT Error (StateM Planner)

namespace Planner

/-- A planner with the naming rules that the settings and the surroundings choose. -/
def new (w : Workspace) (settings : Settings) : Except Error Planner := do
  let rules ← w.namingRules settings.namingConfig
  let rules := rules.withOverrides settings.renames
  return { settings, resolver := .new rules settings.reserved, unescape := w.unescape }

def note (entry : JournalEntry) : Planning Unit :=
  modify fun p => { p with journal := p.journal ++ [entry] }

/-- The symbol asked for: the words of the full name, without the package unless it is wanted. -/
def wantedSymbol (settings : Settings) (package : Option String) (fullName : String) : String :=
  let rest :=
    match package with
    | some package =>
      let front := (package ++ ".").toList
      if !package.isEmpty && front.isPrefixOf fullName.toList && !settings.packageInNames then
        String.ofList (fullName.toList.drop front.length)
      else fullName
    | none => fullName
  let parts := (Text.split '.' rest).filter fun s => !s.isEmpty
  Naming.identifier (String.join (parts.map Naming.pascalCase)) "Message"

def register (place : Plan.Place) : Planning Unit := do
  let p ← get
  let wanted := wantedSymbol p.settings place.file.package place.message.fullName
  let (_, resolver) ← (p.resolver.register place.message.fullName "" wanted : Except Error _)
  modify fun p => { p with resolver }

/-- Whether the values of a field share records. An explicit choice wins; otherwise the dialect and, in
the newest one, a feature decides. -/
def packed (place : Plan.Place) (f : Field) : Planning Bool := do
  if f.cardinality ≠ .repeated then return false
  let packable := FieldPlan.packable f.kind f.scalar
  let requested ← (match f.packed, place.file.dialect with
    | some choice, _ => .ok choice
    | none, .editions =>
      match Plan.feature? "repeated_field_encoding"
        (Plan.scopes f place.message place.around place.file) with
      | some v => if packable then Plan.isSetting v "PACKED" else .ok false
      | none => .ok packable
    | none, dialect => .ok (packable && dialect = .proto3) : Except Error Bool)
  if requested && !packable then
    note ⟨.warning, "Ignoring packed encoding on non-packable field " ++ place.message.fullName ++ "."
      ++ f.name⟩
    return false
  return requested

/-- Whether an absent field differs from one that holds its default. -/
def presence (place : Plan.Place) (f : Field) : Except Error Bool :=
  if f.cardinality = .repeated then .ok false
  else if f.kind = .message || f.oneof.isSome || f.proto3Optional then .ok true
  else
    match place.file.dialect with
    | .proto2 => .ok true
    | .proto3 => .ok false
    | .editions =>
      match Plan.feature? "field_presence" (Plan.scopes f place.message place.around place.file) with
      | some v => (Plan.isSetting v "IMPLICIT").map Bool.not
      | none => .ok true

def field (place : Plan.Place) (f : Field) : Planning FieldPlan := do
  let enum ← (match f.kind, f.resolved with
    | .enum, some (.enum e) => (EnumTable.build e).map some
    | _, _ => .ok none : Except Error _)
  let child := (Plan.messageTarget? f).map Prod.snd
  let packed ← packed place f
  let presence ← (presence place f : Except Error _)
  let p ← get
  let default ← (Plan.fieldDefault p.unescape place.file.dialect f : Except Error _)
  return {
    name := f.name
    number := f.number
    kind := f.kind
    scalar := if f.kind = .scalar then f.scalar else none
    enum, child
    repeated := f.cardinality = .repeated
    packed
    jsonName := some ((f.jsonName.filter fun s => !s.isEmpty).getD (Naming.camelCase f.name))
    presence, default }

def message (selected : List String) (place : Plan.Place) : Planning MessagePlan := do
  let m := place.message
  m.fields.forM fun f =>
    match Plan.obstacle? selected f with
    | some reason => note ⟨.debug, "Skipping field " ++ m.fullName ++ "." ++ f.name ++ ": " ++ reason⟩
    | none => pure ()
  let symbol ← ((← get).resolver.lookup m.fullName : Except Error _)
  let fields ← (Plan.supported selected m).mapM (field place)
  let plan : MessagePlan :=
    { name := m.name, fullName := m.fullName, symbol, fields
      dialect := place.file.dialect, fileName := some place.file.name }
  modify fun p => { p with plans := p.plans.put m.fullName plan }
  return plan

def lookup (p : Planner) (fullName : String) : Except Error MessagePlan :=
  match p.plans.get? fullName with
  | some plan => .ok plan
  | none => .error (.notSelected fullName)

/-- Plan the messages of the target files and those of other files that they need. -/
def plan (targets others : List File) : Planning (List MessagePlan) := do
  let places ← (Plan.collect targets others : Except Error _)
  let (chosen, entries) := Plan.prune (places.filter fun p => !p.message.mapEntry)
  entries.forM note
  chosen.forM register
  chosen.mapM (message (Plan.namesOf chosen))

end Planner

end MessageCodec
