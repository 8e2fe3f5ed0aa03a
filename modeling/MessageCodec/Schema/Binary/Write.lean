import MessageCodec.Schema.Binary.Read

/-!
# Writing serialized descriptors

The serialized form of sets of files, with the options that matter here.
-/

namespace MessageCodec.Descriptor

namespace Binary

def blockRecord (number : Nat) (bs : List UInt8) : List UInt8 :=
  Wire.varintOfNat (8 * number + 2) ++ Wire.delimited bs

def numberRecord (number : Nat) (n : Int) : List UInt8 :=
  Wire.varintOfNat (8 * number) ++ Wire.varintOfInt n

def textRecord (number : Nat) (s : String) : List UInt8 := blockRecord number (Utf8.encode s.toList)

/-- A record that holds a text that is not empty. -/
def givenText (number : Nat) (s : String) : List UInt8 := if s.isEmpty then [] else textRecord number s

def numberOf? (names : List (Nat × String)) (name : String) : Option Nat :=
  (names.find? fun e => e.2 == name).map Prod.fst

def settingRecord (number : Nat) (names : List (Nat × String)) (v : Option Value) : List UInt8 :=
  match v with
  | some (.text name) => ((numberOf? names name).map fun (n : Nat) => numberRecord number n).getD []
  | _ => []

def optionRecords (form : OptionForm) (options : Entries) : List UInt8 :=
  let switches := form.switches.flatMap fun s =>
    match switch? options s.2 with
    | some b => numberRecord s.1 (if b then 1 else 0)
    | none => []
  match options.get? "features" with
  | some (.mapping features) =>
    switches ++ blockRecord form.features
      (settingRecord 1 presences (Table.get? features "field_presence")
        ++ settingRecord 3 encodings (Table.get? features "repeated_field_encoding"))
  | _ => switches

def codeOf {α : Type} [DecidableEq α] (table : List (Nat × α)) (a : α) : Nat :=
  ((table.find? fun e => e.2 = a).map Prod.fst).getD 0

def fieldBytes (f : Field) : List UInt8 :=
  givenText 1 f.name ++ numberRecord 3 f.number ++ numberRecord 4 (codeOf labels f.label)
    ++ numberRecord 5 (codeOf fieldTypes f.type) ++ givenText 6 f.typeName
    ++ (f.default.map (textRecord 7)).getD [] ++ blockRecord 8 (optionRecords fieldForm f.options)
    ++ (f.oneofIndex.map (numberRecord 9)).getD [] ++ givenText 10 f.jsonName
    ++ numberRecord 17 (if f.proto3Optional then 1 else 0)

def enumBytes (e : Enum) : List UInt8 :=
  givenText 1 e.name
    ++ e.values.flatMap fun v => blockRecord 2 (givenText 1 v.1 ++ numberRecord 2 v.2)

mutual

def messageBytes (m : Message) : List UInt8 :=
  match m with
  | ⟨name, fields, nested, enums, oneofs, options⟩ =>
    givenText 1 name ++ fields.flatMap (fun f => blockRecord 2 (fieldBytes f))
      ++ messagesBytes 3 nested ++ enums.flatMap (fun e => blockRecord 4 (enumBytes e))
      ++ blockRecord 7 (optionRecords messageForm options)
      ++ oneofs.flatMap fun o => blockRecord 8 (givenText 1 o)

def messagesBytes (number : Nat) : List Message → List UInt8
  | [] => []
  | m :: rest => blockRecord number (messageBytes m) ++ messagesBytes number rest

end

def fileBytes (f : File) : List UInt8 :=
  givenText 1 f.name ++ givenText 2 f.package ++ f.dependencies.flatMap (textRecord 3)
    ++ messagesBytes 4 f.messages ++ f.enums.flatMap (fun e => blockRecord 5 (enumBytes e))
    ++ blockRecord 8 (optionRecords fileForm f.options) ++ givenText 12 f.dialect

end Binary

def bytesOfSet (files : List File) : List UInt8 :=
  files.flatMap fun f => Binary.blockRecord 1 (Binary.fileBytes f)

end MessageCodec.Descriptor
