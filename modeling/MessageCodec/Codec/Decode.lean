import MessageCodec.Codec.Basic

/-!
# Decoding

Records are taken off the front of the bytes one after the other. The first arm of the message that
fits the number and the form of a record reads it; a record that fits none is kept as it is. Reading
stops where no record can be read. Fields that were absent may then be filled in with their defaults.

A field that may be packed has two arms, as its elements may come alone or sharing a record whatever
its own choice is.
-/

namespace MessageCodec

namespace Codec

/-- How an arm reads a record. -/
inductive Arm where
  /-- Elements that share a record. -/
  | packed (type : ElementType)
  /-- One value. -/
  | single (type : ElementType)
  /-- One message, by full name. -/
  | message (child : String)

/-- The arm of a field for a record with a number and a form. -/
def Field.arm? (f : Field) (number code : Nat) : Option Arm :=
  if (number : Int) ≠ f.number then none
  else
    match f.type with
    | .element type =>
      if f.repeated && type.isPackable && code = Wire.WireType.delimited.code then some (.packed type)
      else if code = type.wireType.code then some (.single type)
      else none
    | .message child =>
      if code = Wire.WireType.delimited.code then some (.message child) else none

/-- The first arm of a message for a record, with its field. -/
def arm? (c : Codec) (number code : Nat) : Option (Field × Arm) :=
  c.fields.findSome? fun f => (f.arm? number code).map fun a => (f, a)

/-- What has been read of a message. -/
structure Gathered where
  entries : Entries := []
  /-- The records that fit no arm. -/
  unknown : List UInt8 := []

namespace Gathered

def append (g : Gathered) (f : Field) (values : List Value) : Except Error Gathered :=
  match g.entries.append f.outputs values with
  | .ok entries => .ok { g with entries }
  | .error (_, e) => .error e

def add (g : Gathered) (f : Field) (v : Value) : Except Error Gathered :=
  if f.repeated then g.append f [v]
  else .ok { g with entries := g.entries.assign f.outputs v }

def keep (g : Gathered) (record : List UInt8) : Gathered := { g with unknown := g.unknown ++ record }

end Gathered

/-- Fill in a field that was absent. A field with presence stays absent. -/
def fillField (entries : Entries) (f : Field) : Entries :=
  if f.repeated then entries.fillDefault f.outputs (.list [])
  else
    match f.type with
    | .message _ => entries
    | .element _ => if f.presence then entries else entries.fillDefault f.outputs f.default

def finish (fill : Bool) (c : Codec) (g : Gathered) : Value :=
  let entries := if fill then c.fields.foldl fillField g.entries else g.entries
  .mapping (entries.attachUnknown g.unknown)

/-- A tag: field number and wire type code. A field number of zero is no tag. -/
def readTag : Wire.Reader (Nat × Nat) := fun bs =>
  match Wire.readVarint32 bs with
  | some (tag, rest) => if tag / 8 = 0 then none else some ((tag / 8, tag % 8), rest)
  | none => none

theorem readTag_advances : readTag.Advances := by
  intro bs a rest h
  unfold readTag at h
  split at h
  · rename_i tag after hr
    split at h
    · simp at h
    · simp only [Option.some.injEq, Prod.mk.injEq] at h
      exact h.2 ▸ Wire.readVarint32_lt hr
  · simp at h

/-- A turn of the decoding loop, with `child` for the decoder of the messages in it. -/
def turnBy (child : String → List UInt8 → Except Error Value) (c : Codec) (g : Gathered) (data : List UInt8) :
    Option (Except Error Gathered × List UInt8) := do
  let ((number, code), rest) ← readTag data
  match c.arm? number code with
  | some (f, .packed type) =>
    let (payload, after) ← Wire.readDelimited rest
    return (g.append f (Wire.readAll type.reader payload), after)
  | some (f, .single type) =>
    let (v, after) ← type.reader rest
    return (g.add f v, after)
  | some (f, .message name) =>
    let (payload, after) ← Wire.readDelimited rest
    return (child name payload >>= g.add f, after)
  | none =>
    let after ← Wire.skip code number rest
    return (.ok (g.keep (data.take (data.length - after.length))), after)

theorem turnBy_lt {child : String → List UInt8 → Except Error Value} {c : Codec} {g : Gathered} {data after : List UInt8}
    {taken : Except Error Gathered} (h : c.turnBy child g data = some (taken, after)) : after.length < data.length := by
  rw [turnBy] at h
  simp only [Option.bind_eq_bind, Option.bind_eq_some_iff] at h
  obtain ⟨⟨⟨number, code⟩, rest⟩, htag, h⟩ := h
  have hrest := readTag_advances _ _ _ htag
  dsimp only at h
  split at h <;>
    simp only [Option.bind_eq_some_iff, Option.pure_def, Option.some.injEq, Prod.mk.injEq] at h
  · obtain ⟨_, hread, _, rfl⟩ := h
    exact Nat.lt_trans (Wire.readDelimited_advances _ _ _ hread) hrest
  · obtain ⟨_, hread, _, rfl⟩ := h
    exact Nat.lt_trans (ElementType.reader_advances _ _ _ _ hread) hrest
  · obtain ⟨_, hread, _, rfl⟩ := h
    exact Nat.lt_trans (Wire.readDelimited_advances _ _ _ hread) hrest
  · obtain ⟨_, hskip, _, rfl⟩ := h
    exact Nat.lt_trans (Wire.skip_lt hskip) hrest

def gatherBy (child : String → List UInt8 → Except Error Value) (c : Codec) (g : Gathered)
    (data : List UInt8) : Except Error Gathered :=
  match h : c.turnBy child g data with
  | none => .ok g
  | some (taken, after) =>
    have := turnBy_lt h
    taken >>= fun g => gatherBy child c g after
termination_by data.length

end Codec

namespace Codecs

open Codec

def gather (cs : Codecs) (c : Codec) (g : Gathered) (data : List UInt8) : Except Error Gathered :=
  match ht : readTag data with
  | none => .ok g
  | some ((number, code), rest) =>
    have := readTag_advances _ _ _ ht
    match c.arm? number code with
    | some (f, .packed type) =>
      match hp : Wire.readDelimited rest with
      | none => .ok g
      | some (payload, after) => do
        have := Wire.readDelimited_lt hp
        let g ← g.append f (Wire.readAll type.reader payload)
        cs.gather c g after
    | some (f, .single type) =>
      match hv : type.reader rest with
      | none => .ok g
      | some (v, after) => do
        have := type.reader_advances _ _ _ hv
        let g ← g.add f v
        cs.gather c g after
    | some (f, .message child) =>
      match hp : Wire.readDelimited rest with
      | none => .ok g
      | some (payload, after) => do
        have := Wire.readDelimited_lt hp
        let inner ← cs.child child
        let gathered ← cs.gather inner {} payload
        let g ← g.add f (finish cs.fillDefaults inner gathered)
        cs.gather c g after
    | none =>
      match hs : Wire.skip code number rest with
      | none => .ok g
      | some after =>
        have := Wire.skip_lt hs
        cs.gather c (g.keep (data.take (data.length - after.length))) after
termination_by data.length

/-- The message that bytes stand for. -/
def decode (cs : Codecs) (c : Codec) (data : List UInt8) : Except Error Value := do
  let gathered ← cs.gather c {} data
  return finish cs.fillDefaults c gathered

/-- The message that an encoded value stands for: base64 text or raw bytes. -/
def decodeValue (cs : Codecs) (c : Codec) (v : Value) : Except Error Value := do
  let data ← v.toEncoded
  cs.decode c data

end Codecs

end MessageCodec
