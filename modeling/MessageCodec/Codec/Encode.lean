import MessageCodec.Codec.Basic

/-!
# Encoding

The fields of a message in order of declaration, each under its tag, and then the records that the
message has kept from an earlier decoding. A field without presence is left out where it holds the zero
of its type.
-/

namespace MessageCodec

namespace Value

theorem sizeOf_lt_of_get? {entries : List (String × Value)} {key : String} {w : Value}
    (h : Table.get? entries key = some w) : sizeOf w < 1 + sizeOf entries := by
  unfold Table.get? at h
  obtain ⟨e, he, rfl⟩ := Option.map_eq_some_iff.1 h
  have := List.sizeOf_lt_of_mem (List.mem_of_find?_eq_some he)
  cases e
  simp only [Prod.mk.sizeOf_spec] at *
  omega

theorem sizeOf_lt_of_member? {v w : Value} {key : String} (h : v.member? key = some w) :
    sizeOf w < sizeOf v := by
  unfold member? at h
  split at h
  · simpa using sizeOf_lt_of_get? h
  · simpa using sizeOf_lt_of_get? h
  · simp at h

/-- The value of a field is a proper part of its message. -/
theorem sizeOf_lt_of_field? {keys : List String} {v w : Value} (h : v.field? keys = some w) :
    sizeOf w < sizeOf v := by
  unfold field? at h
  obtain ⟨key, _, hk⟩ := List.exists_of_findSome?_eq_some h
  split at hk
  · rename_i u hu
    split at hk
    · simp at hk
    · simp only [Option.some.injEq] at hk
      exact hk ▸ sizeOf_lt_of_member? hu
  · simp at hk

/-- The elements of a value are no larger than the value. -/
theorem sizeOf_le_of_mem_items {v w : Value} (h : w ∈ v.items) : sizeOf w ≤ sizeOf v := by
  unfold items at h
  split at h
  · simp at h
  · have := List.sizeOf_lt_of_mem h
    simp
    omega
  · have := List.sizeOf_lt_of_mem h
    simp
    omega
  · have := List.sizeOf_lt_of_mem h
    simp
    omega
  · simp only [List.mem_singleton] at h
    simp [h]

end Value

namespace Codec

/-- The values of a field: the elements where it is repeated, or the one value. -/
def Field.itemsOf (f : Field) (w : Value) : List Value := if f.repeated then w.items else [w]

def record (tag : Int) (payload : List UInt8) : List UInt8 := Wire.varintOfInt tag ++ payload

/-- The records of a field that holds scalars or enum values. -/
def encodeElements (f : Field) (type : ElementType) (v : Value) : Except Error (List UInt8) :=
  if f.repeated then do
    let payloads ← v.items.mapM type.payload
    if f.packed then
      let packed := payloads.flatMap Payload.bytes
      return if packed.isEmpty then [] else record f.packedTag (Wire.delimited packed)
    else return payloads.flatMap fun p => record f.tag p.bytes
  else do
    let p ← type.payload v
    return if p.isZero && !f.presence then [] else record f.tag p.bytes

end Codec

namespace Codecs

/-- The bytes of a message. -/
def encode (cs : Codecs) (c : Codec) (v : Value) : Except Error (List UInt8) :=
  if v.isNull then .ok []
  else do
    let records ← c.fields.mapM fun f =>
      match h : v.field? f.keys with
      | none => .ok []
      | some w =>
        have := Value.sizeOf_lt_of_field? h
        match f.type with
        | .element type => Codec.encodeElements f type w
        | .message child => do
          let inner ← cs.child child
          if f.repeated then
            let parts ← w.items.attach.mapM fun ⟨item, _⟩ =>
              if item.isNull then .ok []
              else do
                let bytes ← cs.encode inner item
                return Codec.record f.tag (Wire.delimited bytes)
            return parts.flatten
          else
            let bytes ← cs.encode inner w
            return Codec.record f.tag (Wire.delimited bytes)
    let kept ← Wire.unknownOfValue v
    return records.flatten ++ kept
termination_by sizeOf v
decreasing_by
  · have := Value.sizeOf_le_of_mem_items ‹item ∈ w.items›
    omega
  · assumption

def encodeText (cs : Codecs) (c : Codec) (v : Value) : Except Error String := do
  let bytes ← cs.encode c v
  return Base64.encodeText bytes

end Codecs

end MessageCodec
