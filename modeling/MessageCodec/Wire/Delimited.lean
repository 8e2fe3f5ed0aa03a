import MessageCodec.Value.Access
import MessageCodec.Wire.Varint

/-!
# Length-delimited payloads

A length and that many bytes: texts, byte strings, child messages and packed elements.
-/

namespace MessageCodec.Wire

def delimited (payload : List UInt8) : List UInt8 := varintOfNat payload.length ++ payload

def readDelimited : Reader (List UInt8) := fun bs =>
  match readVarint32 bs with
  | some (length, rest) => take length rest
  | none => none

/-- A payload and what follows it are together shorter than the bytes they are read from. -/
theorem readDelimited_lt {bs payload rest : List UInt8} (h : readDelimited bs = some (payload, rest)) :
    payload.length + rest.length < bs.length := by
  unfold readDelimited at h
  split at h
  · rename_i length after hr
    have := readVarint32_lt hr
    have := length_take_add h
    omega
  · simp at h

theorem readDelimited_advances : readDelimited.Advances := fun _ _ _ h => by
  have := readDelimited_lt h
  omega

/-- Read a text; malformed stretches are replaced. -/
def readText : Reader String := readDelimited.map fun bs => String.ofList (Utf8.decodeLossy bs)

def readBase64 : Reader String := readDelimited.map Base64.encodeText

/-- The records a decoded message has kept, as they are written again. -/
def unknownOfValue (v : Value) : Except Error (List UInt8) :=
  match v.field? [unknownKey] with
  | some kept => kept.toByteString
  | none => .ok []

end MessageCodec.Wire
