import MessageCodec.Value.Coerce
import MessageCodec.Wire.Reader

/-!
# Fixed-width words

Four or eight bytes, least significant first: unsigned and signed integers, singles and doubles.
-/

namespace MessageCodec.Wire

/-- A 32-bit word, taken modulo `2^32`. -/
def fixed32 (n : Int) : List UInt8 := Word.toBytes 4 (Word.toUnsigned32 n % 0x100000000).toNat

/-- A signed 32-bit word; an integer without a signed view in range is refused. -/
def sfixed32 (n : Int) : Except Error (List UInt8) :=
  let signed := Word.toSigned32 n
  if -0x80000000 ≤ signed && signed < 0x80000000 then .ok (Word.toBytes 4 (signed % 0x100000000).toNat)
  else .error .wordRange

def fixed64OfValue (v : Value) : Except Error (List UInt8) := do
  let a ← v.toUnsignedNumeral
  return a.toBytes 8

/-- The nearest single; beyond the greatest single it is an infinity. -/
def single (x : Binary64) : List UInt8 := Word.toBytes 4 x.toSingle

def double (x : Binary64) : List UInt8 := Word.toBytes 8 x.pattern

def readFixed32 : Reader Nat := (take 4).map Word.ofBytes

def readSfixed32 : Reader Int := (take 4).map fun bs => Word.signed32 (Word.ofBytes bs)

def readFixed64 : Reader Numeral := (take 8).map Numeral.ofBytes

def readSfixed64 : Reader Numeral := readFixed64.map Numeral.toSigned64

def readSingle : Reader Binary64 := (take 4).map fun bs => Binary64.ofSingle (Word.ofBytes bs)

def readDouble : Reader Binary64 := (take 8).map fun bs => Binary64.ofPattern (Word.ofBytes bs)

theorem readFixed32_advances : readFixed32.Advances := (take_advances (by decide)).map _

theorem readSfixed32_advances : readSfixed32.Advances := (take_advances (by decide)).map _

theorem readFixed64_advances : readFixed64.Advances := (take_advances (by decide)).map _

theorem readSfixed64_advances : readSfixed64.Advances := readFixed64_advances.map _

theorem readSingle_advances : readSingle.Advances := (take_advances (by decide)).map _

theorem readDouble_advances : readDouble.Advances := (take_advances (by decide)).map _

end MessageCodec.Wire
