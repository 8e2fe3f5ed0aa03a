import MessageCodec.Number.Word
import MessageCodec.Text.Base64
import MessageCodec.Text.Case
import MessageCodec.Value.Literal

/-!
# Coercions

How any value is read as a value of a field's type. Numbers are taken from integers, doubles, decimals
and texts and cut off toward zero; what is not a number counts as zero, what is not text is printed,
and bytes come from base64 text or a sequence of byte values. The only failure is a number with more
digits than are ever converted.
-/

namespace MessageCodec.Value

/-- Bytes as ASCII text, with a replacement for every other byte. -/
def asciiText (bs : List UInt8) : List Char :=
  bs.map fun b => if b.toNat < 0x80 then Char.ofNat b.toNat else Utf8.replacement

/-- The integer part of a double as a numeral, zero where it has none. -/
def numeralOfFloat (x : Binary64) : Numeral :=
  if x.isFinite then Numeral.ofInt x.truncate else ['0']

/-- A text as a signed numeral: digits are kept exactly, any other number goes through a double. -/
def numeralOfText (cs : List Char) : Numeral :=
  let plain := Text.trim cs
  match Numeral.signed? plain with
  | some (negative, digits) =>
    let trimmed := Numeral.trim digits
    if negative && trimmed != ['0'] then '-' :: trimmed else trimmed
  | none =>
    match NumberText.float? plain with
    | some x => numeralOfFloat x
    | none => ['0']

/-- A value as a signed numeral without leading zeros. -/
def toSignedNumeral : Value → Except Error Numeral
  | bool b => .ok (if b then ['1'] else ['0'])
  | int n =>
    match IntegerText.write? n with
    | some digits => .ok digits
    | none => .error .integerTooLong
  | float x => .ok (numeralOfFloat x)
  | bytes bs => .ok (numeralOfText (asciiText bs))
  | text s => .ok (numeralOfText s.toList)
  | decimal d => .ok ((d.truncate?.bind IntegerText.write?).getD ['0'])
  | _ => .ok ['0']

/-- A value as an unsigned 64-bit numeral; negative numbers wrap around. -/
def toUnsignedNumeral (v : Value) : Except Error Numeral := do
  let signed ← v.toSignedNumeral
  return signed.toUnsigned64

def toZigzag64 (v : Value) : Except Error Numeral := do
  let signed ← v.toSignedNumeral
  return signed.encodeZigzag64

def integerOfDigits (negative : Bool) (digits : Numeral) : Except Error Int :=
  if IntegerText.digitLimit < digits.length then .error (.numeralTooLong digits.length)
  else .ok (Numeral.signedVal negative digits)

/-- The integer of a text that is, blanks aside, a signed run of digits; any other text counts as
zero. -/
def integerOfText (cs : List Char) : Except Error Int :=
  match Numeral.signed? (Text.trim cs) with
  | some (negative, digits) => integerOfDigits negative digits
  | none => .ok 0

/-- The integer that the text of a value spells; null counts as zero. -/
def readInteger : Value → Except Error Int
  | null => .ok 0
  | v => do
    let s ← v.plainText
    integerOfText s.toList

def readNumeral : Value → Except Error Numeral
  | null => .ok ['0']
  | v => do
    let s ← v.plainText
    return s.toList

def toInteger (v : Value) : Except Error Int := do
  let signed ← v.toSignedNumeral
  integerOfText signed

/-- An integer that has a 32-bit view, signed or unsigned. -/
def fits32 (n : Int) : Bool := -0x80000000 ≤ n && n < 0x100000000

def toInt32 (v : Value) : Except Error Int := do
  let n ← v.toInteger
  return if fits32 n then Word.toSigned32 n else 0

def toUInt32 (v : Value) : Except Error Int := do
  let n ← v.toInteger
  return if fits32 n then Word.toUnsigned32 n else 0

def toDouble : Value → Binary64
  | bool b => if b then .one else .zero
  | int n => (Binary64.ofInt? n).getD .zero
  | float x => x
  | text s => (NumberText.float? s.toList).getD .zero
  | bytes bs => (NumberText.float? (asciiText bs)).getD .zero
  | decimal d => d.toBinary64?.getD .zero
  | _ => .zero

/-- A number that equals zero and does not carry a minus sign. -/
def isPositiveZero : Value → Bool
  | bool b => !b
  | int n => n == 0
  | float x => x.isPositiveZero
  | decimal (.finite negative coefficient _) => !negative && coefficient == 0
  | _ => false

/-- A value as a truth value: `true` and `1` in any case among texts, and numbers other than zero. -/
def toTruth : Value → Bool
  | bool b => b
  | text s =>
    let word := Text.lower (Text.trim s.toList)
    word = "true".toList || word = "1".toList
  | int n => n != 0
  | float x => !x.isZero
  | _ => false

def toText : Value → Except Error String
  | null => .ok ""
  | text s => .ok s
  | bool b => .ok (if b then "true" else "false")
  | bytes bs => .ok (String.ofList (Utf8.decodeLossy bs))
  | v => v.plainText

/-- A value as bytes: base64 text, or a sequence of byte values. -/
def toByteString : Value → Except Error (List UInt8)
  | bytes bs => .ok bs
  | text s => .ok (Base64.decode s.toList)
  | list items | tuple items =>
    items.mapM fun v => do
      let n ← v.toInteger
      return (n % 256).toNat.toUInt8
  | _ => .ok []

/-- Encoded bytes as they are handed to a decoder: raw bytes as they are, anything else by its text. -/
def toEncoded : Value → Except Error (List UInt8)
  | null => .ok []
  | bytes bs => .ok bs
  | v => do
    let s ← v.plainText
    return Base64.decode s.toList

/-- A value as an enum number: a label in any case, or a number. Unknown labels count as zero. -/
def toEnumNumber (byName : List (String × Int)) : Value → Except Error Int
  | null => .ok 0
  | text s =>
    let plain := Text.trim s.toList
    match Numeral.signed? plain with
    | some _ => (text (String.ofList plain)).toInt32
    | none => .ok (((byName.find? fun e => e.1 == Text.upperText (String.ofList plain)).map Prod.snd).getD 0)
  | v => v.toInt32

/-- The name of an enum number; unknown numbers fall back to the name of zero, then to the number. -/
def ofEnumNumber (byNumber : List (String × String)) (zeroName : Option String) (n : Int) : Value :=
  let digits := String.ofList (Numeral.ofInt n)
  match (byNumber.find? fun e => e.1 == digits).map Prod.snd with
  | some name => text name
  | none =>
    match zeroName with
    | some name => text name
    | none => int n

end MessageCodec.Value
