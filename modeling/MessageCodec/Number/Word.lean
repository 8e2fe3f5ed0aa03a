import MessageCodec.Number.Numeral
import MessageCodec.Text.Blank

/-!
# Signed, unsigned and ZigZag views of a word

A 64-bit word is a numeral here, and its signed, unsigned and ZigZag views are numerals too. A 32-bit
word is an integer. What lies outside the range of a word counts as zero, except that a 32-bit view of
a longer numeral keeps the low 32 bits.
-/

namespace MessageCodec

namespace Numeral

def int32Max : Numeral := "2147483647".toList

def uint32Max : Numeral := "4294967295".toList

def int64Max : Numeral := "9223372036854775807".toList

/-- One more than the greatest unsigned 64-bit number. -/
def uint64Modulus : Numeral := "18446744073709551616".toList

/-- The unsigned view of a signed numeral. Numbers from `-2^63` to `2^64 - 1` have one, any other
number counts as zero. -/
def toUnsigned64 (signed : Numeral) : Numeral :=
  match signed with
  | '-' :: rest =>
    let magnitude := trim rest
    if compare magnitude (add int64Max ['1']) = .gt then ['0'] else subtract uint64Modulus magnitude
  | _ =>
    let unsigned := trim signed
    if compare unsigned uint64Modulus = .lt then unsigned else ['0']

def hasUnsigned64 (signed : Numeral) : Bool :=
  match signed with
  | '-' :: rest =>
    let magnitude := trim rest
    compare magnitude (add int64Max ['1']) = .gt || hasDifference uint64Modulus magnitude
  | _ => true

def toSigned64 (unsigned : Numeral) : Numeral :=
  let trimmed := trim unsigned
  if compare trimmed int64Max = .gt then
    let magnitude := subtract uint64Modulus trimmed
    if magnitude = ['0'] then ['0'] else '-' :: magnitude
  else trimmed

def hasSigned64 (unsigned : Numeral) : Bool :=
  compare (trim unsigned) int64Max ≠ .gt || hasDifference uint64Modulus (trim unsigned)

/-- The ZigZag form of a signed numeral: small magnitudes of either sign become small numbers. -/
def encodeZigzag64 (signed : Numeral) : Numeral :=
  let encoded :=
    match signed with
    | '-' :: rest => subtract (multiply (trim rest) 2) ['1']
    | _ => multiply signed 2
  if compare encoded uint64Modulus = .lt then encoded else ['0']

def decodeZigzag64 (value : Numeral) : Numeral :=
  let trimmed := trim value
  let (quotient, remainder) := divide trimmed 2
  if remainder = 0 then quotient else '-' :: (divide (add trimmed ['1']) 2).1

/-- The integer of a text that is, blanks aside, a signed run of digits; any other text counts as
zero. -/
def integerOrZero (cs : List Char) : Int :=
  match signed? (Text.trim cs) with
  | some (negative, digits) => signedVal negative digits
  | none => 0

end Numeral

namespace Word

def ofBytes (bs : List UInt8) : Nat := bs.foldr (fun b high => b.toNat + 256 * high) 0

def toBytes : (count n : Nat) → List UInt8
  | 0, _ => []
  | count + 1, n => (n % 256).toUInt8 :: toBytes count (n / 256)

/-- The signed number with the given low 32 bits. -/
def signed32 (n : Nat) : Int :=
  let low : Nat := n % 0x100000000
  if low < 0x80000000 then low else (low : Int) - 0x100000000

/-- The unsigned view of an integer: a negative one gains `2^32`. -/
def toUnsigned32 (n : Int) : Int := if n < 0 then n + 0x100000000 else n

/-- The signed view of an integer: after the unsigned view, what reaches `2^31` loses `2^32`. -/
def toSigned32 (n : Int) : Int :=
  let unsigned := toUnsigned32 n
  if 0x80000000 ≤ unsigned then unsigned - 0x100000000 else unsigned

def unsigned32OfNumeral (a : Numeral) : Int :=
  let trimmed := Numeral.trim a
  if Numeral.compare trimmed Numeral.uint32Max = .gt then ofBytes (Numeral.toBytes trimmed 4)
  else Numeral.integerOrZero trimmed

def signed32OfNumeral (a : Numeral) : Int :=
  let trimmed := Numeral.trim a
  if Numeral.compare trimmed Numeral.int32Max = .gt then
    signed32 (ofBytes (Numeral.toBytes trimmed 4))
  else Numeral.integerOrZero trimmed

def encodeZigzag32 (n : Int) : Int := if 0 ≤ n then n * 2 else -n * 2 - 1

def unzigzag (unsigned : Int) : Int :=
  if unsigned % 2 = 0 then unsigned / 2 else -((unsigned + 1) / 2)

/-- The integer of the ZigZag form in the low 32 bits of an integer. -/
def decodeZigzag32 (n : Int) : Int := unzigzag (n % 0x100000000)

def decodeZigzag32OfNumeral (a : Numeral) : Int := unzigzag (unsigned32OfNumeral a)

end Word

end MessageCodec
