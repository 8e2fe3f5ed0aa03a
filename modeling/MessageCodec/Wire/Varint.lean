import MessageCodec.Value.Coerce
import MessageCodec.Wire.Reader

/-!
# Varints

Groups of seven bits, least significant first, all but the last with the high bit set. At most ten
bytes are read. 64-bit varints are numerals; of the tenth byte only one bit counts. Tags and lengths
keep the low 32 bits.
-/

namespace MessageCodec.Wire

def maxVarintBytes : Nat := 10

/-- Groups of seven bits of a numeral, least significant first. The fuel is a bound on their number. -/
def groups : (fuel : Nat) → Numeral → List Nat
  | 0, _ => []
  | fuel + 1, a =>
    let (quotient, remainder) := a.divide 128
    if quotient = ['0'] then [remainder] else remainder :: groups fuel quotient

def markGroups : List Nat → List UInt8
  | [] => []
  | [g] => [g.toUInt8]
  | g :: rest => (g + 128).toUInt8 :: markGroups rest

/-- The varint of a numeral. A group has more than two digits of it, so there are fewer groups than
characters, up to a few for characters that are not digits. -/
def varintOfNumeral (a : Numeral) : List UInt8 :=
  let trimmed := a.trim
  markGroups (groups (trimmed.length + 4) trimmed)

def varintOfNat (n : Nat) : List UInt8 :=
  if n < 128 then [n.toUInt8] else (n % 128 + 128).toUInt8 :: varintOfNat (n / 128)

/-- The varint of a tag or length; a negative number takes the 64-bit form. -/
def varintOfInt (n : Int) : List UInt8 :=
  if n < 0 then varintOfNumeral (Numeral.ofInt n).toUnsigned64 else varintOfNat n.toNat

def varintOfValue (v : Value) : Except Error (List UInt8) := do
  let a ← v.toUnsignedNumeral
  return varintOfNumeral a

/-- The varint of an integer that a caller hands over as a tag or length. A negative one is written by way
of its text, so it fails where it has none. -/
def varint32OfInt (n : Int) : Except Error (List UInt8) :=
  if n < 0 then varintOfValue (.int n) else .ok (varintOfNat n.toNat)

/-- Read groups onto a numeral. `left` is the number of bytes that may still follow. -/
def varint64From (sum weight : Numeral) : (left : Nat) → Reader Numeral
  | 0, _ => none
  | _ + 1, [] => none
  | left + 1, b :: rest =>
    let group := if left = 0 then b.toNat % 2 else b.toNat % 128
    let total := if group = 0 then sum else sum.add (weight.multiply group)
    if b.toNat < 128 then some (total, rest) else varint64From total (weight.multiply 128) left rest

def readVarint64 : Reader Numeral := varint64From ['0'] ['1'] maxVarintBytes

def varint32From (sum weight : Nat) : (left : Nat) → Reader Nat
  | 0, _ => none
  | _ + 1, [] => none
  | left + 1, b :: rest =>
    let total := sum + b.toNat % 128 * weight
    if b.toNat < 128 then some (total % 0x100000000, rest) else varint32From total (weight * 128) left rest

def readVarint32 : Reader Nat := varint32From 0 1 maxVarintBytes

theorem varint32From_lt {sum weight left n : Nat} {bs rest : List UInt8}
    (h : varint32From sum weight left bs = some (n, rest)) : rest.length < bs.length := by
  induction left generalizing sum weight bs with
  | zero => simp [varint32From] at h
  | succ left ih =>
    match bs with
    | [] => simp [varint32From] at h
    | b :: tail =>
      simp only [varint32From] at h
      split at h
      · obtain ⟨_, rfl⟩ := Prod.mk.inj (Option.some.inj h)
        simp
      · exact Nat.lt_succ_of_lt (ih h)

/-- Reading a tag or length uses up at least one byte. -/
theorem readVarint32_lt {n : Nat} {bs rest : List UInt8} (h : readVarint32 bs = some (n, rest)) :
    rest.length < bs.length := varint32From_lt h

theorem varint64From_lt {sum weight : Numeral} {left : Nat} {a : Numeral} {bs rest : List UInt8}
    (h : varint64From sum weight left bs = some (a, rest)) : rest.length < bs.length := by
  induction left generalizing sum weight bs with
  | zero => simp [varint64From] at h
  | succ left ih =>
    match bs with
    | [] => simp [varint64From] at h
    | b :: tail =>
      simp only [varint64From] at h
      split at h
      · obtain ⟨_, rfl⟩ := Prod.mk.inj (Option.some.inj h)
        simp
      · exact Nat.lt_succ_of_lt (ih h)

theorem readVarint64_advances : readVarint64.Advances := fun _ _ _ h => varint64From_lt h

end MessageCodec.Wire
