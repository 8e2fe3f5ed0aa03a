/-!
# UTF-8

Writing a text as bytes, and reading bytes in two ways: a malformed stretch either becomes the
replacement character or ends the reading with the place and the reason. A malformed stretch is as
long as the bytes that could still have begun a character.
-/

namespace MessageCodec.Utf8

def encodeChar (c : Char) : List UInt8 :=
  let n := c.toNat
  if n < 0x80 then [n.toUInt8]
  else if n < 0x800 then [(0xc0 + n / 64).toUInt8, (0x80 + n % 64).toUInt8]
  else if n < 0x10000 then
    [(0xe0 + n / 4096).toUInt8, (0x80 + n / 64 % 64).toUInt8, (0x80 + n % 64).toUInt8]
  else
    [(0xf0 + n / 262144).toUInt8, (0x80 + n / 4096 % 64).toUInt8, (0x80 + n / 64 % 64).toUInt8,
      (0x80 + n % 64).toUInt8]

def encode (cs : List Char) : List UInt8 := cs.flatMap encodeChar

inductive Malformed where
  | startByte
  | continuation
  | endOfData
deriving DecidableEq

/-- What stands at the head of the bytes. -/
inductive Head where
  /-- A character and the number of bytes after the first. -/
  | char (c : Char) (more : Nat)
  /-- A malformed stretch and the number of its bytes after the first. -/
  | bad (reason : Malformed) (more : Nat)

/-- What a first byte promises: its own bits, the number of bytes to follow, and the range of the
first of them. -/
def lead? (b : Nat) : Option (Nat × Nat × Nat × Nat) :=
  if b < 0x80 then some (b, 0, 0x80, 0xbf)
  else if b < 0xc2 then none
  else if b < 0xe0 then some (b - 0xc0, 1, 0x80, 0xbf)
  else if b = 0xe0 then some (0, 2, 0xa0, 0xbf)
  else if b = 0xed then some (0xd, 2, 0x80, 0x9f)
  else if b < 0xf0 then some (b - 0xe0, 2, 0x80, 0xbf)
  else if b = 0xf0 then some (0, 3, 0x90, 0xbf)
  else if b < 0xf4 then some (b - 0xf0, 3, 0x80, 0xbf)
  else if b = 0xf4 then some (4, 3, 0x80, 0x8f)
  else none

/-- Collect the bytes that a first byte promised. The range applies to the next byte only. -/
def tails : (owed value low high seen : Nat) → List UInt8 → Head
  | 0, value, _, _, seen, _ => .char (Char.ofNat value) seen
  | _ + 1, _, _, _, seen, [] => .bad .endOfData seen
  | owed + 1, value, low, high, seen, b :: rest =>
    if low ≤ b.toNat && b.toNat ≤ high then
      tails owed (value * 64 + (b.toNat - 0x80)) 0x80 0xbf (seen + 1) rest
    else .bad .continuation seen

def head (b : UInt8) (rest : List UInt8) : Head :=
  match lead? b.toNat with
  | none => .bad .startByte 0
  | some (value, owed, low, high) => tails owed value low high 0 rest

def replacement : Char := Char.ofNat 0xfffd

/-- Read bytes, replacing each malformed stretch. -/
def decodeLossy : List UInt8 → List Char
  | [] => []
  | b :: rest =>
    match head b rest with
    | .char c more => c :: decodeLossy (rest.drop more)
    | .bad _ more => replacement :: decodeLossy (rest.drop more)
termination_by bs => bs.length
decreasing_by all_goals simp only [List.length_cons, List.length_drop]; omega

structure Fault where
  start : Nat
  size : Nat
  firstByte : UInt8
  reason : Malformed

/-- Read bytes that stand at a position, refusing the first malformed stretch. -/
def decodeAt (position : Nat) : List UInt8 → Except Fault (List Char)
  | [] => .ok []
  | b :: rest =>
    match head b rest with
    | .char c more =>
      match decodeAt (position + more + 1) (rest.drop more) with
      | .ok cs => .ok (c :: cs)
      | .error e => .error e
    | .bad reason more => .error ⟨position, more + 1, b, reason⟩
termination_by bs => bs.length
decreasing_by all_goals simp only [List.length_cons, List.length_drop]; omega

def decode (bs : List UInt8) : Except Fault (List Char) := decodeAt 0 bs

end MessageCodec.Utf8
