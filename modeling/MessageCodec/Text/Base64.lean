import MessageCodec.Text.Blank

/-!
# Base64

The standard alphabet with padding. Reading is tolerant of blanks and of missing padding, and text that
is not base64 reads as no bytes.
-/

namespace MessageCodec.Base64

/-- The character for a group of six bits. -/
def digit (n : Nat) : Char :=
  if n < 26 then Char.ofNat (n + 0x41)
  else if n < 52 then Char.ofNat (n - 26 + 0x61)
  else if n < 62 then Char.ofNat (n - 52 + 0x30)
  else if n = 62 then '+' else '/'

def digitValue? (c : Char) : Option Nat :=
  if c.isUpper then some (c.toNat - 0x41)
  else if c.isLower then some (c.toNat - 0x61 + 26)
  else if c.isDigit then some (c.toNat - 0x30 + 52)
  else if c = '+' then some 62
  else if c = '/' then some 63
  else none

def encode : List UInt8 → List Char
  | [] => []
  | [a] => [digit (a.toNat / 4), digit (a.toNat % 4 * 16), '=', '=']
  | [a, b] =>
    [digit (a.toNat / 4), digit (a.toNat % 4 * 16 + b.toNat / 16), digit (b.toNat % 16 * 4), '=']
  | a :: b :: c :: rest =>
    digit (a.toNat / 4) :: digit (a.toNat % 4 * 16 + b.toNat / 16)
      :: digit (b.toNat % 16 * 4 + c.toNat / 64) :: digit (c.toNat % 64) :: encode rest

/-- How far the reading of a group of four has come, and the bits left over from it. -/
inductive Phase where
  | start
  | one (bits : Nat)
  | two (bits : Nat)
  | three (bits : Nat)

/-- The group after one more character, with the byte that it completes. -/
def Phase.push : Phase → Nat → Phase × List UInt8
  | .start, v => (.one v, [])
  | .one bits, v => (.two (v % 16), [(bits * 4 + v / 16).toUInt8])
  | .two bits, v => (.three (v % 4), [(bits * 16 + v / 4).toUInt8])
  | .three bits, v => (.start, [(bits * 64 + v).toUInt8])

/-- Padding after which a group counts as complete: two marks after two characters, one after three. -/
def Phase.closedBy : Phase → Nat → Bool
  | .two _, pads => 2 ≤ pads
  | .three _, pads => 1 ≤ pads
  | _, _ => false

/-- Read the characters of a group onwards. Once padding has begun only padding may follow, and the
mark that completes a group must be the last character. `pads` counts the marks seen. -/
def readFrom (phase : Phase) (pads : Nat) : List Char → Option (List UInt8)
  | [] =>
    match phase with
    | .start => some []
    | _ => none
  | c :: rest =>
    if c = '=' then
      if phase.closedBy (pads + 1) then
        match rest with
        | [] => some []
        | _ => none
      else readFrom phase (pads + 1) rest
    else
      match digitValue? c with
      | none => none
      | some v =>
        if pads = 0 then
          let (next, out) := phase.push v
          (readFrom next 0 rest).map (out ++ ·)
        else none

/-- Read padded text; padding may not come first. -/
def decodeStrict (cs : List Char) : Option (List UInt8) :=
  match cs with
  | '=' :: _ => none
  | _ => readFrom .start 0 cs

/-- Complete a text with padding to a multiple of four characters. -/
def pad (cs : List Char) : List Char :=
  cs ++ List.replicate ((4 - cs.length % 4) % 4) '='

/-- Read text after dropping blanks and completing the padding; text that is not base64 is empty. -/
def decode (cs : List Char) : List UInt8 :=
  (decodeStrict (pad (Text.removeBlanks cs))).getD []

def encodeText (bs : List UInt8) : String := String.ofList (encode bs)

end MessageCodec.Base64
