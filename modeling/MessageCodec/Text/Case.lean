import MessageCodec.Text.CaseTable

/-!
# Capital and small letters

Case conversion of whole texts by the Unicode default algorithm. A character may become several, and a
capital sigma becomes the final form at the end of a word.
-/

namespace MessageCodec.Text

/-- The amount by which a run moves a character, if the run holds it. -/
def CaseRun.apply? (r : CaseRun) (n : Nat) : Option Nat :=
  if r.first ≤ n && n ≤ r.last && (n - r.first) % r.step == 0 then some (n + r.delta).toNat else none

private def mapBeyondAscii (special : List (Nat × List Nat)) (runs : List CaseRun) (c : Char) :
    List Char :=
  match special.find? fun e => e.1 == c.toNat with
  | some e => e.2.map Char.ofNat
  | none =>
    match runs.findSome? fun r => r.apply? c.toNat with
    | some n => [Char.ofNat n]
    | none => [c]

def upperChar (c : Char) : List Char :=
  if c.toNat < 0x80 then [c.toUpper] else mapBeyondAscii upperSpecial upperRuns c

/-- The small form of a character on its own. -/
def lowerChar (c : Char) : List Char :=
  if c.toNat < 0x80 then [c.toLower] else mapBeyondAscii lowerSpecial lowerRuns c

def upper (cs : List Char) : List Char := cs.flatMap upperChar

/-- A letter that ends the search for a neighbour of a sigma and counts as one. -/
def isCased (c : Char) : Bool :=
  if c.toNat < 0x80 then c.isAlpha else casedRanges.contains c

/-- A character that the search for a neighbour of a sigma passes over. -/
def isCaseIgnorable (c : Char) : Bool :=
  if c.toNat < 0x80 then c = '\'' || c = '.' || c = ':' || c = '^' || c.toNat = 0x60
  else caseIgnorableRanges.contains c

/-- Whether the nearest character that counts is a letter with case. -/
def nextToLetter (cs : List Char) : Bool :=
  match cs.dropWhile isCaseIgnorable with
  | [] => false
  | c :: _ => isCased c

/-- Small form of a text whose reversed beginning is already known. -/
def lowerFrom (before : List Char) : List Char → List Char
  | [] => []
  | c :: rest =>
    let here :=
      if c.toNat = 0x3a3 then
        if nextToLetter before && !nextToLetter rest then [Char.ofNat 0x3c2] else [Char.ofNat 0x3c3]
      else lowerChar c
    here ++ lowerFrom (c :: before) rest

def lower (cs : List Char) : List Char := lowerFrom [] cs

def upperText (s : String) : String := String.ofList (upper s.toList)

def lowerText (s : String) : String := String.ofList (lower s.toList)

end MessageCodec.Text
