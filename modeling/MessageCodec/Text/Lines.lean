/-!
# Lines

Cutting a text at separators. Text files have their line ends unified before they are cut; further
separators (form feed, information separators, next line, line and paragraph separator) end a line too.
-/

namespace MessageCodec.Text

/-- Carriage returns, alone or before a line feed, become line feeds. -/
def unifyNewlines : List Char → List Char
  | [] => []
  | '\r' :: '\n' :: rest => '\n' :: unifyNewlines rest
  | '\r' :: rest => '\n' :: unifyNewlines rest
  | c :: rest => c :: unifyNewlines rest

def isLineEnd (c : Char) : Bool :=
  (0xa ≤ c.toNat && c.toNat ≤ 0xd) || (0x1c ≤ c.toNat && c.toNat ≤ 0x1e) || c.toNat = 0x85
    || c.toNat = 0x2028 || c.toNat = 0x2029

/-- Cut a list after each element that satisfies a test, dropping that element. There is always one
piece more than there are cuts. -/
def cutAt {α : Type} (p : α → Bool) : List α → List (List α)
  | [] => [[]]
  | c :: rest =>
    if p c then [] :: cutAt p rest
    else
      match cutAt p rest with
      | [] => [[c]]
      | piece :: more => (c :: piece) :: more

/-- The lines of a text with unified newlines. The text after the last line end counts as a line, an
empty one included. -/
def lines (cs : List Char) : List (List Char) := cutAt isLineEnd cs

def split (c : Char) (s : String) : List String :=
  (cutAt (· == c) s.toList).map String.ofList

def splitFirst? (c : Char) (s : String) : Option (String × String) :=
  let cs := s.toList
  let before := cs.takeWhile (· != c)
  match cs.dropWhile (· != c) with
  | [] => none
  | _ :: after => some (String.ofList before, String.ofList after)

def splitLast? (c : Char) (s : String) : Option (String × String) :=
  let back := s.toList.reverse
  let after := back.takeWhile (· != c)
  match back.dropWhile (· != c) with
  | [] => none
  | _ :: before => some (String.ofList before.reverse, String.ofList after.reverse)

end MessageCodec.Text
