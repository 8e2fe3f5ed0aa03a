import MessageCodec.Text.IdentifierTable

/-!
# Identifiers

An identifier opens with a letter or an underscore and goes on with letters, digits, marks and
underscores of any script.
-/

namespace MessageCodec.Text

def isIdentifierStart (c : Char) : Bool :=
  if c.toNat < 0x80 then c.isAlpha || c = '_' else identifierStartRanges.contains c

def isIdentifierContinue (c : Char) : Bool :=
  if c.toNat < 0x80 then c.isAlphanum || c = '_' else identifierContinueRanges.contains c

def isIdentifier (s : String) : Bool :=
  match s.toList with
  | [] => false
  | c :: rest => isIdentifierStart c && rest.all isIdentifierContinue

end MessageCodec.Text
