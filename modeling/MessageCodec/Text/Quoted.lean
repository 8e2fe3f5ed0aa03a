import MessageCodec.Text.Hex
import MessageCodec.Text.Printable

/-!
# Quoted literals

Texts and byte strings as source literals. A single quote delimits the literal unless the text has a
single quote and no double quote. The delimiter and the backslash are escaped, tab, line feed and
carriage return have their letters, and what is not printable is written by number.
-/

namespace MessageCodec.Text

def quoteFor (cs : List Char) : Char :=
  if cs.contains '\'' && !cs.contains '"' then '"' else '\''

/-- A character by its number, in the shortest of the three escape forms. -/
def escapeByNumber (c : Char) : List Char :=
  if c.toNat < 0x100 then '\\' :: 'x' :: hexDigits 2 c.toNat
  else if c.toNat < 0x10000 then '\\' :: 'u' :: hexDigits 4 c.toNat
  else '\\' :: 'U' :: hexDigits 8 c.toNat

def escapeChar (quote c : Char) : List Char :=
  if c = quote || c = '\\' then ['\\', c]
  else if c = '\t' then ['\\', 't']
  else if c = '\n' then ['\\', 'n']
  else if c = '\r' then ['\\', 'r']
  else if isPrintable c then [c]
  else escapeByNumber c

def quoted (cs : List Char) : List Char :=
  quoteFor cs :: (cs.flatMap (escapeChar (quoteFor cs)) ++ [quoteFor cs])

/-- A byte inside a literal: only printable ASCII stands for itself. -/
def escapeByte (quote : Char) (b : UInt8) : List Char :=
  if b.toNat < 0x80 then escapeChar quote (Char.ofNat b.toNat)
  else '\\' :: 'x' :: hexDigits 2 b.toNat

def quotedBytes (bs : List UInt8) : List Char :=
  let quote := quoteFor (bs.map fun b => Char.ofNat b.toNat)
  'b' :: quote :: (bs.flatMap (escapeByte quote) ++ [quote])

def quotedText (s : String) : String := String.ofList (quoted s.toList)

end MessageCodec.Text
