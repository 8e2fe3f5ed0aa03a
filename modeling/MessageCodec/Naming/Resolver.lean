import MessageCodec.Naming.Rules
import MessageCodec.Text.Identifier

/-!
# Symbols

A resolver hands out one symbol per type. A type keeps its first symbol; a symbol chosen by hand must be
free and an identifier; any other symbol is the first free one of a sequence of candidates. As the
numbered candidates are distinct, one more of them than there are taken symbols is enough.
-/

namespace MessageCodec.Naming

/-- The symbols handed out so far and those no longer free. -/
structure Resolver where
  rules : Rules
  symbols : Table String
  taken : List String
deriving DecidableEq

namespace Resolver

/-- A resolver with further taken symbols; entries are trimmed and empty ones do not count. -/
def new (rules : Rules) (more : List String) : Resolver :=
  let trimmed := (more.map Text.trimText).filter fun s => !s.isEmpty
  ⟨rules, [], trimmed.foldl (fun set s => insertNew s set) rules.reserved⟩

def lookup? (r : Resolver) (fullName : String) : Option String :=
  r.symbols.get? fullName

def lookup (r : Resolver) (fullName : String) : Except Error String :=
  match r.lookup? fullName with
  | some symbol => .ok symbol
  | none => .error (.notRegistered fullName)

/-- The candidates for a symbol: as asked for, with the collision suffix, then numbered from one. -/
def candidate (collision front back : String) : Nat → String
  | 0 => front ++ back
  | 1 => front ++ collision ++ back
  | n + 2 => front ++ collision ++ back ++ String.ofList (Numeral.ofNat (n + 1))

/-- The first candidate from a number on that is free, within a number of tries. -/
def firstFree (taken : List String) (candidates : Nat → String) : (tries start : Nat) → String
  | 0, start => candidates start
  | tries + 1, start =>
    if taken.contains (candidates start) then firstFree taken candidates tries (start + 1)
    else candidates start

def makeUnique (r : Resolver) (front back : String) : String :=
  firstFree r.taken (candidate r.rules.collisionSuffix front back) (r.taken.length + 1) 0

def override? (r : Resolver) (fullName : String) : Option String :=
  (r.rules.overrides.get? fullName).filter fun s => !s.isEmpty

def assign (r : Resolver) (fullName symbol : String) : Resolver :=
  { r with symbols := r.symbols ++ [(fullName, symbol)], taken := insertNew symbol r.taken }

/-- The symbol of a type, handed out now if it has none. -/
def register (r : Resolver) (fullName front back : String) : Except Error (String × Resolver) :=
  match r.lookup? fullName with
  | some symbol => .ok (symbol, r)
  | none =>
    match r.override? fullName with
    | some symbol =>
      if r.taken.contains symbol || !Text.isIdentifier symbol then
        .error (.overrideConflict symbol fullName)
      else .ok (symbol, r.assign fullName symbol)
    | none =>
      let symbol := r.makeUnique front back
      .ok (symbol, r.assign fullName symbol)

end Resolver

end MessageCodec.Naming
