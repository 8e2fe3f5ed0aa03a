/-!
# Tables

Pairs in the order in which their keys were first put in. A key that is put again keeps its place and
takes the new value.
-/

namespace MessageCodec

/-- Values by name, in order. -/
abbrev Table (α : Type) := List (String × α)

namespace Table

variable {α : Type}

def get? (table : Table α) (key : String) : Option α := (table.find? fun e => e.1 == key).map Prod.snd

def has (table : Table α) (key : String) : Bool := table.any fun e => e.1 == key

/-- Put a value under a key, in place if the key is there and at the end if not. -/
def put : Table α → String → α → Table α
  | [], key, v => [(key, v)]
  | e :: rest, key, v => if e.1 == key then (key, v) :: rest else e :: put rest key v

/-- Put a value under a key that has none yet. -/
def putNew (table : Table α) (key : String) (v : α) : Table α :=
  if table.has key then table else table ++ [(key, v)]

/-- A table from a list of pairs: the place of the first, the value of the last. -/
def ofPairs (pairs : List (String × α)) : Table α := pairs.foldl (fun table p => table.put p.1 p.2) []

end Table

end MessageCodec
