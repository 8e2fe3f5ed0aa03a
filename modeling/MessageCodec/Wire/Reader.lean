/-!
# Readers

A reader takes one item off the front of the bytes and returns what is left, or refuses without taking
anything. A position in a larger byte string is how much of it has been read.
-/

namespace MessageCodec.Wire

/-- Takes an item off the front of the bytes. -/
abbrev Reader (α : Type) := List UInt8 → Option (α × List UInt8)

def Reader.map {α β : Type} (f : α → β) (r : Reader α) : Reader β := fun bs =>
  match r bs with
  | some (a, rest) => some (f a, rest)
  | none => none

/-- Read at a position: the item, if there is one, and the position after it. A refusal does not move. -/
def Reader.at {α : Type} (r : Reader α) (data : List UInt8) (cursor : Nat) : Option α × Nat :=
  match r (data.drop cursor) with
  | some (a, rest) => (some a, data.length - rest.length)
  | none => (none, cursor)

def take (count : Nat) : Reader (List UInt8) := fun bs =>
  if count ≤ bs.length then some (bs.take count, bs.drop count) else none

/-- The reader uses up at least one byte of whatever it accepts. -/
def Reader.Advances {α : Type} (r : Reader α) : Prop :=
  ∀ bs a rest, r bs = some (a, rest) → rest.length < bs.length

theorem Reader.Advances.map {α β : Type} {r : Reader α} (h : r.Advances) (f : α → β) :
    (r.map f).Advances := by
  intro bs b rest hr
  unfold Reader.map at hr
  split at hr
  · rename_i a rest' hr'
    simp only [Option.some.injEq, Prod.mk.injEq] at hr
    obtain ⟨_, rfl⟩ := hr
    exact h bs a _ hr'
  · simp at hr

theorem length_take_add {count : Nat} {bs payload rest : List UInt8}
    (h : take count bs = some (payload, rest)) : payload.length + rest.length = bs.length := by
  unfold take at h
  split at h
  · simp only [Option.some.injEq, Prod.mk.injEq] at h
    obtain ⟨rfl, rfl⟩ := h
    simp only [List.length_take, List.length_drop]
    omega
  · simp at h

theorem take_advances {count : Nat} (h : 0 < count) : (take count).Advances := by
  intro bs payload rest hr
  unfold take at hr
  split at hr
  · simp only [Option.some.injEq, Prod.mk.injEq] at hr
    obtain ⟨_, rfl⟩ := hr
    simp only [List.length_drop]
    omega
  · simp at hr

/-- Read items until the bytes are used up or one cannot be read. -/
def readAll {α : Type} (r : Reader α) (bs : List UInt8) : List α :=
  if bs.isEmpty then []
  else
    match r bs with
    | none => []
    | some (a, rest) => if rest.length < bs.length then a :: readAll r rest else []
termination_by bs.length

end MessageCodec.Wire
