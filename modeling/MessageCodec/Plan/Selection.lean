import MessageCodec.Error
import MessageCodec.Journal
import MessageCodec.Schema.Scalar
import MessageCodec.Schema.Walk

/-!
# Selecting messages

The messages of the target files are taken depth first. Messages of other files follow when a message
field of one taken before refers to them. A message is then dropped if none of its fields can be
encoded; as this may leave a field elsewhere without its type, dropping goes on until nothing changes.
-/

namespace MessageCodec.Plan

open Schema

/-- A message with its file and the messages around it from the outside in. -/
structure Place where
  message : Message
  file : File
  around : List Message

def placesOf (file : File) : List Place := file.placed.map fun p => ⟨p.1, file, p.2⟩

def messageTarget? (f : Field) : Option (Nat × String) :=
  match f.kind, f.resolved with
  | .message, some (.message id fullName) => some (id, fullName)
  | _, _ => none

def firstOfName (seen : List String) : List Place → List Place
  | [] => []
  | p :: rest =>
    if seen.contains p.message.fullName then firstOfName seen rest
    else p :: firstOfName (p.message.fullName :: seen) rest

def outgoing (m : Message) : List (String × Field) := m.fields.map fun f => (m.fullName, f)

def placeOf? (places : List Place) (id : Nat) (fullName : String) : Option Place :=
  places.find? fun p => p.message.id == id && p.message.fullName == fullName

def without (places : List Place) (id : Nat) : List Place := places.filter fun p => p.message.id != id

/-- Taking out a message that is there leaves fewer. -/
theorem length_without_lt {places : List Place} {p : Place} {id : Nat} {fullName : String}
    (h : placeOf? places id fullName = some p) : (without places id).length < places.length := by
  refine List.length_filter_lt_length_iff_exists.2 ⟨p, List.mem_of_find?_eq_some h, ?_⟩
  unfold placeOf? at h
  have hfound := List.find?_some h
  rw [Bool.and_eq_true, beq_iff_eq] at hfound
  simp [hfound.1]

/-- Follow the references of fields, first come first served, to messages not seen yet. -/
def pull (places : List Place) (seen : List String) (work : List (String × Field)) :
    Except Error (List Place) :=
  match work with
  | [] => .ok []
  | (referrer, f) :: rest =>
    match messageTarget? f with
    | none => pull places seen rest
    | some (id, fullName) =>
      if seen.contains fullName then pull places seen rest
      else
        match h : placeOf? places id fullName with
        | none => .error (.messageNotLoaded fullName (referrer ++ "." ++ f.name))
        | some p =>
          have := length_without_lt h
          do
          let more ← pull (without places id) (fullName :: seen) (rest ++ outgoing p.message)
          return p :: more
termination_by (places.length, work.length)
decreasing_by
  · exact Prod.Lex.right _ (by simp)
  · exact Prod.Lex.right _ (by simp)
  · exact Prod.Lex.left _ _ this

/-- The messages of the target files and those of other files that they need. -/
def collect (targets others : List File) : Except Error (List Place) := do
  let own := firstOfName [] (targets.flatMap placesOf)
  let seen := own.map fun p => p.message.fullName
  let pulled ← pull ((targets ++ others).flatMap placesOf) seen (own.flatMap fun p => outgoing p.message)
  return own ++ pulled

/-- Why a field cannot be encoded when the messages of the given names are generated. -/
def obstacle? (selected : List String) (f : Field) : Option String :=
  match f.kind with
  | .map => some "map fields are not supported"
  | .group => some "group fields are not supported"
  | .scalar =>
    if (f.scalar.bind ScalarType.ofName?).isSome then none
    else some ("unknown scalar type '" ++ f.scalar.getD "None" ++ "'")
  | .enum =>
    match f.resolved with
    | some (.enum _) => none
    | _ => some "enum type is unresolved"
  | .message =>
    match f.resolved with
    | some (.message _ fullName) =>
      if selected.contains fullName then none
      else some ("message type '" ++ f.typeName.getD "None" ++ "' is not generated")
    | _ => some ("message type '" ++ f.typeName.getD "None" ++ "' is not generated")
  | .other name => some ("unsupported kind '" ++ name ++ "'")

def supported (selected : List String) (m : Message) : List Field :=
  m.fields.filter fun f => (obstacle? selected f).isNone

def namesOf (places : List Place) : List String := places.map fun p => p.message.fullName

/-- One round of dropping the messages without fields. -/
def sieve (places : List Place) : List Place :=
  places.filter fun p => !(supported (namesOf places) p.message).isEmpty

/-- The entries on messages that one round drops, by name. -/
def dropped (places : List Place) : Journal :=
  let kept := namesOf (sieve places)
  let names := (namesOf places).filter fun name => !kept.contains name
  (names.mergeSort fun a b => a ≤ b).map fun name =>
    ⟨.debug, "Skipping message " ++ name ++ ": no supported fields"⟩

/-- Drop messages without fields until every message has one. -/
def prune (places : List Place) : List Place × Journal :=
  if (sieve places).length < places.length then
    let (kept, journal) := prune (sieve places)
    (kept, dropped places ++ journal)
  else (places, [])
termination_by places.length

end MessageCodec.Plan
