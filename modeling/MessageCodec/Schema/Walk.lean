import MessageCodec.Schema.Basic

/-!
# Walking through the messages of a file

Depth first and in order of declaration, a message before those inside it: once with a stack of the
messages still to come, once by recursion, which also knows the messages around each one.
-/

namespace MessageCodec.Schema

/-- The size of a list of messages splits over its parts. -/
theorem sizeOf_messages_append (xs ys : List Message) :
    sizeOf (xs ++ ys) + 1 = sizeOf xs + sizeOf ys := by
  induction xs with
  | nil => simp; omega
  | cons x xs ih => simp only [List.cons_append, List.cons.sizeOf_spec]; omega

/-- The messages on a stack and those inside them; the top of the stack comes first, then what is inside
it. -/
def unstack (stack : List Message) : List Message :=
  match stack with
  | [] => []
  | m :: rest => m :: unstack (m.nested ++ rest)
termination_by sizeOf stack
decreasing_by
  have := sizeOf_messages_append m.nested rest
  cases m
  simp only [List.cons.sizeOf_spec, Message.mk.sizeOf_spec] at *
  omega

def File.allMessages (f : File) : List Message := unstack f.messages

mutual

/-- A message and those inside it, each with the messages around it from the outside in. -/
def Message.placed (around : List Message) (m : Message) : List (Message × List Message) :=
  match m with
  | ⟨id, name, fullName, fields, nested, enums, oneofs, options, mapEntry⟩ =>
    let m : Message := ⟨id, name, fullName, fields, nested, enums, oneofs, options, mapEntry⟩
    (m, around) :: placedIn (around ++ [m]) nested

def placedIn (around : List Message) : List Message → List (Message × List Message)
  | [] => []
  | m :: rest => m.placed around ++ placedIn around rest

end

def File.placed (f : File) : List (Message × List Message) := placedIn [] f.messages

end MessageCodec.Schema
