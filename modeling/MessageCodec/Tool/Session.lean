import MessageCodec.Generation

/-!
# Sessions

What a run of the command line tool has said and done so far.
-/

namespace MessageCodec

inductive CompilerResult where
  /-- There is no such program. -/
  | missing
  /-- The program ended with a status, a report and perhaps a serialized set of files. -/
  | ended (status : Int) (report : List UInt8) (output : Option (List UInt8))

structure Compiler where
  /-- Where it is told to write its output. -/
  output : String
  /-- What comes of calling it with a command line. -/
  call : List String → CompilerResult

/-- The journal of a session and the command lines it has called the compiler with. -/
structure Session where
  journal : Journal := []
  commands : List (List String) := []

/-- Work of the tool; it keeps what was done before a failure. -/
abbrev Tool := ExceptT Error (StateM Session)

namespace Tool

def ofRun {α : Type} (work : Run α) : Tool α := do
  let s ← get
  let (result, journal) := work.run s.journal
  set { s with journal }
  (result : Except Error α)

def note (level : Level) (text : String) : Tool Unit := ofRun (Run.note level text)

end Tool

end MessageCodec
