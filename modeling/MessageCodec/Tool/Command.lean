import MessageCodec.Tool.Arguments
import MessageCodec.Tool.Inputs

/-!
# The command

Generate a package from the inputs named on the command line. Nothing is written when the schema is
faulty.
-/

namespace MessageCodec.Tool

structure Outcome where
  status : Nat
  /-- The lines on standard output. -/
  lines : List String := []
  /-- The files written, in order. -/
  written : List (Path × String) := []

/-- Generate the files of a package, each under its path. -/
def generate (w : Workspace) (compiler : Compiler) (runtime : String) (a : Arguments) (out : Path) :
    Tool (List (Path × String)) := do
  let settings ← (Settings.ofParameter w (",".intercalate a.options) : Except Error _)
  let inputs ← Inputs.load w compiler (a.inputs.map Path.ofString) (a.directories.map Path.ofString)
  let targets := if a.protos.isEmpty then inputs.targets else a.protos
  let blueprint ← ofRun (Blueprint.ofRegistry w settings (.new (.ofSet inputs.files targets)))
  let files ← (blueprint.files runtime : Except Error _)
  note .info ("Wrote " ++ Source.decimal files.length ++ " file(s) to " ++ out.toString)
  return files.map fun f => (out.join (Path.ofString f.name), f.content)

/-- Carry out a call of the tool. `runtime` is the text of the shared runtime module. -/
def command (w : Workspace) (compiler : Compiler) (runtime : String) (argv : List String) :
    Tool Outcome := do
  match Arguments.read argv with
  | .misuse => return { status := 2 }
  | .help => return { status := 0 }
  | .run a =>
    let out := Path.ofString (a.out.getD "")
    tryCatch (do
        let written ← generate w compiler runtime a out
        return { status := 0, lines := written.map fun f => f.1.toString, written })
      fun e =>
        if e.kind.isReported then do
          note .error e.message
          return { status := 1 }
        else throw e

end MessageCodec.Tool
