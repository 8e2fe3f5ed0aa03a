import MessageCodec.Codec.Basic
import MessageCodec.Plan.Planner
import MessageCodec.Schema.Registry
import MessageCodec.Source.Package

/-!
# Generation

From a request to generated files: read the settings, load the schema, plan the messages of the target
files, and write a package. A run keeps a journal, and an error of the input becomes part of the
response, unless a text of the response is torn.
-/

namespace MessageCodec

open Schema Source

/-- Work that keeps a journal, also of what was done before a failure. -/
abbrev Run := ExceptT Error (StateM Journal)

namespace Run

def note (level : Level) (text : String) : Run Unit := modify fun journal => journal ++ [⟨level, text⟩]

def load {α : Type} (r : Registry) (work : Load α) : Run (α × Registry) := do
  let (result, after) := work.run { r with journal := [] }
  modify fun journal => journal ++ after.journal
  let a ← (result : Except Error α)
  return (a, after)

def planning {α : Type} (p : Planner) (work : Planning α) : Run α := do
  let (result, after) := work.run { p with journal := [] }
  modify fun journal => journal ++ after.journal
  (result.mapError p.resolver.rules.tear : Except Error α)

end Run

/-- What is to be generated for a request. -/
structure Blueprint where
  settings : Settings
  /-- The names of the target files. -/
  inputs : List String
  messages : List MessagePlan
  rules : Naming.Rules

namespace Blueprint

def sortFiles (inputs : List String) : Load (List File × List File) := do
  let targets ← inputs.mapM Registry.file
  let files ← Registry.allFiles
  let others := files.filter fun (e : String × File) => !inputs.contains e.1
  return (targets, others.map fun (e : String × File) => e.2)

/-- Plan the messages of the target files; without targets, of all files. -/
def ofRegistry (w : Workspace) (settings : Settings) (r : Registry) : Run Blueprint := do
  let (files, r) ← Run.load r Registry.allFiles
  let inputs := if r.request.targets.isEmpty then files.map Prod.fst else r.request.targets
  let ((targets, others), _) ← Run.load r (sortFiles inputs)
  let planner ← (Planner.new w settings : Except Error _)
  let messages ← Run.planning planner (Planner.plan targets others)
  Run.note .info ("Generating " ++ decimal messages.length ++ " message codec(s) from "
    ++ decimal targets.length ++ " file(s)")
  return ⟨settings, inputs, messages, planner.resolver.rules⟩

def ofRequest (w : Workspace) (request : Descriptor.Request) : Run Blueprint := do
  let settings ← (Settings.ofParameter w request.parameter : Except Error _)
  ofRegistry w settings (.new request)

/-- The generated files. `runtime` is the text of the shared runtime module. -/
def files (b : Blueprint) (runtime : String) : Except Error (List GeneratedFile) :=
  package b.settings runtime b.inputs b.messages

/-- A symbol of a message is torn, and with it the text of a module. -/
def isTorn (b : Blueprint) : Bool := b.messages.any fun m => b.rules.tears m.symbol

end Blueprint

structure Response where
  error : Option String := none
  files : List GeneratedFile := []
  /-- Optional fields of the third dialect and editions are supported. -/
  supportedFeatures : Nat := 3
  minimumEdition : Nat := 998
  maximumEdition : Nat := 1000

def Run.reporting {α : Type} (lead : String) (work : Run α) : Run (Except Error α) := do
  tryCatch (do
      let a ← work
      return .ok a)
    fun e =>
      if e.kind.isReported then do
        Run.note .error (lead ++ e.message)
        return .error e
      else throw e

/-- Fill in the words for an error, which may be torn. -/
def Response.ofError (e : Error) : Except Error Response :=
  if e.isTorn then .error .tornText else .ok { error := some e.message }

/-- Fill in the files of a package, whose texts may be torn. -/
def Response.ofFiles (b : Blueprint) (files : List GeneratedFile) : Except Error Response :=
  if b.isTorn then .error .tornText else .ok { files }

def respond (w : Workspace) (runtime : String) (request : Descriptor.Request) : Run Response := do
  let result ← Run.reporting "Generation failed: " do
    let blueprint ← Blueprint.ofRequest w request
    let files ← (blueprint.files runtime : Except Error _)
    return (blueprint, files)
  match result with
  | .ok (blueprint, files) => (Response.ofFiles blueprint files : Except Error _)
  | .error e => (Response.ofError e : Except Error _)

end MessageCodec
