import MessageCodec.Tool.Compiler

/-!
# Inputs

The inputs of the tool are schema files, which are compiled together, and serialized sets of files. They
are merged into one set in which the first file of a name counts.
-/

namespace MessageCodec.Tool

/-- The name that the compiler gives to a schema file: its path below the first of some directories that
is an ancestor of it. -/
def schemaName (w : Workspace) (path : Path) (includes : List Path) : String :=
  let resolved := w.directory.resolve path
  match (includes.map (Path.resolve w.directory)).find? fun d => d.isAbove resolved with
  | some d => d.below resolved
  | none => resolved.name

def setSuffixes : List String := [".pb", ".desc", ".protoset", ".binpb"]

def isSchema (p : Path) : Bool := p.suffix == ".proto"

/-- A set of files and the names of those that were asked for. -/
structure Inputs where
  files : List Descriptor.File := []
  targets : List String := []

namespace Inputs

def merge (i : Inputs) (files : List Descriptor.File) : Inputs :=
  { i with files := files.foldl (fun merged f =>
      if merged.any fun g => g.name == f.name then merged else merged ++ [f]) i.files }

def ask (i : Inputs) (names : List String) : Inputs :=
  { i with targets := names.foldl (fun targets name => Naming.insertNew name targets) i.targets }

/-- Read a serialized set of files, all of which are asked for. -/
def addSet (w : Workspace) (i : Inputs) (path : Path) : Tool Inputs := do
  if !setSuffixes.contains path.suffix then
    note .warning ("Treating " ++ path.toString ++ " as a serialized FileDescriptorSet")
  match w.read path with
  | .error fault => throw (.unreadableSet path.toString fault)
  | .ok bs =>
    let files ← (Descriptor.setOfBytes bs : Except Error _)
    return (i.merge files).ask (files.map Descriptor.File.name)

def addSchemas (w : Workspace) (compiler : Compiler) (i : Inputs) (paths includes : List Path) :
    Tool Inputs := do
  if paths.isEmpty then return i
  let files ← compile w compiler "protoc" paths includes
  let directories := includes ++ paths.map Path.parent
  return (i.merge files).ask (paths.map fun p => schemaName w p directories)

/-- Read all inputs: first the sets of files, then the schema files. -/
def load (w : Workspace) (compiler : Compiler) (paths includes : List Path) : Tool Inputs := do
  let sets ← (paths.filter fun p => !isSchema p).foldlM (addSet w) {}
  sets.addSchemas w compiler (paths.filter isSchema) includes

end Inputs

end MessageCodec.Tool
