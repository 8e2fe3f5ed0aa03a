import MessageCodec.Schema.Binary.Read
import MessageCodec.Tool.Session

/-!
# Calling the schema compiler

The compiler takes the schema files and the directories in which imports are searched, and writes a
serialized set of files. A schema file below none of the directories brings in its own.
-/

namespace MessageCodec.Tool

/-- The directories to search: those given, each once, and the directories of files below none. -/
def searchPaths (given files : List Path) : List Path :=
  let distinct := given.foldl (fun paths d => if paths.contains d then paths else paths ++ [d]) []
  files.foldl (fun paths f => if paths.any fun d => d.isAbove f then paths else paths ++ [f.parent]) distinct

def commandLine (program output : String) (paths files : List Path) : List String :=
  [program, "--descriptor_set_out=" ++ output, "--include_imports"] ++ paths.map (fun d => "-I" ++ d.toString)
    ++ files.map Path.toString

def compile (w : Workspace) (compiler : Compiler) (program : String) (files includes : List Path) :
    Tool (List Descriptor.File) := do
  let files := files.map (Path.resolve w.directory)
  let paths := searchPaths (includes.map (Path.resolve w.directory)) files
  let command := commandLine program compiler.output paths files
  modify fun s => { s with commands := s.commands ++ [command] }
  match compiler.call command with
  | .missing => throw (.compilerMissing program)
  | .ended status report output =>
    if status ≠ 0 then
      throw (.compilerFailed status (String.ofList (Text.trim (Utf8.decodeLossy report))))
    match output with
    | none => throw (.unreadable compiler.output .missing)
    | some bs => (Descriptor.setOfBytes bs : Except Error _)

end MessageCodec.Tool
