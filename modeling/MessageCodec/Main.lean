import MessageCodec.Plugin
import MessageCodec.Tool.Command

/-!
# The program

Called without arguments it is a compiler plugin, which reads a request from standard input and writes a
response to standard output. Called with arguments it is a tool that generates a package from serialized
sets of files. It runs no other program, so schema files have to be compiled beforehand.
-/

namespace MessageCodec.Program

/-- The settings of a parameter string, which may name files to read. -/
def filesOfParameter (parameter : String) : List String := (Settings.entries parameter).map Prod.snd

def filesOfArguments (argv : List String) : List String :=
  match Tool.Arguments.read argv with
  | .run a => a.inputs ++ filesOfParameter (",".intercalate a.options)
  | _ => []

def filesOfRequest (request : List UInt8) : List String :=
  match Descriptor.Request.ofBytes request with
  | .ok r => filesOfParameter r.parameter
  | .error _ => []

/-- The fault of a file that is there but cannot be read. -/
def faultOf? : IO.Error → Option ReadFault
  | .permissionDenied .. => some .denied
  | .hardwareFault code reason | .resourceExhausted _ code reason | .otherError code reason =>
    some (.other code.toNat reason)
  | _ => none

/-- Read a file, or tell why it cannot be read if it is there. -/
def readFile (path : String) : IO (Except (Option ReadFault) (List UInt8)) := do
  try
    let content ← IO.FS.readBinFile path
    return .ok content.toList
  catch e => return .error (faultOf? e)

/-- The surroundings of a call that may read the named files. -/
def surroundings (named : List String) : IO Workspace := do
  let current ← IO.currentDir
  let directory := Path.ofString current.toString
  let homes := (← IO.getEnv "HOME").toList.map fun home => ("", Path.ofString home)
  let namingConfig ← IO.getEnv "PROTO2WIRE_NAMING_CONFIG"
  let mut w : Workspace := { directory, homes, namingConfig }
  for name in named ++ namingConfig.toList do
    let path := (w.expand (Path.ofString name)).toOption.getD (Path.ofString name)
    match ← readFile path.toString with
    | .ok content => w := { w with files := (directory.resolve path, content) :: w.files }
    | .error (some fault) => w := { w with refused := (directory.resolve path, fault) :: w.refused }
    | .error none => pure ()
  return w

/-- The text of the shared runtime module, from the file that the environment names. -/
def runtimeText : IO String := do
  match ← IO.getEnv "MESSAGE_CODEC_RUNTIME" with
  | some path => IO.FS.readFile path
  | none => return ""

def showJournal (journal : Journal) : IO Unit := do
  for entry in journal do
    IO.eprintln (entry.level.name ++ " " ++ entry.text)

partial def readInput (input : IO.FS.Stream) (sofar : ByteArray) : IO ByteArray := do
  let chunk ← input.read 65536
  if chunk.isEmpty then return sofar else readInput input (sofar ++ chunk)

/-- Serve as a compiler plugin. -/
def serve (runtime : String) : IO UInt32 := do
  let request ← readInput (← IO.getStdin) ByteArray.empty
  let w ← surroundings (filesOfRequest request.toList)
  let (result, journal) := (answerBytes w runtime request.toList).run []
  showJournal journal
  match result with
  | .ok response =>
    (← IO.getStdout).write (ByteArray.mk response.toBytes.toArray)
    return 0
  | .error e =>
    IO.eprintln e.message
    return 1

def generate (runtime : String) (argv : List String) : IO UInt32 := do
  let w ← surroundings (filesOfArguments argv)
  let compiler : Compiler := { output := "descriptor_set.pb", call := fun _ => .missing }
  let (result, session) := (Tool.command w compiler runtime argv).run {}
  showJournal session.journal
  match result with
  | .ok outcome =>
    for (path, text) in outcome.written do
      IO.FS.createDirAll path.parent.toString
      IO.FS.writeFile path.toString text
    for line in outcome.lines do
      IO.println line
    return UInt32.ofNat outcome.status
  | .error e =>
    IO.eprintln e.message
    return 1

end MessageCodec.Program

def main (argv : List String) : IO UInt32 := do
  let runtime ← MessageCodec.Program.runtimeText
  if argv.isEmpty then MessageCodec.Program.serve runtime
  else MessageCodec.Program.generate runtime argv
