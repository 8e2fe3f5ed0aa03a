import MessageCodec.Error
import MessageCodec.Naming.Rules
import MessageCodec.Path
import MessageCodec.Text.Escaped
import MessageCodec.Text.Lines

/-!
# The surroundings of a run

The files a run can read and the places it cannot, the directory it works in, the homes of the users, the
naming configuration that the environment names, how deep one may nest, and how escapes are read. The last
is up to the library that schemas come from; reading them as `Escaped.decode` does is what a run has by
default.
-/

namespace MessageCodec

/-- The files of a run and its environment. -/
structure Workspace where
  /-- The working directory, an absolute path. -/
  directory : Path := ⟨"/", []⟩
  /-- The home directories by user. The one without a name is the user of the run. -/
  homes : Table Path := [("", ⟨"/", []⟩)]
  /-- The contents of the files by absolute path. -/
  files : List (Path × List UInt8) := []
  /-- The absolute paths that the system does not open, nor what is below them. -/
  refused : List (Path × ReadFault) := []
  namingConfig : Option String := none
  /-- How many levels a naming configuration may nest. -/
  levels : Nat := 900
  unescape : Unescaping := Escaped.decode

namespace Workspace

def ancestors (parts : List String) : List (List String) :=
  (List.range parts.length).map fun n => parts.take n

/-- The directories known to be there: the working directory, those of the files, and their ancestors. -/
def directories (w : Workspace) : List (List String) :=
  w.directory.parts :: ancestors w.directory.parts ++ w.files.flatMap fun f => ancestors f.1.parts

def file? (w : Workspace) (parts : List String) : Option (List UInt8) :=
  (w.files.find? fun f => f.1.parts == parts).map Prod.snd

def refusal? (w : Workspace) (parts : List String) : Option ReadFault :=
  (w.refused.find? fun r => r.1.parts == parts).map Prod.snd

/-- The bytes that the name of a file, and a whole path, may have. -/
def nameLimit : Nat := 255

def pathLimit : Nat := 4095

def isTooLong (path : String) : Bool := pathLimit < (Utf8.encode path.toList).length

/-- Follow a path one component after the other. Going on needs a directory to be there. -/
def follow (w : Workspace) (place : List String) : List String → Except ReadFault (List String)
  | [] => .ok place
  | part :: rest =>
    if let some fault := w.refusal? place then .error fault
    else if w.directories.contains place then
      if part = ".." then w.follow place.dropLast rest
      else if nameLimit < (Utf8.encode part.toList).length then .error .nameTooLong
      else w.follow (place ++ [part]) rest
    else .error (if (w.file? place).isSome then .notDirectory else .missing)

def locate (w : Workspace) (p : Path) : Except ReadFault (List String) :=
  w.follow (if p.root.isEmpty then w.directory.parts else []) p.parts

def read (w : Workspace) (p : Path) : Except ReadFault (List UInt8) := do
  if isTooLong p.toString then throw .nameTooLong
  let parts ← w.locate p
  match w.refusal? parts with
  | some fault => throw fault
  | none =>
    match w.file? parts with
    | some bs => return bs
    | none => throw (if w.directories.contains parts then .isDirectory else .missing)

/-- A path that ends in a slash, or in a dot after one, leads to a directory or nowhere. -/
def asksDirectory (path : String) : Bool :=
  let last := (Text.split '/' path).getLast?.getD ""
  last.isEmpty || last == "."

/-- The contents of a file that must be there. -/
def readBytes (w : Workspace) (path : String) : Except Error (List UInt8) :=
  if path.toList.contains '\x00' then .error .nullInPath
  else if isTooLong path then .error (.unreadable path .nameTooLong)
  else
    match w.read (Path.ofString path) with
    | .ok bs => if asksDirectory path then .error (.unreadable path .notDirectory) else .ok bs
    | .error fault => .error (.unreadable path fault)

/-- The path that a tilde with the name of a user at the front stands for: one below the home of the user. -/
def expand (w : Workspace) (p : Path) : Except Error Path :=
  match p.root.isEmpty, p.parts with
  | true, first :: rest =>
    match first.toList with
    | '~' :: user =>
      if user.contains '\x00' then .error .nullInPath
      else
        match w.homes.get? (String.ofList user) with
        | some home => .ok ⟨home.root, home.parts ++ rest⟩
        | none => .error (.noHome (String.ofList user))
    | _ => .ok p
  | _, _ => .ok p

/-- The text of a file with unified line ends. -/
def readText (w : Workspace) (path : String) : Except Error (List Char) := do
  let bs ← w.readBytes path
  match Utf8.decode bs with
  | .ok cs => return Text.unifyNewlines cs
  | .error fault => throw (.notUtf8 fault)

/-- The naming rules of a configuration file. Without a path the environment is asked, and without that
the standard rules hold. -/
def namingRules (w : Workspace) (path : Option String) : Except Error Naming.Rules :=
  let named (p : Option String) := p.filter fun s => !s.isEmpty
  match (named path).or (named w.namingConfig) with
  | some p => do
    let cs ← w.readText p
    Naming.Rules.ofText w.levels cs
  | none => .ok .standard

end Workspace

end MessageCodec
