import MessageCodec.Text.Lines

/-!
# Paths

Paths as a root and components. Empty components and single dots do not count; double dots are kept
until a path is resolved against a directory. Two slashes at the front, and no more, are a root of their
own.
-/

namespace MessageCodec

/-- A path. The root is empty, one slash or two. -/
structure Path where
  root : String
  parts : List String
deriving DecidableEq

namespace Path

def ofString (s : String) : Path :=
  let slashes := (s.toList.takeWhile (· == '/')).length
  let root := if slashes = 0 then "" else if slashes = 2 then "//" else "/"
  ⟨root, (Text.split '/' s).filter fun p => !p.isEmpty && p != "."⟩

/-- Write a path; the empty relative path is a dot. -/
def toString (p : Path) : String :=
  let body := "/".intercalate p.parts
  if p.root.isEmpty && p.parts.isEmpty then "." else p.root ++ body

/-- A path below a directory; an absolute path stands on its own. -/
def join (directory p : Path) : Path :=
  if p.root.isEmpty then ⟨directory.root, directory.parts ++ p.parts⟩ else p

def name (p : Path) : String := p.parts.getLast?.getD ""

/-- The extension of the last component with its dot: not a leading dot, and not a trailing one. -/
def suffix (p : Path) : String :=
  match Text.splitLast? '.' p.name with
  | some (stem, extension) => if stem.isEmpty || extension.isEmpty then "" else "." ++ extension
  | none => ""

def parent (p : Path) : Path := ⟨p.root, p.parts.dropLast⟩

/-- Carry out double dots; the root is its own parent. -/
def climb (done : List String) : List String → List String
  | [] => done
  | part :: rest => if part = ".." then climb done.dropLast rest else climb (done ++ [part]) rest

/-- The absolute path without double dots, from the one root that a resolved path has. -/
def resolve (cwd p : Path) : Path := ⟨"/", climb [] (cwd.join p).parts⟩

def isAbove (directory p : Path) : Bool :=
  directory.root == p.root && directory.parts.length < p.parts.length
    && p.parts.take directory.parts.length == directory.parts

def below (directory p : Path) : String := "/".intercalate (p.parts.drop directory.parts.length)

end Path

end MessageCodec
