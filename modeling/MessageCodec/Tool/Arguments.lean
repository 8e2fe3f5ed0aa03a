import MessageCodec.Text.Digit
import MessageCodec.Text.Lines

/-!
# Arguments

The arguments of the tool. A switch may be cut short as long as it stays unambiguous, its value may
follow an equals sign, and one-letter switches may be written together. The inputs are the first
unbroken run of arguments that belong to no switch; after a double dash everything is an input.
-/

namespace MessageCodec.Tool

inductive Switch where
  | help
  | proto
  | directory
  | out
  | option
  | verbose
deriving DecidableEq

namespace Switch

def takesValue : Switch → Bool
  | help | verbose => false
  | _ => true

def long : List (String × Switch) :=
  [("--help", help), ("--proto", proto), ("--include", directory), ("--out", out), ("--option", option),
    ("--verbose", verbose)]

def short? : Char → Option Switch
  | 'h' => some help
  | 'I' => some directory
  | 'v' => some verbose
  | _ => none

end Switch

/-- An argument by its role. -/
inductive Token where
  | plain (s : String)
  /-- The double dash. -/
  | dashes
  | long (switch : Switch) (value : Option String)
  | short (switch : Switch) (value : Option String)
  | unknown

/-- Whether an argument is a negative number, which is no switch. -/
def isNegativeNumber (cs : List Char) : Bool :=
  let isDigit (c : Char) : Bool := (Text.decimalValue? c).isSome
  match cs with
  | '-' :: rest =>
    let (whole, fraction) := rest.span isDigit
    match fraction with
    | [] => !whole.isEmpty
    | '.' :: digits => !digits.isEmpty && digits.all isDigit
    | _ => false
  | _ => false

/-- The role of an argument that begins with a dash and is no switch. -/
def otherToken (s : String) : Token :=
  if isNegativeNumber s.toList || s.toList.contains ' ' then .plain s else .unknown

def longToken (s : String) : Option Token :=
  let (name, value) :=
    match Text.splitFirst? '=' s with
    | some (name, v) => (name, some v)
    | none => (s, none)
  match Switch.long.find? fun e => e.1 == name with
  | some (_, switch) => some (.long switch value)
  | none =>
    match Switch.long.filter fun e => name.toList.isPrefixOf e.1.toList with
    | [] => some (otherToken s)
    | [(_, switch)] => some (.long switch value)
    | _ => none

def shortToken (s : String) (letter : Char) (rest : List Char) : Token :=
  match Switch.short? letter, rest with
  | none, _ => otherToken s
  | some switch, [] => .short switch none
  | some switch, '=' :: v => .short switch (some (String.ofList v))
  | some switch, v => .short switch (some (String.ofList v))

/-- The role of an argument. None stands for a name cut too short. -/
def tokenOf (s : String) : Option Token :=
  match s.toList with
  | '-' :: '-' :: [] => some .dashes
  | '-' :: '-' :: _ => longToken s
  | '-' :: letter :: rest => some (shortToken s letter rest)
  | _ => some (.plain s)

def tokens : List String → Option (List Token)
  | [] => some []
  | s :: rest => do
    match ← tokenOf s with
    | .dashes => return .dashes :: rest.map .plain
    | token =>
      let more ← tokens rest
      return token :: more

structure Arguments where
  inputs : List String := []
  protos : List String := []
  directories : List String := []
  out : Option String := none
  options : List String := []
  verbose : Bool := false

inductive Wish where
  /-- The arguments make no sense. -/
  | misuse
  | help
  | run (arguments : Arguments)

def Arguments.apply (a : Arguments) (switch : Switch) (value : String) : Arguments :=
  match switch with
  | .help => a
  | .proto => { a with protos := a.protos ++ [value] }
  | .directory => { a with directories := a.directories ++ [value] }
  | .out => { a with out := some value }
  | .option => { a with options := a.options ++ [value] }
  | .verbose => { a with verbose := true }

/-- Switches written together: each with its value, if it has one yet. -/
def cluster (switch : Switch) : Option (List Char) → Option (List (Switch × Option String))
  | none => some [(switch, none)]
  | some letters =>
    if switch.takesValue then some [(switch, some (String.ofList letters))]
    else
      match letters with
      | [] => none
      | letter :: rest => do
        let next ← Switch.short? letter
        let more ← cluster next (if rest.isEmpty then none else some rest)
        return (switch, none) :: more
termination_by letters => (letters.map List.length).getD 0
decreasing_by
  cases rest <;> simp

def switchesOf : Token → Option (List (Switch × Option String))
  | .long switch (some v) => if switch.takesValue then some [(switch, some v)] else none
  | .long switch none => some [(switch, none)]
  | .short switch value => cluster switch (value.map String.toList)
  | _ => some []

/-- The text of an argument that belongs to no switch. -/
def Token.text? : Token → Option String
  | plain s => some s
  | dashes => some "--"
  | _ => none

/-- Take the inputs: a run of arguments without its first double dash. -/
def takeInputs (run : List Token) : List String :=
  (run.filterMap Token.text?).erase "--"

/-- Whether a run holds an input besides the double dash. -/
def hasInput (run : List Token) : Bool := run.any fun t => t matches .plain _

/-- The arguments in front that belong to no switch. -/
def freeRun (ts : List Token) : List Token := ts.takeWhile fun t => t.text?.isSome

def afterRun (ts : List Token) : List Token := ts.dropWhile fun t => t.text?.isSome

theorem length_afterRun_le (ts : List Token) : (afterRun ts).length ≤ ts.length :=
  (List.dropWhile_sublist _).length_le

/-- Read tokens. `taken` tells that the inputs have been taken, `extra` that something was left over. -/
def readTokens (a : Arguments) (taken extra : Bool) (ts : List Token) : Wish :=
  match ts with
  | [] => if extra || !taken || a.out.isNone then .misuse else .run a
  | .unknown :: rest => readTokens a taken true rest
  | .plain s :: rest =>
    have := length_afterRun_le rest
    if taken then readTokens a true true (afterRun rest)
    else
      let inputs := takeInputs (.plain s :: freeRun rest)
      readTokens { a with inputs } true extra (afterRun rest)
  | .dashes :: rest =>
    have := length_afterRun_le rest
    if taken || !hasInput (freeRun rest) then readTokens a taken true (afterRun rest)
    else
      let inputs := takeInputs (.dashes :: freeRun rest)
      readTokens { a with inputs } true extra (afterRun rest)
  | token :: rest =>
    match switchesOf token with
    | none => .misuse
    | some switches =>
      let waiting := switches.any fun s => s.1.takesValue && s.2.isNone
      match waiting, rest with
      | true, .plain v :: rest =>
        if switches.any fun s => s.1 = .help then .help
        else readTokens (switches.foldl (fun a s => a.apply s.1 (s.2.getD v)) a) taken extra rest
      | true, _ => .misuse
      | false, rest =>
        if switches.any fun s => s.1 = .help then .help
        else readTokens (switches.foldl (fun a s => a.apply s.1 (s.2.getD "")) a) taken extra rest
termination_by ts.length
decreasing_by
  all_goals
    simp only [List.length_cons]
    omega

def Arguments.read (argv : List String) : Wish :=
  match tokens argv with
  | some ts => readTokens {} false false ts
  | none => .misuse

end MessageCodec.Tool
