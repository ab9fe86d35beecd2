/-!
# Arguments

Arguments are read from the left.  An option is written `--name value`, `--name=value`, `-n value`, `-nvalue` or
`-n=value`, or without a value if it takes none, in which case letters can be joined; it is given at most once.  What is
no option is the name of a command, which takes the rest of the arguments, or else an operand.  After `--` all are
operands.
-/

namespace SeriesRegion.CommandLine

structure Switch where
  name : String
  letter : Option Char
  /-- The values accepted; `none` for an option without a value. -/
  accepts : Option (String → Bool)
  /-- Whether nothing is read after the option. -/
  isLast : Bool

/-- What arguments may contain: options, commands, and operands by the values each accepts. -/
structure Grammar where
  switches : List Switch
  commands : List String
  operands : List (String → Bool)

/-- Why arguments are not read to their end: they are not in order, or an option asks for something else. -/
inductive Stop where
  | usage
  | asked (name : String)
  deriving DecidableEq, Repr

/-- What has been read: the options by name, the operands, and the command with the arguments after it. -/
structure Arguments where
  given : List (String × String)
  operands : List String
  command : Option (String × List String)
  deriving DecidableEq, Repr

namespace Arguments

def empty : Arguments := ⟨[], [], none⟩

def value? (a : Arguments) (name : String) : Option String := a.given.lookup name

def has (a : Arguments) (name : String) : Bool := (a.value? name).isSome

def give (a : Arguments) (s : Switch) (value : String) : Except Stop Arguments :=
  if s.isLast then .error (.asked s.name)
  else if a.has s.name then .error .usage
  else if (s.accepts.map fun ok => ok value) = some false then .error .usage
  else .ok { a with given := a.given ++ [(s.name, value)] }

def addOperand (g : Grammar) (a : Arguments) (value : String) : Except Stop Arguments :=
  match g.operands[a.operands.length]? with
  | none => .error .usage
  | some ok => if ok value then .ok { a with operands := a.operands ++ [value] } else .error .usage

def addOperands (g : Grammar) (a : Arguments) : List String → Except Stop Arguments
  | [] => .ok a
  | value :: rest => do addOperands g (← addOperand g a value) rest

/-- Whether an argument is written like an option: a hyphen with something behind it. -/
def isSwitchLike (s : String) : Bool := s.startsWith "-" && s ≠ "-"

/-- Splits a text at the first equals sign. -/
def splitAtEquals (s : List Char) : List Char × Option (List Char) :=
  match s.dropWhile (· ≠ '=') with
  | [] => (s, none)
  | _ :: value => (s.takeWhile (· ≠ '='), some value)

/-- Reads joined letters; gives the option that still needs a value, if the last letter is one. -/
def readLetters (g : Grammar) (a : Arguments) : List Char → Except Stop (Arguments × Option Switch)
  | [] => .ok (a, none)
  | c :: rest =>
    match g.switches.find? (·.letter = some c) with
    | none => .error .usage
    | some s =>
      match s.accepts with
      | none => do readLetters g (← a.give s "") rest
      | some _ =>
        match rest with
        | [] => .ok (a, some s)
        | '=' :: value => do return (← a.give s (String.ofList value), none)
        | value => do return (← a.give s (String.ofList value), none)

/-- Reads one option written with two hyphens; gives the option if it still needs a value. -/
def readLong (g : Grammar) (a : Arguments) (text : List Char) : Except Stop (Arguments × Option Switch) :=
  let (name, attached) := splitAtEquals text
  match g.switches.find? (·.name = String.ofList name) with
  | none => .error .usage
  | some s =>
    match s.accepts, attached with
    | none, none => do return (← a.give s "", none)
    | none, some _ => .error .usage
    | some _, none => .ok (a, some s)
    | some _, some value => do return (← a.give s (String.ofList value), none)

def readSwitch (g : Grammar) (a : Arguments) (arg : String) : Except Stop (Arguments × Option Switch) :=
  match arg.toList with
  | '-' :: '-' :: text => readLong g a text
  | _ :: letters => readLetters g a letters
  | [] => .error .usage

/-- Reads arguments after those read already. -/
def readFrom (g : Grammar) (a : Arguments) : List String → Except Stop Arguments
  | [] => .ok a
  | arg :: rest =>
    if arg = "--" then addOperands g a rest
    else if isSwitchLike arg then
      match readSwitch g a arg with
      | .error e => .error e
      | .ok (a, none) => readFrom g a rest
      | .ok (a, some s) =>
        match rest with
        | [] => .error .usage
        | value :: rest =>
          if isSwitchLike value then .error .usage
          else
            match a.give s value with
            | .error e => .error e
            | .ok a => readFrom g a rest
    else if arg ∈ g.commands then .ok { a with command := some (arg, rest) }
    else
      match addOperand g a arg with
      | .error e => .error e
      | .ok a => readFrom g a rest

def read (g : Grammar) (args : List String) : Except Stop Arguments := readFrom g .empty args

end Arguments

end SeriesRegion.CommandLine
