import SeriesRegion.Disk.Fault

/-!
# Paths

A path is a text as somebody wrote it, with names appended below it.  It is shown as written; the names it leads through
are those between its slashes.  A path that ends in a slash asks for a directory.
-/

namespace SeriesRegion

/-- A written path and the names appended to it. -/
structure Path where
  base : String
  below : List String
  deriving DecidableEq, Repr

namespace Path

def ofText (s : String) : Path := ⟨s, []⟩

def child (p : Path) (name : String) : Path := { p with below := p.below ++ [name] }

def join (s name : String) : String := if s = "" ∨ s.endsWith "/" then s ++ name else s ++ "/" ++ name

def text (p : Path) : String := p.below.foldl join p.base

def isAbsolute (p : Path) : Bool := p.base.startsWith "/"

/-- The parts of a text between slashes. -/
def parts : List Char → List (List Char)
  | [] => [[]]
  | c :: rest =>
    if c = '/' then [] :: parts rest
    else
      match parts rest with
      | [] => [[c]]
      | p :: ps => (c :: p) :: ps

/-- The names a path leads through. -/
def names (p : Path) : List String :=
  ((parts p.base.toList).filter (· ≠ [])).map String.ofList ++ p.below

/-- Whether nothing is written at all; such a path leads nowhere. -/
def isEmpty (p : Path) : Bool := p.base = "" ∧ p.below = []

def asksForDirectory (p : Path) : Bool := p.below = [] ∧ p.base.toList.getLast? = some '/'

/-- The bytes of a path are fewer than this. -/
def maxSize : Nat := 4096

def maxNameSize : Nat := 255

/-- Why a path leads nowhere on any disk. -/
def refusal? (p : Path) : Option IoFault :=
  if p.text.contains '\x00' then some .zeroInName
  else if p.isEmpty then some .notFound
  else if maxSize ≤ p.text.utf8ByteSize then some .nameTooLong
  else none

/-- The paths above a path, the nearest first, without the root and the directory that relative paths start from. -/
def ancestors (p : Path) : List Path :=
  let ns := p.names.filter (· ≠ ".")
  ((List.range ns.length).drop 1).reverse.map fun n => ⟨if p.isAbsolute then "/" else "", ns.take n⟩

/-- Whether a path leads no further than to where paths start. -/
def isStart (p : Path) : Bool := p.isEmpty ∨ (p.isAbsolute ∧ p.names.all (· = "."))

section Directories

variable {M : Type → Type} [Monad M] (make : Path → M (Except IoFault Unit)) (isDirectory : Path → M Bool)

def makeOne (p : Path) : M (Except IoFault Unit) := do
  match ← make p with
  | .error .alreadyExists => return if ← isDirectory p then .ok () else .error .alreadyExists
  | outcome => return outcome

/-- Makes the first of some paths a directory.  If there is nothing to put it into, the others, which are above it, are
made before it. -/
def makeFirst : List Path → M (Except IoFault Unit)
  | [] => return .ok ()
  | p :: above => do
    match ← makeOne make isDirectory p with
    | .error .notFound =>
      match ← makeFirst above with
      | .ok () => makeOne make isDirectory p
      | .error e => return .error e
    | outcome => return outcome

def makeDirectories (p : Path) : M (Except IoFault Unit) :=
  if p.isStart then return .ok () else makeFirst make isDirectory (p :: p.ancestors)

end Directories

end Path

end SeriesRegion
