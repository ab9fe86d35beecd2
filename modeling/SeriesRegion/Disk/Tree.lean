import SeriesRegion.Bytes
import SeriesRegion.Disk.Path
import SeriesRegion.Numbered
import SeriesRegion.SortedMap

/-!
# A file system

Directories and files have numbers; a directory says what stands under each name in it.  A file that is open can still
be read and written after its name is gone.  A place in the tree is known by the directories on the way to it, so that
one can go back up.

* `Disk.bytesOf_append`, `Disk.bytesOf_truncate`, `Disk.bytesOf_setBytes`: what is in the files after a change of one.
-/

namespace SeriesRegion

/-- What stands under a name. -/
inductive Node where
  | directory (number : Nat)
  | file (number : Nat)
  deriving DecidableEq, Repr

def Node.isFile : Node → Bool
  | directory _ => false
  | file _ => true

/-- The way to a directory: its number, and the numbers of those above it, the nearest first. -/
structure Trail where
  here : Nat
  above : List Nat
  deriving DecidableEq, Repr

namespace Trail

def root : Trail := ⟨0, []⟩

/-- Whether a directory is on the way, or is the one that it leads to. -/
def passes (t : Trail) (number : Nat) : Bool := number = t.here ∨ number ∈ t.above

/-- Goes to a directory in this one. -/
def down (t : Trail) (number : Nat) : Trail := ⟨number, t.here :: t.above⟩

/-- Goes to the directory above; from the root one goes nowhere. -/
def up (t : Trail) : Trail :=
  match t.above with
  | [] => t
  | number :: rest => ⟨number, rest⟩

@[simp] theorem up_down (t : Trail) (number : Nat) : (t.down number).up = t := rfl

end Trail

/-- A file system: the way to the directory that relative paths start from, what stands under each name of the
directories, and the contents of the files. -/
structure Disk where
  home : Trail
  directories : Numbered (SortedMap String Node)
  files : Numbered (Array UInt8)
  deriving DecidableEq

namespace Disk

def new (home : String) : Disk :=
  ⟨Trail.root.down 1, (Numbered.empty.set 0 (SortedMap.empty.insert home (.directory 1))).set 1 .empty, .empty⟩

def node? (d : Disk) (directory : Nat) (name : String) : Option Node := (d.directories.get directory).get? name

/-- Why nothing is found under a name that is not there: a name may be too long for anything to be there. -/
def absence (name : String) : IoFault := if Path.maxNameSize < name.utf8ByteSize then .nameTooLong else .notFound

/-- Goes from a directory to the one under a name in it. -/
def enter (d : Disk) (t : Trail) (name : String) : Except IoFault Trail :=
  if name = "." then .ok t
  else if name = ".." then .ok t.up
  else
    match d.node? t.here name with
    | some (.directory n) => .ok (t.down n)
    | some (.file _) => .error .notADirectory
    | none => .error (absence name)

/-- Where a path leads to: into a directory, or to a name in one, under which something may stand or not. -/
inductive Place where
  | inside (directory : Trail)
  | entry (directory : Trail) (name : String)
  deriving DecidableEq, Repr

/-- Follows names from a directory.  All but the last must lead to directories. -/
def walk (d : Disk) (t : Trail) : List String → Except IoFault Place
  | [] => .ok (.inside t)
  | name :: rest =>
    if rest = [] ∧ name ≠ "." ∧ name ≠ ".." then .ok (.entry t name)
    else
      match d.enter t name with
      | .ok k => walk d k rest
      | .error e => .error e

def place (d : Disk) (p : Path) : Except IoFault Place :=
  match p.refusal? with
  | some e => .error e
  | none => d.walk (if p.isAbsolute then .root else d.home) p.names

def find (d : Disk) (p : Path) : Except IoFault Node :=
  match d.place p with
  | .error e => .error e
  | .ok (.inside t) => .ok (.directory t.here)
  | .ok (.entry t name) =>
    match d.node? t.here name with
    | none => .error (absence name)
    | some (.directory n) => .ok (.directory n)
    | some (.file f) => if p.asksForDirectory then .error .notADirectory else .ok (.file f)

def present (d : Disk) (p : Path) : Bool :=
  match d.find p with
  | .ok _ => true
  | .error _ => false

def isDirectory (d : Disk) (p : Path) : Bool :=
  match d.find p with
  | .ok (.directory _) => true
  | _ => false

def put (d : Disk) (directory : Nat) (name : String) (n : Node) : Disk :=
  { d with directories := d.directories.modify directory (·.insert name n) }

def drop (d : Disk) (directory : Nat) (name : String) : Disk :=
  { d with directories := d.directories.modify directory (·.erase name) }

def clear (d : Disk) (directory : Nat) : Disk := { d with directories := d.directories.set directory .empty }

def createDirectory (d : Disk) (directory : Nat) (name : String) : Disk :=
  (d.clear d.directories.next).put directory name (.directory d.directories.next)

/-! ### Contents of files -/

def bytesOf (d : Disk) (file : Nat) : Bytes := (d.files.get file).toList

def setBytes (d : Disk) (file : Nat) (bytes : Bytes) : Disk := { d with files := d.files.set file bytes.toArray }

def append (d : Disk) (file : Nat) (bytes : Bytes) : Disk := { d with files := d.files.modify file (· ++ bytes) }

def truncate (d : Disk) (file length : Nat) : Disk := { d with files := d.files.modify file (·.take length) }

def createFile (d : Disk) (directory : Nat) (name : String) : Disk :=
  (d.setBytes d.files.next []).put directory name (.file d.files.next)

theorem bytesOf_setBytes (d : Disk) (f g : Nat) (bytes : Bytes) :
    (d.setBytes f bytes).bytesOf g = if g = f then bytes else d.bytesOf g := by
  simp only [bytesOf, setBytes, Numbered.get_set]
  split <;> rfl

theorem bytesOf_append (d : Disk) (f g : Nat) (bytes : Bytes) :
    (d.append f bytes).bytesOf g = if g = f then d.bytesOf f ++ bytes else d.bytesOf g := by
  simp only [bytesOf, append, Numbered.get_modify]
  split <;> simp

theorem bytesOf_truncate (d : Disk) (f g length : Nat) :
    (d.truncate f length).bytesOf g = if g = f then (d.bytesOf f).take length else d.bytesOf g := by
  simp only [bytesOf, truncate, Numbered.get_modify]
  split <;> simp

/-! ### Operations on paths -/

def makeDirectory (d : Disk) (p : Path) : Except IoFault Unit × Disk :=
  match d.place p with
  | .error e => (.error e, d)
  | .ok (.inside _) => (.error .alreadyExists, d)
  | .ok (.entry t name) =>
    match d.node? t.here name with
    | some _ => (.error .alreadyExists, d)
    | none =>
      if absence name = .notFound then (.ok (), d.createDirectory t.here name) else (.error (absence name), d)

def makeDirectories (d : Disk) (p : Path) : Except IoFault Unit × Disk :=
  let make (p : Path) : StateM Disk (Except IoFault Unit) := fun d => d.makeDirectory p
  let isThere (p : Path) : StateM Disk Bool := fun d => (d.isDirectory p, d)
  (p.makeDirectories make isThere).run d

def list (d : Disk) (p : Path) : Except IoFault (List String) :=
  match d.find p with
  | .error e => .error e
  | .ok (.file _) => .error .notADirectory
  | .ok (.directory n) => .ok (d.directories.get n).keys

def read (d : Disk) (p : Path) : Except IoFault Bytes :=
  match d.find p with
  | .error e => .error e
  | .ok (.directory _) => .error .isADirectory
  | .ok (.file f) => .ok (d.bytesOf f)

/-- Opens a file for writing, and creates it if it is missing. -/
def openFile (d : Disk) (p : Path) : Except IoFault Nat × Disk :=
  match d.place p with
  | .error e => (.error e, d)
  | .ok (.inside _) => (.error .isADirectory, d)
  | .ok (.entry t name) =>
    if p.asksForDirectory then (.error .isADirectory, d)
    else
      match d.node? t.here name with
      | some (.directory _) => (.error .isADirectory, d)
      | some (.file f) => (.ok f, d)
      | none =>
        if absence name = .notFound then (.ok d.files.next, d.createFile t.here name) else (.error (absence name), d)

def write (d : Disk) (p : Path) (bytes : Bytes) : Except IoFault Unit × Disk :=
  match d.openFile p with
  | (.error e, d) => (.error e, d)
  | (.ok f, d) => (.ok (), d.setBytes f bytes)

def remove (d : Disk) (p : Path) : Except IoFault Unit × Disk :=
  match d.place p with
  | .error e => (.error e, d)
  | .ok (.inside _) => (.error .isADirectory, d)
  | .ok (.entry t name) =>
    match d.node? t.here name with
    | none => (.error (absence name), d)
    | some (.directory _) => (.error .isADirectory, d)
    | some (.file _) => if p.asksForDirectory then (.error .notADirectory, d) else (.ok (), d.drop t.here name)

/-- Why the directory that a path leads to keeps its name although nothing is in it: only a name written out can be
taken away. -/
def keeping (p : Path) : IoFault :=
  match p.names.getLast? with
  | none => .busy
  | some "." => .invalidArgument
  | some _ => .directoryNotEmpty

/-- Removes a file, or a directory with all that is inside it.  What is inside goes first, and if that takes away the
path to the directory too, the directory stays. -/
def removeTree (d : Disk) (p : Path) : Except IoFault Unit × Disk :=
  match d.find p with
  | .error e => (.error e, d)
  | .ok (.file _) => d.remove p
  | .ok (.directory n) =>
    let d := d.clear n
    -- The path may have led through the directory and back out of it.
    match d.place p with
    | .error .notFound => (.ok (), d)
    | .error e => (.error e, d)
    | .ok (.inside _) => (.error (keeping p), d)
    | .ok (.entry t name) => (.ok (), d.drop t.here name)

/-- Why something cannot be renamed to a name under which something else may stand.  A file takes the place of a file, a
directory that of an empty directory, and none is moved into itself. -/
def renameFault? (d : Disk) (node : Node) (source target : Trail) (old : Option Node) : Option IoFault :=
  match node, old with
  | .file _, none => none
  | .file _, some (.file _) => none
  | .file _, some (.directory n) => some (if source.passes n then .directoryNotEmpty else .isADirectory)
  | .directory n, old =>
    if target.passes n then some .invalidArgument
    else
      match old with
      | none => none
      | some (.file _) => some .notADirectory
      | some (.directory m) =>
        if source.passes m ∨ (d.directories.get m).size ≠ 0 then some .directoryNotEmpty else none

def rename (d : Disk) (source target : Path) : Except IoFault Unit × Disk :=
  match d.place source, d.place target with
  | .error e, _ => (.error e, d)
  | _, .error e => (.error e, d)
  | .ok (.entry s sourceName), .ok (.entry t targetName) =>
    match d.node? s.here sourceName with
    | none => (.error (absence sourceName), d)
    | some node =>
      let old := d.node? t.here targetName
      if old = none ∧ absence targetName = .nameTooLong then (.error .nameTooLong, d)
      else if node.isFile ∧ (source.asksForDirectory ∨ target.asksForDirectory) then (.error .notADirectory, d)
      -- To its own name anything can be renamed, a directory that is not empty too.
      else if s.here = t.here ∧ sourceName = targetName then (.ok (), d)
      else
        match d.renameFault? node s t old with
        | some e => (.error e, d)
        | none => (.ok (), (d.drop s.here sourceName).put t.here targetName node)
  | _, _ => (.error .busy, d)

end Disk

end SeriesRegion
