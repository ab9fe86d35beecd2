import SeriesRegion.Disk.Task

/-!
# Generations of files

A region keeps its files by generation: `checkpoint-N.bin`, the image it started from, and `wal-N.log`, the writes since.
The generation of a file is read from its name; of a directory the latest counts.
-/

namespace SeriesRegion

def decimalNumber? : List Char → Option Nat
  | [] => none
  | ds => ds.foldl (fun n c => do if c.isDigit then return 10 * (← n) + (c.toNat - 48) else none) (some 0)

/-- Reads a machine word: decimal digits, after a plus sign or none. -/
def parseWord? (s : List Char) : Option UInt64 :=
  let ds :=
    match s with
    | '+' :: rest => rest
    | s => s
  match decimalNumber? ds with
  | some n => if n < UInt64.size then some (UInt64.ofNat n) else none
  | none => none

/-- What stands between a beginning and an end. -/
def stripEnds? (first last s : List Char) : Option (List Char) :=
  if first.isPrefixOf s then
    let rest := s.drop first.length
    if last.isSuffixOf rest then some (rest.take (rest.length - last.length)) else none
  else none

namespace Generation

def checkpointName (g : UInt64) : String := s!"checkpoint-{g.toNat}.bin"

def logName (g : UInt64) : String := s!"wal-{g.toNat}.log"

/-- The name under which a checkpoint is written before it takes its place. -/
def draftName (g : UInt64) : String := checkpointName g ++ ".tmp"

/-- The generation that a file name belongs to. -/
def ofName? (name : String) : Option UInt64 :=
  match stripEnds? "checkpoint-".toList ".bin".toList name.toList with
  | some s => parseWord? s
  | none => (stripEnds? "wal-".toList ".log".toList name.toList).bind parseWord?

/-- The latest generation among file names. -/
def latestOf (names : List String) : Option UInt64 :=
  (names.filterMap ofName?).foldl (fun latest g => some (match latest with | some l => max l g | none => g)) none

/-- The latest generation in a directory; a directory that is missing has none. -/
def latest (dir : Path) : FileWork IoFault (Option UInt64) := ExceptT.mk do
  let isThere : Bool ← FileTask.perform (.present dir)
  if isThere then
    let names : Except IoFault (List String) ← FileTask.perform (.list dir)
    return names.map latestOf
  else return .ok none

def isStale (current : UInt64) (name : String) : Bool :=
  match ofName? name with
  | some g => g < current
  | none => false

/-- Removes files of a directory one after the other, whether that succeeds or not. -/
def removeAll (dir : Path) : List String → FileTask Unit
  | [] => pure ()
  | name :: rest => do
    let _ ← FileTask.perform (.remove (dir.child name))
    removeAll dir rest

/-- Removes those of listed files that belong to generations before `current`. -/
def removeStale (dir : Path) (current : UInt64) : Except IoFault (List String) → FileTask Unit
  | .error _ => return ()
  | .ok names => removeAll dir (names.filter (isStale current))

def purge (dir : Path) (current : UInt64) : FileTask Unit := do
  let names : Except IoFault (List String) ← FileTask.perform (.list dir)
  removeStale dir current names

end Generation

end SeriesRegion
