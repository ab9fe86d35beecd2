import SeriesRegion.CommandLine.Session

/-!
# The program

Carries out on the files of this computer what the arguments ask for.
-/

namespace SeriesRegion.Program

/-- The failure that an error number of the operating system stands for, which may come with its sign changed. -/
def faultOfCode (code : UInt32) : IoFault :=
  match min code (0 - code) with
  | 2 => .notFound
  | 16 => .busy
  | 17 => .alreadyExists
  | 20 => .notADirectory
  | 21 => .isADirectory
  | 22 => .invalidArgument
  | 36 => .nameTooLong
  | 39 => .directoryNotEmpty
  | _ => .other

/-- The failure that an exception stands for. -/
def faultOf : IO.Error → IoFault
  | .alreadyExists _ code _ => faultOfCode code
  | .noFileOrDirectory _ code _ => faultOfCode code
  | .inappropriateType _ code _ => faultOfCode code
  | .unsatisfiedConstraints code _ => faultOfCode code
  | .invalidArgument _ code _ => faultOfCode code
  | .resourceBusy code _ => faultOfCode code
  | _ => .other

abbrev Files := StateT (Array IO.FS.Handle) IO

/-- Runs an action and catches its failure. -/
def attempt {α : Type} (action : IO α) : Files (Except IoFault α) := do
  match ← action.toBaseIO with
  | .ok a => return .ok a
  | .error e => return .error (faultOf e)

def bytesOfArray (a : ByteArray) : Bytes := a.toList

def arrayOfBytes (bs : Bytes) : ByteArray := ⟨bs.toArray⟩

/-- Runs an action on what a path leads to, unless the path leads nowhere. -/
def attemptAt {α : Type} (path : Path) (action : String → IO α) : Files (Except IoFault α) :=
  match path.refusal? with
  | some e => return .error e
  | none => attempt (action path.text)

def isDirectory (path : Path) : Files Bool := do
  match ← attemptAt path fun text => (System.mkFilePath [text]).isDir with
  | .ok b => return b
  | .error _ => return false

/-- Opens a file for reading and writing, and creates it if it is missing. -/
def openFile (path : String) : IO IO.FS.Handle := do
  let _ ← IO.FS.Handle.mk path .append
  IO.FS.Handle.mk path .readWrite

/-- Uses an open file; what `absent` gives stands for a file that is not open. -/
def withFile {α : Type} (file : Nat) (absent : α) (use : IO.FS.Handle → IO α) : Files α := do
  match (← get)[file]? with
  | some h => use h
  | none => return absent

def perform : (op : FileOp) → Files op.Answer
  | .makeDirectories p => p.makeDirectories (attemptAt · fun text => IO.FS.createDir text) isDirectory
  | .list p => attemptAt p fun text => do
    let entries ← (System.mkFilePath [text]).readDir
    return (entries.toList.map (·.fileName)).mergeSort fun a b => a ≤ b
  | .present p => do
    match ← attemptAt p fun text => (System.mkFilePath [text]).pathExists with
    | .ok b => return b
    | .error _ => return false
  | .read p => attemptAt p fun text => do return bytesOfArray (← IO.FS.readBinFile text)
  | .write p bytes => attemptAt p fun text => IO.FS.writeBinFile text (arrayOfBytes bytes)
  | .rename source target => do
    match target.refusal? with
    | some e => return .error (source.refusal?.getD e)
    | none => attemptAt source fun text => IO.FS.rename text target.text
  | .remove p => attemptAt p fun text => IO.FS.removeFile text
  | .openLog p => do
    match ← attemptAt p openFile with
    | .ok h =>
      let file := (← get).size
      modify (·.push h)
      return .ok file
    | .error e => return .error e
  | .contents f => withFile f [] fun h => do
    h.rewind
    return bytesOfArray (← h.readBinToEnd)
  | .append f bytes => withFile f () fun h => do
    let _ ← h.readBinToEnd
    h.write (arrayOfBytes bytes)
    h.flush
  | .truncate f length => withFile f () fun h => do
    h.rewind
    if length > 0 then
      let _ ← h.read (USize.ofNat length)
    h.truncate
    let _ ← h.readBinToEnd
  -- The standard library hands on what it holds back itself, and has nothing that waits for the device.
  | .sync f => do
    match (← get)[f]? with
    | some h => attempt h.flush
    | none => return .ok ()

def interpret {α : Type} : FileTask α → Files α
  | .done a => return a
  | .call op next => do
    let answer ← perform op
    interpret (next answer)

/-- The time now: that of a file made now. -/
def now : IO Timestamp := do
  let (_, path) ← IO.FS.createTempFile
  let time := (← path.metadata).modified
  IO.FS.removeFile path
  return ⟨time.sec, time.nsec.toNat⟩

/-- A random identifier, with the bits set that say it is one. -/
def randomId : IO Uuid := do
  let bytes := bytesOfArray (← IO.getRandomBytes 16)
  return ⟨(bytes.modify 6 fun b => b &&& 0x0f ||| 0x40).modify 8 fun b => b &&& 0x3f ||| 0x80⟩

end SeriesRegion.Program

open SeriesRegion SeriesRegion.Program in
def main (args : List String) : IO UInt32 := do
  let stamp : Snapshot.Stamp := ⟨← randomId, ← now⟩
  let (outcome, _) ← (interpret (CommandLine.run stamp args)).run #[]
  for line in outcome.lines do
    IO.println line
  match outcome.error with
  | some e => IO.eprintln ("Error: " ++ e)
  | none => pure ()
  if outcome.exitCode = 2 then
    for line in CommandLine.Session.help do
      IO.eprintln line
  return UInt32.ofNat outcome.exitCode
