import SeriesRegion.Generation
import SeriesRegion.Log
import SeriesRegion.Text.Quoted

/-!
# Data regions

A region keeps a table of points and a log of the writes since the table's checkpoint.  Opening a region takes the
latest generation in its directory, reads the checkpoint, replays the log over it and removes older files.  An insert
is logged before it is applied.
-/

namespace SeriesRegion

inductive RegionFault where
  | invalidInsert (device : String) (fault : ShapeFault)
  | log (fault : LogFault)
  | io (fault : IoFault)
  | codec (fault : Binary.Fault)
  deriving DecidableEq, Repr

def RegionFault.message : RegionFault → String
  | .invalidInsert device f => s!"invalid insert for {device}: {f.message}"
  | .log e => e.message
  | .io e => "region I/O error: " ++ e.message
  | .codec e => "checkpoint codec error: " ++ e.message

/-- An open region. -/
structure Region where
  storageGroup : String
  id : UInt32
  dataDir : Path
  generation : UInt64
  syncWal : Bool
  log : LogFile
  table : MemTable
  deriving DecidableEq

namespace Region

/-- Reads the checkpoint of a generation; without one the table is empty. -/
def readCheckpoint (dir : Path) (g : UInt64) : FileWork RegionFault MemTable := do
  let path := dir.child (Generation.checkpointName g)
  let isThere : Bool ← ExceptT.lift (FileTask.perform (.present path))
  if isThere then
    let bytes ← FileWork.attempt (.perform (.read path)) .io
    FileWork.ofExcept (Binary.Format.memTable.decode bytes) .codec
  else return .empty

def replayOver (log : LogFile) (table : MemTable) : FileWork RegionFault MemTable := ExceptT.mk do
  let (table, outcome) ← log.replay (fun t e => (t.apply e, none)) table
  match outcome with
  | .ok () => return .ok table
  | .error e => return .error (.log e)

/-- Opens the region in a directory, which is created if it is missing. -/
def openAt (storageGroup : String) (id : UInt32) (dir : Path) (syncWal : Bool) : FileWork RegionFault Region := do
  FileWork.attempt (.perform (.makeDirectories dir)) .io
  let latest ← FileWork.within (Generation.latest dir) .io
  let g := latest.getD 0
  let checkpoint ← readCheckpoint dir g
  let log ← FileWork.within (LogFile.openAt (dir.child (Generation.logName g)) syncWal) .log
  let table ← replayOver log checkpoint
  -- What older generations left is of no use from here on.
  ExceptT.lift (Generation.purge dir g)
  return ⟨storageGroup, id, dir, g, syncWal, log, table⟩

/-- Writes a table as the checkpoint of a generation: under a draft name first, so that the checkpoint is there whole or
not at all. -/
def writeCheckpoint (dir : Path) (g : UInt64) (table : MemTable) : FileWork RegionFault Unit := do
  FileWork.attempt (.perform (.makeDirectories dir)) .io
  FileWork.attempt (.perform (.write (dir.child (Generation.draftName g)) (Binary.Format.memTable.write table))) .io
  FileWork.attempt
    (.perform (.rename (dir.child (Generation.draftName g)) (dir.child (Generation.checkpointName g)))) .io

/-- Opens the region in a directory on a table, written as the checkpoint of a generation.  If the region cannot be
opened the files of the generation are removed. -/
def restore (storageGroup : String) (id : UInt32) (dir : Path) (g : UInt64) (table : MemTable) (syncWal : Bool) :
    FileWork RegionFault Region := do
  writeCheckpoint dir g table
  ExceptT.mk do
    match ← (openAt storageGroup id dir syncWal).run with
    | .ok r => return .ok r
    | .error e =>
      Generation.removeAll dir [Generation.checkpointName g, Generation.logName g]
      return .error e

def logEntry (r : Region) (e : LogEntry) : FileTask Unit := do
  let _ ← r.log.append e
  return ()

def applyEntry (r : Region) (e : LogEntry) : Region := { r with table := r.table.apply e }

/-- Inserts what an entry says: an entry of good shape is logged and then applied, any other is refused. -/
def insert (r : Region) (e : LogEntry) : FileTask (Region × Except RegionFault Unit) :=
  match e.payload.shapeFault? with
  | some f => return (r, .error (.invalidInsert e.payload.device f))
  | none => do
    -- Two steps: another insert may come between them.
    r.logEntry e
    return (r.applyEntry e, .ok ())

/-- The entries of the region's log file, found by its path. -/
def logged (r : Region) : FileWork LogFault (List LogEntry) := Log.read r.log.path

/-- A description of a region for people to read. -/
def describe (r : Region) : String :=
  s!"DataRegion \x7b storage_group: {Text.quoted r.storageGroup}, id: DataRegionId({r.id.toNat}), data_dir: " ++
    s!"{Text.quoted r.dataDir.text}, generation: {r.generation.toNat}, sync_wal: {r.syncWal}, .. \x7d"

end Region

end SeriesRegion
