import SeriesRegion.Digest.Sha256
import SeriesRegion.Region
import SeriesRegion.Snapshot.Manifest

/-!
# Snapshots

A snapshot is a directory with the image of a region and a manifest.  The manifest is put there last, so a directory
without one is what an interrupted attempt left behind, and can be used again.  Loading a snapshot checks the manifest
against the region wanted and the image against the manifest, and opens the region on the image in a new generation.
-/

namespace SeriesRegion

inductive SnapshotFault where
  | io (path : Path) (fault : IoFault)
  | targetNotEmpty (dir : Path)
  | manifest (fault : Json.Located)
  | codec (fault : Binary.Fault)
  | checksum (expected actual : String)
  | otherRegion (expectedGroup : String) (expectedId : UInt32) (foundGroup : String) (foundId : UInt32)
  | region (fault : RegionFault)
  deriving DecidableEq, Repr

def SnapshotFault.message : SnapshotFault → String
  | .io path e => s!"snapshot I/O error at {path.text}: {e.message}"
  | .targetNotEmpty dir => s!"snapshot target {dir.text} is not empty"
  | .manifest e => "snapshot manifest error: " ++ e.message
  | .codec e => "snapshot codec error: " ++ e.message
  | .checksum expected actual => s!"snapshot checksum mismatch: manifest {expected}, data {actual}"
  | .otherRegion expectedGroup expectedId group id =>
    s!"snapshot belongs to {group}-{id.toNat}, expected {expectedGroup}-{expectedId.toNat}"
  | .region e => e.message

namespace Snapshot

def dataName : String := "data.bin"

def manifestName : String := "manifest.json"

/-- The name under which a manifest is written before it takes its place. -/
def draftName : String := "manifest.json.tmp"

/-- What makes one snapshot differ from another of the same image. -/
structure Stamp where
  id : Uuid
  time : Timestamp
  deriving DecidableEq, Repr

/-- Whether a name is one that an interrupted attempt leaves behind. -/
def isLeftover (name : String) : Bool := name = dataName ∨ name = draftName

/-- Removes files that an interrupted attempt left behind. -/
def removeLeftovers (dir : Path) : List String → FileWork SnapshotFault Unit
  | [] => pure ()
  | name :: rest => do
    FileWork.attempt (.perform (.remove (dir.child name))) (.io (dir.child name))
    removeLeftovers dir rest

/-- Clears the target of a snapshot, unless it holds something else than leftovers. -/
def reclaim (dir : Path) : FileWork SnapshotFault Unit := do
  let names ← FileWork.attempt (.perform (.list dir)) (.io dir)
  if names.all isLeftover then removeLeftovers dir names
  else throw (.targetNotEmpty dir)

/-- The manifest of a region's image. -/
def manifestOf (r : Region) (image : Bytes) (stamp : Stamp) : Manifest where
  snapshotId := stamp.id
  storageGroup := r.storageGroup
  regionId := r.id
  generation := r.generation
  maxSearchIndex := r.table.maxSearchIndex
  pointCount := UInt64.ofNat r.table.pointCount
  createdAt := stamp.time
  sha256 := Sha256.hex image

/-- Takes a snapshot of a region into a directory. -/
def take (r : Region) (dir : Path) (stamp : Stamp) : FileWork SnapshotFault Manifest := do
  FileWork.attempt (.perform (.makeDirectories dir)) (.io dir)
  reclaim dir
  let image := Binary.Format.memTable.write r.table
  let manifest := manifestOf r image stamp
  FileWork.attempt (.perform (.write (dir.child dataName) image)) (.io (dir.child dataName))
  -- The manifest comes last, so that a snapshot with a manifest has its image.
  FileWork.attempt (.perform (.write (dir.child draftName) (Bytes.ofText manifest.text))) (.io (dir.child draftName))
  FileWork.attempt (.perform (.rename (dir.child draftName) (dir.child manifestName))) (.io (dir.child manifestName))
  return manifest

def readManifest (dir : Path) : FileWork SnapshotFault Manifest := do
  let path := dir.child manifestName
  let bytes ← FileWork.attempt (.perform (.read path)) (.io path)
  let text ← FileWork.ofExcept (Utf8.decode bytes) fun _ => .io path .invalidData
  FileWork.ofExcept (Manifest.ofText text) .manifest

/-- Checks image bytes against the manifest and reads the table from them. -/
def checkImage (m : Manifest) (image : Bytes) : Except SnapshotFault MemTable :=
  if Sha256.hex image = m.sha256 then (Binary.Format.memTable.decode image).mapError .codec
  else .error (.checksum m.sha256 (Sha256.hex image))

def readImage (source : Path) (storageGroup : String) (id : UInt32) : FileWork SnapshotFault MemTable := do
  let m ← readManifest source
  if m.storageGroup = storageGroup ∧ m.regionId = id then
    let path := source.child dataName
    let image ← FileWork.attempt (.perform (.read path)) (.io path)
    FileWork.ofExcept (checkImage m image) fun e => e
  else throw (.otherRegion storageGroup id m.storageGroup m.regionId)

def nextGeneration : Option UInt64 → UInt64
  | none => 0
  | some g => g + 1

/-- Opens a region on the image of a snapshot, in a generation of its own. -/
def load (source : Path) (storageGroup : String) (id : UInt32) (dataDir : Path) (syncWal : Bool) :
    FileWork SnapshotFault Region := do
  let table ← readImage source storageGroup id
  let latest ← FileWork.within (Generation.latest dataDir) (.io dataDir)
  FileWork.within (Region.restore storageGroup id dataDir (nextGeneration latest) table syncWal) .region

end Snapshot

end SeriesRegion
