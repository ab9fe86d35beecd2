import SeriesRegion.Json.Printer
import SeriesRegion.Json.Record
import SeriesRegion.Text.Timestamp
import SeriesRegion.Text.Uuid

/-!
# Snapshot manifests

A manifest says which region a snapshot was taken of and what it holds.  It is kept as a JSON text, all of whose fields
but the highest log position must be given.
-/

namespace SeriesRegion

structure Manifest where
  snapshotId : Uuid
  storageGroup : String
  regionId : UInt32
  generation : UInt64
  maxSearchIndex : Option UInt64
  pointCount : UInt64
  createdAt : Timestamp
  sha256 : String
  deriving DecidableEq, Repr

namespace Manifest

open Json

/-- The manifest that is changed field by field while it is read. -/
def blank : Manifest := ⟨⟨[]⟩, "", 0, 0, none, 0, ⟨0, 0⟩, ""⟩

def readId (s : String) : Except String Uuid :=
  match Uuid.parse s with
  | .ok u => .ok u
  | .error e => .error ("UUID parsing failed: " ++ e.message)

def readTime (s : String) : Except String Timestamp :=
  match Timestamp.parse s with
  | .ok t => .ok t
  | .error e => .error e.message

def record : Record Manifest where
  expected := "struct SnapshotManifest"
  shortLists := false
  fields := [
    .of "snapshot_id" true (readString "a formatted UUID string" readId) fun m v => { m with snapshotId := v },
    .of "storage_group" true (readText "a string") fun m v => { m with storageGroup := v },
    .of "region_id" true (readNat (UInt32.size - 1) "u32") fun m v => { m with regionId := UInt32.ofNat v },
    .of "generation" true (readNat maxWord "u64") fun m v => { m with generation := UInt64.ofNat v },
    .of "max_search_index" false (readOptional (readNat maxWord "u64"))
      fun m v => { m with maxSearchIndex := v.map UInt64.ofNat },
    .of "point_count" true (readNat maxWord "usize") fun m v => { m with pointCount := UInt64.ofNat v },
    .of "created_at" true (readString "an RFC 3339 formatted date and time string" readTime)
      fun m v => { m with createdAt := v },
    .of "sha256" true (readText "a string") fun m v => { m with sha256 := v }]

def ofText (text : String) : Except Located Manifest := readDocument (record.read blank) text

def text (m : Manifest) : String :=
  block [("snapshot_id", string m.snapshotId.text), ("storage_group", string m.storageGroup),
    ("region_id", toString m.regionId.toNat), ("generation", toString m.generation.toNat),
    ("max_search_index", match m.maxSearchIndex with | some i => toString i.toNat | none => "null"),
    ("point_count", toString m.pointCount.toNat), ("created_at", string (m.createdAt.text ++ "Z")),
    ("sha256", string m.sha256)]

end Manifest

end SeriesRegion
