import SeriesRegion.Json.Record

/-!
# Configuration

The settings of a region and of its sequencing buffer.  A configuration file lays the fields it gives over the
defaults; the result is then checked.
-/

namespace SeriesRegion

/-- Where a region is kept and what it is called. -/
structure StorageConfig where
  dataDir : String
  storageGroup : String
  regionId : UInt32
  syncWal : Bool
  deriving DecidableEq, Repr

/-- How many batches are buffered, and for how many milliseconds one waits. -/
structure SequencerConfig where
  capacity : UInt64
  waitWindow : UInt64
  deriving DecidableEq, Repr

structure Config where
  storage : StorageConfig
  sequencer : SequencerConfig
  deriving DecidableEq, Repr

namespace Config

def default : Config := ⟨⟨"./data", "root.default", 1, true⟩, ⟨5, 10000⟩⟩

instance : Inhabited Config := ⟨default⟩

inductive Invalid where
  | noCapacity
  | noWindow
  | noGroup
  deriving DecidableEq, Repr

def Invalid.message : Invalid → String
  | noCapacity => "sequencer.capacity must be at least 1"
  | noWindow => "sequencer.wait_window_ms must be positive"
  | noGroup => "storage.storage_group must not be empty"

def invalid? (c : Config) : Option Invalid :=
  if c.sequencer.capacity = 0 then some .noCapacity
  else if c.sequencer.waitWindow = 0 then some .noWindow
  else if c.storage.storageGroup = "" then some .noGroup
  else none

open Json

def storageRecord : Record StorageConfig where
  expected := "struct StorageConfig"
  shortLists := true
  fields := [
    .of "data_dir" false (readText "path string") fun c v => { c with dataDir := v },
    .of "storage_group" false (readText "a string") fun c v => { c with storageGroup := v },
    .of "region_id" false (readNat (UInt32.size - 1) "u32") fun c v => { c with regionId := UInt32.ofNat v },
    .of "sync_wal" false readBool fun c v => { c with syncWal := v }]

def sequencerRecord : Record SequencerConfig where
  expected := "struct SequencerConfig"
  shortLists := true
  fields := [
    .of "capacity" false (readNat maxWord "usize") fun c v => { c with capacity := UInt64.ofNat v },
    .of "wait_window_ms" false (readNat maxWord "u64") fun c v => { c with waitWindow := UInt64.ofNat v }]

def record : Record Config where
  expected := "struct StateMachineConfig"
  shortLists := true
  fields := [
    .of "storage" false (storageRecord.read default.storage) fun c v => { c with storage := v },
    .of "sequencer" false (sequencerRecord.read default.sequencer) fun c v => { c with sequencer := v }]

/-- Why a configuration text is refused. -/
inductive Refusal where
  | unreadable (fault : Located)
  | invalid (cause : Invalid)
  deriving DecidableEq, Repr

def ofText (text : String) : Except Refusal Config :=
  match readDocument (record.read default) text with
  | .error e => .error (.unreadable e)
  | .ok c =>
    match c.invalid? with
    | some i => .error (.invalid i)
    | none => .ok c

end Config

end SeriesRegion
