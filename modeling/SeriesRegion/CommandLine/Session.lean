import SeriesRegion.CommandLine.Invocation
import SeriesRegion.Json.Printer
import SeriesRegion.Replay.Run
import SeriesRegion.Replica
import SeriesRegion.Text.Duration

/-!
# Sessions

What the program does when it is invoked: it prints lines, works on files, and may end with an error.
-/

namespace SeriesRegion.CommandLine

/-- A task that prints lines and may end with an error.  The lines are kept with the last first. -/
abbrev Session := ExceptT String (StateT (List String) FileTask)

/-- What an invocation leaves: the lines printed, the exit code, and the error if there was one. -/
structure Outcome where
  lines : List String
  exitCode : Nat
  error : Option String
  deriving DecidableEq, Repr

namespace Session

def say (line : String) : Session Unit := modifyThe (List String) (line :: ·)

def task {α : Type} (t : FileTask α) : Session α := liftM (m := StateT (List String) FileTask) (liftM t)

def work {ε α : Type} (message : ε → String) (t : FileWork ε α) : Session α := do
  match ← task (ExceptT.run t) with
  | .ok a => return a
  | .error e => throw (message e)

def position : Option UInt64 → String
  | some i => toString i.toNat
  | none => "unset"

/-! ### Configuration -/

def check (c : Config) : Session Config :=
  match c.invalid? with
  | some i => throw ("invalid config: " ++ i.message)
  | none => return c

def readConfig (path : String) : Session Config := do
  let unreadable (e : IoFault) := s!"failed to read config {path}: {e.message}"
  let bytes ← work unreadable (FileWork.attempt (.perform (.read (.ofText path))) fun e => e)
  match Utf8.decode bytes with
  | .error _ => throw (unreadable .invalidData)
  | .ok text =>
    match Config.ofText text with
    | .ok c => return c
    | .error (.invalid i) => throw ("invalid config: " ++ i.message)
    | .error (.unreadable e) => throw s!"failed to parse config {path}: {e.message}"

/-- The configuration of the region that options name. -/
def configOf (o : RegionOptions) : Session Config := do
  let c ← match o.config with
    | some path => readConfig path
    | none => pure Config.default
  let s := c.storage
  check { c with storage :=
    ⟨o.dataDir.getD s.dataDir, o.storageGroup.getD s.storageGroup, o.regionId.getD s.regionId, s.syncWal⟩ }

def openRegion (c : Config) : Session Region :=
  work RegionFault.message
    (Region.openAt c.storage.storageGroup c.storage.regionId (.ofText c.storage.dataDir) c.storage.syncWal)

/-! ### Commands -/

def saySteps : List (String × StepStats) → Session Unit
  | [] => pure ()
  | (name, s) :: rest => do
    say s!"  {name}: count={s.count} mean={Text.duration s.mean} max={Text.duration s.max}"
    saySteps rest

def sayStatuses : List (UInt64 × Status) → Session Unit
  | [] => pure ()
  | (start, s) :: rest => do
    let label := if s.isSuccess then "ok" else "failed"
    say s!"  batch @{start.toNat}: {label} {s.text}"
    sayStatuses rest

/-- Replays a plan.  Time is not measured. -/
def replay (c : Config) (p : ReplayPlan) : Session Unit := do
  say (s!"Replaying {p.batches} batches of {p.span.toNat} indexes ({p.order.name} order, capacity " ++
    s!"{c.sequencer.capacity.toNat}, window {c.sequencer.waitWindow.toNat} ms)")
  let r ← openRegion c
  let (m, r, report) ← task ((Machine.new c.sequencer.capacity.toNat).replay r p)
  sayStatuses report.statuses
  say ""
  say s!"  Points: {r.table.pointCount}"
  say s!"  Max search index: {position r.table.maxSearchIndex}"
  say s!"  Next expected index: {position m.sequencer.buffer.cursor}"
  say s!"  Pending slots: {m.sequencer.pending}"
  say s!"  Elapsed: {Text.duration 0}"
  saySteps m.steps.report
  if report.failed > 0 then throw s!"{report.failed} batches failed"

def sayManifest (m : Manifest) : Session Unit := do
  say s!"  Snapshot: {m.snapshotId.text}"
  say s!"  Region: {m.storageGroup}-{m.regionId.toNat}"
  say s!"  Generation: {m.generation.toNat}"
  say s!"  Points: {m.pointCount.toNat}"
  say s!"  Max search index: {position m.maxSearchIndex}"
  say s!"  Created: {m.createdAt.text}+00:00"
  say s!"  sha256: {m.sha256}"

def readManifest (dir : String) : Session Manifest :=
  work SnapshotFault.message (Snapshot.readManifest (.ofText dir))

def takeSnapshot (c : Config) (target : String) (stamp : Snapshot.Stamp) : Session Unit := do
  say s!"Taking snapshot into {target}"
  let r ← openRegion c
  let _ ← work (fun (_ : SnapshotFault) => s!"failed to take snapshot into {target}")
    (Snapshot.take r (.ofText target) stamp)
  sayManifest (← readManifest target)

def loadSnapshot (c : Config) (source : String) : Session Unit := do
  say s!"Loading snapshot from {source}"
  let old ← openRegion c
  let r ← work (fun (_ : SnapshotFault) => s!"snapshot {source} was not loaded") (Replica.rebuild old (.ofText source))
  say s!"  Generation: {r.generation.toNat}"
  say s!"  Points: {r.table.pointCount}"

def inspectSnapshot (dir : String) (asJson : Bool) : Session Unit := do
  let m ← readManifest dir
  if asJson then say m.text else sayManifest m

def sayEntries : List LogEntry → Session Unit
  | [] => pure ()
  | e :: rest => do
    say s!"  [{position e.searchIndex}] {Json.payload e.payload}"
    sayEntries rest

def showLog (c : Config) (first : Option UInt64) : Session Unit := do
  let r ← openRegion c
  let all ← work LogFault.message r.logged
  let es :=
    match first with
    | some i => Log.since i all
    | none => all
  say s!"WAL {r.log.path.text} ({es.length} entries)"
  sayEntries es

def help : List String := [
  "Usage: tsregion [--log-level <LEVEL>] <COMMAND>",
  "",
  "Commands:",
  "  replay    deliver synthetic batches in a chosen order and report the outcome",
  "  snapshot  take, load or inspect a snapshot",
  "  wal       print the entries of the write-ahead log"]

def ofInvocation (stamp : Snapshot.Stamp) : Invocation → Session Unit
  | .version => say "tsregion 0.1.0"
  | .help => help.forM say
  | .replay region plan capacity window => do
    let c ← configOf region
    let c ← check { c with sequencer :=
      ⟨capacity.getD c.sequencer.capacity, window.getD c.sequencer.waitWindow⟩ }
    replay c plan
  | .takeSnapshot region target => do takeSnapshot (← configOf region) target stamp
  | .loadSnapshot region source => do loadSnapshot (← configOf region) source
  | .inspectSnapshot dir asJson => inspectSnapshot dir asJson
  | .showLog region first => do showLog (← configOf region) first

end Session

def run (stamp : Snapshot.Stamp) (args : List String) : FileTask Outcome :=
  match Invocation.ofArguments? args with
  | none => return ⟨[], 2, none⟩
  | some i => do
    let (result, lines) ← ((Session.ofInvocation stamp i).run).run []
    match result with
    | .ok () => return ⟨lines.reverse, 0, none⟩
    | .error message => return ⟨lines.reverse, 1, some message⟩

end SeriesRegion.CommandLine
