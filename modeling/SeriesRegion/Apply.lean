import SeriesRegion.Plan
import SeriesRegion.Region
import SeriesRegion.Status

/-!
# Applying plans

A plan is applied to a region insert by insert, and each insert has a status.  A group is a success if each of its
inserts is; otherwise its report lists the statuses of the inserts in the order of their positions.
-/

namespace SeriesRegion

namespace Status

def ofInsert : Except RegionFault Unit → Status
  | .ok () => .success
  | .error e => .failure .writeProcessError e.message

/-- Statuses in the order of the positions given to them.  One that is given no position is left out. -/
def atPositions (positions : List UInt64) (ss : List Status) : List Status :=
  ((positions.zip ss).mergeSort fun a b => a.1 ≤ b.1).map (·.2)

/-- The status of a group from those of its inserts. -/
def ofGroup (positions : List UInt64) (ss : List Status) : Status :=
  if failures ss = 0 then .success
  else
    let parts := atPositions positions ss
    ⟨.multipleError, some s!"{failures parts} of {parts.length} inserts failed", parts⟩

end Status

namespace Region

def insertAll (r : Region) (es : List LogEntry) : FileTask (Region × List Status) :=
  FileTask.gather (fun r e => do
    let (r, outcome) ← r.insert e
    return (r, .ofInsert outcome)) r es

def insertGroup (r : Region) (positions : List UInt64) (es : List LogEntry) : FileTask (Region × Status) := do
  let (r, ss) ← r.insertAll es
  return (r, .ofGroup positions ss)

def insertOne (r : Region) (e : LogEntry) : FileTask (Region × Status) := do
  let (r, outcome) ← r.insert e
  return (r, .ofInsert outcome)

def applyCommand (r : Region) : Command → FileTask (Region × Status)
  | .row i => r.insertOne i.rowEntry
  | .tablet i => r.insertOne i.tabletEntry
  | .tablets g => r.insertGroup g.positions (g.items.map Planned.tabletEntry)
  | .rows g => r.insertGroup g.positions (g.items.map Planned.rowEntry)
  | .rowsOfOneDevice g => r.insertGroup g.positions (g.items.map Planned.rowEntry)

/-- Applies a plan; there is nothing to apply in a fragment. -/
def applyPlan (r : Region) : Plan → FileTask (Region × Status)
  | .write c => r.applyCommand c
  | .fragment _ => return (r, .internalError s!"unsupported plan in write path: {PlanKind.fragment.name}")

end Region

end SeriesRegion
