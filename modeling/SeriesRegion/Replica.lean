import SeriesRegion.Engine
import SeriesRegion.Machine
import SeriesRegion.Snapshot

/-!
# Replicas

A replica is a machine with the number of the region it writes to at present.  Loading a snapshot takes three steps: the
new region is built on disk, the replica turns to it, and the engine lets it serve its id.  The region that was there
before is not touched.
-/

namespace SeriesRegion

/-- A machine and the number of its region. -/
structure Replica where
  machine : Machine
  region : Nat

namespace Replica

/-- Opens the region of a configuration with a machine of its own. -/
def openAt (e : Engine) (c : Config) : FileWork RegionFault (Engine × Replica) := do
  let (e, number) ← e.openRegion c.storage
  return (e, ⟨.new c.sequencer.capacity.toNat, number⟩)

/-- The region that a replica writes to. -/
def region? (v : Replica) (e : Engine) : Option Region := e.region? v.region

/-- Runs an operation of the machine on its region; `absent` is answered if there is no such region. -/
def withRegion {α : Type} (v : Replica) (e : Engine) (absent : α)
    (t : Machine → Region → FileTask (Machine × Region × α)) : FileTask (Replica × Engine × α) :=
  match v.region? e with
  | none => return (v, e, absent)
  | some r => do
    let (m, r, a) ← t v.machine r
    return ({ v with machine := m }, e.update v.region r, a)

/-- The answer to a write when there is no region. -/
def closed : Status := .internalError "the region is not open"

/-- Takes a request without waiting for its batch. -/
def deliver (v : Replica) (e : Engine) (request : Request) : FileTask (Replica × Engine × Reply × Finished) :=
  v.withRegion e (.status closed, []) fun m r => m.deliver r request

/-- Takes a request and waits until its batch has had its turn. -/
def write (v : Replica) (e : Engine) (request : Request) : FileTask (Replica × Engine × Status × Finished) :=
  v.withRegion e (closed, []) fun m r => m.write r request

def seed (v : Replica) (e : Engine) (index : UInt64) : FileTask (Replica × Engine × Finished) :=
  v.withRegion e [] fun m r => m.seed r index

def stop (v : Replica) (e : Engine) : FileTask (Replica × Engine × Finished) :=
  v.withRegion e [] fun m r => m.stop r

def read (v : Replica) (e : Engine) (request : Machine.ReadRequest) : Option Machine.DataSet :=
  (v.region? e).bind fun r => v.machine.read r request

/-! ### Snapshots -/

/-- Takes a snapshot of the region; says whether that succeeded. -/
def takeSnapshot (v : Replica) (e : Engine) (dir : Path) (stamp : Snapshot.Stamp) : FileTask Bool :=
  match v.region? e with
  | none => return false
  | some r => do
    let outcome ← (Snapshot.take r dir stamp).run
    return outcome.isOk

/-- Builds the region that a snapshot holds in the place of another. -/
def rebuild (r : Region) (source : Path) : FileWork SnapshotFault Region :=
  Snapshot.load source r.storageGroup r.id r.dataDir r.syncWal

def turnTo (v : Replica) (number : Nat) : Replica := { v with region := number }

/-- Replaces the region by the one that a snapshot holds.  If it cannot be built nothing changes. -/
def loadSnapshot (v : Replica) (e : Engine) (source : Path) : FileTask (Replica × Engine) :=
  match v.region? e with
  | none => return (v, e)
  | some old => do
    match ← (rebuild old source).run with
    | .error _ => return (v, e)
    | .ok r =>
      let (e, number) := e.add r
      return (v.turnTo number, e.serve r.id number)

end Replica

end SeriesRegion
