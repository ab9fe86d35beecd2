import SeriesRegion.Config
import SeriesRegion.Region

/-!
# The engine

The engine numbers the regions as they are opened and says which of them serves each region id.  A region that no
longer serves an id can still be read and written by those who know its number.
-/

namespace SeriesRegion

/-- The regions by number, and for each id that is served the number of the region serving it. -/
structure Engine where
  regions : List Region
  serving : SortedMap UInt32 Nat
  deriving DecidableEq

namespace Engine

def empty : Engine := ⟨[], .empty⟩

def region? (e : Engine) (number : Nat) : Option Region := e.regions[number]?

def add (e : Engine) (r : Region) : Engine × Nat := ({ e with regions := e.regions ++ [r] }, e.regions.length)

def update (e : Engine) (number : Nat) (r : Region) : Engine := { e with regions := e.regions.set number r }

def serving? (e : Engine) (id : UInt32) : Option Nat := e.serving.get? id

def serve (e : Engine) (id : UInt32) (number : Nat) : Engine := { e with serving := e.serving.insert id number }

def withdraw (e : Engine) (id : UInt32) : Engine := { e with serving := e.serving.erase id }

def ids (e : Engine) : List UInt32 := e.serving.keys

/-- Runs a task on the region with a number, if there is one. -/
def onRegion {α : Type} (e : Engine) (number : Nat) (t : Region → FileTask (Region × α)) :
    FileTask (Engine × Option α) :=
  match e.region? number with
  | none => return (e, none)
  | some r => do
    let (r, a) ← t r
    return (e.update number r, some a)

/-- Opens the region of a configuration and lets it serve its id. -/
def openRegion (e : Engine) (c : StorageConfig) : FileWork RegionFault (Engine × Nat) := do
  let r ← Region.openAt c.storageGroup c.regionId (.ofText c.dataDir) c.syncWal
  let (e, number) := e.add r
  return (e.serve c.regionId number, number)

end Engine

end SeriesRegion
