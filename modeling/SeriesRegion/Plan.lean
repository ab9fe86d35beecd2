import SeriesRegion.Insert

/-!
# Plans

A plan is what a request asks for: a write command, or a fragment to read.  A command is one row, one tablet, or a
group of them merged from one log position.
-/

namespace SeriesRegion

/-- A row or tablet as the planner named it, with the log position it is bound to. -/
structure Planned (π : Type) where
  planId : String
  searchIndex : Option UInt64
  body : π
  deriving DecidableEq, Repr

/-- Inserts merged from one log position.  `positions[i]` is where `items[i]` stood before. -/
structure Group (π : Type) where
  planId : String
  searchIndex : Option UInt64
  device : String
  positions : List UInt64
  items : List (Planned π)
  deriving DecidableEq, Repr

/-- A command that writes to a region. -/
inductive Command where
  | row (insert : Planned Row)
  | tablet (insert : Planned Tablet)
  | tablets (group : Group Tablet)
  | rows (group : Group Row)
  | rowsOfOneDevice (group : Group Row)
  deriving DecidableEq, Repr

/-- A scan of one series over `start ≤ time < stop`. -/
structure Fragment where
  id : String
  device : String
  measurement : String
  start : Int64
  stop : Int64
  deriving DecidableEq, Repr

/-- What a request asks for. -/
inductive Plan where
  | write (command : Command)
  | fragment (fragment : Fragment)
  deriving DecidableEq, Repr

inductive PlanKind where
  | row
  | tablet
  | tablets
  | rows
  | rowsOfOneDevice
  | fragment
  deriving DecidableEq, Repr

def PlanKind.name : PlanKind → String
  | .row => "InsertRow"
  | .tablet => "InsertTablet"
  | .tablets => "InsertMultiTablets"
  | .rows => "InsertRows"
  | .rowsOfOneDevice => "InsertRowsOfOneDevice"
  | .fragment => "FragmentInstance"

namespace Command

def kind : Command → PlanKind
  | row _ => .row
  | tablet _ => .tablet
  | tablets _ => .tablets
  | rows _ => .rows
  | rowsOfOneDevice _ => .rowsOfOneDevice

def planId : Command → String
  | row i => i.planId
  | tablet i => i.planId
  | tablets g => g.planId
  | rows g => g.planId
  | rowsOfOneDevice g => g.planId

def searchIndex : Command → Option UInt64
  | row i => i.searchIndex
  | tablet i => i.searchIndex
  | tablets g => g.searchIndex
  | rows g => g.searchIndex
  | rowsOfOneDevice g => g.searchIndex

def device : Command → String
  | row i => i.body.device
  | tablet i => i.body.device
  | tablets g => g.device
  | rows g => g.device
  | rowsOfOneDevice g => g.device

end Command

/-- Binds an insert to a log position. -/
def Planned.bindTo {π : Type} (index : Option UInt64) (i : Planned π) : Planned π := { i with searchIndex := index }

/-- Binds a group and every insert in it to a log position. -/
def Group.bindTo {π : Type} (index : Option UInt64) (g : Group π) : Group π :=
  { g with searchIndex := index, items := g.items.map (·.bindTo index) }

def Command.bindTo (index : Option UInt64) : Command → Command
  | .row i => .row (i.bindTo index)
  | .tablet i => .tablet (i.bindTo index)
  | .tablets g => .tablets (g.bindTo index)
  | .rows g => .rows (g.bindTo index)
  | .rowsOfOneDevice g => .rowsOfOneDevice (g.bindTo index)

def Planned.rowEntry (i : Planned Row) : LogEntry := ⟨i.searchIndex, .row i.body⟩

def Planned.tabletEntry (i : Planned Tablet) : LogEntry := ⟨i.searchIndex, .tablet i.body⟩

/-- The inserts of a command, in the order in which they are applied. -/
def Command.entries : Command → List LogEntry
  | .row i => [i.rowEntry]
  | .tablet i => [i.tabletEntry]
  | .tablets g => g.items.map Planned.tabletEntry
  | .rows g => g.items.map Planned.rowEntry
  | .rowsOfOneDevice g => g.items.map Planned.rowEntry

def Plan.kind : Plan → PlanKind
  | .write c => c.kind
  | .fragment _ => .fragment

end SeriesRegion
