import SeriesRegion.Apply
import SeriesRegion.Proofs.Region.Backed

/-!
# Applying commands

A command is applied insert by insert: those of good shape are logged and applied in their order, and the others leave no
trace (`Region.run_applyCommand`).  Its status says whether there are others (`Command.isSuccess_status`).
-/

namespace SeriesRegion

namespace Status

theorem failures_eq_zero {ss : List Status} : failures ss = 0 ↔ ∀ s ∈ ss, s.isSuccess := by
  simp [failures, List.countP_eq_zero]

theorem isSuccess_ofInsert {e : LogEntry} : (ofInsert (Region.outcomeOf e)).isSuccess ↔ e.payload.shapeFault? = none := by
  rw [Region.outcomeOf]
  cases e.payload.shapeFault? with
  | none => exact iff_of_true rfl rfl
  | some f => simp [ofInsert, failure, isSuccess]

theorem isSuccess_ofGroup {positions : List UInt64} {ss : List Status} :
    (ofGroup positions ss).isSuccess ↔ ∀ s ∈ ss, s.isSuccess := by
  rw [← failures_eq_zero, ofGroup]
  split
  · rename_i h
    exact iff_of_true rfl h
  · rename_i h
    exact iff_of_false (by simp [isSuccess]) h

theorem isSuccess_aggregate {ss : List Status} : (aggregate ss).isSuccess ↔ ∀ s ∈ ss, s.isSuccess := by
  rw [← failures_eq_zero, aggregate]
  split
  · rename_i h
    exact iff_of_true rfl h
  · rename_i h
    exact iff_of_false (by simp [isSuccess]) h

end Status

/-- The statuses of inserts. -/
def insertStatuses (es : List LogEntry) : List Status := es.map fun e => .ofInsert (Region.outcomeOf e)

/-- The status of a command, in which the shapes of its inserts are all that counts. -/
def Command.status : Command → Status
  | .row i => .ofInsert (Region.outcomeOf i.rowEntry)
  | .tablet i => .ofInsert (Region.outcomeOf i.tabletEntry)
  | .tablets g => .ofGroup g.positions (insertStatuses (g.items.map Planned.tabletEntry))
  | .rows g => .ofGroup g.positions (insertStatuses (g.items.map Planned.rowEntry))
  | .rowsOfOneDevice g => .ofGroup g.positions (insertStatuses (g.items.map Planned.rowEntry))

theorem Command.isSuccess_status (c : Command) : c.status.isSuccess ↔ ∀ e ∈ c.entries, e.payload.shapeFault? = none := by
  have hgroup : ∀ positions es, (Status.ofGroup positions (insertStatuses es)).isSuccess ↔
      ∀ e ∈ es, e.payload.shapeFault? = none := by
    intro positions es
    simp only [Status.isSuccess_ofGroup, insertStatuses, List.forall_mem_map, Status.isSuccess_ofInsert]
  cases c with
  | row i => rw [status, Status.isSuccess_ofInsert, entries, List.forall_mem_singleton]
  | tablet i => rw [status, Status.isSuccess_ofInsert, entries, List.forall_mem_singleton]
  | tablets g => exact hgroup g.positions _
  | rows g => exact hgroup g.positions _
  | rowsOfOneDevice g => exact hgroup g.positions _

namespace Region

theorem run_insertOne (r : Region) (e : LogEntry) (d : Disk) :
    (r.insertOne e).run d =
      (({ r with table := r.table.applyAll (accepted [e]) }, .ofInsert (outcomeOf e)), r.logAll d (accepted [e])) := by
  rw [insertOne, FileTask.run_bind, run_insert_eq]
  rfl

theorem insertAll_cons (r : Region) (e : LogEntry) (es : List LogEntry) :
    r.insertAll (e :: es) = do
      let (r, s) ← r.insertOne e
      let (r, ss) ← r.insertAll es
      return (r, s :: ss) := FileTask.gather_cons _ r e es

/-- Inserts are done one after the other, and each has its status. -/
theorem run_insertAll (r : Region) (es : List LogEntry) (d : Disk) :
    (r.insertAll es).run d =
      (({ r with table := r.table.applyAll (accepted es) }, insertStatuses es), r.logAll d (accepted es)) := by
  induction es generalizing r d with
  | nil => rfl
  | cons e es ih =>
    rw [insertAll_cons, FileTask.run_bind, run_insertOne]
    simp only
    rw [FileTask.run_bind, ih, accepted_cons e es, logAll_append, MemTable.applyAll_append]
    rfl

/-- A command that is applied grows the table and the log by its inserts of good shape. -/
theorem run_applyCommand (r : Region) (c : Command) (d : Disk) :
    (r.applyCommand c).run d =
      (({ r with table := r.table.applyAll (accepted c.entries) }, c.status), r.logAll d (accepted c.entries)) := by
  have hgroup : ∀ positions es, (r.insertGroup positions es).run d =
      (({ r with table := r.table.applyAll (accepted es) }, .ofGroup positions (insertStatuses es)),
        r.logAll d (accepted es)) := by
    intro positions es
    rw [insertGroup, FileTask.run_bind, run_insertAll]
    rfl
  cases c with
  | row i => exact run_insertOne r i.rowEntry d
  | tablet i => exact run_insertOne r i.tabletEntry d
  | tablets g => exact hgroup g.positions (g.items.map Planned.tabletEntry)
  | rows g => exact hgroup g.positions (g.items.map Planned.rowEntry)
  | rowsOfOneDevice g => exact hgroup g.positions (g.items.map Planned.rowEntry)

end Region

end SeriesRegion
