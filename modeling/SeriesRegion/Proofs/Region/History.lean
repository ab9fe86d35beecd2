import SeriesRegion.Proofs.Region.Continued
import Mathlib

/-!
# The life of a region's directory

A directory is opened, and one region after the other writes to it: entries are inserted, snapshots are loaded, the region
is closed and opened again, and elsewhere on the disk anything may be done (`Region.History`).  Each of these steps leaves a
region that its files make what it is, with the inserts of its generation in its log (`Region.History.records`).  So whenever
the region is closed, it is opened again as it was (`Region.History.reopened_eq`).
-/

namespace SeriesRegion.Region

/-- What can become of a directory that is used by one region at a time, with the inserts that were accepted since the
generation of the region began.  Those from before the directory was first opened are the ones in its log.  No file has two
names then, and none is ever given a second one. -/
inductive History (dir : Path) : Region → Disk → List LogEntry → Prop
  | opened {d₀ d : Disk} {storageGroup : String} {id : UInt32} {syncWal : Bool} {r : Region} {es : List LogEntry}
    (names : d₀.OneName) (opens : (openAt storageGroup id dir syncWal).run.run d₀ = (.ok r, d))
    (log : (r.logged.run.run d).1 = .ok es) : History dir r d es
  | inserted {r r' : Region} {d d' : Disk} {es : List LogEntry} {e : LogEntry} {answer : Except RegionFault Unit}
    (before : History dir r d es) (inserts : (r.insert e).run d = ((r', answer), d')) (fits : answer = .ok () → Log.Fits e) :
    History dir r' d' (noted es e answer)
  | loaded {r r' : Region} {d d' : Disk} {es : List LogEntry} {source : Path} {storageGroup : String} {id : UInt32}
    {syncWal : Bool} (before : History dir r d es) (bound : r.generation.toNat + 1 < UInt64.size)
    (loads : (Snapshot.load source storageGroup id dir syncWal).run.run d = (.ok r', d')) :
    History dir r' d' (carried r r' es)
  | reopened {r r' : Region} {d d' : Disk} {es : List LogEntry} {storageGroup : String} {id : UInt32} {syncWal : Bool}
    (before : History dir r d es) (opens : (openAt storageGroup id dir syncWal).run.run d = (.ok r', d')) :
    History dir r' d' es
  | elsewhere {α : Type} {r : Region} {d : Disk} {es : List LogEntry} (before : History dir r d es) (task : FileTask α)
    (spares : Spares dir d (task.run d).2) : History dir r (task.run d).2 es

variable {dir : Path} {r : Region} {es : List LogEntry} {d : Disk}

theorem History.records (h : History dir r d es) : Records dir es r d := by
  induction h with
  | opened names opens log =>
    obtain ⟨es', hrecords⟩ := records_of_openAt names opens
    rw [hrecords.run_logged] at log
    cases log
    exact hrecords
  | inserted before inserts fits ih => exact ih.insert inserts fits
  | loaded before bound loads ih => exact ih.load bound loads
  | @reopened r r' d d' es storageGroup id syncWal before opens ih =>
    obtain ⟨d₁, hopen, hrecords⟩ := ih.reopen storageGroup id syncWal
    rw [opens] at hopen
    cases hopen
    exact hrecords
  | elsewhere before task spares ih => exact ih.spared (ih.names.run task) spares

/-- Whatever has become of a directory, its region can be closed and opened again.  The region that is opened has the table
and the generation of the one that was closed, and its log holds the inserts that were accepted since the generation began,
in their order. -/
theorem History.reopened_eq (h : History dir r d es) (storageGroup : String) (id : UInt32) (syncWal : Bool) :
    ∃ r' d', (openAt storageGroup id dir syncWal).run.run d = (.ok r', d') ∧
      r' = { r with storageGroup, id, syncWal, log.sync := syncWal } ∧ r'.logged.run.run d' = (.ok es, d') := by
  obtain ⟨d', hopen, hrecords⟩ := h.records.reopen storageGroup id syncWal
  exact ⟨_, d', hopen, rfl, hrecords.run_logged⟩

def sound : LogEntry := ⟨some 1, .row ⟨"d", 5, ["m"], [.double 0]⟩⟩

/-- A row without the value of its measurement. -/
def misshapen : LogEntry := ⟨some 2, .row ⟨"d", 6, ["m"], []⟩⟩

theorem length_sound : (Binary.Format.logEntry.write sound).length = 67 := by cbv

theorem fits_sound : Log.Fits sound := by
  rw [Log.Fits, length_sound]
  decide

theorem run_insert_sound (r : Region) (d : Disk) :
    (r.insert sound).run d = ((r.applyEntry sound, .ok ()), d.append r.log.file (Log.frameOf sound)) := rfl

theorem run_insert_misshapen (r : Region) (d : Disk) :
    (r.insert misshapen).run d = ((r, .error (.invalidInsert "d" (.valueCount 1 0))), d) := rfl

/-- The region that is opened on a new disk. -/
def fresh : Region := ⟨"g", 1, ⟨"", ["r"]⟩, 0, false, ⟨⟨"", ["r", "wal-0.log"]⟩, 0, false⟩, .empty⟩

/-- It has nothing in its log. -/
theorem openAt_fresh :
    ∃ d, (openAt "g" 1 ⟨"", ["r"]⟩ false).run.run (Disk.new "home") = (.ok fresh, d) ∧ fresh.Backed .empty [] d := by
  have hanswer : ((openAt "g" 1 ⟨"", ["r"]⟩ false).run.run (Disk.new "home")).1 = .ok fresh := by cbv
  have hempty : ((openAt "g" 1 ⟨"", ["r"]⟩ false).run.run (Disk.new "home")).2.bytesOf fresh.log.file = [] := by cbv
  obtain ⟨checkpoint, es, -, hbacked⟩ := backed_of_openAt (Prod.ext hanswer rfl)
  refine ⟨_, Prod.ext hanswer rfl, hbacked.found, ?_, rfl⟩
  rw [hempty]
  exact Log.whole_nil

/-- A region is opened on a log with one point and refuses an insert.  A snapshot with another point is loaded, an insert is
accepted, and the directory is opened for another group and then for the first one again: there are the point of the snapshot
and that of the insert, and the log holds the insert. -/
theorem reopened_eq_sound_misshapen :
    ∃ r₀ d₀ r₁ d₁ d₂ r₃ d₃ r' d', (openAt "g" 1 ⟨".", []⟩ false).run.run Snapshot.sampledBeside = (.ok r₀, d₀) ∧
      (r₀.insert misshapen).run d₀ = ((r₀, .error (.invalidInsert "d" (.valueCount 1 0))), d₀) ∧
      (Snapshot.load ⟨"", ["s"]⟩ "g" 1 ⟨".", []⟩ false).run.run d₀ = (.ok r₁, d₁) ∧
      (r₁.insert sound).run d₁ = ((r₁.applyEntry sound, .ok ()), d₂) ∧
      (openAt "h" 2 ⟨".", []⟩ true).run.run d₂ = (.ok r₃, d₃) ∧
      (openAt "g" 1 ⟨".", []⟩ false).run.run d₃ = (.ok r', d') ∧ r'.generation = 1 ∧
      r'.table.value ⟨"d", "m", 1⟩ = none ∧ r'.table.value ⟨"d", "m", 2⟩ = some (.int64 2) ∧
      r'.table.value ⟨"d", "m", 5⟩ = some (.double 0) ∧ r'.logged.run.run d' = (.ok [sound], d') := by
  have hstanding := Snapshot.sampledBeside_standing_dot
  obtain ⟨t, file, d₀, hopen, hafter⟩ := hstanding.openable.run "g" 1 false
  have hopened := History.opened hstanding.names hopen (congrArg Prod.fst hafter.run_read)
  have hconfined := confined_openAt hstanding.names hstanding.made hstanding.leads hopen
  have hbound : (0 : UInt64).toNat + 1 < UInt64.size := by decide
  obtain ⟨-, r₁, d₁, hload, -, hg, htable, -⟩ := hopened.records.load_beside hconfined hbound (by cbv)
  have hloaded := (hopened.inserted (run_insert_misshapen _ d₀) fun h => by cases h).loaded hbound hload
  rw [carried_of_next hg hbound] at hloaded
  have hinserted := hloaded.inserted (run_insert_sound r₁ d₁) fun _ => fits_sound
  obtain ⟨r₃, d₃, hreopen, rfl, -⟩ := hinserted.reopened_eq "h" 2 true
  obtain ⟨r', d', hagain, rfl, hlogged⟩ := (hinserted.reopened hreopen).reopened_eq "g" 1 false
  have htable' : (r₁.applyEntry sound).table = Snapshot.sampled.table.apply sound := congrArg (·.apply sound) htable
  refine ⟨_, d₀, r₁, d₁, _, _, d₃, _, d', hopen, run_insert_misshapen _ d₀, hload, run_insert_sound r₁ d₁, hreopen, hagain, hg,
    ?_, ?_, ?_, hlogged⟩
  · rw [htable']
    cbv
  · rw [htable']
    cbv
  · rw [htable']
    cbv

end SeriesRegion.Region
