import SeriesRegion.Replica
import SeriesRegion.Proofs.Region.Continued

/-!
# Loading a snapshot into a replica

A load continues the region of a replica or changes nothing.  So a replica either turns to a new region that serves its id, or
stays exactly as it was, with all that is on the disk (`Replica.loadSnapshot_cases`).
-/

namespace SeriesRegion

variable {source dir : Path} {storageGroup : String} {id : UInt32} {syncWal : Bool} {table : MemTable} {r r' : Region}
  {es : List LogEntry} {d d' : Disk}

namespace Replica

variable {v v' : Replica} {e e' : Engine}

theorem run_loadSnapshot (h : v.region? e = some r) (source : Path) (d : Disk) : (v.loadSnapshot e source).run d =
    match (rebuild r source).run.run d with
    | (.ok r', d') => ((v.turnTo e.regions.length, (e.add r').1.serve r'.id e.regions.length), d')
    | (.error _, d') => ((v, e), d') := by
  rw [loadSnapshot, h]
  simp only [FileTask.run_bind]
  rcases (rebuild r source).run.run d with ⟨answer, d'⟩
  cases answer <;> rfl

theorem region?_add {n : Nat} (h : e.region? n = some r) (r' : Region) : (e.add r').1.region? n = some r := by
  have hlt : n < e.regions.length := (List.getElem?_eq_some_iff.1 h).1
  rw [← h]
  exact List.getElem?_append_left hlt

theorem region?_add_new (e : Engine) (r : Region) : (e.add r).1.region? (e.add r).2 = some r := by
  simp [Engine.region?, Engine.add]

/-- A replica has turned to a region that was not there before, and that serves its id from then on.  The replica goes on with
the same batches, the other regions are as they were, and the other ids are served as before. -/
structure Turned (v : Replica) (e : Engine) (r : Region) (v' : Replica) (e' : Engine) : Prop where
  region : v'.region? e' = some r
  serving : e'.serving? r.id = some v'.region
  machine : v'.machine = v.machine
  fresh : e.region? v'.region = none
  others : ∀ n old, e.region? n = some old → e'.region? n = some old
  rest : ∀ id, id ≠ r.id → e'.serving? id = e.serving? id

theorem turned_add (v : Replica) (e : Engine) (r : Region) :
    Turned v e r (v.turnTo e.regions.length) ((e.add r).1.serve r.id e.regions.length) := by
  refine ⟨region?_add_new e r, ?_, rfl, ?_, fun n old hn => region?_add hn r, fun id hid => ?_⟩
  · simp [Engine.serving?, Engine.serve, SortedMap.get?_insert, turnTo]
  · simp [Engine.region?, turnTo]
  · rw [Engine.serving?, Engine.serve, SortedMap.get?_insert, if_neg hid]
    rfl

/-- A replica has turned from a region to one of the same group and id in the same directory.  The new region is of a
generation, on a table, and there are some entries in its log. -/
def Replaced (v : Replica) (e : Engine) (r : Region) (g : UInt64) (table : MemTable) (log : List LogEntry)
    (v' : Replica) (e' : Engine) (d' : Disk) : Prop :=
  ∃ r', Turned v e r' v' e' ∧ r'.storageGroup = r.storageGroup ∧ r'.id = r.id ∧ r'.dataDir = r.dataDir ∧
    r'.syncWal = r.syncWal ∧ r'.generation = g ∧ r'.table = table ∧ Region.Records r.dataDir log r' d'

theorem replaced_of_holds (region : v.region? e = some r) (records : Region.Records r.dataDir es r d)
    (bound : r.generation.toNat + 1 < UInt64.size) (holds : Snapshot.Holds source r.storageGroup r.id table d)
    (writable : Region.Writable r.dataDir r.successor d) :
    let after := (v.loadSnapshot e source).run d
    Replaced v e r r.successor (table.applyAll (r.bequest es)) (r.bequest es) after.1.1 after.1.2 after.2 := by
  obtain ⟨file, d', hload, hrecords⟩ := records.load_ok bound holds writable r.syncWal
  intro after
  have hafter := run_loadSnapshot region source d
  rw [rebuild, hload] at hafter
  rw [show after = _ from hafter]
  exact ⟨_, turned_add v e _, rfl, rfl, rfl, rfl, rfl, rfl, hrecords⟩

theorem unchanged_of_fails (region : v.region? e = some r) (records : Region.Records r.dataDir es r d)
    (bound : r.generation.toNat + 1 < UInt64.size)
    (fails : ∀ table, Snapshot.Holds source r.storageGroup r.id table d → ¬ Region.Writable r.dataDir r.successor d) :
    (v.loadSnapshot e source).run d = ((v, e), d) := by
  obtain ⟨fault, hload⟩ := records.load_error bound fails r.syncWal
  rw [run_loadSnapshot region, rebuild, hload]

/-- A snapshot is loaded while nothing else happens.  If there is one of the region and its checkpoint can be written, the
region is replaced; and if not, nothing has changed.  The new region has the table of the snapshot, the generation after the
highest and an empty log if and only if the path of the directory is not empty. -/
theorem loadSnapshot_cases (source : Path) (region : v.region? e = some r) (records : Region.Records r.dataDir es r d)
    (bound : ∀ x k, d.present (r.dataDir.child x) = true → Generation.ofName? x = some k → k.toNat + 1 < UInt64.size) :
    let after := (v.loadSnapshot e source).run d
    (∀ table, Snapshot.Holds source r.storageGroup r.id table d → Region.Writable r.dataDir r.successor d →
      Replaced v e r r.successor (table.applyAll (r.bequest es)) (r.bequest es) after.1.1 after.1.2 after.2) ∧
    ((∀ table, Snapshot.Holds source r.storageGroup r.id table d → ¬ Region.Writable r.dataDir r.successor d) →
      after = ((v, e), d)) ∧
    (((∃ table g, Snapshot.Holds source r.storageGroup r.id table d ∧ Generation.Highest r.dataDir g d ∧
        Replaced v e r (g + 1) table [] after.1.1 after.1.2 after.2) ∨ after = ((v, e), d)) ↔
      (r.dataDir.isEmpty = true → ∀ table, Snapshot.Holds source r.storageGroup r.id table d →
        ¬ Region.Writable r.dataDir r.successor d)) := by
  intro after
  have hbound := bound _ _ records.present_log (Generation.ofName?_logName _)
  refine ⟨fun _ => replaced_of_holds region records hbound, unchanged_of_fails region records hbound,
    fun hclaim hempty table holds writable => ?_, fun hright => ?_⟩
  · obtain ⟨r', hturned, -, -, -, -, hg, -, -⟩ := replaced_of_holds region records hbound holds writable
    obtain ⟨table', g, -, hhighest, r'', hturned', -, -, -, -, hg', -, -⟩ | hsame := hclaim
    · -- The region is of the generation 0, which comes after none.
      obtain rfl : r' = r'' := Option.some.inj (hturned.region.symm.trans hturned'.region)
      obtain ⟨x, hx, hk⟩ := hhighest.reached
      have hlater := Generation.lt_next (bound x g hx hk)
      rw [← hg', hg, records.successor_eq_zero hempty] at hlater
      exact absurd hlater UInt64.not_lt_zero
    · have hfresh := hturned.fresh
      rw [show (v.loadSnapshot e source).run d = _ from hsame] at hfresh
      rw [region?, hfresh] at region
      cases region
  · by_cases hloads : ∃ table, Snapshot.Holds source r.storageGroup r.id table d ∧
        Region.Writable r.dataDir r.successor d
    · obtain ⟨table, holds, writable⟩ := hloads
      have hwritten : r.dataDir.isEmpty = false := by
        cases hempty : r.dataDir.isEmpty with
        | true => exact absurd writable (hright hempty table holds)
        | false => rfl
      have hnew := replaced_of_holds region records hbound holds writable
      rw [Region.successor, Region.bequest, hwritten] at hnew
      exact .inl ⟨table, r.generation, holds, records.highest hwritten, hnew⟩
    · exact .inr (unchanged_of_fails region records hbound fun table holds writable => hloads ⟨table, holds, writable⟩)

/-- The region of the log that stands beside the sample. -/
def unmade : Region :=
  ⟨"g", 1, ⟨"", []⟩, 0, false, ⟨⟨"", [Generation.logName 0]⟩, 0, false⟩, MemTable.empty.applyAll [Snapshot.elsewhere]⟩

/-- The sample is loaded into a replica whose directory has the empty path: the region is replaced, but by one of the same
generation, which still has the entry of its log. -/
theorem loadSnapshot_cases_unmade :
    let v : Replica := ⟨.new 5, 0⟩
    let e : Engine := ⟨[unmade], SortedMap.empty.insert 1 0⟩
    let after := (v.loadSnapshot e ⟨"", ["s"]⟩).run Snapshot.sampledBeside
    v.region? e = some unmade ∧ Region.Records unmade.dataDir [Snapshot.elsewhere] unmade Snapshot.sampledBeside ∧
      (∀ x k, Snapshot.sampledBeside.present (unmade.dataDir.child x) = true → Generation.ofName? x = some k →
        k.toNat + 1 < UInt64.size) ∧
      Snapshot.Holds ⟨"", ["s"]⟩ unmade.storageGroup unmade.id Snapshot.sampled.table Snapshot.sampledBeside ∧
      Region.Writable unmade.dataDir unmade.successor Snapshot.sampledBeside ∧
      ¬ ((∃ table g, Snapshot.Holds ⟨"", ["s"]⟩ unmade.storageGroup unmade.id table Snapshot.sampledBeside ∧
          Generation.Highest unmade.dataDir g Snapshot.sampledBeside ∧
          Replaced v e unmade (g + 1) table [] after.1.1 after.1.2 after.2) ∨
        after = ((v, e), Snapshot.sampledBeside)) := by
  intro v e after
  have hstanding := Snapshot.sampledBeside_standing
  have hregion : v.region? e = some unmade := rfl
  have hlog : Snapshot.sampledBeside.node? 1 (Generation.logName 0) = some (.file 0) := by
    rw [Snapshot.sampledBeside, Snapshot.node?_beside_home, if_pos rfl]
  have hrecords : Region.Records unmade.dataDir [Snapshot.elsewhere] unmade Snapshot.sampledBeside :=
    .of_standing hstanding hlog Snapshot.elsewhere_whole "g" 1 false
  have hbound : ∀ x k, Snapshot.sampledBeside.present (unmade.dataDir.child x) = true → Generation.ofName? x = some k →
      k.toNat + 1 < UInt64.size := by
    intro x k hx hk
    have hname := Generation.isSome_of_present hstanding.leads hk hx
    rw [Snapshot.sampledBeside_generation hname hk]
    decide
  have hholds := Snapshot.sampledBeside_holds
  have hwritable : Region.Writable unmade.dataDir unmade.successor Snapshot.sampledBeside := Snapshot.sampledBeside_writable
  refine ⟨hregion, hrecords, hbound, hholds, hwritable, fun hclaim => ?_⟩
  obtain ⟨-, -, hiff⟩ := loadSnapshot_cases ⟨"", ["s"]⟩ hregion hrecords hbound
  exact hiff.1 hclaim rfl _ hholds hwritable

end Replica

end SeriesRegion
