import SeriesRegion.Proofs.Snapshot.Lineage

/-!
# No empty series in a region

Regions are opened and closed again, entries are inserted into them, snapshots are taken of them and loaded, in any order, on
any directories of a disk that held nothing of the kind before (`Region.Reached`).  Whatever region is reached in this way is
made of inserts that were accepted (`Region.Reached.traced`), so that each of its series has a point.  Each of its devices has
one too, unless the inserts for it were tablets without measurements (`Region.Reached.populated`).
-/

namespace SeriesRegion.Region

open FileTask FileWork

/-- The open regions when one was to be opened. -/
def joined {ε : Type} (rs : List Region) : Except ε Region → List Region
  | .ok r => r :: rs
  | .error _ => rs

/-- What can become of a disk, with the regions that are open and the inserts that were accepted since nothing of a region or
of a snapshot was on it.  Directories may list their names in any order, and any step may fail.  What is written to a file is
taken to be short enough for its length to be written down. -/
inductive Reached : Disk → List Region → List LogEntry → Prop
  | start {d : Disk} (names : d.OneName)
    (free : ∀ k x f, d.node? k x = some (.file f) → ¬ Snapshot.IsImageName x ∧ ∀ g, x ≠ Generation.logName g) :
    Reached d [] []
  | opened {d d' : Disk} {rs : List Region} {es : List LogEntry} {storageGroup : String} {id : UInt32} {dir : Path}
    {syncWal : Bool} {answer : Except RegionFault Region} (before : Reached d rs es)
    (opens : (openAt storageGroup id dir syncWal).run.Ends d answer d') : Reached d' (joined rs answer) es
  | inserted {d d' : Disk} {left right : List Region} {r r' : Region} {es : List LogEntry} {e : LogEntry}
    {answer : Except RegionFault Unit} (before : Reached d (left ++ r :: right) es)
    (memory : (Binary.Format.logEntry.write e).length < UInt64.size) (inserts : (r.insert e).Ends d (r', answer) d') :
    Reached d' (left ++ r' :: right) (noted es e answer)
  | taken {d d' : Disk} {rs : List Region} {r : Region} {es : List LogEntry} {target : Path} {stamp : Snapshot.Stamp}
    {answer : Except SnapshotFault Manifest} (before : Reached d rs es) (member : r ∈ rs)
    (memory : (Binary.Format.memTable.write r.table).length < UInt64.size)
    (takes : (Snapshot.take r target stamp).run.Ends d answer d') : Reached d' rs es
  | loaded {d d' : Disk} {rs : List Region} {es : List LogEntry} {source dir : Path} {storageGroup : String} {id : UInt32}
    {syncWal : Bool} {answer : Except SnapshotFault Region} (before : Reached d rs es)
    (loads : (Snapshot.load source storageGroup id dir syncWal).run.Ends d answer d') : Reached d' (joined rs answer) es
  | closed {d : Disk} {left right : List Region} {r : Region} {es : List LogEntry}
    (before : Reached d (left ++ r :: right) es) : Reached d (left ++ right) es

variable {d d' : Disk} {rs : List Region} {r : Region} {es : List LogEntry} {e : LogEntry} {logs : List Nat}

/-! ### What a step leaves -/

theorem subset_noted (es : List LogEntry) (e : LogEntry) (answer : Except RegionFault Unit) : es ⊆ noted es e answer := by
  cases answer with
  | ok a => exact List.subset_append_left _ _
  | error f => exact List.Subset.refl _

/-- An insert is accepted only if it is of good shape, and then it is in the log and in the table. -/
theorem leaves_insert (h : d.Traced es logs) (opened : r.log.file ∈ logs) (made : r.table.MadeOf es)
    (memory : (Binary.Format.logEntry.write e).length < UInt64.size) :
    (r.insert e).Assures (fun _ => True) (fun p d' => d'.Traced (noted es e p.2) logs ∧ p.1.log = r.log ∧
      p.1.table.MadeOf (noted es e p.2) ∧ (p.2 = .ok () → e.payload.shapeFault? = none)) d := by
  rw [Region.insert]
  cases hs : e.payload.shapeFault? with
  | some f => exact ⟨trivial, h, rfl, made, fun accepted => by cases accepted⟩
  | none =>
    refine Assures.bind (Assures.bind (Assures.bind (leaves_perform fun _ _ => ?_)))
    refine ⟨trivial, trivial, trivial, h.append opened memory, rfl, ?_, fun _ => rfl⟩
    exact (made.mono (List.subset_append_left _ _)).applyAll (List.subset_append_right es [e])

/-- The regions that are open are made of inserts that were accepted, as is all that can be read of the disk. -/
structure Traced (d : Disk) (rs : List Region) (es : List LogEntry) : Prop where
  disk : d.Traced es (rs.map (·.log.file))
  made : ∀ r ∈ rs, r.table.MadeOf es
  valid : ∀ e ∈ es, e.payload.shapeFault? = none

theorem Traced.joined {ε : Type} {answer : Except ε Region} (h : Traced d rs es)
    (after : After (Joins es (rs.map (·.log.file))) (Disk.Traced es (rs.map (·.log.file))) answer d') :
    Traced d' (joined rs answer) es := by
  cases answer with
  | error f => exact ⟨after, h.made, h.valid⟩
  | ok r => exact ⟨after.1, List.forall_mem_cons.2 ⟨after.2, h.made⟩, h.valid⟩

theorem Reached.traced (h : Reached d rs es) : Traced d rs es := by
  induction h with
  | start names free =>
    refine ⟨⟨names, fun hx => ?_, fun himage hx => ?_, ?_, ?_, ?_⟩, List.forall_mem_nil _, List.forall_mem_nil _⟩
    · exact absurd rfl ((free _ _ _ hx).2 _)
    · exact absurd himage (free _ _ _ hx).1
    all_goals exact List.forall_mem_nil _
  | opened before opens ih => exact ih.joined ((leaves_openAt ih.disk _ _ _ _).of_ends opens)
  | loaded before loads ih => exact ih.joined ((Snapshot.leaves_load ih.disk _ _ _ _ _).of_ends loads)
  | @taken d d' rs r es target stamp answer before member memory takes ih =>
    have hafter := (Snapshot.leaves_take ih.disk (ih.made _ member) memory _ _).of_ends takes
    refine ⟨?_, ih.made, ih.valid⟩
    cases answer <;> exact hafter
  | @inserted d d' left right r r' es e answer before memory inserts ih =>
    have hr : r ∈ left ++ r :: right := List.mem_append_right _ List.mem_cons_self
    have hsubset := subset_noted es e answer
    obtain ⟨htraced, hlog, hmade, hvalid⟩ :=
      (leaves_insert ih.disk (List.mem_map_of_mem hr) (ih.made r hr) memory).of_ends inserts
    refine ⟨?_, ?_, ?_⟩
    · rw [List.map_append, List.map_cons] at htraced ⊢
      rwa [hlog]
    · intro s hs
      obtain hs | hs := List.mem_append.1 hs
      · exact (ih.made s (List.mem_append_left _ hs)).mono hsubset
      · obtain rfl | hs := List.mem_cons.1 hs
        · exact hmade
        · exact (ih.made s (List.mem_append_right _ (List.mem_cons_of_mem _ hs))).mono hsubset
    · cases answer with
      | error f => exact ih.valid
      | ok a => exact List.forall_mem_append.2 ⟨ih.valid, List.forall_mem_singleton.2 (hvalid rfl)⟩
  | @closed d left right r es before ih =>
    have hsubset : left ++ right ⊆ left ++ r :: right :=
      ((List.sublist_cons_self r right).append_left left).subset
    exact ⟨ih.disk.close (List.map_subset _ hsubset), fun s hs => ih.made s (hsubset hs), ih.valid⟩

/-- What a region that has been reached holds.  Each of its series has a point.  It is made of inserts that were accepted: its
devices are those of these inserts, and a device has a point exactly if one of its inserts names a measurement.  So each device
has a point if no tablet without measurements was accepted. -/
theorem Reached.populated (h : Reached d rs es) (member : r ∈ rs) :
    (∀ device measurement s, r.table.series? device measurement = some s → s.entries ≠ []) ∧
    (∃ made, made ⊆ es ∧ r.table = .applyAll .empty made ∧
      ∀ device, (device ∈ r.table.deviceNames ↔ ∃ e ∈ made, e.payload.device = device) ∧
        (r.table.HasPoint device ↔ ∃ e ∈ made, e.payload.device = device ∧ ¬ e.payload.IsColumnless)) ∧
    ((∀ e ∈ es, ¬ e.payload.IsColumnless) → ∀ device ∈ r.table.deviceNames, r.table.HasPoint device) := by
  obtain ⟨made, hsubset, htable⟩ := h.traced.made r member
  have hvalid : ∀ e ∈ made, e.payload.shapeFault? = none := fun e he => h.traced.valid e (hsubset he)
  rw [htable]
  refine ⟨fun _ _ _ => MemTable.entries_ne_nil_applyAll hvalid, ⟨made, hsubset, rfl, fun device => ?_⟩, ?_⟩
  · exact ⟨MemTable.mem_deviceNames_applyAll, MemTable.hasPoint_applyAll hvalid⟩
  · intro hcolumns device hdevice
    obtain ⟨e, he, rfl⟩ := MemTable.mem_deviceNames_applyAll.1 hdevice
    exact (MemTable.hasPoint_applyAll hvalid).2 ⟨e, he, rfl, hcolumns e (hsubset he)⟩

/-- The region that is opened on a new disk has been reached. -/
theorem reached_fresh :
    ∃ d, (openAt "g" 1 ⟨"", ["r"]⟩ false).run.run (Disk.new "home") = (.ok fresh, d) ∧ Reached d ([] ++ fresh :: []) [] := by
  obtain ⟨d, hopen, -⟩ := openAt_fresh
  have hstart : Reached (Disk.new "home") [] [] :=
    .start (Disk.oneName_new "home") fun _ _ _ hx => (Disk.node?_new_ne_file _ _ _ _ hx).elim
  have hopened := hstart.opened (ends_run (openAt "g" 1 ⟨"", ["r"]⟩ false).run (Disk.new "home"))
  rw [hopen] at hopened
  exact ⟨d, hopen, hopened⟩

/-- When a row has been accepted and one rejected, and the region is opened again, its device has a point. -/
theorem Reached.populated_sound_misshapen :
    ∃ d r' d', Reached d [fresh.applyEntry sound] [sound] ∧
      ((fresh.applyEntry sound).insert misshapen).run d =
        ((fresh.applyEntry sound, .error (.invalidInsert "d" (.valueCount 1 0))), d) ∧
      (openAt "h" 2 ⟨"", ["r"]⟩ true).run.run d = (.ok r', d') ∧ Reached d' [r'] [sound] ∧
      (∀ device measurement s, r'.table.series? device measurement = some s → s.entries ≠ []) ∧
      ∀ device ∈ r'.table.deviceNames, r'.table.HasPoint device := by
  obtain ⟨d₀, hopen, hfresh⟩ := reached_fresh
  have hmemory : (Binary.Format.logEntry.write sound).length < UInt64.size := by
    rw [length_sound]
    decide
  have hsound := run_insert_sound fresh d₀
  have hmisshapen := run_insert_misshapen (fresh.applyEntry sound) (d₀.append fresh.log.file (Log.frameOf sound))
  -- The log of the region that was opened is read when it is opened again.
  obtain ⟨es, hrecords⟩ := records_of_openAt (Disk.oneName_new "home") hopen
  have hlogged := History.opened (Disk.oneName_new "home") hopen (congrArg Prod.fst hrecords.run_logged)
  have hboth := (hlogged.inserted hsound fun _ => fits_sound).inserted hmisshapen fun h => by cases h
  obtain ⟨d', hreopen, -⟩ := hboth.records.reopen "h" 2 true
  have haccepted : Reached _ ([] ++ fresh.applyEntry sound :: []) [sound] :=
    hfresh.inserted hmemory (ends_run (fresh.insert sound) d₀)
  have hrejected : Reached _ ([] ++ fresh.applyEntry sound :: []) [sound] :=
    haccepted.inserted (by decide) (ends_run ((fresh.applyEntry sound).insert misshapen) _)
  have hreopened := hrejected.closed.opened (ends_run (openAt "h" 2 ⟨"", ["r"]⟩ true).run _)
  rw [hsound, hmisshapen, hreopen] at hreopened
  obtain ⟨hseries, -, hdevices⟩ := hreopened.populated List.mem_cons_self
  have hnames : ∀ e ∈ [sound], ¬ e.payload.IsColumnless := List.forall_mem_singleton.2 not_false
  exact ⟨_, _, d', haccepted, hmisshapen, hreopen, hreopened, hseries, hdevices hnames⟩

/-- A tablet with lines and no columns is accepted, and its device has no point. -/
theorem Reached.not_populated_blank :
    ∃ d d', Reached d [fresh] [] ∧ (fresh.insert (blank 1)).run d = ((fresh.applyEntry (blank 1), .ok ()), d') ∧
      Reached d' [fresh.applyEntry (blank 1)] [blank 1] ∧
      (fresh.applyEntry (blank 1)).table.deviceNames = ["d"] ∧ ¬ (fresh.applyEntry (blank 1)).table.HasPoint "d" := by
  obtain ⟨d, -, hfresh⟩ := reached_fresh
  have hmemory : (Binary.Format.logEntry.write (blank 1)).length < UInt64.size := by
    rw [length_blank]
    decide
  have hvalid : ∀ e ∈ [blank 1], e.payload.shapeFault? = none := List.forall_mem_singleton.2 (shapeFault?_blank (by decide))
  have hblank : Reached (d.append 0 (Log.frameOf (blank 1))) ([] ++ fresh.applyEntry (blank 1) :: []) [blank 1] :=
    hfresh.inserted hmemory (ends_run (fresh.insert (blank 1)) d)
  refine ⟨d, _, hfresh, rfl, hblank, by cbv, fun hpoint => ?_⟩
  obtain ⟨e, he, -, hcolumns⟩ := (MemTable.hasPoint_applyAll hvalid).1 hpoint
  rw [List.mem_singleton.1 he] at hcolumns
  exact hcolumns rfl

end SeriesRegion.Region
