import SeriesRegion.Proofs.Region.Applied
import SeriesRegion.Proofs.Region.History

/-!
# Regions that are displaced

A snapshot is loaded into the directory of a region that is still open.  The region goes on writing to the file of its log, and
this file loses nothing (`Region.Kept.log_after_load`).  But the name of the log is that of an earlier generation now, and has
been removed (`Region.Kept.log_removed`), so the entries are no longer found where the region looks for them: unless the
directory has the empty path, its log is read as empty from then on (`Region.History.logged_displaced`).
-/

namespace SeriesRegion

variable {storageGroup : String} {id : UInt32} {source dir : Path} {syncWal : Bool} {g : UInt64} {x : String} {t : Trail}
  {checkpoint : MemTable} {r r' : Region} {es more : List LogEntry} {f : Nat} {d d' d₁ : Disk}

namespace Region

/-! ### The log of a region that is displaced -/

/-- The file of the log holds what it held, also when its name is gone. -/
theorem Kept.log_after_load (names : d.OneName) (h : Kept checkpoint r d) (backed : r.Backed checkpoint es d)
    (hload : (Snapshot.load source storageGroup id r.dataDir syncWal).run.run d = (.ok r', d')) :
    Log.Whole (d'.bytesOf r.log.file) es := by
  obtain ⟨table, latest, t, d₁, -, -, hcheckpointed, -, hopen⟩ := h.load_parts names hload
  have hfound := h.found
  rw [h.path] at hfound
  obtain ⟨k, hl, hn, -⟩ := Disk.leads_of_find (Generation.isPlain_logName _) hfound
  obtain rfl : k = t := Except.ok.inj (hl.symm.trans hcheckpointed.before)
  have hwhole : Log.Whole (d₁.bytesOf r.log.file) es := by
    rw [hcheckpointed.contents _ _ (Generation.draftName_ne_of_ofName? (Generation.ofName?_logName _)) hn]
    exact backed.whole
  have hmade := Disk.makeDirectories_of_leads hcheckpointed.after hcheckpointed.refusal
  by_cases hsame : r.log.file = r'.log.file
  · -- The new region writes to the same file: what it has cut off was nothing.
    obtain ⟨-, hbytes⟩ := log_of_openAt hopen hmade
    rw [← hsame, hwhole.take_length] at hbytes
    rw [hbytes]
    exact hwhole
  · obtain ⟨_, _, _, d₂, -, hmade', hopened, -⟩ := opened_of_openAt hopen
    obtain rfl : d₁ = d₂ := congrArg Prod.snd (hmade.symm.trans hmade')
    rw [hopened.contents _ hsame]
    exact hwhole

/-- A load into a directory with a path removes the name of the log. -/
theorem Kept.log_removed (names : d.OneName) (h : Kept checkpoint r d) (bound : r.generation.toNat + 1 < UInt64.size)
    (refusal : r.dataDir.refusal? = none)
    (hload : (Snapshot.load source storageGroup id r.dataDir syncWal).run.run d = (.ok r', d')) :
    d'.find r.log.path = .error .notFound := by
  obtain ⟨-, -, hgeneration, -⟩ := h.loaded_next names bound refusal hload
  obtain ⟨table, latest, t, d₁, -, -, hcheckpointed, -, hopen⟩ := h.load_parts names hload
  have hfound := h.found
  rw [h.path] at hfound
  obtain ⟨k, hl, hn, hr⟩ := Disk.leads_of_find (Generation.isPlain_logName _) hfound
  obtain rfl : k = t := Except.ok.inj (hl.symm.trans hcheckpointed.before)
  have hn₁ : d₁.node? k.here (Generation.logName r.generation) = some (.file r.log.file) := by
    rw [hcheckpointed.others _ (Generation.checkpointName_ne_logName _ _).symm
      (Generation.draftName_ne_of_ofName? (Generation.ofName?_logName _)), hn]
  have hmade := Disk.makeDirectories_of_leads hcheckpointed.after hcheckpointed.refusal
  have hstale : Generation.isStale r'.generation (Generation.logName r.generation) = true := by
    rw [hgeneration]
    exact Generation.isStale_of_lt (Generation.ofName?_logName _) (Generation.lt_next bound)
  have hgone := node?_openAt hopen hmade hcheckpointed.after refusal (Generation.isPlain_logName _) hr hn₁ hstale
  obtain ⟨_, _, t', d₂, hdir, hmade', hopened, -⟩ := opened_of_openAt hopen
  obtain rfl : d₁ = d₂ := congrArg Prod.snd (hmade.symm.trans hmade')
  have hafter := hopened.after
  rw [hdir] at hafter
  obtain rfl : t' = k := by
    have hbefore := hopened.before
    rw [hdir] at hbefore
    exact Except.ok.inj (hbefore.symm.trans hcheckpointed.after)
  rw [h.path, Disk.find_child hafter (Generation.isPlain_logName _) hr, hgone, Generation.absence_logName]

/-- A load under the empty path leaves the log where it is. -/
theorem Records.log_stays (h : Records dir es r d) (empty : dir.isEmpty = true) (bound : r.generation.toNat + 1 < UInt64.size)
    (hload : (Snapshot.load source storageGroup id dir syncWal).run.run d = (.ok r', d')) :
    d'.find r.log.path = .ok (.file r.log.file) := by
  obtain ⟨checkpoint, hkept, hbacked⟩ := h.files
  have hrecords := h.load bound hload
  obtain rfl := h.place
  have hg : r'.generation = r.generation := by
    obtain ⟨_, hrun⟩ | ⟨table, file, d₂, hrun, -⟩ := h.load_cases bound source storageGroup id syncWal
    · rw [hload] at hrun
      cases hrun
    · rw [hload] at hrun
      cases hrun
      exact if_pos empty
  obtain ⟨hfile, -⟩ := hkept.loaded_same h.names hbacked hload hg
  obtain ⟨checkpoint', hkept', -⟩ := hrecords.files
  have hfound := hkept'.found
  rw [hkept'.path, hrecords.place, hg, hfile] at hfound
  rw [hkept.path, hfound]

/-- A snapshot is loaded into the directory of a region, and then more is inserted into the region itself.  The file that it
writes to holds all that it has ever logged.  Under the empty path this is also what its log is read as; under any other the
log is read as empty, so all that has been logged is found only if that is nothing. -/
theorem History.logged_displaced (h : History dir r d es) (bound : r.generation.toNat + 1 < UInt64.size)
    (hload : (Snapshot.load source storageGroup id dir syncWal).run.run d = (.ok r', d')) (more : List LogEntry)
    (fits : ∀ e ∈ accepted more, Log.Fits e) :
    (r.logged.run.run d).1 = .ok es ∧
    let after := (r.insertAll more).run d'
    Log.Whole (after.2.bytesOf after.1.1.log.file) (es ++ accepted more) ∧
      (after.1.1.logged.run.run after.2).1 = .ok (if dir.isEmpty then es ++ accepted more else []) ∧
      ((after.1.1.logged.run.run after.2).1 = .ok (es ++ accepted more) ↔
        dir.isEmpty = true ∨ es ++ accepted more = []) := by
  have hrecords := h.records
  obtain ⟨checkpoint, hkept, hbacked⟩ := hrecords.files
  refine ⟨congrArg Prod.fst hrecords.run_logged, ?_⟩
  rw [run_insertAll]
  have hagree := agreeBut_logAll r d' (accepted more)
  have hwhole : Log.Whole ((r.logAll d' (accepted more)).bytesOf r.log.file) (es ++ accepted more) := by
    rw [bytesOf_logAll]
    exact (hkept.log_after_load hrecords.names hbacked (hrecords.place ▸ hload)).append (Log.whole_framesOf fits)
  have hlogged : (r.logged.run.run (r.logAll d' (accepted more))).1 =
      .ok (if dir.isEmpty then es ++ accepted more else []) := by
    cases hempty : dir.isEmpty with
    | true =>
      have hfound := (hagree.find _).trans (hrecords.log_stays hempty bound hload)
      exact congrArg Prod.fst (Log.run_read_of_whole hfound hwhole)
    | false =>
      have hrefusal := hrecords.refusal hempty
      obtain rfl := hrecords.place
      have hgone := (hagree.find _).trans (hkept.log_removed hrecords.names bound hrefusal hload)
      show Log.entriesOf ((r.logAll d' (accepted more)).read r.log.path) = _
      rw [Disk.read, hgone]
      rfl
  intro after
  refine ⟨hwhole, hlogged, ?_⟩
  rw [show (after.1.1.logged.run.run after.2).1 = _ from hlogged]
  cases dir.isEmpty with
  | true => exact iff_of_true rfl (.inl rfl)
  | false =>
    exact ⟨fun h => .inr (Except.ok.inj h).symm, fun h => congrArg Except.ok (h.resolve_left Bool.false_ne_true).symm⟩

/-- The sample is loaded where the log stands beside it, at a path that leads back to where relative paths start: the entry of
the log is not found any more, and neither is one that is inserted afterwards. -/
theorem logged_displaced_beside :
    ∃ r d r' d', (openAt "g" 1 ⟨".", []⟩ false).run.run Snapshot.sampledBeside = (.ok r, d) ∧
      (r.logged.run.run d).1 = .ok [Snapshot.elsewhere] ∧ r.generation.toNat + 1 < UInt64.size ∧
      (Snapshot.load ⟨"", ["s"]⟩ "g" 1 ⟨".", []⟩ false).run.run d = (.ok r', d') ∧
      (r.logged.run.run d').1 = .ok [] ∧ (∀ e ∈ accepted [sound], Log.Fits e) ∧
      let after := (r.insertAll [sound]).run d'
      (after.1.1.logged.run.run after.2).1 = .ok [] := by
  have hstanding := Snapshot.sampledBeside_standing_dot
  obtain ⟨t, file, d, hopen, hafter⟩ := hstanding.openable.run "g" 1 false
  have hlogged := congrArg Prod.fst hafter.run_read
  have hhistory := History.opened hstanding.names hopen hlogged
  have hconfined := confined_openAt hstanding.names hstanding.made hstanding.leads hopen
  have hbound : (0 : UInt64).toNat + 1 < UInt64.size := by decide
  obtain ⟨-, r', d', hload, -⟩ := hhistory.records.load_beside hconfined hbound (by cbv)
  have hfits : ∀ e ∈ accepted [sound], Log.Fits e := fits_accepted fits_sound
  obtain ⟨-, -, hempty, -⟩ := hhistory.logged_displaced hbound hload [] (List.forall_mem_nil _)
  obtain ⟨-, -, hempty', -⟩ := hhistory.logged_displaced hbound hload [sound] hfits
  exact ⟨_, d, r', d', hopen, hlogged, hbound, hload, hempty, hfits, hempty'⟩

end Region

end SeriesRegion
