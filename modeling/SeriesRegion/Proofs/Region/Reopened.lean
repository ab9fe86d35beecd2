import SeriesRegion.Proofs.Region.Opened

/-!
# Opening a region again

What opening a region reads besides its log stays on the disk as it is while the region writes (`Region.Kept`): the
directory, in which the region's generation is the latest, and the checkpoint, which is not the file of the log.  So
opening again gives what the log makes of the same checkpoint, whatever has become of the log, as long as it can be read
(`Region.Kept.reopens`).  After a crash that leaves a part of the log it is the first entries that count
(`Region.Kept.reopens_cut`), and each number of them can be left (`Region.Kept.exists_cut`).
-/

namespace SeriesRegion

/-- The contents of a file do not matter to the generations that there are. -/
theorem Generation.run_latest_of_agree {dir : Path} {f : Nat} {d d' : Disk} {latest : Option UInt64}
    (agree : d.AgreeBut f d') (h : (Generation.latest dir).run.run d = (.ok latest, d)) :
    (Generation.latest dir).run.run d' = (.ok latest, d') := by
  have hpresent : d'.present dir = d.present dir := by rw [Disk.present, Disk.present, agree.find]
  have hlist : d'.list dir = d.list dir := by rw [Disk.list, Disk.list, agree.find, agree.directories]
  rw [run_latest] at h ⊢
  rw [hpresent, hlist, (Prod.mk.inj h).1]

namespace Region

/-- What opening the region again reads besides the contents of the log: the generation, and its checkpoint.  Its log is synced
if the region says so. -/
structure Kept (checkpoint : MemTable) (r : Region) (d : Disk) : Prop where
  path : r.log.path = r.dataDir.child (Generation.logName r.generation)
  sync : r.log.sync = r.syncWal
  found : d.find r.log.path = .ok (.file r.log.file)
  there : r.dataDir.isStart = true ∨ ∃ n, d.find r.dataDir = .ok (.directory n)
  latest : ∃ latest, (Generation.latest r.dataDir).run.run d = (.ok latest, d) ∧ latest.getD 0 = r.generation
  image : (readCheckpoint r.dataDir r.generation).run.run d = (.ok checkpoint, d)
  apart : d.find (r.dataDir.child (Generation.checkpointName r.generation)) ≠ .ok (.file r.log.file)

variable {checkpoint : MemTable} {r : Region} {d d' : Disk}

/-- The contents of the log do not matter. -/
theorem Kept.agree (h : Kept checkpoint r d) (agree : d.AgreeBut r.log.file d') : Kept checkpoint r d' := by
  refine ⟨h.path, h.sync, ?_, ?_, ?_, ?_, ?_⟩
  · rw [agree.find]
    exact h.found
  · simp only [agree.find]
    exact h.there
  · obtain ⟨latest, hrun, hg⟩ := h.latest
    exact ⟨latest, Generation.run_latest_of_agree agree hrun, hg⟩
  · have hsame := run_readCheckpoint_congr (agree.find _) fun f hf => agree.others f fun heq => h.apart (heq ▸ hf)
    exact run_readCheckpoint_eq_ok.2 (hsame.trans (congrArg Prod.fst h.image))
  · rw [agree.find]
    exact h.apart

theorem Kept.made (h : Kept checkpoint r d) : d.makeDirectories r.dataDir = (.ok (), d) := by
  obtain hstart | ⟨n, hn⟩ := h.there
  · exact d.makeDirectories_of_isStart hstart
  · exact Disk.makeDirectories_of_find hn

theorem Kept.opening (h : Kept checkpoint r d) (readable : (Log.scan (d.bytesOf r.log.file)).fault = none) :
    Opening r.dataDir r.generation checkpoint r.log.file d d d := by
  refine ⟨h.made, h.latest, h.image, ?_, readable⟩
  rw [← h.path]
  exact Disk.openFile_of_find h.found

/-- A log that can be read is replayed over the same checkpoint, for whatever group and number the region is opened. -/
theorem Kept.reopensAs (h : Kept checkpoint r d) (readable : (Log.scan (d.bytesOf r.log.file)).fault = none)
    (storageGroup : String) (id : UInt32) (syncWal : Bool) :
    ((openAt storageGroup id r.dataDir syncWal).run.run d).1 = .ok
      { r with
        storageGroup, id, syncWal
        log.sync := syncWal
        table := checkpoint.applyAll (Log.scan (d.bytesOf r.log.file)).entries } := by
  rw [(h.opening readable).run, ← h.path]

theorem Kept.reopens (h : Kept checkpoint r d) (readable : (Log.scan (d.bytesOf r.log.file)).fault = none) :
    ((openAt r.storageGroup r.id r.dataDir r.syncWal).run.run d).1 =
      .ok { r with table := checkpoint.applyAll (Log.scan (d.bytesOf r.log.file)).entries } := by
  rw [h.reopensAs readable, ← h.sync]

/-- Wherever the log is cut off, the region can be opened on the first of its entries. -/
theorem Kept.reopens_cut (h : Kept checkpoint r d) {es : List LogEntry} (whole : Log.Whole (d.bytesOf r.log.file) es)
    (n : Nat) : ∃ j ≤ es.length,
      ((openAt r.storageGroup r.id r.dataDir r.syncWal).run.run (d.truncate r.log.file n)).1 =
        .ok { r with table := checkpoint.applyAll (es.take j) } := by
  obtain ⟨j, hj, hentries, hfault⟩ := whole.scan_take n
  have hbytes : (d.truncate r.log.file n).bytesOf r.log.file = (d.bytesOf r.log.file).take n := by
    rw [Disk.bytesOf_truncate, if_pos rfl]
  rw [← hbytes] at hentries hfault
  refine ⟨j, hj, ?_⟩
  rw [(h.agree (d.agreeBut_truncate r.log.file n)).reopens hfault, hentries]

/-- The log can be cut off after each of its entries. -/
theorem Kept.exists_cut (h : Kept checkpoint r d) {es : List LogEntry} (whole : Log.Whole (d.bytesOf r.log.file) es)
    (j : Nat) : ∃ n, ((openAt r.storageGroup r.id r.dataDir r.syncWal).run.run (d.truncate r.log.file n)).1 =
        .ok { r with table := checkpoint.applyAll (es.take j) } := by
  obtain ⟨n, hn⟩ := whole.take j
  have hbytes : (d.truncate r.log.file n).bytesOf r.log.file = (d.bytesOf r.log.file).take n := by
    rw [Disk.bytesOf_truncate, if_pos rfl]
  have hscan := hn
  rw [← hbytes, Log.Whole] at hscan
  refine ⟨n, ?_⟩
  rw [(h.agree (d.agreeBut_truncate r.log.file n)).reopens (by rw [hscan]), hscan]

/-- After a region has been opened the files of earlier generations may be gone, and what it was opened on is there. -/
theorem kept_of_openAt {storageGroup : String} {id : UInt32} {dir : Path} {syncWal : Bool} (names : d.OneName)
    (h : (openAt storageGroup id dir syncWal).run.run d = (.ok r, d')) :
    ∃ checkpoint es, Kept checkpoint r d' ∧ r.Backed checkpoint es d' := by
  obtain ⟨checkpoint, es, t, d₁, rfl, -, hopened, hbacked⟩ := opened_of_openAt h
  have hnames : d'.OneName := names.of_run h
  have hfound : d'.find (r.dataDir.child (Generation.logName r.generation)) = .ok (.file r.log.file) := by
    rw [← hopened.path]
    exact hbacked.found
  have hapart : d'.find (r.dataDir.child (Generation.checkpointName r.generation)) ≠ .ok (.file r.log.file) :=
    fun hsame => Generation.checkpointName_ne_logName _ _ (hnames.eq_of_find_child (Generation.isPlain_checkpointName _)
      (Generation.isPlain_logName _) hsame hfound)
  refine ⟨checkpoint, es, ⟨hopened.path, sync_of_openAt h, hbacked.found, ?_, hopened.latest_after, hopened.image_after hapart, hapart⟩,
    hbacked⟩
  obtain hempty | hrefusal := Path.refusal?_of_child hopened.refusal
  · left
    simp [Path.isStart, hempty]
  · exact .inr ⟨_, Disk.find_of_leads hopened.after hrefusal⟩

/-- The files of a region make it what it is: opening it again reads a checkpoint and entries from which its table comes. -/
def Durable (r : Region) (d : Disk) : Prop := ∃ checkpoint es, Kept checkpoint r d ∧ r.Backed checkpoint es d

theorem durable_of_openAt {storageGroup : String} {id : UInt32} {dir : Path} {syncWal : Bool} (names : d.OneName)
    (h : (openAt storageGroup id dir syncWal).run.run d = (.ok r, d')) : r.Durable d' := kept_of_openAt names h

/-- What is logged and then applied changes nothing of what opening the region reads besides its log. -/
theorem Kept.applyAll (h : Kept checkpoint r d) (es : List LogEntry) :
    Kept checkpoint { r with table := r.table.applyAll es } (r.logAll d es) := by
  have hafter := h.agree (agreeBut_logAll r d es)
  exact ⟨hafter.path, hafter.sync, hafter.found, hafter.there, hafter.latest, hafter.image, hafter.apart⟩

/-- What is logged and then applied leaves a region durable. -/
theorem Durable.applyAll (h : r.Durable d) {es : List LogEntry} (fits : ∀ e ∈ es, Log.Fits e) :
    Durable { r with table := r.table.applyAll es } (r.logAll d es) := by
  obtain ⟨checkpoint, before, hkept, hbacked⟩ := h
  exact ⟨checkpoint, before ++ es, hkept.applyAll es, hbacked.applyAll fits⟩

/-- A region stays durable with each insert that runs alone. -/
theorem Durable.insert (h : r.Durable d) {e : LogEntry} (fits : Log.Fits e) :
    ((r.insert e).run d).1.1.Durable ((r.insert e).run d).2 := by
  rw [run_insert_eq]
  exact h.applyAll (fits_accepted fits)

end Region

end SeriesRegion
