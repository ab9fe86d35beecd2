import SeriesRegion.Proofs.Region.Loaded

/-!
# What a region's files record

A region in a directory is made what it is by its files, and its log holds the inserts of its generation (`Region.Records`).
An insert, a load and another opening each leave such a region, and so does what is done elsewhere on the disk
(`Region.Records.insert`, `Region.Records.load`, `Region.Records.reopen`, `Region.Records.spared`).
-/

namespace SeriesRegion.Region

/-- What is done elsewhere on a disk: the directory stays where it is, and the files of generations in it what they are. -/
structure Spares (dir : Path) (d d' : Disk) : Prop where
  directory : d'.find dir = d.find dir
  latest : ((Generation.latest dir).run.run d').1 = ((Generation.latest dir).run.run d).1
  files : ∀ x, (Generation.ofName? x).isSome → d'.find (dir.child x) = d.find (dir.child x)
  contents : ∀ x f, (Generation.ofName? x).isSome → d.find (dir.child x) = .ok (.file f) → d'.bytesOf f = d.bytesOf f

/-- The inserts of a generation after one more has been answered. -/
def noted (es : List LogEntry) (e : LogEntry) : Except RegionFault Unit → List LogEntry
  | .ok () => es ++ [e]
  | .error _ => es

/-- The inserts of the generation of a region that takes the place of another: those of another generation do not count. -/
def carried (r r' : Region) (es : List LogEntry) : List LogEntry := if r'.generation = r.generation then es else []

/-- A region in a directory is made what it is by its files, and its log holds the inserts. -/
structure Records (dir : Path) (es : List LogEntry) (r : Region) (d : Disk) : Prop where
  names : d.OneName
  place : r.dataDir = dir
  files : ∃ checkpoint, Kept checkpoint r d ∧ r.Backed checkpoint es d

variable {dir : Path} {storageGroup : String} {id : UInt32} {syncWal : Bool} {r r' : Region} {es : List LogEntry}
  {e : LogEntry} {d d' : Disk} {checkpoint : MemTable}

theorem records_of_openAt (names : d.OneName) (h : (openAt storageGroup id dir syncWal).run.run d = (.ok r, d')) :
    ∃ es, Records dir es r d' := by
  obtain ⟨checkpoint, es, hkept, hbacked⟩ := kept_of_openAt names h
  obtain ⟨-, -, -, -, -, hdir, -⟩ := opening_of_openAt h
  exact ⟨es, names.of_run h, hdir, checkpoint, hkept, hbacked⟩

/-- The log stands in the directory. -/
theorem Records.leads (h : Records dir es r d) : ∃ t, d.Leads dir t ∧
    d.node? t.here (Generation.logName r.generation) = some (.file r.log.file) ∧
    (dir.child (Generation.logName r.generation)).refusal? = none := by
  obtain ⟨checkpoint, hkept, -⟩ := h.files
  have hfound := hkept.found
  rw [hkept.path, h.place] at hfound
  exact Disk.leads_of_find (Generation.isPlain_logName _) hfound

theorem Records.made (h : Records dir es r d) : d.makeDirectories dir = (.ok (), d) := by
  obtain ⟨checkpoint, hkept, -⟩ := h.files
  exact h.place ▸ hkept.made

theorem Records.run_logged (h : Records dir es r d) : r.logged.run.run d = (.ok es, d) := by
  obtain ⟨checkpoint, -, hbacked⟩ := h.files
  exact hbacked.run_logged

theorem Records.insert {answer : Except RegionFault Unit} (h : Records dir es r d)
    (hinsert : (r.insert e).run d = ((r', answer), d')) (fits : answer = .ok () → Log.Fits e) :
    Records dir (noted es e answer) r' d' := by
  obtain ⟨checkpoint, hkept, hbacked⟩ := h.files
  have hnames : d'.OneName := h.names.of_run hinsert
  rw [run_insert_eq, outcomeOf] at hinsert
  cases hs : e.payload.shapeFault? with
  | some f =>
    rw [hs, show accepted [e] = [] by simp [accepted, hs]] at hinsert
    cases hinsert
    exact ⟨hnames, h.place, checkpoint, hkept, hbacked⟩
  | none =>
    rw [hs, show accepted [e] = [e] by simp [accepted, hs]] at hinsert
    cases hinsert
    exact ⟨hnames, h.place, checkpoint, hkept.applyAll [e],
      hbacked.applyAll fun e' he => List.mem_singleton.1 he ▸ fits rfl⟩

theorem Records.load {source : Path} (h : Records dir es r d) (bound : r.generation.toNat + 1 < UInt64.size)
    (hload : (Snapshot.load source storageGroup id dir syncWal).run.run d = (.ok r', d')) :
    Records dir (carried r r' es) r' d' := by
  obtain ⟨checkpoint, hkept, hbacked⟩ := h.files
  obtain rfl := h.place
  obtain ⟨hdir, checkpoint', hkept', hbacked'⟩ := hkept.loaded h.names hbacked bound hload
  exact ⟨h.names.of_run hload, hdir, checkpoint', hkept', hbacked'⟩

/-- Opening again gives the region as it was, and leaves its files what they make of it. -/
theorem Records.reopen (h : Records dir es r d) (storageGroup : String) (id : UInt32) (syncWal : Bool) :
    ∃ d', (openAt storageGroup id dir syncWal).run.run d =
        (.ok { r with storageGroup, id, syncWal, log.sync := syncWal }, d') ∧
      Records dir es { r with storageGroup, id, syncWal, log.sync := syncWal } d' := by
  obtain ⟨checkpoint, hkept, hbacked⟩ := h.files
  obtain rfl := h.place
  have hscan : Log.scan (d.bytesOf r.log.file) = ⟨es, (d.bytesOf r.log.file).length, none⟩ := hbacked.whole
  have hanswer := hkept.reopensAs (by rw [hscan]) storageGroup id syncWal
  rw [hscan, ← hbacked.table] at hanswer
  rcases hopen : (openAt storageGroup id r.dataDir syncWal).run.run d with ⟨answer, d'⟩
  rw [hopen] at hanswer
  obtain rfl : answer = .ok { r with storageGroup, id, syncWal, log.sync := syncWal } := hanswer
  refine ⟨d', rfl, h.names.of_run hopen, rfl, ?_⟩
  obtain ⟨checkpoint', es', hkept', hbacked'⟩ := kept_of_openAt h.names hopen
  -- The log is the one that was there, so what it holds has not changed.
  obtain ⟨-, hwhole⟩ := log_of_openAt_of_found hopen hkept.made hkept.found hbacked.whole
  rw [hbacked'.whole.unique hwhole] at hbacked'
  exact ⟨checkpoint', hkept', hbacked'⟩

theorem Records.reopen_same (h : Records dir es r d) :
    ∃ d', (openAt r.storageGroup r.id dir r.syncWal).run.run d = (.ok r, d') := by
  obtain ⟨d', hopen, -⟩ := h.reopen r.storageGroup r.id r.syncWal
  have hsame : { r with log.sync := r.syncWal } = r := by
    obtain ⟨checkpoint, ⟨-, hsync, -⟩, -⟩ := h.files
    rcases r with ⟨_, _, _, _, s, ⟨_, _, s'⟩, _⟩
    obtain rfl : s' = s := hsync
    rfl
  exact ⟨d', hopen.trans (congrArg (fun r' => (Except.ok r', d')) hsame)⟩

theorem Kept.spared (h : Kept checkpoint r d) (spares : Spares r.dataDir d d') : Kept checkpoint r d' := by
  have hlog : (Generation.ofName? (Generation.logName r.generation)).isSome := by
    rw [Generation.ofName?_logName]
    rfl
  have hcheckpoint : (Generation.ofName? (Generation.checkpointName r.generation)).isSome := by
    rw [Generation.ofName?_checkpointName]
    rfl
  refine ⟨h.path, h.sync, ?_, ?_, ?_, ?_, ?_⟩
  · rw [h.path, spares.files _ hlog, ← h.path]
    exact h.found
  · rw [spares.directory]
    exact h.there
  · obtain ⟨latest, hrun, hg⟩ := h.latest
    refine ⟨latest, Prod.ext ?_ ?_, hg⟩
    · rw [spares.latest, hrun]
    · rw [Generation.run_latest]
  · have hsame := run_readCheckpoint_congr (spares.files _ hcheckpoint) fun f => spares.contents _ f hcheckpoint
    exact run_readCheckpoint_eq_ok.2 (hsame.trans (congrArg Prod.fst h.image))
  · rw [spares.files _ hcheckpoint]
    exact h.apart

theorem Records.spared (h : Records dir es r d) (names : d'.OneName) (spares : Spares dir d d') :
    Records dir es r d' := by
  obtain ⟨checkpoint, hkept, hbacked⟩ := h.files
  obtain rfl := h.place
  have hkept' := hkept.spared spares
  have hfound := hkept.found
  rw [hkept.path] at hfound
  refine ⟨names, rfl, checkpoint, hkept', hkept'.found, ?_, hbacked.table⟩
  rw [spares.contents _ _ (by rw [Generation.ofName?_logName]; rfl) hfound]
  exact hbacked.whole

end SeriesRegion.Region
