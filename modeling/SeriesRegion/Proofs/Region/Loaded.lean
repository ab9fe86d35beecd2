import SeriesRegion.Snapshot
import SeriesRegion.Proofs.Binary.Reread
import SeriesRegion.Proofs.Region.Reopened

/-!
# Loading a snapshot

Writing a checkpoint puts the image of a table under the name of a generation, and leaves the rest of the directory as it is
(`Region.checkpointed_of_writeCheckpoint`).  If the generation is later than all that are there, the region is then opened on
the table, with an empty log (`Region.Checkpointed.opens`).  So a region whose directory a snapshot is loaded into is
followed by one of the next generation, on the image of the snapshot (`Region.Kept.loaded_next`).  Only where the path of the
directory is empty, so that nothing is found in it, does the generation stay what it was, and with it the log
(`Region.Kept.loaded`).
-/

namespace SeriesRegion

variable {storageGroup : String} {id : UInt32} {source dir : Path} {syncWal : Bool} {g : UInt64}
  {table checkpoint : MemTable} {t : Trail} {r r' : Region} {es : List LogEntry} {d d' d₁ : Disk}

namespace Region

/-! ### Writing a checkpoint -/

/-- A checkpoint has been written into a directory: it holds the image of the table, its draft is gone, and what stands under
other names is what stood there. -/
structure Checkpointed (dir : Path) (g : UInt64) (table : MemTable) (t : Trail) (d d' : Disk) : Prop where
  before : d.Leads dir t
  after : d'.Leads dir t
  refusal : (dir.child (Generation.checkpointName g)).refusal? = none
  checkpoint : ∃ f, d'.node? t.here (Generation.checkpointName g) = some (.file f) ∧
    d'.bytesOf f = Binary.Format.memTable.write table
  draft : d'.node? t.here (Generation.draftName g) = none
  others : ∀ x, x ≠ Generation.checkpointName g → x ≠ Generation.draftName g → d'.node? t.here x = d.node? t.here x
  contents : ∀ x f, x ≠ Generation.draftName g → d.node? t.here x = some (.file f) → d'.bytesOf f = d.bytesOf f

theorem checkpointed_of_writeCheckpoint (names : d.OneName)
    (h : (writeCheckpoint dir g table).run.run d = (.ok (), d')) :
    ∃ t d₁, d.makeDirectories dir = (.ok (), d₁) ∧ Checkpointed dir g table t d₁ d' := by
  rw [writeCheckpoint] at h
  obtain ⟨_, d₁, h₁, h⟩ := FileWork.bind_ok h
  obtain ⟨_, d₂, h₂, h₃⟩ := FileWork.bind_ok h
  have hmade : d.makeDirectories dir = (.ok (), d₁) := FileWork.run_attempt_eq_ok.1 h₁
  have hwrite : d₁.write (dir.child (Generation.draftName g)) (Binary.Format.memTable.write table) = (.ok (), d₂) :=
    FileWork.run_attempt_eq_ok.1 h₂
  have hrename : d₂.rename (dir.child (Generation.draftName g)) (dir.child (Generation.checkpointName g)) = (.ok (), d') :=
    FileWork.run_attempt_eq_ok.1 h₃
  have hnames : d₂.OneName := (names.of_run h₁).of_run h₂
  have hne : Generation.draftName g ≠ Generation.checkpointName g :=
    (Generation.draftName_ne_of_ofName? (Generation.ofName?_checkpointName g)).symm
  obtain ⟨t, f, hl, -, hkeeps, hdraft, hothers, hcontents⟩ := Disk.child_of_write (Generation.isPlain_draftName g) hwrite
  have hl₂ := hkeeps.leads hl
  obtain ⟨hr, hkeeps', hgone, hcheckpoint, hothers', hfiles⟩ := Disk.child_of_rename (Generation.isPlain_draftName g)
    (Generation.isPlain_checkpointName g) hne hl₂ hdraft hrename
  have hbytes : ∀ k, d'.bytesOf k = if k = f then Binary.Format.memTable.write table else d₁.bytesOf k := by
    intro k
    rw [Disk.bytesOf, hfiles]
    exact hcontents k
  refine ⟨t, d₁, hmade, hl, hkeeps'.leads hl₂, hr, ⟨f, hcheckpoint, ?_⟩, hgone, fun x hx hx' => ?_, fun x k hx hk => ?_⟩
  · rw [hbytes, if_pos rfl]
  · rw [hothers' x hx' hx, hothers x hx']
  · -- The draft is no file that stands under another name.
    rw [hbytes, if_neg]
    rintro rfl
    exact hx (hnames.unique ((hothers x hx).trans hk) hdraft).2

/-- A checkpoint of a generation later than all that are there is what the region is opened on, with an empty log. -/
theorem Checkpointed.opens (h : Checkpointed dir g table t d d₁) (refusal : dir.refusal? = none)
    (later : ∀ x k, (d.node? t.here x).isSome → Generation.ofName? x = some k → k < g)
    (reads : Binary.Format.memTable.Reads table)
    (hopen : (openAt storageGroup id dir syncWal).run.run d₁ = (.ok r, d')) :
    r.generation = g ∧ r.table = table ∧ Log.Whole (d'.bytesOf r.log.file) [] := by
  have hmade : d₁.makeDirectories dir = (.ok (), d₁) := Disk.makeDirectories_of_leads h.after h.refusal
  obtain ⟨f, hf, hbytes⟩ := h.checkpoint
  obtain ⟨checkpoint, es, t', d₂, rfl, hmade', hopened, hbacked⟩ := opened_of_openAt hopen
  obtain rfl : d₁ = d₂ := congrArg Prod.snd (hmade.symm.trans hmade')
  -- The checkpoint is the only name of its generation, and of no name the generation is later.
  have hlatest : Generation.latestOf (d₁.directories.get t.here).keys = some g := by
    rw [Generation.latestOf_eq_some]
    refine ⟨⟨_, Disk.mem_keys.2 (by rw [hf]; rfl), Generation.ofName?_checkpointName g⟩, fun x hx k hk => ?_⟩
    by_cases hc : x = Generation.checkpointName g
    · rw [hc, Generation.ofName?_checkpointName] at hk
      cases hk
      exact UInt64.le_refl g
    · rw [Disk.mem_keys, h.others x hc (Generation.draftName_ne_of_ofName? hk)] at hx
      exact UInt64.le_of_lt (later x k hx hk)
  have hg : r.generation = g := by
    obtain ⟨latest, hrun, hl⟩ := hopened.latest
    rw [Generation.run_latest_of_leads h.after refusal, hlatest] at hrun
    cases hrun
    exact hl.symm
  have himage : checkpoint = table := by
    have hread := hopened.image
    rw [hg, run_readCheckpoint, Disk.find_child h.after (Generation.isPlain_checkpointName g) h.refusal, hf] at hread
    simp only [hbytes, reads.decode] at hread
    cases hread
    rfl
  have hempty : Log.Whole (d'.bytesOf r.log.file) [] := by
    refine log_of_openAt_of_missing hopen hmade fun k hk => ?_
    rw [hopened.path, hg] at hk
    obtain ⟨k', hl, hn, -⟩ := Disk.leads_of_find (Generation.isPlain_logName g) hk
    obtain rfl : k' = t := Except.ok.inj (hl.symm.trans h.after)
    rw [h.others _ (Generation.checkpointName_ne_logName _ _).symm
      (Generation.draftName_ne_of_ofName? (Generation.ofName?_logName g))] at hn
    exact UInt64.lt_irrefl g (later _ g (by rw [hn]; rfl) (Generation.ofName?_logName g))
  refine ⟨hg, ?_, hempty⟩
  rw [hbacked.table, hbacked.whole.unique hempty, himage]
  rfl

theorem restore_ok (h : (restore storageGroup id dir g table syncWal).run.run d = (.ok r, d')) :
    ∃ d₁, (writeCheckpoint dir g table).run.run d = (.ok (), d₁) ∧
      (openAt storageGroup id dir syncWal).run.run d₁ = (.ok r, d') := by
  rw [restore] at h
  obtain ⟨_, d₁, hwrite, h⟩ := FileWork.bind_ok h
  refine ⟨d₁, hwrite, ?_⟩
  rw [ExceptT.run_mk, FileTask.run_bind] at h
  rcases hopen : (openAt storageGroup id dir syncWal).run.run d₁ with ⟨answer, d₂⟩
  rw [hopen] at h
  cases answer with
  | ok r₂ => exact h
  | error e =>
    simp only [FileTask.run_bind] at h
    cases h

end Region

/-! ### Loading -/

namespace Snapshot

theorem readManifest_ok {m : Manifest} (h : (readManifest source).run.run d = (.ok m, d')) :
    ∃ bytes text, d.read (source.child manifestName) = .ok bytes ∧ Utf8.decode bytes = .ok text ∧
      Manifest.ofText text = .ok m ∧ d' = d := by
  rw [readManifest] at h
  obtain ⟨bytes, d₁, hread, hrest⟩ := FileWork.bind_ok h
  obtain ⟨text, d₂, hdecode, hparse⟩ := FileWork.bind_ok hrest
  obtain ⟨hbytes, rfl⟩ := FileWork.run_read_eq_ok.1 hread
  obtain ⟨htext, rfl⟩ := FileWork.run_ofExcept_eq_ok.1 hdecode
  obtain ⟨hm, rfl⟩ := FileWork.run_ofExcept_eq_ok.1 hparse
  exact ⟨bytes, text, hbytes, htext, hm, rfl⟩

theorem checkImage_ok {m : Manifest} {image : Bytes} (h : checkImage m image = .ok table) :
    Sha256.hex image = m.sha256 ∧ Binary.Format.memTable.decode image = .ok table := by
  rw [checkImage] at h
  split at h
  · rename_i hsum
    refine ⟨hsum, ?_⟩
    cases hd : Binary.Format.memTable.decode image with
    | error e =>
      rw [hd] at h
      cases h
    | ok read =>
      rw [hd] at h
      cases h
      rfl
  · cases h

/-- The image of a snapshot is read only if the manifest is that of the region wanted and says the checksum of the image. -/
theorem readImage_ok (h : (readImage source storageGroup id).run.run d = (.ok table, d')) :
    ∃ m image, (readManifest source).run.run d = (.ok m, d) ∧ m.storageGroup = storageGroup ∧ m.regionId = id ∧
      d.read (source.child dataName) = .ok image ∧ Sha256.hex image = m.sha256 ∧
      Binary.Format.memTable.decode image = .ok table ∧ d' = d := by
  rw [readImage] at h
  obtain ⟨m, d₁, hmanifest, hrest⟩ := FileWork.bind_ok h
  obtain ⟨-, -, -, -, -, rfl⟩ := readManifest_ok hmanifest
  split at hrest
  · rename_i hwanted
    obtain ⟨image, d₂, hread, hcheck⟩ := FileWork.bind_ok hrest
    obtain ⟨himage, rfl⟩ := FileWork.run_read_eq_ok.1 hread
    obtain ⟨hchecked, rfl⟩ := FileWork.run_ofExcept_eq_ok.1 hcheck
    obtain ⟨hsum, hdecode⟩ := checkImage_ok hchecked
    exact ⟨m, image, hmanifest, hwanted.1, hwanted.2, himage, hsum, hdecode, rfl⟩
  · cases hrest

theorem load_ok (h : (load source storageGroup id dir syncWal).run.run d = (.ok r, d')) :
    ∃ table latest, (readImage source storageGroup id).run.run d = (.ok table, d) ∧
      (Generation.latest dir).run.run d = (.ok latest, d) ∧
      (Region.restore storageGroup id dir (nextGeneration latest) table syncWal).run.run d = (.ok r, d') := by
  rw [load] at h
  obtain ⟨table, d₁, himage, hrest⟩ := FileWork.bind_ok h
  obtain ⟨latest, d₂, hlatest, hrestore⟩ := FileWork.bind_ok hrest
  rw [FileWork.run_within_eq_ok] at hlatest hrestore
  obtain ⟨-, -, -, -, -, -, -, -, rfl⟩ := readImage_ok himage
  obtain rfl : d₁ = d₂ := by
    rw [Generation.run_latest] at hlatest
    exact congrArg Prod.snd hlatest
  exact ⟨table, latest, himage, hlatest, hrestore⟩

end Snapshot

namespace Region

/-- The generation of a region is the latest in its directory, if this can be found. -/
theorem Kept.run_latest (h : Kept checkpoint r d) (refusal : r.dataDir.refusal? = none) :
    (Generation.latest r.dataDir).run.run d = (.ok (some r.generation), d) := by
  obtain ⟨latest, hrun, hg⟩ := h.latest
  have hfound := h.found
  rw [h.path] at hfound
  obtain ⟨t, hl, hn, -⟩ := Disk.leads_of_find (Generation.isPlain_logName _) hfound
  obtain ⟨l, hlatest, -⟩ := Generation.le_latestOf (Disk.mem_keys.2 (by rw [hn]; rfl)) (Generation.ofName?_logName _)
  rw [Generation.run_latest_of_leads hl refusal, hlatest] at hrun ⊢
  cases hrun
  rw [← hg]
  rfl

/-- A name of a generation later than the region's does not stand in its directory. -/
theorem Kept.le_generation (h : Kept checkpoint r d) (refusal : r.dataDir.refusal? = none) (hl : d.Leads r.dataDir t)
    {x : String} (hx : (d.node? t.here x).isSome) {k : UInt64} (hk : Generation.ofName? x = some k) : k ≤ r.generation := by
  obtain ⟨l, hlatest, hkl⟩ := Generation.le_latestOf (Disk.mem_keys.2 hx) hk
  have hrun := h.run_latest refusal
  rw [Generation.run_latest_of_leads hl refusal, hlatest] at hrun
  cases hrun
  exact hkl

/-- A load into the directory of a region writes a checkpoint there, and opens the directory. -/
theorem Kept.load_parts (names : d.OneName) (h : Kept checkpoint r d)
    (hload : (Snapshot.load source storageGroup id r.dataDir syncWal).run.run d = (.ok r', d')) :
    ∃ table latest t d₁, (Snapshot.readImage source storageGroup id).run.run d = (.ok table, d) ∧
      (Generation.latest r.dataDir).run.run d = (.ok latest, d) ∧
      Checkpointed r.dataDir (Snapshot.nextGeneration latest) table t d d₁ ∧ d₁.OneName ∧
      (openAt storageGroup id r.dataDir syncWal).run.run d₁ = (.ok r', d') := by
  obtain ⟨table, latest, himage, hlatest, hrestore⟩ := Snapshot.load_ok hload
  obtain ⟨d₁, hwrite, hopen⟩ := restore_ok hrestore
  obtain ⟨t, d₀, hmade, hcheckpointed⟩ := checkpointed_of_writeCheckpoint names hwrite
  obtain rfl : d = d₀ := congrArg Prod.snd (h.made.symm.trans hmade)
  exact ⟨table, latest, t, d₁, himage, hlatest, hcheckpointed, names.of_run hwrite, hopen⟩

/-- A region is followed by one of the next generation, on the image of the snapshot and with an empty log. -/
theorem Kept.loaded_next (names : d.OneName) (h : Kept checkpoint r d) (bound : r.generation.toNat + 1 < UInt64.size)
    (refusal : r.dataDir.refusal? = none)
    (hload : (Snapshot.load source storageGroup id r.dataDir syncWal).run.run d = (.ok r', d')) :
    ∃ table, (Snapshot.readImage source storageGroup id).run.run d = (.ok table, d) ∧
      r'.generation = r.generation + 1 ∧ r'.table = table ∧ Log.Whole (d'.bytesOf r'.log.file) [] := by
  obtain ⟨table, latest, t, d₁, himage, hlatest, hcheckpointed, -, hopen⟩ := h.load_parts names hload
  rw [h.run_latest refusal] at hlatest
  cases hlatest
  obtain ⟨-, image, -, -, -, -, -, hdecode, -⟩ := Snapshot.readImage_ok himage
  refine ⟨table, himage, hcheckpointed.opens refusal (fun x k hx hk => ?_)
    (Binary.Format.memTable_stable.decode hdecode) hopen⟩
  exact UInt64.lt_of_le_of_lt (h.le_generation refusal hcheckpointed.before hx hk) (Generation.lt_next bound)

/-- A region that is followed by one of its own generation leaves it its log. -/
theorem Kept.loaded_same (names : d.OneName) (h : Kept checkpoint r d) (backed : r.Backed checkpoint es d)
    (hload : (Snapshot.load source storageGroup id r.dataDir syncWal).run.run d = (.ok r', d'))
    (same : r'.generation = r.generation) : r'.log.file = r.log.file ∧ Log.Whole (d'.bytesOf r'.log.file) es := by
  obtain ⟨table, latest, t, d₁, -, -, hcheckpointed, -, hopen⟩ := h.load_parts names hload
  obtain ⟨-, -, -, -, hpath, -⟩ := opening_of_openAt hopen
  have hfound := h.found
  rw [h.path] at hfound
  obtain ⟨k, hl, hn, hr⟩ := Disk.leads_of_find (Generation.isPlain_logName _) hfound
  obtain rfl : k = t := Except.ok.inj (hl.symm.trans hcheckpointed.before)
  -- The log is neither the checkpoint that has been written nor its draft.
  have hdraft := Generation.draftName_ne_of_ofName? (g := Snapshot.nextGeneration latest)
    (Generation.ofName?_logName r.generation)
  have hn' := (hcheckpointed.others _ (Generation.checkpointName_ne_logName _ _).symm hdraft).trans hn
  have hfound' : d₁.find r'.log.path = .ok (.file r.log.file) := by
    rw [hpath, same, Disk.find_child hcheckpointed.after (Generation.isPlain_logName _) hr, hn']
  have hwhole : Log.Whole (d₁.bytesOf r.log.file) es := by
    rw [hcheckpointed.contents _ _ hdraft hn]
    exact backed.whole
  have hmade := Disk.makeDirectories_of_leads hcheckpointed.after hcheckpointed.refusal
  exact log_of_openAt_of_found hopen hmade hfound' hwhole

/-- After a load the region in the directory is again made what it is by its files.  Its log is empty, unless its generation
is that of the region before it. -/
theorem Kept.loaded (names : d.OneName) (h : Kept checkpoint r d) (backed : r.Backed checkpoint es d)
    (bound : r.generation.toNat + 1 < UInt64.size)
    (hload : (Snapshot.load source storageGroup id r.dataDir syncWal).run.run d = (.ok r', d')) :
    r'.dataDir = r.dataDir ∧ ∃ checkpoint', Kept checkpoint' r' d' ∧
      r'.Backed checkpoint' (if r'.generation = r.generation then es else []) d' := by
  obtain ⟨table, latest, t, d₁, -, -, -, hnames, hopen⟩ := h.load_parts names hload
  obtain ⟨-, -, -, -, -, hdir, -⟩ := opening_of_openAt hopen
  obtain ⟨checkpoint', es', hkept, hbacked⟩ := kept_of_openAt hnames hopen
  have hwhole : Log.Whole (d'.bytesOf r'.log.file) (if r'.generation = r.generation then es else []) := by
    split
    · rename_i hsame
      exact (h.loaded_same names backed hload hsame).2
    · rename_i hother
      cases hr : r.dataDir.refusal? with
      | none =>
        obtain ⟨-, -, -, -, hempty⟩ := h.loaded_next names bound hr hload
        exact hempty
      | some e =>
        -- No generation is found, before or afterwards.
        obtain ⟨before, hrun, hg⟩ := h.latest
        obtain ⟨after, hrun', hg'⟩ := hkept.latest
        rw [hdir] at hrun'
        rw [Generation.run_latest_of_refusal hr] at hrun hrun'
        cases hrun
        cases hrun'
        exact absurd (hg'.symm.trans hg) hother
  rw [hbacked.whole.unique hwhole] at hbacked
  exact ⟨hdir, checkpoint', hkept, hbacked⟩

end Region

end SeriesRegion
