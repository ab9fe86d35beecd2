import SeriesRegion.Proofs.Disk.OneName
import SeriesRegion.Proofs.Generation.Names
import SeriesRegion.Proofs.Log.Replay
import SeriesRegion.Proofs.Region.Backed

/-!
# Opening a region

Opening succeeds exactly when its steps do, and gives the table that the entries of the log make of the checkpoint
(`Region.Opening.run`, `Region.opening_of_openAt`).  A region that has been opened is backed by the checkpoint of its
generation and by its log, from which an incomplete frame at the end has been cut (`Region.backed_of_openAt`).
-/

namespace SeriesRegion

/-! ### Removing stale files -/

/-- A disk from which some of the names that may go are gone, and nothing else. -/
structure Disk.Sheds (may : String → Prop) (d d' : Disk) : Prop where
  keeps : Disk.Keeps d d'
  files : d'.files = d.files
  names : ∀ k x, d'.node? k x = d.node? k x ∨ (may x ∧ d'.node? k x = none)

namespace Disk.Sheds

variable {may : String → Prop} {d d' d'' : Disk}

theorem refl (may : String → Prop) (d : Disk) : Sheds may d d := ⟨.refl d, rfl, fun _ _ => .inl rfl⟩

theorem trans (h : Sheds may d d') (h' : Sheds may d' d'') : Sheds may d d'' := by
  refine ⟨h.keeps.trans h'.keeps, h'.files.trans h.files, fun k x => ?_⟩
  obtain hx' | ⟨hmay, hx'⟩ := h'.names k x
  · rw [hx']
    exact h.names k x
  · exact .inr ⟨hmay, hx'⟩

theorem node? (h : Sheds may d d') {x : String} (hx : ¬ may x) (k : Nat) : d'.node? k x = d.node? k x :=
  (h.names k x).resolve_right fun hn => hx hn.1

theorem bytesOf (h : Sheds may d d') (f : Nat) : d'.bytesOf f = d.bytesOf f := by rw [Disk.bytesOf, h.files, Disk.bytesOf]

end Disk.Sheds

namespace Generation

theorem sheds_removeAll (dir : Path) (names : List String) (d : Disk) :
    d.Sheds (· ∈ names) ((removeAll dir names).run d).2 := by
  -- What may go is fixed, while the names are removed one by one.
  have hrun : ∀ {all : List String} (rest : List String), (∀ x ∈ rest, x ∈ all) → ∀ d : Disk,
      d.Sheds (· ∈ all) ((removeAll dir rest).run d).2 := by
    intro all rest
    induction rest with
    | nil => exact fun _ d => .refl _ d
    | cons y rest ih =>
      intro hall d
      have hremove : d.Sheds (· ∈ all) (d.remove (dir.child y)).2 := by
        refine ⟨d.keeps_remove _, d.files_remove _, fun k x => ?_⟩
        obtain hx | ⟨rfl, hx⟩ := d.node?_remove_child dir y k x
        · exact .inl hx
        · exact .inr ⟨hall _ List.mem_cons_self, hx⟩
      exact hremove.trans (ih (fun x hx => hall x (List.mem_cons_of_mem _ hx)) _)
  exact hrun names (fun x hx => hx) d

/-- Only names of earlier generations are removed. -/
theorem sheds_purge (dir : Path) (g : UInt64) (d : Disk) :
    d.Sheds (fun x => isStale g x = true) ((purge dir g).run d).2 := by
  have hrun : (purge dir g).run d = (removeStale dir g (d.list dir)).run d := rfl
  rw [hrun]
  cases d.list dir with
  | error e => exact .refl _ d
  | ok names =>
    have h := sheds_removeAll dir (names.filter (isStale g)) d
    exact ⟨h.keeps, h.files, fun k x => (h.names k x).imp_right fun hx => ⟨(List.mem_filter.1 hx.1).2, hx.2⟩⟩

section Removed

variable {dir : Path} {g : UInt64} {t : Trail} {x : String} {f : Nat} {d : Disk}

/-- Of names that are removed one after the other each is gone that was one of a file. -/
theorem node?_removeAll {names : List String} (hl : d.Leads dir t) (plain : Disk.IsPlain x)
    (refusal : (dir.child x).refusal? = none) (hf : d.node? t.here x = some (.file f)) (hx : x ∈ names) :
    ((removeAll dir names).run d).2.node? t.here x = none := by
  induction names generalizing d with
  | nil => cases hx
  | cons y names ih =>
    show ((removeAll dir names).run (d.remove (dir.child y)).2).2.node? t.here x = none
    have hsheds := sheds_removeAll dir names (d.remove (dir.child y)).2
    obtain hsame | ⟨rfl, hgone⟩ := d.node?_remove_child dir y t.here x
    · obtain rfl | hx := List.mem_cons.1 hx
      · rw [Disk.node?_remove_child_file hl plain refusal hf, hf] at hsame
        cases hsame
      · exact ih ((d.keeps_remove _).leads hl) (hsame.trans hf) hx
    · -- It stays gone, whatever else is removed.
      obtain hn | ⟨-, hn⟩ := hsheds.names t.here x
      · exact hn.trans hgone
      · exact hn

/-- A file of an earlier generation is removed. -/
theorem node?_purge (hl : d.Leads dir t) (refusal : dir.refusal? = none) (plain : Disk.IsPlain x)
    (refusal' : (dir.child x).refusal? = none) (hf : d.node? t.here x = some (.file f)) (stale : isStale g x = true) :
    ((purge dir g).run d).2.node? t.here x = none := by
  have hlist : d.list dir = .ok (d.directories.get t.here).keys := by rw [Disk.list, Disk.find_of_leads hl refusal]
  have hrun : (purge dir g).run d = (removeStale dir g (d.list dir)).run d := rfl
  rw [hrun, hlist]
  refine node?_removeAll hl plain refusal' hf (List.mem_filter.2 ⟨Disk.mem_keys.2 ?_, stale⟩)
  rw [hf]
  rfl

end Removed

theorem run_latest (dir : Path) (d : Disk) :
    (latest dir).run.run d = (if d.present dir then (d.list dir).map latestOf else .ok none, d) := by
  have hrun : (latest dir).run.run d = FileTask.run
      (if d.present dir then .call (.list dir) fun names => pure (Except.map latestOf names) else pure (.ok none)) d :=
    rfl
  rw [hrun]
  cases d.present dir with
  | true => rfl
  | false => rfl

theorem run_latest_of_leads {dir : Path} {t : Trail} {d : Disk} (hl : d.Leads dir t) (refusal : dir.refusal? = none) :
    (latest dir).run.run d = (.ok (latestOf (d.directories.get t.here).keys), d) := by
  rw [run_latest, Disk.present, Disk.list, Disk.find_of_leads hl refusal]
  rfl

theorem run_latest_of_refusal {dir : Path} {e : IoFault} (refusal : dir.refusal? = some e) (d : Disk) :
    (latest dir).run.run d = (.ok none, d) := by
  rw [run_latest, Disk.present, Disk.find, Disk.place, refusal]
  rfl

end Generation

/-! ### Replaying the log over a checkpoint -/

namespace Region

theorem run_replayOver (log : LogFile) (t : MemTable) (d : Disk) : (replayOver log t).run.run d =
    match (Log.scan (d.bytesOf log.file)).fault with
    | some e => (.error (.log (.codec e)), d)
    | none => (.ok (t.applyAll (Log.scan (d.bytesOf log.file)).entries), log.cut d) := by
  refine (FileTask.run_bind (log.replay (fun t e => (t.apply e, none)) t) _ d).trans ?_
  rw [LogFile.run_replay (Log.feed_eq (fun _ _ => rfl) t _)]
  cases (Log.scan (d.bytesOf log.file)).fault with
  | some e => rfl
  | none => rfl

/-- What reading a checkpoint answers depends on what its path leads to. -/
theorem run_readCheckpoint (dir : Path) (g : UInt64) (d : Disk) : (readCheckpoint dir g).run.run d =
    (match d.find (dir.child (Generation.checkpointName g)) with
      | .error _ => .ok .empty
      | .ok (.directory _) => .error (.io .isADirectory)
      | .ok (.file f) => (Binary.Format.memTable.decode (d.bytesOf f)).mapError .codec, d) := by
  have hrun : (readCheckpoint dir g).run.run d =
      (if d.present (dir.child (Generation.checkpointName g)) then
        FileWork.attempt (α := Bytes) (.perform (.read (dir.child (Generation.checkpointName g)))) .io >>=
          fun bytes => FileWork.ofExcept (Binary.Format.memTable.decode bytes) .codec
      else pure .empty : FileWork RegionFault MemTable).run.run d := rfl
  have hread := FileWork.run_attempt (α := Bytes) (.perform (.read (dir.child (Generation.checkpointName g))))
    RegionFault.io d
  change _ = ((d.read (dir.child (Generation.checkpointName g))).mapError RegionFault.io, d) at hread
  rw [hrun, Disk.present]
  rw [Disk.read] at hread
  cases hf : d.find (dir.child (Generation.checkpointName g)) with
  | error e => rfl
  | ok node =>
    rw [hf] at hread
    simp only [if_true]
    rw [FileWork.run_bind, hread]
    cases node with
    | directory n => rfl
    | file f => rfl

/-- A checkpoint is read as on another disk, if its path leads to the same there and so do the contents of its file. -/
theorem run_readCheckpoint_congr {dir : Path} {g : UInt64} {d d' : Disk}
    (find : d'.find (dir.child (Generation.checkpointName g)) = d.find (dir.child (Generation.checkpointName g)))
    (contents : ∀ f, d.find (dir.child (Generation.checkpointName g)) = .ok (.file f) → d'.bytesOf f = d.bytesOf f) :
    ((readCheckpoint dir g).run.run d').1 = ((readCheckpoint dir g).run.run d).1 := by
  rw [run_readCheckpoint, run_readCheckpoint, find]
  cases hf : d.find (dir.child (Generation.checkpointName g)) with
  | error e => rfl
  | ok node =>
    cases node with
    | directory n => rfl
    | file f => simp only [contents f hf]

/-- Reading a checkpoint changes nothing. -/
theorem run_readCheckpoint_eq_ok {dir : Path} {g : UInt64} {d : Disk} {image : MemTable} :
    (readCheckpoint dir g).run.run d = (.ok image, d) ↔ ((readCheckpoint dir g).run.run d).1 = .ok image := by
  refine ⟨congrArg Prod.fst, fun h => Prod.ext h ?_⟩
  rw [run_readCheckpoint]

/-! ### The steps of opening -/

/-- The steps of opening a region succeed: the directory is made, its latest generation is found, the checkpoint is read,
and the log is opened and read to its end. -/
structure Opening (dir : Path) (g : UInt64) (checkpoint : MemTable) (file : Nat) (d d₁ d₂ : Disk) : Prop where
  made : d.makeDirectories dir = (.ok (), d₁)
  latest : ∃ latest, (Generation.latest dir).run.run d₁ = (.ok latest, d₁) ∧ latest.getD 0 = g
  image : (readCheckpoint dir g).run.run d₁ = (.ok checkpoint, d₁)
  opened : d₁.openFile (dir.child (Generation.logName g)) = (.ok file, d₂)
  readable : (Log.scan (d₂.bytesOf file)).fault = none

variable {storageGroup : String} {id : UInt32} {dir : Path} {syncWal : Bool} {d d₁ d₂ d' : Disk} {g : UInt64}
  {checkpoint : MemTable} {file : Nat} {r : Region}

/-- If the steps succeed, the region is opened on what its log makes of the checkpoint. -/
theorem Opening.run (h : Opening dir g checkpoint file d d₁ d₂) (storageGroup : String) (id : UInt32) (syncWal : Bool) :
    let log : LogFile := ⟨dir.child (Generation.logName g), file, syncWal⟩
    (openAt storageGroup id dir syncWal).run.run d =
      (.ok ⟨storageGroup, id, dir, g, syncWal, log, checkpoint.applyAll (Log.scan (d₂.bytesOf file)).entries⟩,
        ((Generation.purge dir g).run (log.cut d₂)).2) := by
  intro log
  obtain ⟨latest, hlatest, rfl⟩ := h.latest
  have hmade : (FileTask.perform (.makeDirectories dir)).run d = (.ok (), d₁) := h.made
  have hlog : (LogFile.openAt (dir.child (Generation.logName (latest.getD 0))) syncWal).run.run d₁ = (.ok log, d₂) := by
    rw [LogFile.run_openAt, h.opened]
  have hreplay : (replayOver log checkpoint).run.run d₂ =
      (.ok (checkpoint.applyAll (Log.scan (d₂.bytesOf file)).entries), log.cut d₂) := by
    rw [run_replayOver, show (Log.scan (d₂.bytesOf log.file)).fault = none from h.readable]
  rw [openAt, FileWork.run_bind_ok (FileWork.run_attempt_eq_ok.2 hmade),
    FileWork.run_bind_ok (FileWork.run_within_eq_ok.2 hlatest), FileWork.run_bind_ok h.image,
    FileWork.run_bind_ok (FileWork.run_within_eq_ok.2 hlog), FileWork.run_bind_ok hreplay,
    FileWork.run_bind_ok (FileWork.run_lift _ _)]
  rfl

/-- If a region is opened, the steps have succeeded. -/
theorem opening_of_openAt (h : (openAt storageGroup id dir syncWal).run.run d = (.ok r, d')) :
    ∃ checkpoint d₁ d₂, Opening dir r.generation checkpoint r.log.file d d₁ d₂ ∧
      r.log.path = dir.child (Generation.logName r.generation) ∧ r.dataDir = dir ∧
      r.table = checkpoint.applyAll (Log.scan (d₂.bytesOf r.log.file)).entries ∧
      d' = ((Generation.purge dir r.generation).run (r.log.cut d₂)).2 := by
  rw [openAt] at h
  obtain ⟨_, d₁, h₁, h⟩ := FileWork.bind_ok h
  obtain ⟨latest, d₂, h₂, h⟩ := FileWork.bind_ok h
  obtain ⟨checkpoint, d₃, h₃, h⟩ := FileWork.bind_ok h
  obtain ⟨log, d₄, h₄, h⟩ := FileWork.bind_ok h
  obtain ⟨table, d₅, h₅, h⟩ := FileWork.bind_ok h
  obtain ⟨_, d₆, h₆, h⟩ := FileWork.bind_ok h
  cases h
  have hmade : d.makeDirectories dir = (.ok (), d₁) := FileWork.run_attempt_eq_ok.1 h₁
  rw [FileWork.run_within_eq_ok] at h₂ h₄
  obtain rfl : d₁ = d₂ := by
    rw [Generation.run_latest] at h₂
    exact congrArg Prod.snd h₂
  obtain rfl : d₁ = d₃ := by
    rw [run_readCheckpoint] at h₃
    exact congrArg Prod.snd h₃
  have hopen : d₁.openFile (dir.child (Generation.logName (latest.getD 0))) = (.ok log.file, d₄) ∧
      log.path = dir.child (Generation.logName (latest.getD 0)) := by
    rw [LogFile.run_openAt] at h₄
    rcases ho : d₁.openFile (dir.child (Generation.logName (latest.getD 0))) with ⟨answer, d⟩
    rw [ho] at h₄
    cases answer with
    | error e => cases h₄
    | ok f =>
      cases h₄
      exact ⟨rfl, rfl⟩
  rw [run_replayOver] at h₅
  cases hfault : (Log.scan (d₄.bytesOf log.file)).fault with
  | some e =>
    rw [hfault] at h₅
    cases h₅
  | none =>
    rw [hfault] at h₅
    cases h₅
    rw [FileWork.run_lift] at h₆
    cases h₆
    exact ⟨checkpoint, d₁, d₄, ⟨hmade, ⟨latest, h₂, rfl⟩, h₃, hopen.1, hfault⟩, hopen.2, rfl, rfl, rfl⟩

theorem sync_of_openAt (h : (openAt storageGroup id dir syncWal).run.run d = (.ok r, d')) : r.log.sync = r.syncWal := by
  obtain ⟨checkpoint, d₁, d₂, hopening, -⟩ := opening_of_openAt h
  have hrun := hopening.run storageGroup id syncWal
  rw [h] at hrun
  rw [Except.ok.inj (Prod.mk.inj hrun).1]

/-! ### What is there afterwards -/

/-- How a region stands to its directory before and after it has been opened: the log stands under its name, under the
other names is what stood there before, unless it was of an earlier generation, and the other files hold what they held. -/
structure Opened (checkpoint : MemTable) (r : Region) (t : Trail) (d₁ d' : Disk) : Prop where
  latest : ∃ latest, (Generation.latest r.dataDir).run.run d₁ = (.ok latest, d₁) ∧ latest.getD 0 = r.generation
  image : (readCheckpoint r.dataDir r.generation).run.run d₁ = (.ok checkpoint, d₁)
  path : r.log.path = r.dataDir.child (Generation.logName r.generation)
  before : d₁.Leads r.dataDir t
  after : d'.Leads r.dataDir t
  refusal : (r.dataDir.child (Generation.logName r.generation)).refusal? = none
  log : d'.node? t.here (Generation.logName r.generation) = some (.file r.log.file)
  others : ∀ x, x ≠ Generation.logName r.generation → d'.node? t.here x = d₁.node? t.here x ∨
    (Generation.isStale r.generation x = true ∧ d'.node? t.here x = none)
  contents : ∀ f, f ≠ r.log.file → d'.bytesOf f = d₁.bytesOf f

theorem opened_of_openAt (h : (openAt storageGroup id dir syncWal).run.run d = (.ok r, d')) :
    ∃ checkpoint es t d₁, r.dataDir = dir ∧ d.makeDirectories dir = (.ok (), d₁) ∧ Opened checkpoint r t d₁ d' ∧
      r.Backed checkpoint es d' := by
  obtain ⟨checkpoint, d₁, d₂, hopening, hpath, rfl, htable, rfl⟩ := opening_of_openAt h
  obtain ⟨t, hl, hr, hkeeps, hlog, hothers, hcontents⟩ :=
    Disk.child_of_openFile (Generation.isPlain_logName _) hopening.opened
  have hagree := r.log.agreeBut_cut d₂
  have hsheds := Generation.sheds_purge r.dataDir r.generation (r.log.cut d₂)
  have hfresh : ¬ Generation.isStale r.generation (Generation.logName r.generation) = true := by
    simp [Generation.isStale_logName]
  have hopened : Opened checkpoint r t d₁ ((Generation.purge r.dataDir r.generation).run (r.log.cut d₂)).2 := by
    refine ⟨hopening.latest, hopening.image, hpath, hl, hsheds.keeps.leads (hagree.keeps.leads (hkeeps.leads hl)), hr, ?_,
      fun x hx => ?_, fun f hf => ?_⟩
    · rw [hsheds.node? hfresh, hagree.node?, hlog]
    · obtain hn | hn := hsheds.names t.here x
      · exact .inl (hn.trans ((hagree.node? _ _).trans (hothers x hx)))
      · exact .inr hn
    · rw [hsheds.bytesOf, hagree.others f hf, hcontents]
  refine ⟨checkpoint, _, t, d₁, rfl, hopening.made, hopened, ?_, ?_, htable⟩
  · rw [hpath, Disk.find_child hopened.after (Generation.isPlain_logName _) hr, hopened.log]
  · rw [hsheds.bytesOf]
    exact LogFile.whole_cut hopening.readable

/-- A region that has been opened is backed by the checkpoint that was there and by its log. -/
theorem backed_of_openAt (h : (openAt storageGroup id dir syncWal).run.run d = (.ok r, d')) :
    ∃ checkpoint es, (readCheckpoint dir r.generation).run.run (d.makeDirectories dir).2 =
        (.ok checkpoint, (d.makeDirectories dir).2) ∧
      r.Backed checkpoint es d' := by
  obtain ⟨checkpoint, es, t, d₁, rfl, hmade, hopened, hbacked⟩ := opened_of_openAt h
  refine ⟨checkpoint, es, ?_, hbacked⟩
  rw [hmade]
  exact hopened.image

/-- The log of a region that has been opened is the file that its path led to, or a new one, without the incomplete frame at
its end. -/
theorem log_of_openAt (h : (openAt storageGroup id dir syncWal).run.run d = (.ok r, d'))
    (made : d.makeDirectories dir = (.ok (), d₁)) :
    (∃ d₂, d₁.openFile r.log.path = (.ok r.log.file, d₂)) ∧
      d'.bytesOf r.log.file = (d₁.bytesOf r.log.file).take (Log.scan (d₁.bytesOf r.log.file)).length := by
  obtain ⟨checkpoint, d₁', d₂, hopening, hpath, -, -, rfl⟩ := opening_of_openAt h
  obtain rfl : d₁' = d₁ := congrArg Prod.snd (hopening.made.symm.trans made)
  obtain ⟨-, -, -, -, -, -, hcontents⟩ := Disk.child_of_openFile (Generation.isPlain_logName _) hopening.opened
  refine ⟨⟨d₂, hpath ▸ hopening.opened⟩, ?_⟩
  rw [(Generation.sheds_purge dir r.generation _).bytesOf, LogFile.bytesOf_cut, hcontents]

/-- A whole log is found as it is. -/
theorem log_of_openAt_of_found (h : (openAt storageGroup id dir syncWal).run.run d = (.ok r, d'))
    (made : d.makeDirectories dir = (.ok (), d₁)) (found : d₁.find r.log.path = .ok (.file file)) {es : List LogEntry}
    (whole : Log.Whole (d₁.bytesOf file) es) : r.log.file = file ∧ Log.Whole (d'.bytesOf r.log.file) es := by
  obtain ⟨⟨d₂, hopen⟩, hbytes⟩ := log_of_openAt h made
  rw [Disk.openFile_of_find found] at hopen
  cases hopen
  rw [whole.take_length] at hbytes
  exact ⟨rfl, hbytes ▸ whole⟩

/-- A new log is empty. -/
theorem log_of_openAt_of_missing (h : (openAt storageGroup id dir syncWal).run.run d = (.ok r, d'))
    (made : d.makeDirectories dir = (.ok (), d₁)) (missing : ∀ f, d₁.find r.log.path ≠ .ok (.file f)) :
    Log.Whole (d'.bytesOf r.log.file) [] := by
  obtain ⟨⟨d₂, hopen⟩, hbytes⟩ := log_of_openAt h made
  have hcontents : d₂.bytesOf r.log.file = d₁.bytesOf r.log.file := by
    obtain ⟨t, name, -, -, ⟨-, rfl⟩ | ⟨-, -, rfl⟩⟩ := Disk.openFile_ok hopen
    · rfl
    · exact d₁.bytesOf_createFile t.here name _
  rw [← hcontents, Disk.bytesOf_openFile_of_missing hopen missing, List.take_nil] at hbytes
  rw [hbytes]
  exact Log.whole_nil

/-- What opening a directory finds of a file of an earlier generation, it removes. -/
theorem node?_openAt (hopen : (openAt storageGroup id dir syncWal).run.run d = (.ok r, d'))
    (made : d.makeDirectories dir = (.ok (), d₁)) {t : Trail} {x : String} {f : Nat} (hl : d₁.Leads dir t)
    (refusal : dir.refusal? = none) (plain : Disk.IsPlain x) (refusal' : (dir.child x).refusal? = none)
    (hf : d₁.node? t.here x = some (.file f)) (stale : Generation.isStale r.generation x = true) :
    d'.node? t.here x = none := by
  obtain ⟨checkpoint, d₁', d₂, hopening, -, -, -, rfl⟩ := opening_of_openAt hopen
  obtain rfl : d₁ = d₁' := congrArg Prod.snd (made.symm.trans hopening.made)
  obtain ⟨t', hl', -, hkeeps, -, hothers, -⟩ := Disk.child_of_openFile (Generation.isPlain_logName _) hopening.opened
  obtain rfl : t' = t := Except.ok.inj (hl'.symm.trans hl)
  have hagree := r.log.agreeBut_cut d₂
  have hne : x ≠ Generation.logName r.generation := by
    rintro rfl
    rw [Generation.isStale_logName] at stale
    cases stale
  have hf₂ : (r.log.cut d₂).node? t'.here x = some (.file f) := by rw [hagree.node?, hothers x hne, hf]
  exact Generation.node?_purge (hagree.keeps.leads (hkeeps.leads hl)) refusal plain refusal' hf₂ stale

/-- What stood under a name stands there afterwards, unless the name is that of the log or of an earlier generation. -/
theorem Opened.find {t : Trail} (h : Opened checkpoint r t d₁ d') {x : String} (plain : Disk.IsPlain x)
    (hlog : x ≠ Generation.logName r.generation) (hfresh : Generation.isStale r.generation x = false) :
    d'.find (r.dataDir.child x) = d₁.find (r.dataDir.child x) := by
  cases hr : (r.dataDir.child x).refusal? with
  | some e => rw [Disk.find, Disk.find, Disk.place, Disk.place, hr]
  | none =>
    have hnode : d'.node? t.here x = d₁.node? t.here x := by
      refine (h.others x hlog).resolve_right fun hstale => ?_
      rw [hfresh] at hstale
      exact Bool.false_ne_true hstale.1
    rw [Disk.find_child h.after plain hr, Disk.find_child h.before plain hr, hnode]

/-- The checkpoint that the region was opened on is still read. -/
theorem Opened.image_after {t : Trail} (h : Opened checkpoint r t d₁ d')
    (apart : d'.find (r.dataDir.child (Generation.checkpointName r.generation)) ≠ .ok (.file r.log.file)) :
    (readCheckpoint r.dataDir r.generation).run.run d' = (.ok checkpoint, d') := by
  have hfind := h.find (Generation.isPlain_checkpointName _) (Generation.checkpointName_ne_logName _ _)
    (Generation.isStale_checkpointName r.generation)
  rw [hfind] at apart
  have hsame := run_readCheckpoint_congr hfind fun f hf => h.contents f fun heq => apart (heq ▸ hf)
  exact run_readCheckpoint_eq_ok.2 (hsame.trans (congrArg Prod.fst h.image))

/-- The region's generation is still the latest. -/
theorem Opened.latest_after {t : Trail} (h : Opened checkpoint r t d₁ d') :
    ∃ latest, (Generation.latest r.dataDir).run.run d' = (.ok latest, d') ∧ latest.getD 0 = r.generation := by
  obtain ⟨latest, hrun, hg⟩ := h.latest
  cases hr : r.dataDir.refusal? with
  | some e =>
    rw [Generation.run_latest_of_refusal hr] at hrun ⊢
    exact ⟨latest, congrArg (·, d') (Prod.mk.inj hrun).1, hg⟩
  | none =>
    rw [Generation.run_latest_of_leads h.before hr] at hrun
    rw [Generation.run_latest_of_leads h.after hr]
    refine ⟨some r.generation, congrArg (·, d') (congrArg Except.ok ?_), rfl⟩
    refine Generation.latestOf_eq_some.2 ⟨⟨_, Disk.mem_keys.2 ?_, Generation.ofName?_logName _⟩, fun x hx k hk => ?_⟩
    · rw [h.log]
      rfl
    · by_cases hlog : x = Generation.logName r.generation
      · rw [hlog, Generation.ofName?_logName] at hk
        cases hk
        exact UInt64.le_refl _
      · -- What is there besides the log was there before.
        have hbefore : x ∈ (d₁.directories.get t.here).keys := by
          rw [Disk.mem_keys] at hx ⊢
          obtain hn | ⟨-, hn⟩ := h.others x hlog
          · rwa [hn] at hx
          · rw [hn] at hx
            cases hx
        obtain ⟨l, hl, hkl⟩ := Generation.le_latestOf hbefore hk
        have hlatest : latest = some l := by
          have := Except.ok.inj (Prod.mk.inj hrun).1
          rw [← this, hl]
        rw [hlatest] at hg
        exact hg ▸ hkl

end Region

end SeriesRegion
