import SeriesRegion.Proofs.Disk.Faults
import SeriesRegion.Proofs.Disk.Making
import SeriesRegion.Proofs.Region.Reopened
import SeriesRegion.Proofs.Region.Standing
import Mathlib

/-!
# Regions that cannot be opened

Making the directory, looking for the latest generation, reading its checkpoint and opening its log only add names
(`Disk.Retains`), a log that cannot be read is not cut, and what follows the replay cannot fail.  There remains the log that has
been cut and then cannot be synced (`LogFile.mayEnd_replay_error`).  So a region that is not opened leaves all files as they were,
but for the incomplete frame at the end of its log if a sync has failed (`Region.files_of_openAt_error`).
-/

namespace SeriesRegion

/-- Everything keeps its name, and all files hold what they held; names may have come. -/
structure Disk.Retains (d d' : Disk) : Prop where
  home : d'.home = d.home
  nodes : ∀ k x node, d.node? k x = some node → d'.node? k x = some node
  contents : ∀ f, d'.bytesOf f = d.bytesOf f

namespace Disk

variable {d d' : Disk} {p : Path}

theorem Retains.refl (d : Disk) : Retains d d := ⟨rfl, fun _ _ _ h => h, fun _ => rfl⟩

theorem Retains.trans {d'' : Disk} (h : Retains d d') (h' : Retains d' d'') : Retains d d'' :=
  ⟨h'.home.trans h.home, fun k x node hn => h'.nodes k x node (h.nodes k x node hn),
    fun f => (h'.contents f).trans (h.contents f)⟩

theorem Retains.keeps (h : Retains d d') : Keeps d d' := ⟨h.home, fun k x _ hn => h.nodes k x _ hn⟩

theorem Retains.find_file (h : Retains d d') {f : Nat} (hf : d.find p = .ok (.file f)) : d'.find p = .ok (.file f) := by
  obtain ⟨t, x, hp, hn, ha⟩ := find_eq_file.1 hf
  exact find_eq_file.2 ⟨t, x, h.keeps.place_ok hp, h.nodes _ _ _ hn, ha⟩

/-- What can be read stays as it is. -/
theorem Retains.read (h : Retains d d') {bytes : Bytes} (hr : d.read p = .ok bytes) : d'.read p = .ok bytes := by
  rw [Disk.read] at hr
  cases hf : d.find p with
  | error e => simp [hf] at hr
  | ok node =>
    cases node with
    | directory n => simp [hf] at hr
    | file f =>
      simp only [hf, Except.ok.injEq] at hr
      rw [Disk.read, h.find_file hf, ← hr]
      exact congrArg Except.ok (h.contents f)

theorem retains_makeDirectory (d : Disk) (p : Path) : Retains d (d.makeDirectory p).2 := by
  have hgrows := d.grows_makeDirectory p
  have hfiles : (d.makeDirectory p).2.files = d.files := by
    rw [makeDirectory]
    cases d.place p with
    | error e => rfl
    | ok place =>
      cases place with
      | inside t => rfl
      | entry t x =>
        cases hn : d.node? t.here x with
        | some node => simp [hn]
        | none =>
          simp only [hn]
          split
          · rw [createDirectory, put, clear]
          · rfl
  refine ⟨hgrows.home, fun k x node hn => hgrows.nodes hn, fun f => ?_⟩
  rw [bytesOf, bytesOf, hfiles]

theorem retains_makeDirectories (d : Disk) (p : Path) : Retains d (d.makeDirectories p).2 :=
  makeDirectories_induction (fun d' q h => h.trans (d'.retains_makeDirectory q)) (.refl d) p

theorem retains_openFile (d : Disk) (p : Path) : Retains d (d.openFile p).2 := by
  rcases hopen : d.openFile p with ⟨answer, d'⟩
  cases answer with
  | error e =>
    obtain rfl := openFile_error hopen
    exact .refl d'
  | ok f =>
    obtain ⟨t, name, -, -, ⟨-, rfl⟩ | ⟨hn, -, rfl⟩⟩ := openFile_ok hopen
    · exact .refl d'
    · refine ⟨rfl, fun k x node hx => ?_, d.bytesOf_createFile t.here name⟩
      rw [node?_createFile, if_neg]
      · exact hx
      · rintro ⟨rfl, rfl⟩
        rw [hn] at hx
        cases hx

end Disk

/-- Whether an operation changes nothing or adds names, and waits for no device. -/
def FileOp.adds : FileOp → Bool
  | .write .. | .rename .. | .remove _ | .append .. | .truncate .. | .sync _ => false
  | _ => true

theorem Disk.retains_perform {op : FileOp} (adds : op.adds = true) (d : Disk) : d.Retains (d.perform op).2 := by
  cases op with
  | makeDirectories p => exact d.retains_makeDirectories p
  | openLog p => exact d.retains_openFile p
  | list p => exact .refl d
  | present p => exact .refl d
  | read p => exact .refl d
  | contents f => exact .refl d
  | _ => cases adds

theorem FileTask.Ends.retains {α : Type} {task : FileTask α} {d d' : Disk} {a : α} (h : task.Ends d a d')
    (adds : task.Uses FileOp.adds) : d.Retains d' := by
  induction h with
  | done a d => exact .refl d
  | call _ _ ih => exact (Disk.retains_perform adds.1 _).trans (ih (adds.2 _))

/-! ### Replays that fail -/

variable {fails : Nat → Prop} {d d₁ d₂ d' : Disk}

namespace LogFile

variable {l : LogFile}

theorem mayEnd_flush {answer : Except IoFault Unit} : l.flush.MayEnd fails d answer d' ↔
    d' = d ∧ (answer = .ok () ∨ l.sync = true ∧ fails l.file ∧ ∃ fault, answer = .error fault) := by
  rw [flush]
  cases l.sync with
  | false => simp [FileTask.mayEnd_pure, and_comm]
  | true =>
    refine (Iff.trans FileTask.mayEnd_perform and_comm).trans (and_congr_right fun _ => ⟨?_, ?_⟩)
    · rintro (⟨⟨⟩⟩ | ⟨fault, h⟩)
      · exact .inl rfl
      · exact .inr ⟨rfl, h, fault, rfl⟩
    · rintro (rfl | ⟨-, h, fault, rfl⟩)
      · exact .works (.performed _)
      · exact .unsynced fault h

/-- A replay may fail in two ways if its handler does not: a complete frame holds no entry, or the log has been cut and cannot be
synced. -/
theorem mayEnd_replay_error {σ : Type} {handler : σ → LogEntry → σ × Option LogFault} {init s s' : σ} {e : LogFault}
    (fed : Log.feed handler init (Log.scan (d.bytesOf l.file)).entries = (s, none)) :
    (l.replay handler init).MayEnd fails d (s', .error e) d' ↔ s' = s ∧
      ((∃ fault, (Log.scan (d.bytesOf l.file)).fault = some fault ∧ e = .codec fault ∧ d' = d) ∨
        (l.sync = true ∧ fails l.file) ∧ (Log.scan (d.bytesOf l.file)).fault = none ∧
          (Log.scan (d.bytesOf l.file)).length < (d.bytesOf l.file).length ∧ (∃ fault, e = .io fault) ∧ d' = l.cut d) := by
  have hread : (l.replay handler init).MayEnd fails d (s', .error e) d' ↔
      (l.replayBytes handler init (d.bytesOf l.file)).MayEnd fails d (s', .error e) d' :=
    FileTask.mayEnd_call_of_isSure rfl rfl
  rw [hread, replayBytes, cut]
  simp only [fed]
  cases (Log.scan (d.bytesOf l.file)).fault with
  | some fault => simp [FileTask.mayEnd_pure, and_assoc]
  | none =>
    by_cases hcut : (Log.scan (d.bytesOf l.file)).length < (d.bytesOf l.file).length
    · simp only [if_pos hcut]
      have htruncate : (do
          let _ ← FileTask.perform (.truncate l.file (Log.scan (d.bytesOf l.file)).length)
          let synced ← l.flush
          return (s, synced.mapError .io) : FileTask (σ × Except LogFault Unit)).MayEnd fails d (s', .error e) d' ↔
          (do return (s, (← l.flush).mapError .io) : FileTask (σ × Except LogFault Unit)).MayEnd fails
            (d.truncate l.file (Log.scan (d.bytesOf l.file)).length) (s', .error e) d' :=
        FileTask.mayEnd_call_of_isSure rfl rfl
      rw [htruncate, FileTask.mayEnd_bind]
      simp only [mayEnd_flush, FileTask.mayEnd_pure]
      constructor
      · rintro ⟨_, _, ⟨rfl, rfl | ⟨hsync, hfails, fault, rfl⟩⟩, heq, rfl⟩
        · cases heq
        · cases heq
          exact ⟨rfl, .inr ⟨⟨hsync, hfails⟩, trivial, hcut, ⟨fault, rfl⟩, rfl⟩⟩
      · rintro ⟨rfl, ⟨fault, hfault, -⟩ | ⟨⟨hsync, hfails⟩, -, -, ⟨fault, rfl⟩, rfl⟩⟩
        · cases hfault
        · exact ⟨_, _, ⟨rfl, .inr ⟨hsync, hfails, fault, rfl⟩⟩, rfl, rfl⟩
    · simp [hcut, FileTask.mayEnd_pure]

end LogFile

namespace Region

variable {storageGroup : String} {id : UInt32} {dir : Path} {syncWal : Bool} {e : RegionFault} {checkpoint : MemTable}
  {g : UInt64} {file : Nat}

theorem mayEnd_replayOver_error {log : LogFile} {t : MemTable} : (replayOver log t).run.MayEnd fails d (.error e) d' ↔
    (∃ fault, (Log.scan (d.bytesOf log.file)).fault = some fault ∧ e = .log (.codec fault) ∧ d' = d) ∨
      (log.sync = true ∧ fails log.file) ∧ (Log.scan (d.bytesOf log.file)).fault = none ∧
        (Log.scan (d.bytesOf log.file)).length < (d.bytesOf log.file).length ∧ (∃ fault, e = .log (.io fault)) ∧
        d' = log.cut d := by
  have hfed : Log.feed (fun (t : MemTable) e => (t.apply e, (none : Option LogFault))) t
      (Log.scan (d.bytesOf log.file)).entries = (t.applyAll (Log.scan (d.bytesOf log.file)).entries, none) :=
    Log.feed_eq (fun _ _ => rfl) t _
  have hreplay : (replayOver log t).run.MayEnd fails d (.error e) d' ↔
      ∃ s e', (log.replay (fun t e => (t.apply e, none)) t).MayEnd fails d (s, .error e') d' ∧ e = .log e' := by
    refine Iff.trans FileTask.mayEnd_bind ⟨?_, ?_⟩
    · rintro ⟨⟨s, e' | a⟩, d₁, hreplay, hmatch⟩
      · obtain ⟨he, rfl⟩ := FileTask.mayEnd_pure.1 hmatch
        exact ⟨s, e', hreplay, Except.error.inj he⟩
      · cases (FileTask.mayEnd_pure.1 hmatch).1
    · rintro ⟨s, e', hreplay, rfl⟩
      exact ⟨_, d', hreplay, .done _ d'⟩
  rw [hreplay]
  simp only [LogFile.mayEnd_replay_error hfed]
  constructor
  · rintro ⟨_, _, ⟨rfl, ⟨fault, hfault, rfl, rfl⟩ | ⟨hsync, hreadable, htorn, ⟨fault, rfl⟩, rfl⟩⟩, rfl⟩
    · exact .inl ⟨fault, hfault, rfl, rfl⟩
    · exact .inr ⟨hsync, hreadable, htorn, ⟨fault, rfl⟩, rfl⟩
  · rintro (⟨fault, hfault, rfl, rfl⟩ | ⟨hsync, hreadable, htorn, ⟨fault, rfl⟩, rfl⟩)
    · exact ⟨_, _, ⟨rfl, .inl ⟨fault, hfault, rfl, rfl⟩⟩, rfl⟩
    · exact ⟨_, _, ⟨rfl, .inr ⟨hsync, hreadable, htorn, ⟨fault, rfl⟩, rfl⟩⟩, rfl⟩

/-! ### Openings that fail -/

private theorem uses_latest (dir : Path) : (Generation.latest dir).run.Uses FileOp.adds := by
  refine FileTask.Uses.bind (FileTask.uses_perform rfl) fun (isThere : Bool) => ?_
  cases isThere with
  | false => exact trivial
  | true => exact FileTask.Uses.bind (FileTask.uses_perform rfl) fun _ => trivial

private theorem uses_readCheckpoint (dir : Path) (g : UInt64) : (readCheckpoint dir g).run.Uses FileOp.adds :=
  (looks_readCheckpoint dir g).mono fun op h => by cases op <;> first | rfl | cases h

private theorem uses_openLog {kind : FileOp → Bool} {p : Path} (h : kind (.openLog p) = true) (sync : Bool) :
    (LogFile.openAt p sync).run.Uses kind :=
  FileWork.uses_bind (FileWork.uses_attempt (FileTask.uses_perform h) _) fun _ => trivial

/-- The first part of some work only adds names.  If the whole fails, then all is retained or what follows fails. -/
private theorem retains_or_of_bind_error {ε α β : Type} {w : FileWork ε α} {f : α → FileWork ε β} {d₀ d d' : Disk} {e : ε}
    (retains : d₀.Retains d) (adds : w.run.Uses FileOp.adds) (h : (w >>= f).run.MayEnd fails d (.error e) d') :
    d₀.Retains d' ∨
      ∃ a d₁, w.run.Ends d (.ok a) d₁ ∧ d₀.Retains d₁ ∧ (f a).run.MayEnd fails d₁ (.error e) d' := by
  have hunsyncing : w.run.Uses fun op => !op.isSync := adds.mono fun op h => by cases op <;> first | rfl | cases h
  obtain h | ⟨a, d₁, h, hf⟩ := FileWork.mayEnd_bind_error.1 h
  · exact .inl (retains.trans ((h.ends hunsyncing).retains adds))
  · exact .inr ⟨a, d₁, h.ends hunsyncing, retains.trans ((h.ends hunsyncing).retains adds), hf⟩

private theorem run_latest_of_ends {latest : Option UInt64}
    (h : (FileWork.within (Generation.latest dir) RegionFault.io).run.Ends d (.ok latest) d') :
    (Generation.latest dir).run.run d = (.ok latest, d) ∧ d' = d := by
  have hassures : (FileWork.within (Generation.latest dir) RegionFault.io).run.Assures (fun _ => True)
      (fun answer d' => answer = ((Generation.latest dir).run.run d).1.mapError .io ∧ d' = d) d :=
    FileWork.assures_within (Generation.assures_latest trivial ⟨rfl, rfl⟩)
  obtain ⟨hanswer, rfl⟩ := hassures.of_ends h
  have hdisk : ((Generation.latest dir).run.run d').2 = d' := by rw [Generation.run_latest]
  have hrun : (FileWork.within (Generation.latest dir) RegionFault.io).run.run d' = (.ok latest, d') := by
    rw [FileWork.run_within, ← hanswer, hdisk]
  exact ⟨FileWork.run_within_eq_ok.1 hrun, rfl⟩

/-- The log of the generation that is opened has lost the incomplete frame at its end.  Everything keeps its name, and the other
files hold what they held. -/
structure Trimmed (dir : Path) (file : Nat) (d d' : Disk) : Prop where
  log : ∃ latest, (Generation.latest dir).run.run d' = (.ok latest, d') ∧
    d'.find (dir.child (Generation.logName (latest.getD 0))) = .ok (.file file)
  torn : (Log.scan (d.bytesOf file)).length < (d.bytesOf file).length
  bytes : d'.bytesOf file = (d.bytesOf file).take (Log.scan (d.bytesOf file)).length
  whole : Log.Whole (d'.bytesOf file) (Log.scan (d.bytesOf file)).entries
  nodes : ∀ k x node, d.node? k x = some node → d'.node? k x = some node
  others : ∀ f, f ≠ file → d'.bytesOf f = d.bytesOf f

/-- A log that is cut has been there before it was opened, and the rest of the disk stays as it is. -/
private theorem trimmed_of_openFile {log : LogFile} {last : Option UInt64} (retains : d.Retains d₂)
    (latest : (Generation.latest dir).run.run d₁ = (.ok last, d₁))
    (opened : d₁.openFile (dir.child (Generation.logName (last.getD 0))) = (.ok log.file, d₂))
    (readable : (Log.scan (d₂.bytesOf log.file)).fault = none)
    (torn : (Log.scan (d₂.bytesOf log.file)).length < (d₂.bytesOf log.file).length) :
    Trimmed dir log.file d (log.cut d₂) := by
  have hagree := log.agreeBut_cut d₂
  obtain ⟨f, hfind⟩ : ∃ f, d₁.find (dir.child (Generation.logName (last.getD 0))) = .ok (.file f) := by
    by_contra hmissing
    rw [Disk.bytesOf_openFile_of_missing opened fun f hf => hmissing ⟨f, hf⟩] at torn
    exact absurd torn (Nat.not_lt_zero _)
  obtain ⟨rfl, rfl⟩ : f = log.file ∧ d₁ = d₂ := by
    rw [Disk.openFile_of_find hfind] at opened
    cases opened
    exact ⟨rfl, rfl⟩
  have hbytes := retains.contents log.file
  refine ⟨⟨last, Generation.run_latest_of_agree hagree latest, by rw [hagree.find, hfind]⟩, hbytes ▸ torn,
    hbytes ▸ log.bytesOf_cut d₁, hbytes ▸ LogFile.whole_cut readable, fun k x node hn => ?_, fun f hf => ?_⟩
  · rw [hagree.node?]
    exact retains.nodes k x node hn
  · rw [hagree.others f hf, retains.contents]

/-- Opening a region retains everything when it fails, but for the incomplete frame at the end of a log that cannot be synced. -/
theorem retains_or_trimmed (h : (openAt storageGroup id dir syncWal).run.MayEnd fails d (.error e) d') :
    d.Retains d' ∨ syncWal = true ∧ (∃ fault, e = .log (.io fault)) ∧ ∃ file, fails file ∧ Trimmed dir file d d' := by
  rw [openAt] at h
  obtain h | ⟨_, d₁, -, hmade, h⟩ :=
    retains_or_of_bind_error (.refl d) (FileWork.uses_attempt (FileTask.uses_perform rfl) _) h
  · exact .inl h
  obtain h | ⟨latest, d₂, hlatest, hfound, h⟩ :=
    retains_or_of_bind_error hmade (FileWork.uses_within (uses_latest dir) _) h
  · exact .inl h
  obtain h | ⟨checkpoint, d₃, himage, hread, h⟩ := retains_or_of_bind_error hfound (uses_readCheckpoint dir _) h
  · exact .inl h
  obtain h | ⟨log, d₄, hlog, hopened, h⟩ :=
    retains_or_of_bind_error hread (FileWork.uses_within (uses_openLog rfl _) _) h
  · exact .inl h
  obtain h | ⟨table, d₅, -, h⟩ := FileWork.mayEnd_bind_error.1 h
  · obtain ⟨fault, -, rfl, rfl⟩ | ⟨⟨hsync, hfails⟩, hreadable, htorn, hfault, rfl⟩ := mayEnd_replayOver_error.1 h
    · exact .inl hopened
    obtain ⟨hrun, rfl⟩ := run_latest_of_ends hlatest
    obtain rfl : d₃ = d₂ := FileTask.Looks.eq_of_ends (looks_readCheckpoint dir _) himage
    have hopen := FileWork.run_within_eq_ok.1
      ((FileWork.uses_within (uses_openLog rfl syncWal) RegionFault.log).run_of_ends hlog)
    rw [LogFile.run_openAt] at hopen
    rcases hfile : d₃.openFile (dir.child (Generation.logName (latest.getD 0))) with ⟨answer, d⟩
    rw [hfile] at hopen
    cases answer with
    | error e => cases hopen
    | ok file =>
      cases hopen
      exact .inr ⟨hsync, hfault, file, hfails, trimmed_of_openFile hopened hrun hfile hreadable htorn⟩
  -- What follows the replay cannot fail.
  · obtain h | ⟨_, d₆, -, h⟩ := FileWork.mayEnd_bind_error.1 h
    · obtain ⟨_, h, -⟩ := FileWork.mayEnd_lift.1 h
      cases h
    · cases (FileTask.mayEnd_pure.1 h).1

/-- A region that cannot be opened, where syncs of some files may fail, leaves every file under its name.  All files hold what
they held, and every path at which a file could be read reads the same, unless the log of the generation that is opened has been
cut and could not be synced: then this file has lost the incomplete frame at its end, and all others hold what they held. -/
theorem files_of_openAt_error (h : (openAt storageGroup id dir syncWal).run.MayEnd fails d (.error e) d') :
    (∀ k x f, d.node? k x = some (.file f) → d'.node? k x = some (.file f)) ∧
      ((∀ f, d'.bytesOf f = d.bytesOf f) ∧ (∀ p bytes, d.read p = .ok bytes → d'.read p = .ok bytes) ∨
        syncWal = true ∧ (∃ fault, e = .log (.io fault)) ∧ ∃ file, fails file ∧ Trimmed dir file d d') := by
  obtain hretains | ⟨hsync, hfault, file, hfails, htrimmed⟩ := retains_or_trimmed h
  · exact ⟨fun k x f => hretains.nodes k x (.file f), .inl ⟨hretains.contents, fun p bytes => hretains.read⟩⟩
  · exact ⟨fun k x f => htrimmed.nodes k x (.file f), .inr ⟨hsync, hfault, file, hfails, htrimmed⟩⟩

/-! ### A spoiled log -/

def onePoint : LogEntry := ⟨some 1, .row ⟨"d", 1, ["m"], [.int64 1]⟩⟩

/-- A log in which an entry is followed by a frame that holds none, and this by the beginning of another. -/
def spoiledLog : Bytes := Log.frameOf onePoint ++ Log.frame [255] ++ [7]

/-- A disk on which a spoiled log stands beside the files of an earlier generation. -/
def spoiled : Disk :=
  { Disk.new "home" with files := ⟨#[spoiledLog.toArray, #[0], #[1]]⟩ }
    |>.put 1 "r" (.directory 2) |>.put 2 (Generation.logName 1) (.file 0)
    |>.put 2 (Generation.checkpointName 0) (.file 1) |>.put 2 (Generation.logName 0) (.file 2)

private theorem node?_spoiled (k : Nat) (x : String) : spoiled.node? k x =
    if k = 2 ∧ x = Generation.logName 0 then some (.file 2)
    else if k = 2 ∧ x = Generation.checkpointName 0 then some (.file 1)
    else if k = 2 ∧ x = Generation.logName 1 then some (.file 0)
    else if k = 1 ∧ x = "r" then some (.directory 2)
    else if k = 0 ∧ x = "home" then some (.directory 1) else none := by
  have hnew : ({ Disk.new "home" with files := ⟨#[spoiledLog.toArray, #[0], #[1]]⟩ } : Disk).node? k x =
      if k = 0 ∧ x = "home" then some (.directory 1) else none := Disk.node?_new "home" k x
  simp only [spoiled, Disk.node?_put]
  rw [hnew]

private theorem leads_spoiled : spoiled.Leads ⟨"", ["r"]⟩ ⟨2, [1, 0]⟩ := by
  have hrelative : (⟨"", ["r"]⟩ : Path).isAbsolute = false := by cbv
  have hnames : (⟨"", ["r"]⟩ : Path).names = ["r"] := rfl
  have hhome : spoiled.home = ⟨1, [0]⟩ := rfl
  rw [Disk.Leads, hrelative, hnames]
  simp [Disk.descend, Disk.enter, node?_spoiled, hhome, Trail.down]

private theorem latestOf_spoiled : Generation.latestOf (spoiled.directories.get 2).keys = some 1 := by
  have hlog : spoiled.node? 2 (Generation.logName 1) = some (.file 0) := by
    have hnames : Generation.logName 1 ≠ Generation.logName 0 ∧ Generation.logName 1 ≠ Generation.checkpointName 0 := by
      constructor <;> cbv
    simp [node?_spoiled, hnames]
  refine Generation.latestOf_eq_some.2
    ⟨⟨_, Disk.mem_keys.2 (hlog ▸ rfl), Generation.ofName?_logName 1⟩, fun x hx g hg => ?_⟩
  rw [Disk.mem_keys, node?_spoiled] at hx
  have hx : x = Generation.logName 0 ∨ x = Generation.checkpointName 0 ∨ x = Generation.logName 1 := by
    grind
  obtain rfl | rfl | rfl := hx
  · rw [Generation.ofName?_logName] at hg
    cases hg
    decide
  · rw [Generation.ofName?_checkpointName] at hg
    cases hg
    decide
  · rw [Generation.ofName?_logName] at hg
    cases hg
    decide

private theorem find_spoiled : spoiled.find ⟨"", ["r", Generation.logName 1]⟩ = .ok (.file 0) := by
  have hrefusal : (⟨"", ["r", Generation.logName 1]⟩ : Path).refusal? = none := by cbv
  have hnames : Generation.logName 1 ≠ Generation.logName 0 ∧ Generation.logName 1 ≠ Generation.checkpointName 0 := by
    constructor <;> cbv
  refine (Disk.find_child leads_spoiled (Generation.isPlain_logName 1) hrefusal).trans ?_
  simp [node?_spoiled, hnames]

/-- The generation with the spoiled log is not opened, and the one before it is not removed. -/
theorem files_of_openAt_spoiled : ∃ e d', (openAt "g" 1 ⟨"", ["r"]⟩ true).run.run spoiled = (.error e, d') ∧
    d'.read ⟨"", ["r", Generation.logName 1]⟩ = .ok spoiledLog ∧
    d'.node? 2 (Generation.logName 0) = some (.file 2) ∧ d'.bytesOf 2 = [1] := by
  rcases hopen : (openAt "g" 1 ⟨"", ["r"]⟩ true).run.run spoiled with ⟨answer, d'⟩
  cases answer with
  | ok r =>
    obtain ⟨checkpoint, d₁, d₂, hopening, -⟩ := opening_of_openAt hopen
    have hrefusal : (⟨"", ["r"]⟩ : Path).refusal? = none := by cbv
    have hmade := Disk.makeDirectories_of_find (Disk.find_of_leads leads_spoiled hrefusal)
    obtain rfl : spoiled = d₁ := congrArg Prod.snd (hmade.symm.trans hopening.made)
    obtain ⟨latest, hlatest, hg⟩ := hopening.latest
    rw [Generation.run_latest_of_leads leads_spoiled hrefusal, latestOf_spoiled] at hlatest
    cases hlatest
    have hlog := hopening.opened
    rw [← hg] at hlog
    obtain ⟨hfile, rfl⟩ := Prod.mk.inj ((Disk.openFile_of_find find_spoiled).symm.trans hlog)
    have hfault : (Log.scan spoiledLog).fault.isSome = true := by cbv
    have hreadable := hopening.readable
    rw [← Except.ok.inj hfile] at hreadable
    exact absurd hreadable (Option.ne_none_iff_isSome.2 hfault)
  | error e =>
    have hends : (openAt "g" 1 ⟨"", ["r"]⟩ true).run.MayEnd (fun _ => False) spoiled (.error e) d' :=
      FileTask.mayEnd_of_run hopen
    obtain ⟨hnodes, ⟨hcontents, hreads⟩ | ⟨-, -, file, hfails, -⟩⟩ := files_of_openAt_error hends
    · have hread : spoiled.read ⟨"", ["r", Generation.logName 1]⟩ = .ok spoiledLog := by
        rw [Disk.read, find_spoiled]
        rfl
      have hnode : spoiled.node? 2 (Generation.logName 0) = some (.file 2) := by simp [node?_spoiled]
      exact ⟨e, d', rfl, hreads _ _ hread, hnodes _ _ _ hnode, (hcontents 2).trans rfl⟩
    · exact hfails.elim

/-! ### A log that cannot be synced -/

/-- If the steps of opening succeed and the log ends within a frame, then a sync may fail after it has been cut. -/
theorem Opening.mayEnd_unsynced (h : Opening dir g checkpoint file d d₁ d₂)
    (torn : (Log.scan (d₂.bytesOf file)).length < (d₂.bytesOf file).length) (unsynced : fails file) (fault : IoFault)
    (storageGroup : String) (id : UInt32) :
    (openAt storageGroup id dir true).run.MayEnd fails d (.error (.log (.io fault)))
      (LogFile.cut ⟨dir.child (Generation.logName g), file, true⟩ d₂) := by
  obtain ⟨latest, hlatest, rfl⟩ := h.latest
  have hmade : (FileTask.perform (.makeDirectories dir)).run d = (.ok (), d₁) := h.made
  have hlog : (LogFile.openAt (dir.child (Generation.logName (latest.getD 0))) true).run.run d₁ =
      (.ok ⟨dir.child (Generation.logName (latest.getD 0)), file, true⟩, d₂) := by
    rw [LogFile.run_openAt, h.opened]
  rw [openAt]
  refine FileWork.mayEnd_bind_ok (FileTask.mayEnd_of_run (FileWork.run_attempt_eq_ok.2 hmade)) ?_
  refine FileWork.mayEnd_bind_ok (FileTask.mayEnd_of_run (FileWork.run_within_eq_ok.2 hlatest)) ?_
  refine FileWork.mayEnd_bind_ok (FileTask.mayEnd_of_run h.image) ?_
  refine FileWork.mayEnd_bind_ok (FileTask.mayEnd_of_run (FileWork.run_within_eq_ok.2 hlog)) ?_
  exact FileWork.mayEnd_bind_error.2 (.inl (mayEnd_replayOver_error.2
    (.inr ⟨⟨rfl, unsynced⟩, h.readable, torn, ⟨fault, rfl⟩, rfl⟩)))

/-- A disk on which the log of a region ends within a frame. -/
def torn : Disk :=
  ((openAt "g" 1 ⟨"", ["r"]⟩ true).run.run (Disk.new "home")).2.append 0 (Log.frameOf onePoint ++ [7])

/-- If its log cannot be synced the region is not opened, and the file has lost its last byte. -/
theorem read_of_openAt_torn : ∃ d', (openAt "g" 1 ⟨"", ["r"]⟩ true).run.MayEnd (· = 0) torn (.error (.log (.io .other))) d' ∧
    torn.read ⟨"", ["r", "wal-0.log"]⟩ = .ok (Log.frameOf onePoint ++ [7]) ∧
    d'.read ⟨"", ["r", "wal-0.log"]⟩ = .ok (Log.frameOf onePoint) := by
  let r : Region := ⟨"g", 1, ⟨"", ["r"]⟩, 0, true, ⟨⟨"", ["r", "wal-0.log"]⟩, 0, true⟩, .empty⟩
  have hanswer : ((openAt "g" 1 ⟨"", ["r"]⟩ true).run.run (Disk.new "home")).1 = .ok r := by cbv
  have hempty : ((openAt "g" 1 ⟨"", ["r"]⟩ true).run.run (Disk.new "home")).2.bytesOf 0 = [] := by cbv
  obtain ⟨checkpoint, es, hkept, -⟩ := kept_of_openAt (Disk.oneName_new "home") (Prod.ext hanswer rfl)
  have htorn : Kept checkpoint r torn := hkept.agree (Disk.agreeBut_append _ 0 _)
  have hbytes : torn.bytesOf 0 = Log.frameOf onePoint ++ [7] := by
    rw [torn, Disk.bytesOf_append, if_pos rfl, hempty]
    rfl
  have hfits : Log.Fits onePoint := by
    rw [Log.Fits]
    cbv
  have hbyte : Log.scan [7] = ⟨[], 0, none⟩ := by
    rw [Log.scan_eq]
    rfl
  have hscan : Log.scan (torn.bytesOf 0) = ⟨[onePoint], (Log.frameOf onePoint).length, none⟩ := by
    rw [hbytes, (Log.whole_frameOf hfits).scan_append, hbyte]
    rfl
  have hshort : (Log.scan (torn.bytesOf 0)).length < (torn.bytesOf 0).length := by
    rw [hscan, hbytes, List.length_append]
    exact Nat.lt_succ_self _
  let log : LogFile := ⟨r.dataDir.child (Generation.logName r.generation), 0, true⟩
  have hopening : Opening r.dataDir r.generation checkpoint 0 torn torn torn := htorn.opening (by rw [hscan])
  have hend : (openAt "g" 1 ⟨"", ["r"]⟩ true).run.MayEnd (· = 0) torn (.error (.log (.io .other))) (log.cut torn) := by
    refine hopening.mayEnd_unsynced hshort ?_ .other "g" 1
    rfl
  have hfound : torn.find ⟨"", ["r", "wal-0.log"]⟩ = .ok (.file 0) := htorn.found
  refine ⟨_, hend, ?_, ?_⟩
  · rw [Disk.read, hfound]
    exact congrArg Except.ok hbytes
  · rw [Disk.read, (log.agreeBut_cut torn).find, hfound]
    show Except.ok ((log.cut torn).bytesOf log.file) = _
    rw [LogFile.bytesOf_cut]
    show Except.ok ((torn.bytesOf 0).take (Log.scan (torn.bytesOf 0)).length) = _
    rw [hscan, hbytes, List.take_left]

end Region

end SeriesRegion
