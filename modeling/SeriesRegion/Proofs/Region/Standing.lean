import SeriesRegion.Proofs.Disk.Making
import SeriesRegion.Proofs.Region.Opened

/-!
# What a directory is opened on

A directory holds a region if its latest generation has a checkpoint and a log that can be read (`Region.Standing`).
Opening it then succeeds, and gives what the log makes of the checkpoint (`Region.Openable.run`).  Only the names of that
generation and of later ones matter (`Region.Standing.change`), so wherever opening is stopped the directory still holds what it
did (`Region.Standing.assures_openAt`).
-/

namespace SeriesRegion

variable {storageGroup : String} {id : UInt32} {dir : Path} {syncWal : Bool} {g : UInt64} {t : Trail} {d d' d₁ d₂ : Disk}
  {names : List String}

namespace Generation

/-- The latest generation is the one that bounds all others and is itself the first or that of a name. -/
theorem latestOf_getD (bound : ∀ x ∈ names, ∀ k, ofName? x = some k → k ≤ g)
    (reached : g = 0 ∨ ∃ x ∈ names, ofName? x = some g) : (latestOf names).getD 0 = g := by
  obtain rfl | hmem := reached
  · cases hl : latestOf names with
    | none => rfl
    | some k =>
      obtain ⟨x, hx, hk⟩ := mem_of_latestOf hl
      have hle := UInt64.le_iff_toNat_le.1 (bound x hx k hk)
      rw [UInt64.toNat_zero] at hle
      exact UInt64.toNat_inj.1 (Nat.le_zero.1 hle)
  · rw [latestOf_eq_some.2 ⟨hmem, bound⟩]
    rfl

theorem latestOf_perm {order : List String} (h : order.Perm names) : latestOf order = latestOf names := by
  cases hl : latestOf names with
  | some k =>
    obtain ⟨⟨x, hx, hk⟩, hbound⟩ := latestOf_eq_some.1 hl
    exact latestOf_eq_some.2 ⟨⟨x, h.mem_iff.2 hx, hk⟩, fun y hy => hbound y (h.mem_iff.1 hy)⟩
  | none =>
    cases ho : latestOf order with
    | none => rfl
    | some k =>
      obtain ⟨x, hx, hk⟩ := mem_of_latestOf ho
      obtain ⟨l, hl', -⟩ := le_latestOf (h.mem_iff.1 hx) hk
      rw [hl] at hl'
      cases hl'

/-- The order in which names are listed does not matter to the latest generation. -/
theorem assures_latest {stopped : Disk → Prop} {ended : Except IoFault (Option UInt64) → Disk → Prop} (here : stopped d)
    (after : ended ((latest dir).run.run d).1 d) : (latest dir).run.Assures stopped ended d := by
  rw [run_latest] at after
  refine ⟨here, fun _ begins => (Disk.not_begins rfl begins).elim, fun isThere answers => ?_⟩
  cases answers
  show (if d.present dir then FileTask.call (.list dir) fun names => pure (Except.map latestOf names)
    else pure (.ok none) : FileTask (Except IoFault (Option UInt64))).Assures stopped ended d
  cases hp : d.present dir with
  | false =>
    rw [hp] at after
    exact ⟨here, after⟩
  | true =>
    rw [hp] at after
    refine ⟨here, fun _ begins => (Disk.not_begins rfl begins).elim, fun answer answers => ⟨here, ?_⟩⟩
    cases answers with
    | performed => exact after
    | listed hlist hperm =>
      rw [if_pos rfl, hlist] at after
      rw [Except.map, latestOf_perm hperm]
      exact after

end Generation

namespace Region

/-- A checkpoint that stands under its name as before, with the same contents, is read as before. -/
theorem run_readCheckpoint_of_node (leads : d.Leads dir t) (leads' : d'.Leads dir t)
    (node : d'.node? t.here (Generation.checkpointName g) = d.node? t.here (Generation.checkpointName g))
    (contents : ∀ f, d.node? t.here (Generation.checkpointName g) = some (.file f) → d'.bytesOf f = d.bytesOf f) :
    ((readCheckpoint dir g).run.run d').1 = ((readCheckpoint dir g).run.run d).1 := by
  cases hr : (dir.child (Generation.checkpointName g)).refusal? with
  | some e =>
    have hfind : ∀ d : Disk, d.find (dir.child (Generation.checkpointName g)) = .error e := by
      intro d
      rw [Disk.find, Disk.place, hr]
    refine run_readCheckpoint_congr (by rw [hfind, hfind]) fun f hf => ?_
    rw [hfind] at hf
    cases hf
  | none =>
    have hfind := fun {d : Disk} (hl : d.Leads dir t) => Disk.find_child hl (Generation.isPlain_checkpointName g) hr
    refine run_readCheckpoint_congr ?_ fun f hf => contents f ?_
    · rw [hfind leads, hfind leads', node]
    · rw [hfind leads] at hf
      split at hf
      · cases hf
        assumption
      · cases hf

/-- What a region is opened on: a generation, its checkpoint, and the entries of its log. -/
structure Basis where
  generation : UInt64
  checkpoint : MemTable
  entries : List LogEntry

namespace Basis

def table (b : Basis) : MemTable := b.checkpoint.applyAll b.entries

/-- A checkpoint that is written for a later generation takes the place of all that there is, and one for the same
generation that of the checkpoint; one for an earlier generation does not count. -/
def overlay (b : Basis) (g : UInt64) (checkpoint : MemTable) : Basis :=
  if b.generation < g then ⟨g, checkpoint, []⟩
  else if g = b.generation then ⟨g, checkpoint, b.entries⟩
  else b

end Basis

variable {b : Basis} {table : MemTable} {r : Region}

/-- A directory holds what a region is opened on. -/
structure Standing (dir : Path) (t : Trail) (b : Basis) (d : Disk) : Prop where
  names : d.OneName
  leads : d.Leads dir t
  refusal : (dir.child (Generation.logName b.generation)).refusal? = none
  highest : dir.refusal? = none → ∀ x k, (d.node? t.here x).isSome → Generation.ofName? x = some k → k ≤ b.generation
  reached : b.generation = 0 ∨
    dir.refusal? = none ∧ ∃ x, (d.node? t.here x).isSome ∧ Generation.ofName? x = some b.generation
  image : ((readCheckpoint dir b.generation).run.run d).1 = .ok b.checkpoint
  log : d.node? t.here (Generation.logName b.generation) = none ∧ b.entries = [] ∨
    ∃ f, d.node? t.here (Generation.logName b.generation) = some (.file f) ∧
      (Log.scan (d.bytesOf f)).fault = none ∧ (Log.scan (d.bytesOf f)).entries = b.entries

namespace Standing

theorem made (h : Standing dir t b d) : d.makeDirectories dir = (.ok (), d) :=
  Disk.makeDirectories_of_leads h.leads h.refusal

theorem latest (h : Standing dir t b d) :
    ∃ latest, (Generation.latest dir).run.run d = (.ok latest, d) ∧ latest.getD 0 = b.generation := by
  cases hr : dir.refusal? with
  | some e =>
    refine ⟨none, Generation.run_latest_of_refusal hr d, ?_⟩
    obtain hzero | ⟨hnone, -⟩ := h.reached
    · exact hzero.symm
    · rw [hr] at hnone
      cases hnone
  | none =>
    refine ⟨_, Generation.run_latest_of_leads h.leads hr, Generation.latestOf_getD (fun x hx k hk => ?_) ?_⟩
    · exact h.highest hr x k (Disk.mem_keys.1 hx) hk
    · obtain hzero | ⟨-, x, hx, hk⟩ := h.reached
      · exact .inl hzero
      · exact .inr ⟨x, Disk.mem_keys.2 hx, hk⟩

/-- A disk on which the log can be read as before, and the names of this and later generations are as before. -/
private theorem relogged (h : Standing dir t b d) (names : d'.OneName) (leads : d'.Leads dir t)
    (nodes : ∀ x k, Generation.ofName? x = some k → b.generation ≤ k → x ≠ Generation.logName b.generation →
      d'.node? t.here x = d.node? t.here x)
    (contents : ∀ f, d.node? t.here (Generation.checkpointName b.generation) = some (.file f) →
      d'.bytesOf f = d.bytesOf f)
    (stays : (d.node? t.here (Generation.logName b.generation)).isSome →
      (d'.node? t.here (Generation.logName b.generation)).isSome)
    (log : d'.node? t.here (Generation.logName b.generation) = none ∧ b.entries = [] ∨
      ∃ f, d'.node? t.here (Generation.logName b.generation) = some (.file f) ∧
        (Log.scan (d'.bytesOf f)).fault = none ∧ (Log.scan (d'.bytesOf f)).entries = b.entries) : Standing dir t b d' := by
  refine ⟨names, leads, h.refusal, fun hr x k hx hk => ?_, h.reached.imp_right ?_, ?_, log⟩
  · by_cases hname : x = Generation.logName b.generation
    · rw [hname, Generation.ofName?_logName] at hk
      cases hk
      exact UInt64.le_refl _
    · by_cases hle : b.generation ≤ k
      · rw [nodes x k hk hle hname] at hx
        exact h.highest hr x k hx hk
      · exact UInt64.le_of_lt (UInt64.not_le.1 hle)
  · rintro ⟨hr, x, hx, hk⟩
    refine ⟨hr, x, ?_, hk⟩
    by_cases hname : x = Generation.logName b.generation
    · subst hname
      exact stays hx
    · rwa [nodes x _ hk (UInt64.le_refl _) hname]
  · rw [← h.image]
    refine run_readCheckpoint_of_node h.leads leads ?_ contents
    exact nodes _ _ (Generation.ofName?_checkpointName _) (UInt64.le_refl _) (Generation.checkpointName_ne_logName _ _)

/-- What becomes of the names of earlier generations, and of those that belong to none, does not matter. -/
theorem change (h : Standing dir t b d) (names : d'.OneName) (leads : d'.Leads dir t)
    (nodes : ∀ x k, Generation.ofName? x = some k → b.generation ≤ k → d'.node? t.here x = d.node? t.here x)
    (contents : ∀ x f, Generation.ofName? x = some b.generation → d.node? t.here x = some (.file f) →
      d'.bytesOf f = d.bytesOf f) : Standing dir t b d' := by
  have hlog := nodes _ _ (Generation.ofName?_logName b.generation) (UInt64.le_refl _)
  refine h.relogged names leads (fun x k hk hle _ => nodes x k hk hle)
    (fun f hf => contents _ f (Generation.ofName?_checkpointName _) hf) (by rw [hlog]; exact fun hx => hx) ?_
  rw [hlog]
  refine h.log.imp_right ?_
  rintro ⟨f, hf, hscan⟩
  exact ⟨f, hf, by rwa [contents _ f (Generation.ofName?_logName _) hf]⟩

/-! ### Opening -/

/-- Opening the log finds it or makes a new one, which is empty. -/
theorem openLog (h : Standing dir t b d) : ∃ f d', d.openFile (dir.child (Generation.logName b.generation)) = (.ok f, d') ∧
    Standing dir t b d' ∧ d'.node? t.here (Generation.logName b.generation) = some (.file f) := by
  obtain ⟨hn, hempty⟩ | ⟨f, hf, -⟩ := h.log
  · have hopen := Disk.openFile_child h.leads (Generation.isPlain_logName _) h.refusal hn (Generation.absence_logName _)
    have hlog : (d.createFile t.here (Generation.logName b.generation)).node? t.here (Generation.logName b.generation) =
        some (.file d.files.next) := by
      rw [Disk.node?_createFile, if_pos ⟨rfl, rfl⟩]
    have hbytes : (d.createFile t.here (Generation.logName b.generation)).bytesOf d.files.next = [] :=
      Disk.bytesOf_openFile_of_missing hopen fun f hf => by
        rw [Disk.find_child h.leads (Generation.isPlain_logName _) h.refusal, hn] at hf
        cases hf
    refine ⟨_, _, hopen, ?_, hlog⟩
    refine h.relogged (h.names.createFile _ _) ((Disk.keeps_createFile hn).leads h.leads) (fun x k _ _ hx => ?_)
      (fun f _ => d.bytesOf_createFile _ _ f) (fun _ => by rw [hlog]; rfl) (.inr ⟨_, hlog, ?_⟩)
    · rw [Disk.node?_createFile, if_neg fun hsame => hx hsame.2]
    · have hnil : Log.scan [] = ⟨[], 0, none⟩ := Log.whole_nil
      rw [hbytes, hempty, hnil]
      exact ⟨rfl, rfl⟩
  · refine ⟨f, d, Disk.openFile_of_find ?_, h, hf⟩
    rw [Disk.find_child h.leads (Generation.isPlain_logName _) h.refusal, hf]

theorem scan_log (h : Standing dir t b d) {f : Nat} (hf : d.node? t.here (Generation.logName b.generation) = some (.file f)) :
    (Log.scan (d.bytesOf f)).fault = none ∧ (Log.scan (d.bytesOf f)).entries = b.entries := by
  obtain ⟨hn, -⟩ | ⟨k, hk, hscan⟩ := h.log
  · rw [hf] at hn
    cases hn
  · rw [hf] at hk
    cases hk
    exact hscan

/-- The checkpoint is not the file of the log. -/
theorem checkpoint_ne_log (h : Standing dir t b d) {f k : Nat}
    (hf : d.node? t.here (Generation.logName b.generation) = some (.file f))
    (hk : d.node? t.here (Generation.checkpointName b.generation) = some (.file k)) : k ≠ f := by
  rintro rfl
  exact Generation.checkpointName_ne_logName _ _ (h.names.unique hk hf).2

/-- Cutting an incomplete frame off the log leaves its entries. -/
theorem cut (h : Standing dir t b d) {l : LogFile}
    (hl : d.node? t.here (Generation.logName b.generation) = some (.file l.file)) : Standing dir t b (l.cut d) := by
  obtain ⟨hfault, hentries⟩ := h.scan_log hl
  have hagree := l.agreeBut_cut d
  have hwhole := LogFile.whole_cut hfault
  refine h.relogged ?_ (hagree.keeps.leads h.leads) (fun x _ _ _ _ => hagree.node? _ x)
    (fun k hk => hagree.others k (h.checkpoint_ne_log hl hk)) (fun hx => by rwa [hagree.node?])
    (.inr ⟨l.file, by rw [hagree.node?, hl], ?_⟩)
  · rw [LogFile.cut]
    split
    · exact h.names.perform (.truncate _ _)
    · exact h.names
  · rw [Log.Whole] at hwhole
    rw [hwhole]
    exact ⟨rfl, hentries⟩

/-- The log is read as it is found. -/
theorem run_read (h : Standing dir t b d) :
    (Log.read (dir.child (Generation.logName b.generation))).run.run d = (.ok b.entries, d) := by
  have hread : (Log.read (dir.child (Generation.logName b.generation))).run.run d =
      (Log.entriesOf (d.read (dir.child (Generation.logName b.generation))), d) := rfl
  rw [hread, Disk.read, Disk.find_child h.leads (Generation.isPlain_logName _) h.refusal]
  obtain ⟨hn, hempty⟩ | ⟨f, hf, hfault, hentries⟩ := h.log
  · simp only [hn, Generation.absence_logName, Log.entriesOf, hempty]
  · simp only [hf, Log.entriesOf, hfault, hentries]

/-! ### Opening that is stopped -/

variable {ended : Except RegionFault Region → Disk → Prop}

/-- Removing names of earlier generations leaves what the directory holds. -/
theorem remove (h : Standing dir t b d) {x : String} (hx : Generation.isStale b.generation x = true) :
    Standing dir t b (d.remove (dir.child x)).2 := by
  refine h.change (h.names.remove _) ((d.keeps_remove _).leads h.leads) (fun y k hk hle => ?_) fun y f _ _ => ?_
  · obtain hn | ⟨rfl, -⟩ := d.node?_remove_child dir x t.here y
    · exact hn
    · rw [Generation.isStale, hk] at hx
      exact absurd (of_decide_eq_true hx) (UInt64.not_lt.2 hle)
  · rw [Disk.bytesOf, Disk.bytesOf, d.files_remove]

theorem assures_removeAll (h : Standing dir t b d) {names : List String}
    (stale : ∀ x ∈ names, Generation.isStale b.generation x = true) :
    (Generation.removeAll dir names).Assures (Standing dir t b) (fun _ => Standing dir t b) d := by
  induction names generalizing d with
  | nil => exact FileTask.assures_pure h h
  | cons x names ih =>
    refine FileTask.Assures.bind (FileTask.assures_whole rfl h (h.remove (stale x List.mem_cons_self)) fun _ _ => ?_)
    exact ih (h.remove (stale x List.mem_cons_self)) fun y hy => stale y (List.mem_cons_of_mem _ hy)

/-- In whatever order names are listed, only those of earlier generations are removed. -/
theorem assures_purge (h : Standing dir t b d) :
    (Generation.purge dir b.generation).Assures (Standing dir t b) (fun _ => Standing dir t b) d := by
  refine FileTask.Assures.bind (FileTask.assures_whole rfl h h fun answer _ => ?_)
  cases answer with
  | error e => exact FileTask.assures_pure h h
  | ok names => exact h.assures_removeAll fun x hx => (List.mem_filter.1 hx).2

end Standing

theorem assures_flush {log : LogFile} {stopped : Disk → Prop} (here : stopped d) :
    log.flush.Assures stopped (fun answer d' => answer = .ok () ∧ d' = d) d := by
  rw [LogFile.flush]
  cases log.sync with
  | false => exact ⟨here, rfl, rfl⟩
  | true => exact FileTask.assures_performed rfl rfl here (fun _ begins => (Disk.not_begins rfl begins).elim) here

/-- A replay may be stopped before an incomplete frame is cut off, or afterwards. -/
theorem assures_replayOver {log : LogFile} {stopped : Disk → Prop} {ended : Except RegionFault MemTable → Disk → Prop}
    (readable : (Log.scan (d.bytesOf log.file)).fault = none) (before : stopped d) (after : stopped (log.cut d))
    (answer : ended (.ok (table.applyAll (Log.scan (d.bytesOf log.file)).entries)) (log.cut d)) :
    (replayOver log table).run.Assures stopped ended d := by
  refine FileTask.Assures.bind (FileTask.Assures.bind (FileTask.assures_whole rfl before before fun bytes hbytes => ?_))
  cases hbytes
  show (log.replayBytes (fun t e => (t.apply e, none)) table (d.bytesOf log.file)).Assures stopped _ d
  have hfed : Log.feed (fun (t : MemTable) e => (t.apply e, (none : Option LogFault))) table
      (Log.scan (d.bytesOf log.file)).entries = (table.applyAll (Log.scan (d.bytesOf log.file)).entries, none) :=
    Log.feed_eq (fun _ _ => rfl) table _
  rw [LogFile.replayBytes]
  simp only [hfed, readable]
  by_cases hcut : (Log.scan (d.bytesOf log.file)).length < (d.bytesOf log.file).length
  · have hdisk : log.cut d = d.truncate log.file (Log.scan (d.bytesOf log.file)).length := by rw [LogFile.cut, if_pos hcut]
    rw [hdisk] at after answer
    simp only [if_pos hcut]
    have htruncate : (FileTask.perform (.truncate log.file (Log.scan (d.bytesOf log.file)).length)).Assures stopped
        (fun _ d' => d' = d.truncate log.file (Log.scan (d.bytesOf log.file)).length) d :=
      FileTask.assures_whole rfl before after fun _ _ => rfl
    refine FileTask.Assures.bind (htruncate.mono (fun _ here => here) ?_)
    rintro _ _ - rfl
    refine FileTask.Assures.bind ((assures_flush after).mono (fun _ here => here) ?_)
    rintro _ _ - ⟨rfl, rfl⟩
    exact ⟨after, after, answer⟩
  · have hdisk : log.cut d = d := by rw [LogFile.cut, if_neg hcut]
    rw [hdisk] at answer
    simp only [if_neg hcut]
    exact ⟨before, before, answer⟩

theorem looks_readCheckpoint (dir : Path) (g : UInt64) : (readCheckpoint dir g).run.Looks := by
  refine FileWork.uses_bind (w := ExceptT.lift (FileTask.perform _)) ⟨rfl, fun _ => trivial⟩ fun (isThere : Bool) => ?_
  cases isThere with
  | false => exact trivial
  | true => exact FileWork.uses_bind (FileWork.uses_attempt (FileTask.uses_perform rfl) _) fun _ => trivial

/-- Opening a directory leaves it what it holds, wherever it is stopped, and succeeds. -/
theorem Standing.assures_openAt (h : Standing dir t b d) (storageGroup : String) (id : UInt32) (syncWal : Bool) :
    (openAt storageGroup id dir syncWal).run.Assures (Standing dir t b) (fun answer d => Standing dir t b d ∧
      ∃ file, answer = .ok ⟨storageGroup, id, dir, b.generation, syncWal,
        ⟨dir.child (Generation.logName b.generation), file, syncWal⟩, b.table⟩) d := by
  obtain ⟨latest, hlatest, hg⟩ := h.latest
  obtain ⟨f, d₁, hopen, hopened, hf⟩ := h.openLog
  obtain ⟨hfault, hentries⟩ := hopened.scan_log hf
  have hcut := hopened.cut (l := ⟨dir.child (Generation.logName b.generation), f, syncWal⟩) hf
  have hmade : (FileWork.attempt (.perform (.makeDirectories dir)) RegionFault.io).run.Assures (Standing dir t b)
      (fun answer d' => answer = .ok () ∧ d' = d) d := by
    refine FileWork.assures_attempt_ok (FileTask.assures_performed h.made rfl h ?_ h)
    rintro d' ⟨⟩
    rwa [Disk.makeSome_of_leads h.leads h.refusal]
  have hfound : (FileWork.within (Generation.latest dir) RegionFault.io).run.Assures (Standing dir t b)
      (fun answer d' => answer = .ok latest ∧ d' = d) d :=
    FileWork.assures_within_ok (Generation.assures_latest h ⟨by rw [hlatest], rfl⟩)
  have himage : (readCheckpoint dir b.generation).run.Assures (Standing dir t b)
      (fun answer d' => answer = .ok b.checkpoint ∧ d' = d) d :=
    (looks_readCheckpoint dir b.generation).assures h fun _ => ⟨h.image, rfl⟩
  have hlog : (FileWork.within (LogFile.openAt (dir.child (Generation.logName b.generation)) syncWal) RegionFault.log).run.Assures
      (Standing dir t b)
      (fun answer d' => answer = .ok ⟨dir.child (Generation.logName b.generation), f, syncWal⟩ ∧ d' = d₁) d := by
    refine FileWork.assures_within_ok (FileWork.assures_bind_ok
      (FileWork.assures_attempt_ok (FileTask.assures_performed hopen rfl h ?_ hopened)) ⟨hopened, rfl, rfl⟩)
    exact fun _ begins => (Disk.not_begins rfl begins).elim
  refine FileWork.assures_bind_ok hmade (FileWork.assures_bind_ok hfound ?_)
  simp only [hg]
  refine FileWork.assures_bind_ok himage (FileWork.assures_bind_ok hlog
    (FileWork.assures_bind (assures_replayOver hfault hopened hcut ?_)))
  refine FileWork.assures_bind (FileWork.assures_lift (hcut.assures_purge.mono (fun _ here => here) ?_))
  rintro _ d' - hpurged
  rw [hentries]
  exact ⟨hpurged, hpurged, f, rfl⟩

/-! ### Opening and what it needs -/

/-- A directory can be opened: once it has been made it holds what a region is opened on. -/
def Openable (dir : Path) (b : Basis) (d : Disk) : Prop :=
  ∃ t d₁, d.makeDirectories dir = (.ok (), d₁) ∧ Standing dir t b d₁

theorem Standing.openable (h : Standing dir t b d) : Openable dir b d := ⟨t, d, h.made, h⟩

/-- Opening succeeds, and leaves the directory what it holds. -/
theorem Openable.run (h : Openable dir b d) (storageGroup : String) (id : UInt32) (syncWal : Bool) :
    ∃ t file d', (openAt storageGroup id dir syncWal).run.run d = (.ok ⟨storageGroup, id, dir, b.generation, syncWal,
      ⟨dir.child (Generation.logName b.generation), file, syncWal⟩, b.table⟩, d') ∧ Standing dir t b d' := by
  obtain ⟨t, d₁, hmade, hstanding⟩ := h
  -- What there is to be made is made by the first step.
  have hsame : (openAt storageGroup id dir syncWal).run.run d = (openAt storageGroup id dir syncWal).run.run d₁ := by
    have hmake : ∀ {d}, d.makeDirectories dir = (.ok (), d₁) →
        (FileWork.attempt (.perform (.makeDirectories dir)) RegionFault.io).run.run d = (.ok (), d₁) :=
      fun h => FileWork.run_attempt_eq_ok.2 h
    rw [openAt, FileWork.run_bind_ok (hmake hmade), FileWork.run_bind_ok (hmake hstanding.made)]
  obtain ⟨hafter, file, hanswer⟩ := (hstanding.assures_openAt storageGroup id syncWal).of_run
  exact ⟨t, file, _, hsame.trans (Prod.ext hanswer rfl), hafter⟩

theorem standing_of_opening {checkpoint : MemTable} {file : Nat} (names : d₁.OneName)
    (h : Opening dir g checkpoint file d d₁ d₂) :
    ∃ t, Standing dir t ⟨g, checkpoint, (Log.scan (d₂.bytesOf file)).entries⟩ d₁ := by
  obtain ⟨t, hl, hr, -, hlog, -, -⟩ := Disk.child_of_openFile (Generation.isPlain_logName _) h.opened
  obtain ⟨latest, hrun, hg⟩ := h.latest
  refine ⟨t, names, hl, hr, fun hrefusal x k hx hk => ?_, ?_, congrArg Prod.fst h.image, ?_⟩
  · obtain ⟨l, hlatest, hle⟩ := Generation.le_latestOf (Disk.mem_keys.2 hx) hk
    rw [Generation.run_latest_of_leads hl hrefusal, hlatest] at hrun
    cases hrun
    exact hg ▸ hle
  · cases hrefusal : dir.refusal? with
    | some e =>
      rw [Generation.run_latest_of_refusal hrefusal] at hrun
      cases hrun
      exact .inl hg.symm
    | none =>
      rw [Generation.run_latest_of_leads hl hrefusal] at hrun
      cases hlatest : Generation.latestOf (d₁.directories.get t.here).keys with
      | none =>
        rw [hlatest] at hrun
        cases hrun
        exact .inl hg.symm
      | some l =>
        rw [hlatest] at hrun
        cases hrun
        obtain ⟨x, hx, hk⟩ := Generation.mem_of_latestOf hlatest
        exact .inr ⟨rfl, x, Disk.mem_keys.1 hx, hg ▸ hk⟩
  · obtain ⟨k, name, hp, -, ⟨hn, rfl⟩ | ⟨hn, -, -⟩⟩ := Disk.openFile_ok h.opened
    · exact .inr ⟨file, hlog, h.readable, rfl⟩
    · obtain ⟨hk, rfl, -⟩ := Disk.leads_of_place (Generation.isPlain_logName _) hp
      obtain rfl : k = t := Except.ok.inj (hk.symm.trans hl)
      have hbytes : d₂.bytesOf file = [] := Disk.bytesOf_openFile_of_missing h.opened fun f hf => by
        rw [Disk.find_child hl (Generation.isPlain_logName _) hr, hn] at hf
        cases hf
      have hnil : Log.scan [] = ⟨[], 0, none⟩ := Log.whole_nil
      exact .inl ⟨hn, by rw [hbytes, hnil]⟩

/-- A directory that has been opened could be: the region has its generation and its table, and its log the entries. -/
theorem openable_of_openAt (names : d.OneName) (h : (openAt storageGroup id dir syncWal).run.run d = (.ok r, d')) :
    ∃ b, Openable dir b d ∧ r.generation = b.generation ∧ r.table = b.table ∧
      r.logged.run.run d' = (.ok b.entries, d') := by
  obtain ⟨checkpoint, d₁, d₂, hopening, -⟩ := opening_of_openAt h
  have hnames : d₁.OneName := by
    have hmade := names.perform (.makeDirectories dir)
    rwa [Disk.perform, hopening.made] at hmade
  obtain ⟨b, hopenable⟩ : ∃ b, Openable dir b d := by
    obtain ⟨t, hstanding⟩ := standing_of_opening hnames hopening
    exact ⟨_, t, d₁, hopening.made, hstanding⟩
  obtain ⟨t', file, d₃, hrun, hafter⟩ := hopenable.run storageGroup id syncWal
  rw [h] at hrun
  cases hrun
  exact ⟨b, hopenable, rfl, rfl, hafter.run_read⟩

end Region

end SeriesRegion
