import SeriesRegion.Proofs.MemTable.Populated
import SeriesRegion.Proofs.Snapshot.Interrupted
import SeriesRegion.Proofs.Snapshot.Origins

/-!
# Regions that come from inserts alone

A disk that holds nothing but what inserts have made (`Disk.Traced`) stays so, whatever is done with regions and snapshots on
it.  A region that is opened on it is made of inserts, whether there is a checkpoint, a log, or neither
(`Region.leaves_openAt`), the image of a snapshot that is taken is that of such a region (`Snapshot.leaves_take`), and a region
that is loaded from a snapshot is made of inserts again (`Snapshot.leaves_load`).
-/

namespace SeriesRegion

/-! ### What work leaves when it is not stopped -/

namespace FileWork

open FileTask

variable {ε δ α β : Type} {d : Disk} {mid : α → Disk → Prop} {done : β → Disk → Prop} {failed : Disk → Prop}

/-- What holds when work has succeeded, and what when it has failed. -/
def After (done : α → Disk → Prop) (failed : Disk → Prop) : Except ε α → Disk → Prop
  | .ok a, d => done a d
  | .error _, d => failed d

/-- What work leaves in either case, unless it is stopped. -/
def Leaves (w : FileWork ε α) (done : α → Disk → Prop) (failed : Disk → Prop) (d : Disk) : Prop :=
  w.run.Assures (fun _ => True) (After done failed) d

theorem after_mapError {answer : Except δ α} {fault : δ → ε} :
    After mid failed (answer.mapError fault) d ↔ After mid failed answer d := by
  cases answer <;> exact Iff.rfl

theorem leaves_bind {w : FileWork ε α} {f : α → FileWork ε β} (h : w.Leaves mid failed d)
    (next : ∀ a d, mid a d → (f a).Leaves done failed d) : (w >>= f).Leaves done failed d := by
  refine assures_bind (h.mono (fun _ here => here) ?_)
  rintro (e | a) d' - hmid
  · exact hmid
  · exact next a d' hmid

theorem leaves_perform {op : FileOp} {ended : op.Answer → Disk → Prop}
    (h : ∀ answer, d.Answers op answer → ended answer (d.perform op).2) :
    (perform op).Assures (fun _ => True) ended d :=
  assures_perform trivial (fun _ _ => trivial) trivial h

theorem leaves_attempt {task : FileTask (Except IoFault α)} {fault : IoFault → ε}
    (h : task.Assures (fun _ => True) (After mid failed) d) :
    (attempt task fault).Leaves mid failed d :=
  assures_attempt (h.mono (fun _ here => here) fun _ _ _ => after_mapError.2)

/-- An operation goes on if it succeeds, and what holds after it does not depend on whether it has. -/
theorem leaves_then {task : FileTask (Except IoFault α)} {fault : IoFault → ε} {f : α → FileWork ε β}
    (h : task.Assures (fun _ => True) (fun _ => failed) d)
    (next : ∀ a d, failed d → (f a).Leaves done failed d) : (attempt task fault >>= f).Leaves done failed d := by
  refine leaves_bind (leaves_attempt (h.mono (fun _ here => here) ?_)) next
  rintro (e | a) d' - hfailed <;> exact hfailed

theorem leaves_within {w : FileWork δ α} {fault : δ → ε} (h : w.Leaves mid failed d) : (within w fault).Leaves mid failed d :=
  assures_within (h.mono (fun _ here => here) fun _ _ _ => after_mapError.2)

end FileWork

variable {es : List LogEntry} {logs : List Nat} {d : Disk} {dir source : Path} {g : UInt64} {table : MemTable}
  {storageGroup : String} {id : UInt32} {syncWal : Bool}

open FileTask FileWork

namespace Generation

theorem leaves_removeAll (h : d.Traced es logs) (names : List String) :
    (removeAll dir names).Assures (fun _ => True) (fun _ => Disk.Traced es logs) d := by
  induction names generalizing d with
  | nil => exact assures_pure trivial h
  | cons x names ih => exact Assures.bind (leaves_perform fun _ _ => ih (h.remove _))

theorem leaves_purge (h : d.Traced es logs) (current : UInt64) :
    (purge dir current).Assures (fun _ => True) (fun _ => Disk.Traced es logs) d := by
  refine Assures.bind (leaves_perform fun answer _ => ?_)
  cases answer with
  | error e => exact assures_pure trivial h
  | ok names => exact leaves_removeAll h _

theorem leaves_latest (h : d.Traced es logs) (dir : Path) :
    (latest dir).Leaves (fun _ => Disk.Traced es logs) (Disk.Traced es logs) d := by
  refine assures_latest trivial ?_
  cases ((latest dir).run.run d).1 <;> exact h

end Generation

namespace Region

/-- A region has been made of inserts, and its log is open. -/
def Joins (es : List LogEntry) (logs : List Nat) (r : Region) (d : Disk) : Prop :=
  d.Traced es (r.log.file :: logs) ∧ r.table.MadeOf es

theorem leaves_readCheckpoint (h : d.Traced es logs) (dir : Path) (g : UInt64) :
    (readCheckpoint dir g).Leaves (fun t d => d.Traced es logs ∧ t.MadeOf es) (Disk.Traced es logs) d := by
  refine (looks_readCheckpoint dir g).assures trivial fun _ => ?_
  rw [run_readCheckpoint]
  split
  · exact ⟨h, MemTable.madeOf_empty es⟩
  · exact h
  · rename_i f hf
    obtain ⟨k, -, hx, -⟩ := Disk.leads_of_find (Generation.isPlain_checkpointName g) hf
    cases hd : Binary.Format.memTable.decode (d.bytesOf f) with
    | error e => exact h
    | ok t => exact ⟨h, ((h.image (.checkpoint g) hx).decode hd).1⟩

theorem leaves_openLog (h : d.Traced es logs) (dir : Path) (g : UInt64) (sync : Bool) :
    (LogFile.openAt (dir.child (Generation.logName g)) sync).Leaves (fun l d => d.Traced es (l.file :: logs))
      (Disk.Traced es logs) d := by
  have hopened : (attempt (perform (.openLog (dir.child (Generation.logName g)))) LogFault.io).Leaves
      (fun f d => d.Traced es (f :: logs)) (Disk.Traced es logs) d := by
    refine leaves_attempt (leaves_perform fun answer answers => ?_)
    obtain rfl := Disk.answer_eq rfl answers
    show After _ _ (d.openFile _).1 (d.openFile _).2
    rcases hopen : d.openFile (dir.child (Generation.logName g)) with ⟨answer, d'⟩
    cases answer with
    | error e =>
      obtain rfl := Disk.openFile_error hopen
      exact h
    | ok f => exact h.openLog hopen
  exact leaves_bind hopened fun f d' hf => ⟨trivial, hf⟩

theorem leaves_replayOver {log : LogFile} (h : d.Traced es (log.file :: logs)) (made : table.MadeOf es) :
    (replayOver log table).Leaves (fun t d => d.Traced es (log.file :: logs) ∧ t.MadeOf es) (Disk.Traced es logs) d := by
  have hwritten := h.written log.file List.mem_cons_self
  cases hfault : (Log.scan (d.bytesOf log.file)).fault with
  | none =>
    have hcut := LogFile.cut_of_whole (hwritten.complete hfault)
    refine assures_replayOver hfault trivial trivial ?_
    rw [hcut]
    exact ⟨h, made.applyAll hwritten.entries⟩
  | some fault =>
    refine Assures.bind (Assures.bind (leaves_perform fun bytes hbytes => ?_))
    cases hbytes
    have hfed : Log.feed (fun (t : MemTable) e => (t.apply e, (none : Option LogFault))) table
        (Log.scan (d.bytesOf log.file)).entries = (table.applyAll (Log.scan (d.bytesOf log.file)).entries, none) :=
      Log.feed_eq (fun _ _ => rfl) table _
    show (log.replayBytes (fun t e => (t.apply e, none)) table (d.bytesOf log.file)).Assures _ _ d
    rw [LogFile.replayBytes]
    simp only [hfed, hfault]
    exact ⟨trivial, trivial, h.close (List.subset_cons_self _ _)⟩

/-- Whatever a region is opened on, it is made of inserts. -/
theorem leaves_openAt (h : d.Traced es logs) (storageGroup : String) (id : UInt32) (dir : Path) (syncWal : Bool) :
    (openAt storageGroup id dir syncWal).Leaves (Joins es logs) (Disk.Traced es logs) d := by
  refine leaves_then (leaves_perform fun _ _ => h.makeDirectories dir) ?_
  rintro - d₁ h
  refine leaves_bind (leaves_within (Generation.leaves_latest h dir)) ?_
  rintro latest d₂ h
  refine leaves_bind (leaves_readCheckpoint h dir (latest.getD 0)) ?_
  rintro checkpoint d₃ ⟨h, hmade⟩
  refine leaves_bind (leaves_within (leaves_openLog h dir (latest.getD 0) syncWal)) ?_
  rintro log d₄ h
  refine leaves_bind (leaves_replayOver h hmade) ?_
  rintro table d₅ ⟨h, hmade⟩
  refine leaves_bind (assures_lift (Generation.leaves_purge h _)) ?_
  rintro - d₆ h
  exact ⟨trivial, h, hmade⟩

theorem leaves_writeCheckpoint (h : d.Traced es logs) (image : Snapshot.IsImageOf (Binary.Format.memTable.write table) es)
    (dir : Path) (g : UInt64) :
    (writeCheckpoint dir g table).Leaves (fun _ => Disk.Traced es logs) (Disk.Traced es logs) d := by
  refine leaves_then (leaves_perform fun _ _ => h.makeDirectories dir) ?_
  rintro - d₁ h
  refine leaves_then (leaves_perform fun _ _ => h.write (Snapshot.IsImageName.draft g).ne_logName fun _ => image) ?_
  rintro - d₂ h
  refine leaves_attempt (leaves_perform fun answer _ => ?_)
  have hrenamed : Disk.Traced es logs (d₂.rename (dir.child (Generation.draftName g))
      (dir.child (Generation.checkpointName g))).2 :=
    h.rename (Snapshot.IsImageName.draft g).ne_logName (Snapshot.IsImageName.checkpoint g).ne_logName fun _ => .draft g
  cases answer <;> exact hrenamed

theorem leaves_restore (h : d.Traced es logs) (image : Snapshot.IsImageOf (Binary.Format.memTable.write table) es)
    (storageGroup : String) (id : UInt32) (dir : Path) (g : UInt64) (syncWal : Bool) :
    (restore storageGroup id dir g table syncWal).Leaves (Joins es logs) (Disk.Traced es logs) d := by
  refine leaves_bind (leaves_writeCheckpoint h image dir g) ?_
  rintro - d₁ h
  refine Assures.bind ((leaves_openAt h storageGroup id dir syncWal).mono (fun _ here => here) ?_)
  rintro (e | r) d₂ - hopened
  · exact Assures.bind ((Generation.leaves_removeAll hopened _).mono (fun _ here => here)
      fun _ _ _ hremoved => ⟨trivial, hremoved⟩)
  · exact ⟨trivial, hopened⟩

end Region

namespace Snapshot

theorem leaves_removeLeftovers (h : d.Traced es logs) (names : List String) :
    (removeLeftovers dir names).Leaves (fun _ => Disk.Traced es logs) (Disk.Traced es logs) d := by
  induction names generalizing d with
  | nil => exact ⟨trivial, h⟩
  | cons x names ih =>
    exact leaves_then (leaves_perform fun _ _ => h.remove (dir.child x)) fun _ _ h => ih h

theorem leaves_reclaim (h : d.Traced es logs) (dir : Path) :
    (reclaim dir).Leaves (fun _ => Disk.Traced es logs) (Disk.Traced es logs) d := by
  refine leaves_then (leaves_perform fun _ _ => h) ?_
  rintro names d₁ h
  split
  · exact leaves_removeLeftovers h names
  · exact ⟨trivial, h⟩

theorem ne_logName (g : UInt64) : draftName ≠ Generation.logName g ∧ manifestName ≠ Generation.logName g := by
  have hhead := Generation.head?_logName g
  constructor
  all_goals
    intro hname
    rw [← hname] at hhead
    cases hhead

theorem not_isImageName : ¬ IsImageName draftName ∧ ¬ IsImageName manifestName := by
  constructor
  all_goals
    intro hname
    obtain hhead | hhead := hname.head? <;> cases hhead

/-- Whatever becomes of a snapshot that is taken of a region made of inserts, its image is. -/
theorem leaves_take {r : Region} (h : d.Traced es logs) (made : r.table.MadeOf es)
    (memory : (Binary.Format.memTable.write r.table).length < UInt64.size) (dir : Path) (stamp : Stamp) :
    (take r dir stamp).Leaves (fun _ => Disk.Traced es logs) (Disk.Traced es logs) d := by
  have himage : IsImageOf (Binary.Format.memTable.write r.table) es :=
    ⟨r.table, made, Binary.Format.memTable_roundTrips.reads memory, rfl⟩
  refine leaves_then (leaves_perform fun _ _ => h.makeDirectories dir) ?_
  rintro - d₁ h
  refine leaves_bind (leaves_reclaim h dir) ?_
  rintro - d₂ h
  refine leaves_then (leaves_perform fun _ _ => h.write IsImageName.data.ne_logName fun _ => himage) ?_
  rintro - d₃ h
  refine leaves_then (leaves_perform fun _ _ => h.write (fun g => (ne_logName g).1)
    fun hname => absurd hname not_isImageName.1) ?_
  rintro - d₄ h
  refine leaves_then (leaves_perform fun _ _ => h.rename (fun g => (ne_logName g).1) (fun g => (ne_logName g).2)
    fun hname => absurd hname not_isImageName.2) ?_
  rintro - d₅ h
  exact ⟨trivial, h⟩

theorem leaves_readImage (h : d.Traced es logs) (source : Path) (storageGroup : String) (id : UInt32) :
    (readImage source storageGroup id).Leaves
      (fun t d => d.Traced es logs ∧ t.MadeOf es ∧ IsImageOf (Binary.Format.memTable.write t) es) (Disk.Traced es logs) d := by
  refine (looks_readImage source storageGroup id).assures trivial fun hsame => ?_
  rcases hrun : (readImage source storageGroup id).run.run d with ⟨answer, d'⟩
  cases answer with
  | error e => exact h
  | ok t =>
    obtain ⟨-, image, -, -, -, hread, -, hdecode, -⟩ := readImage_ok hrun
    rw [Disk.read] at hread
    split at hread
    · cases hread
    · cases hread
    · rename_i f hf
      cases hread
      obtain ⟨k, -, hx, -⟩ := Disk.leads_of_find plain_names.1 hf
      exact ⟨h, (h.image .data hx).decode hdecode⟩

/-- Whatever snapshot a region is loaded from, it is made of inserts. -/
theorem leaves_load (h : d.Traced es logs) (source : Path) (storageGroup : String) (id : UInt32) (dir : Path)
    (syncWal : Bool) :
    (load source storageGroup id dir syncWal).Leaves (Region.Joins es logs) (Disk.Traced es logs) d := by
  refine leaves_bind (leaves_readImage h source storageGroup id) ?_
  rintro t d₁ ⟨h, -, himage⟩
  refine leaves_bind (leaves_within (Generation.leaves_latest h dir)) ?_
  rintro latest d₂ h
  exact leaves_within (Region.leaves_restore h himage storageGroup id dir _ syncWal)

end Snapshot

end SeriesRegion
