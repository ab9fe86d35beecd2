import SeriesRegion.Proofs.Region.Confined
import SeriesRegion.Proofs.Snapshot.Interrupted

/-!
# Regions that are continued

A load continues the region of a directory in the next generation, on the table of the snapshot and with an empty log; only
under the empty path, where no generation is found, does it continue it in the same, and then the log stays
(`Region.Records.load_ok`).  If it fails it has changed nothing (`Region.Records.load_error`).
-/

namespace SeriesRegion

variable {source dir : Path} {storageGroup : String} {id : UInt32} {syncWal : Bool} {table : MemTable} {r r' : Region}
  {es : List LogEntry} {d d' : Disk}

namespace Generation

theorem isSome_of_present {t : Trail} {x : String} {k : UInt64} (hl : d.Leads dir t) (hk : ofName? x = some k)
    (hx : d.present (dir.child x) = true) : (d.node? t.here x).isSome := by
  have hplain := isPlain_of_ofName? hk
  cases hchild : (dir.child x).refusal? with
  | some e =>
    rw [Disk.present, Disk.find, Disk.place, hchild] at hx
    cases hx
  | none =>
    rw [Disk.present, Disk.find_child hl hplain hchild] at hx
    cases hn : d.node? t.here x with
    | none =>
      rw [hn] at hx
      cases hx
    | some node => rfl

/-- The highest generation of which there is a file in a directory. -/
structure Highest (dir : Path) (g : UInt64) (d : Disk) : Prop where
  reached : ∃ x, d.present (dir.child x) = true ∧ ofName? x = some g
  bound : ∀ x k, d.present (dir.child x) = true → ofName? x = some k → k ≤ g

end Generation

namespace Region

/-- The generation in which a load continues a region: the next one, or the same under the empty path, where none is found. -/
def successor (r : Region) : UInt64 := if r.dataDir.isEmpty then r.generation else r.generation + 1

/-- The entries of the log of a region that a load leaves in the log of the next. -/
def bequest (r : Region) (es : List LogEntry) : List LogEntry := if r.dataDir.isEmpty then es else []

/-- The region that a load leaves in the place of another. -/
def heir (r : Region) (es : List LogEntry) (table : MemTable) (storageGroup : String) (id : UInt32) (syncWal : Bool)
    (file : Nat) : Region :=
  ⟨storageGroup, id, r.dataDir, r.successor, syncWal, ⟨r.dataDir.child (Generation.logName r.successor), file, syncWal⟩,
    table.applyAll (r.bequest es)⟩

theorem Basis.overlay_successor {b : Basis} (hg : r.generation = b.generation) (bound : r.generation.toNat + 1 < UInt64.size)
    (table : MemTable) : b.overlay r.successor table = ⟨r.successor, table, r.bequest b.entries⟩ := by
  rw [overlay, successor, bequest, ← hg]
  cases r.dataDir.isEmpty with
  | true => rw [if_pos rfl, if_neg (UInt64.lt_irrefl _), if_pos rfl, if_pos rfl]
  | false => rw [if_neg Bool.false_ne_true, if_pos (Generation.lt_next bound), if_neg Bool.false_ne_true]

theorem carried_of_next (hg : r'.generation = r.generation + 1) (bound : r.generation.toNat + 1 < UInt64.size)
    (es : List LogEntry) : carried r r' es = [] := by
  rw [carried, hg, if_neg (UInt64.ne_of_lt (Generation.lt_next bound)).symm]

theorem carried_of_successor (hg : r'.generation = r.successor) (bound : r.generation.toNat + 1 < UInt64.size)
    (es : List LogEntry) : carried r r' es = r.bequest es := by
  rw [successor] at hg
  rw [bequest]
  cases hempty : r.dataDir.isEmpty with
  | true =>
    rw [hempty, if_pos rfl] at hg
    rw [carried, if_pos hg, if_pos rfl]
  | false =>
    rw [hempty, if_neg Bool.false_ne_true] at hg
    rw [carried_of_next hg bound, if_neg Bool.false_ne_true]

namespace Records

theorem refusal (h : Records dir es r d) (written : dir.isEmpty = false) : dir.refusal? = none := by
  obtain ⟨t, -, -, hrefusal⟩ := h.leads
  obtain hempty | hnone := Path.refusal?_of_child hrefusal
  · rw [written] at hempty
    cases hempty
  · exact hnone

theorem present_log (h : Records dir es r d) : d.present (dir.child (Generation.logName r.generation)) = true := by
  obtain ⟨checkpoint, hkept, -⟩ := h.files
  have hfound := hkept.found
  rw [hkept.path, h.place] at hfound
  rw [Disk.present, hfound]

theorem highest (h : Records dir es r d) (written : dir.isEmpty = false) : Generation.Highest dir r.generation d := by
  refine ⟨⟨_, h.present_log, Generation.ofName?_logName _⟩, fun x k hx hk => ?_⟩
  have hrefusal := h.refusal written
  obtain ⟨t, hl, -, -⟩ := h.leads
  obtain ⟨checkpoint, hkept, -⟩ := h.files
  obtain rfl := h.place
  exact hkept.le_generation hrefusal hl (Generation.isSome_of_present hl hk hx) hk

/-- Whatever generation is found in the directory, the next is the one in which the region is continued. -/
theorem latest (h : Records dir es r d) :
    ∃ last, (Generation.latest dir).run.run d = (.ok last, d) ∧ Snapshot.nextGeneration last = r.successor := by
  obtain ⟨checkpoint, hkept, -⟩ := h.files
  obtain ⟨last, hrun, hg⟩ := hkept.latest
  have hplace := h.place
  cases hempty : dir.isEmpty with
  | true =>
    subst hplace
    rw [Generation.run_latest_of_refusal (Path.refusal?_of_isEmpty hempty)] at hrun ⊢
    cases hrun
    refine ⟨none, rfl, ?_⟩
    rw [successor, if_pos hempty]
    exact hg
  | false =>
    have hrefusal := h.refusal hempty
    subst hplace
    refine ⟨some r.generation, hkept.run_latest hrefusal, ?_⟩
    rw [successor, hempty]
    rfl

/-- Under the empty path no generation is found, and the first is always the next. -/
theorem successor_eq_zero (h : Records dir es r d) (empty : dir.isEmpty = true) : r.successor = 0 := by
  obtain ⟨last, hlast, hnext⟩ := h.latest
  rw [Generation.run_latest_of_refusal (Path.refusal?_of_isEmpty empty)] at hlast
  cases hlast
  exact hnext.symm

theorem openable (h : Records dir es r d) :
    ∃ b, Openable dir b d ∧ r.generation = b.generation ∧ r.table = b.table ∧ b.entries = es := by
  obtain ⟨d', hopen, hrecords⟩ := h.reopen r.storageGroup r.id r.syncWal
  obtain ⟨b, hopenable, hg, htable, hlogged⟩ := openable_of_openAt h.names hopen
  rw [hrecords.run_logged] at hlogged
  cases hlogged
  exact ⟨b, hopenable, hg, htable, rfl⟩

/-- A region on what its directory holds is made what it is by its files, if its log is there and whole. -/
theorem of_standing {t : Trail} {b : Basis} {file : Nat} (h : Standing dir t b d)
    (log : d.node? t.here (Generation.logName b.generation) = some (.file file))
    (whole : Log.Whole (d.bytesOf file) b.entries) (storageGroup : String) (id : UInt32) (syncWal : Bool) :
    Records dir b.entries ⟨storageGroup, id, dir, b.generation, syncWal,
      ⟨dir.child (Generation.logName b.generation), file, syncWal⟩, b.table⟩ d := by
  have hfound : d.find (dir.child (Generation.logName b.generation)) = .ok (.file file) := by
    rw [Disk.find_child h.leads (Generation.isPlain_logName _) h.refusal, log]
  have himage := run_readCheckpoint_eq_ok.2 h.image
  refine ⟨h.names, rfl, b.checkpoint, ⟨rfl, rfl, hfound, ?_, h.latest, himage, fun hsame => ?_⟩, ⟨hfound, whole, rfl⟩⟩
  · obtain hempty | hrefusal := Path.refusal?_of_child h.refusal
    · left
      simp [Path.isStart, hempty]
    · exact .inr ⟨_, Disk.find_of_leads h.leads hrefusal⟩
  · exact Generation.checkpointName_ne_logName _ _ (h.names.eq_of_find_child (Generation.isPlain_checkpointName _)
      (Generation.isPlain_logName _) hsame hfound)

/-- No directory stands where the checkpoint is to be put. -/
theorem free (h : Records dir es r d) (bound : r.generation.toNat + 1 < UInt64.size) :
    d.isDirectory (dir.child (Generation.checkpointName r.successor)) = false := by
  obtain ⟨checkpoint, hkept, -⟩ := h.files
  have hplace := h.place
  rw [Disk.isDirectory]
  cases hfind : d.find (dir.child (Generation.checkpointName r.successor)) with
  | error e => rfl
  | ok node =>
    cases node with
    | file f => rfl
    | directory n =>
      cases hempty : dir.isEmpty with
      | true =>
        -- It is the checkpoint of the region itself, which has been read.
        subst hplace
        have himage := hkept.image
        rw [successor, if_pos hempty] at hfind
        rw [run_readCheckpoint, hfind] at himage
        cases himage
      | false =>
        have hpresent : d.present (dir.child (Generation.checkpointName r.successor)) = true := by rw [Disk.present, hfind]
        have hle := (h.highest hempty).bound _ _ hpresent (Generation.ofName?_checkpointName _)
        rw [successor, hplace, hempty, if_neg Bool.false_ne_true] at hle
        exact absurd (Generation.lt_next bound) (UInt64.not_lt.2 hle)

/-- A snapshot that is there is loaded, if the checkpoint can be written. -/
theorem load_ok (h : Records dir es r d) (bound : r.generation.toNat + 1 < UInt64.size)
    (holds : Snapshot.Holds source storageGroup id table d) (writable : Writable dir r.successor d) (syncWal : Bool) :
    ∃ file d', (Snapshot.load source storageGroup id dir syncWal).run.run d =
        (.ok (r.heir es table storageGroup id syncWal file), d') ∧
      Records dir (r.bequest es) (r.heir es table storageGroup id syncWal file) d' := by
  obtain ⟨b, hopenable, hg, -, rfl⟩ := h.openable
  obtain ⟨last, hlast, hnext⟩ := h.latest
  have hw : Writable dir (Snapshot.nextGeneration last) (d.makeDirectories dir).2 := by
    rw [hnext, h.made]
    exact writable
  obtain ⟨file, d', hload, -⟩ := hopenable.run_load (Snapshot.holds_iff.1 holds) hlast hw syncWal
  rw [hnext, Basis.overlay_successor hg bound] at hload
  have hrecords := h.load bound hload
  rw [carried_of_successor rfl bound] at hrecords
  obtain rfl := h.place
  exact ⟨file, d', hload, hrecords⟩

/-- If there is no snapshot of the region, or the checkpoint cannot be written, a load fails and changes nothing. -/
theorem load_error (h : Records dir es r d) (bound : r.generation.toNat + 1 < UInt64.size)
    (fails : ∀ table, Snapshot.Holds source storageGroup id table d → ¬ Writable dir r.successor d) (syncWal : Bool) :
    ∃ e, (Snapshot.load source storageGroup id dir syncWal).run.run d = (.error e, d) := by
  have himage : (Snapshot.readImage source storageGroup id).run.Assures (fun _ => True) (fun _ d' => d' = d) d :=
    (Snapshot.looks_readImage source storageGroup id).assures trivial fun _ => rfl
  replace himage := himage.of_run
  rcases hread : (Snapshot.readImage source storageGroup id).run.run d with ⟨answer, d₁⟩
  rw [hread] at himage
  obtain rfl : d₁ = d := himage
  cases answer with
  | error e => exact ⟨e, FileWork.run_bind_error hread _⟩
  | ok table =>
    obtain ⟨last, hlast, hnext⟩ := h.latest
    rcases hopen : d₁.openFile (dir.child (Generation.draftName r.successor)) with ⟨answer, d₂⟩
    cases answer with
    | ok f =>
      refine absurd ⟨fun bytes => ?_, h.free bound⟩ (fails table (Snapshot.holds_iff.2 hread))
      rw [Disk.write, hopen]
    | error e =>
      obtain rfl := Disk.openFile_error hopen
      have hwrite : (writeCheckpoint dir r.successor table).run.run d₂ = (.error (.io e), d₂) := by
        have hdraft : (FileTask.perform (.write (dir.child (Generation.draftName r.successor))
            (Binary.Format.memTable.write table))).run d₂ = (.error e, d₂) := by
          rw [FileTask.run_perform, Disk.perform, Disk.write, hopen]
          rfl
        have hmake : (FileTask.perform (.makeDirectories dir)).run d₂ = (.ok (), d₂) := h.made
        rw [writeCheckpoint, FileWork.run_bind_ok (FileWork.run_attempt_eq_ok.2 hmake)]
        exact FileWork.run_bind_error (FileWork.run_attempt_error hdraft _) _
      have hrestore : (restore storageGroup id dir r.successor table syncWal).run.run d₂ = (.error (.io e), d₂) :=
        FileWork.run_bind_error hwrite _
      refine ⟨.region (.io e), ?_⟩
      rw [Snapshot.load, FileWork.run_bind_ok hread, FileWork.run_bind_ok (FileWork.run_within_eq_ok.2 hlast), hnext,
        FileWork.run_within, hrestore]
      rfl

/-- A load fails and changes nothing, or leaves another region in the place of this one. -/
theorem load_cases (h : Records dir es r d) (bound : r.generation.toNat + 1 < UInt64.size) (source : Path)
    (storageGroup : String) (id : UInt32) (syncWal : Bool) :
    (∃ e, (Snapshot.load source storageGroup id dir syncWal).run.run d = (.error e, d)) ∨
      ∃ table file d', (Snapshot.load source storageGroup id dir syncWal).run.run d =
          (.ok (r.heir es table storageGroup id syncWal file), d') ∧
        Records dir (r.bequest es) (r.heir es table storageGroup id syncWal file) d' := by
  by_cases hloads : ∃ table, Snapshot.Holds source storageGroup id table d ∧ Writable dir r.successor d
  · obtain ⟨table, holds, writable⟩ := hloads
    obtain ⟨file, d', hload⟩ := h.load_ok bound holds writable syncWal
    exact .inr ⟨table, file, d', hload⟩
  · exact .inl (h.load_error bound (fun table holds writable => hloads ⟨table, holds, writable⟩) syncWal)

/-- However often the sample has been loaded where relative paths start, it can be loaded once more. -/
theorem load_beside (h : Records ⟨".", []⟩ es r d) (confined : Disk.Confined 1 Snapshot.sampledBeside d)
    (bound : r.generation.toNat + 1 < UInt64.size)
    (refusal : (Path.child ⟨".", []⟩ (Generation.draftName (r.generation + 1))).refusal? = none) :
    ∃ es' r' d', (Snapshot.load ⟨"", ["s"]⟩ "g" 1 ⟨".", []⟩ false).run.run d = (.ok r', d') ∧ r'.id = 1 ∧
      r'.generation = r.generation + 1 ∧ r'.table = Snapshot.sampled.table ∧ Records ⟨".", []⟩ es' r' d' ∧
      Disk.Confined 1 Snapshot.sampledBeside d' := by
  have hleads : d.Leads ⟨".", []⟩ ⟨1, [0]⟩ := confined.keeps.leads (Snapshot.leads_beside_dot ..)
  have hsource : Snapshot.sampledBeside.Leads ⟨"", ["s"]⟩ ⟨2, [1, 0]⟩ := Snapshot.leads_beside ..
  have hholds := Snapshot.sampledBeside_holds.confined confined hsource (by decide)
  have hsuccessor : r.successor = r.generation + 1 := by
    rw [successor, h.place]
    rfl
  have hbequest : r.bequest es = [] := by
    rw [bequest, h.place]
    rfl
  have hwritable : Writable ⟨".", []⟩ r.successor d := by
    rw [hsuccessor]
    exact Snapshot.writable_beside _ _ _ hleads refusal (confined.directories 1)
  obtain ⟨file, d', hload, hrecords⟩ := h.load_ok bound hholds hwritable false
  refine ⟨_, _, d', hload, rfl, hsuccessor, ?_, hrecords, confined.trans (h.confined_load hleads hload)⟩
  rw [heir, hbequest]
  rfl

end Records

end Region

end SeriesRegion
