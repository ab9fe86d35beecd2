import SeriesRegion.Proofs.Snapshot.Held

/-!
# A load that is stopped

A load first reads the snapshot, and then writes its table as a checkpoint of the generation after the latest that it finds.
Wherever it is stopped, the directory can be opened again, on what it held or on the checkpoint over it
(`Region.Openable.assures_load`).  If the directory is found before the load, the second is the image of the snapshot
(`Region.Basis.overlay_next`).  A directory that is only found once it has been made is taken for one without generations, and
then the checkpoint may be written beneath the log of a region (`Snapshot.load_interrupted`).
-/

namespace SeriesRegion

variable {storageGroup : String} {id : UInt32} {source dir : Path} {syncWal : Bool} {d d' d₀ : Disk} {table : MemTable}
  {r : Region} {es : List LogEntry} {last : Option UInt64}

namespace Snapshot

theorem looks_readManifest (source : Path) : (readManifest source).run.Looks :=
  FileWork.uses_bind (FileWork.uses_attempt (FileTask.uses_perform rfl) _) fun _ =>
    FileWork.uses_bind (w := FileWork.ofExcept _ _) trivial fun _ => trivial

theorem looks_readImage (source : Path) (storageGroup : String) (id : UInt32) :
    (readImage source storageGroup id).run.Looks := by
  refine FileWork.uses_bind (looks_readManifest source) fun m => ?_
  split
  · exact FileWork.uses_bind (FileWork.uses_attempt (FileTask.uses_perform rfl) _) fun _ => trivial
  · exact trivial

end Snapshot

namespace Region

variable {b : Basis}

/-- The latest generation of a directory that can be opened is found, or none if the directory is not found yet. -/
theorem Openable.run_latest (h : Openable dir b d) : ∃ last, (Generation.latest dir).run.run d = (.ok last, d) ∧
    (b.generation < Snapshot.nextGeneration last → dir.refusal? = none) ∧
    (d.present dir = true → last = some b.generation ∨ last = none ∧ b.generation = 0 ∧ b.entries = []) := by
  obtain ⟨t, d₁, hmade, hstanding⟩ := h
  cases hp : d.present dir with
  | false =>
    refine ⟨none, by rw [Generation.run_latest, hp]; rfl, fun hlt => ?_, nofun⟩
    exact absurd hlt (UInt64.not_lt.2 UInt64.zero_le)
  | true =>
    obtain ⟨k, hfind⟩ := Disk.find_of_makeDirectories hmade hp
    rw [Disk.makeDirectories_of_find hfind] at hmade
    cases hmade
    have hrefusal : dir.refusal? = none := by
      cases hr : dir.refusal? with
      | none => rfl
      | some e =>
        rw [Disk.find, Disk.place, hr] at hfind
        cases hfind
    obtain ⟨last, hrun, hg⟩ := hstanding.latest
    refine ⟨last, hrun, fun _ => hrefusal, fun _ => ?_⟩
    cases last with
    | some k => exact .inl (congrArg some hg)
    | none =>
      refine .inr ⟨rfl, hg.symm, ?_⟩
      obtain ⟨-, hempty⟩ | ⟨f, hf, -⟩ := hstanding.log
      · exact hempty
      · -- The log would have been found.
        obtain ⟨l, hl, -⟩ := Generation.le_latestOf (Disk.mem_keys.2 (by rw [hf]; rfl)) (Generation.ofName?_logName _)
        rw [Generation.run_latest_of_leads hstanding.leads hrefusal, hl] at hrun
        cases hrun

/-- The checkpoint of the generation after the latest takes the place of all that there is. -/
theorem Basis.overlay_next (bound : b.generation.toNat + 1 < UInt64.size)
    (latest : last = some b.generation ∨ last = none ∧ b.generation = 0 ∧ b.entries = []) :
    b.overlay (Snapshot.nextGeneration last) table = ⟨Snapshot.nextGeneration last, table, []⟩ := by
  obtain rfl | ⟨rfl, hzero, hempty⟩ := latest
  · rw [overlay, Snapshot.nextGeneration, if_pos (Generation.lt_next bound)]
  · rw [overlay, Snapshot.nextGeneration, hzero, hempty, if_neg (UInt64.lt_irrefl 0), if_pos rfl]

/-- Wherever a load is stopped, the directory can be opened on what it held, or on the image of the snapshot over it.  The load
succeeds unless the checkpoint cannot be written. -/
theorem Openable.assures_load (h : Openable dir b d) (stopped : Disk → Prop)
    (valid : (Snapshot.readImage source storageGroup id).run.run d = (.ok table, d))
    (latest : (Generation.latest dir).run.run d = (.ok last, d)) (syncWal : Bool)
    (before : ∀ d, Openable dir b d → stopped d)
    (after : Writable dir (Snapshot.nextGeneration last) (d.makeDirectories dir).2 →
      ∀ d, Openable dir (b.overlay (Snapshot.nextGeneration last) table) d → stopped d) :
    (Snapshot.load source storageGroup id dir syncWal).run.Assures stopped
      (fun
        | .ok r, d' => Writable dir (Snapshot.nextGeneration last) (d.makeDirectories dir).2 ∧
          (∃ file, r = ⟨storageGroup, id, dir, (b.overlay (Snapshot.nextGeneration last) table).generation, syncWal,
            ⟨dir.child (Generation.logName (b.overlay (Snapshot.nextGeneration last) table).generation), file, syncWal⟩,
            (b.overlay (Snapshot.nextGeneration last) table).table⟩) ∧
          ∃ t, Standing dir t (b.overlay (Snapshot.nextGeneration last) table) d'
        | .error _, d' => ¬ Writable dir (Snapshot.nextGeneration last) (d.makeDirectories dir).2 ∧
          ∃ t, Standing dir t b d') d := by
  have hreads : Binary.Format.memTable.Reads table := by
    obtain ⟨-, image, -, -, -, -, -, hdecode, -⟩ := Snapshot.readImage_ok valid
    exact Binary.Format.memTable_stable.decode hdecode
  have hlater : b.generation < Snapshot.nextGeneration last → dir.refusal? = none := by
    obtain ⟨last', hrun, hrefusal, -⟩ := h.run_latest
    rw [latest] at hrun
    cases hrun
    exact hrefusal
  have himage : (Snapshot.readImage source storageGroup id).run.Assures stopped
      (fun answer d' => answer = .ok table ∧ d' = d) d :=
    (Snapshot.looks_readImage source storageGroup id).assures (before _ h) fun _ => ⟨congrArg Prod.fst valid, rfl⟩
  have hfound : (FileWork.within (Generation.latest dir) (SnapshotFault.io dir)).run.Assures stopped
      (fun answer d' => answer = .ok last ∧ d' = d) d :=
    FileWork.assures_within_ok (Generation.assures_latest (before _ h) ⟨by rw [latest], rfl⟩)
  refine FileWork.assures_bind_ok himage (FileWork.assures_bind_ok hfound (FileWork.assures_within
    ((h.assures_restore before after hreads hlater).mono (fun _ here => here) ?_)))
  rintro (e | r) d' - hended
  · exact hended
  · exact hended

/-- A load that is not stopped succeeds if the checkpoint can be written. -/
theorem Openable.run_load (h : Openable dir b d)
    (valid : (Snapshot.readImage source storageGroup id).run.run d = (.ok table, d))
    (latest : (Generation.latest dir).run.run d = (.ok last, d))
    (writable : Writable dir (Snapshot.nextGeneration last) (d.makeDirectories dir).2) (syncWal : Bool) :
    ∃ file d', (Snapshot.load source storageGroup id dir syncWal).run.run d = (.ok ⟨storageGroup, id, dir,
        (b.overlay (Snapshot.nextGeneration last) table).generation, syncWal,
        ⟨dir.child (Generation.logName (b.overlay (Snapshot.nextGeneration last) table).generation), file, syncWal⟩,
        (b.overlay (Snapshot.nextGeneration last) table).table⟩, d') ∧
      Openable dir (b.overlay (Snapshot.nextGeneration last) table) d' := by
  have hended := (h.assures_load (fun _ => True) valid latest syncWal (fun _ _ => trivial) fun _ _ _ => trivial).of_run
  rcases hrun : (Snapshot.load source storageGroup id dir syncWal).run.run d with ⟨answer, d'⟩
  rw [hrun] at hended
  cases answer with
  | error e => exact absurd writable hended.1
  | ok r =>
    obtain ⟨-, ⟨file, rfl⟩, t, hstanding⟩ := hended
    exact ⟨file, d', rfl, hstanding.openable⟩

/-- The table that a directory is opened on when a checkpoint has been written beside the files of a region: that of a later
generation is all that counts, one of the same generation comes beneath the log, and that of an earlier one is not read. -/
def overlaid (r : Region) (es : List LogEntry) (g : UInt64) (table : MemTable) : MemTable :=
  if r.generation < g then table else if g = r.generation then table.applyAll es else r.table

theorem table_overlay (hg : r.generation = b.generation) (ht : r.table = b.table) (g : UInt64) (table : MemTable) :
    (b.overlay g table).table = r.overlaid b.entries g table := by
  rw [overlaid, Basis.overlay, hg, ht]
  split
  · rfl
  · split <;> rfl

end Region

namespace Snapshot

/-- A snapshot is loaded into a directory that can be opened and written to.  The region has the table of the snapshot if and
only if the directory is found before the load, or what is opened once it has been made leaves the table as it is. -/
theorem Holds.run_load (h : Holds source storageGroup id table d) (names : d.OneName)
    (opens : (Region.openAt storageGroup id dir syncWal).run.run d = (.ok r, d₀)) (log : (r.logged.run.run d₀).1 = .ok es)
    (bound : r.generation.toNat + 1 < UInt64.size) (latest : (Generation.latest dir).run.run d = (.ok last, d))
    (writable : Region.Writable dir (nextGeneration last) (d.makeDirectories dir).2) :
    ∃ r' d', (load source storageGroup id dir syncWal).run.run d = (.ok r', d') ∧ r'.storageGroup = storageGroup ∧
      r'.id = id ∧ (d.present dir = true ∨ r.generation = 0 ∧ es = [] → r'.table = table) ∧
      (r'.table = table ↔ d.present dir = true ∨ r.overlaid es 0 table = table) := by
  obtain ⟨b, hopenable, hg, ht, hlog⟩ := Region.openable_of_openAt names opens
  rw [hlog] at log
  cases log
  obtain ⟨file, d', hrun, -⟩ := hopenable.run_load (holds_iff.1 h) latest writable syncWal
  have hiff : (b.overlay (nextGeneration last) table).table = table ↔
      d.present dir = true ∨ r.overlaid b.entries 0 table = table := by
    rw [Region.table_overlay hg ht]
    cases hp : d.present dir with
    | true =>
      obtain ⟨last', hlast, -, hpresent⟩ := hopenable.run_latest
      rw [latest] at hlast
      cases hlast
      refine iff_of_true ?_ (.inl rfl)
      rw [← Region.table_overlay hg ht, Region.Basis.overlay_next (hg ▸ bound) (hpresent hp)]
      rfl
    | false =>
      -- No generation is found.
      rw [Generation.run_latest, hp] at latest
      cases latest
      simp only [nextGeneration, Bool.false_eq_true, false_or]
  refine ⟨_, d', hrun, rfl, rfl, fun hfound => hiff.2 (hfound.imp_right ?_), hiff⟩
  rintro ⟨hzero, hempty⟩
  rw [Region.overlaid, hzero, hempty, if_neg (UInt64.lt_irrefl 0), if_pos rfl]
  rfl

/-- A snapshot is loaded into a directory that can be opened, and the load is stopped anywhere.  The directory can then be
opened again.  Its region has the table from before, or that which a load leaves that is not stopped; and this is the image of
the snapshot if the directory was found before the load.  So what is opened is always the table from before or the image of the
snapshot if and only if the load leaves one of them or cannot write its checkpoint. -/
theorem load_interrupted (names : d.OneName)
    (opens : (Region.openAt storageGroup id dir syncWal).run.run d = (.ok r, d₀)) (log : (r.logged.run.run d₀).1 = .ok es)
    (bound : r.generation.toNat + 1 < UInt64.size)
    (valid : (readImage source storageGroup id).run.run d = (.ok table, d)) :
    ∃ last, (Generation.latest dir).run.run d = (.ok last, d) ∧
      let loaded := r.overlaid es (nextGeneration last) table
      let writable := Region.Writable dir (nextGeneration last) (d.makeDirectories dir).2
      (writable ↔ ∃ r' d', (load source storageGroup id dir syncWal).run.run d = (.ok r', d') ∧ r'.table = loaded) ∧
      (∀ d', (load source storageGroup id dir syncWal).run.Stops d d' →
        ∃ r' d'', (Region.openAt storageGroup id dir syncWal).run.run d' = (.ok r', d'') ∧
          (r'.table = r.table ∨ r'.table = loaded)) ∧
      (d.present dir = true → loaded = table) ∧
      ((∀ d', (load source storageGroup id dir syncWal).run.Stops d d' →
        ∀ r' d'', (Region.openAt storageGroup id dir syncWal).run.run d' = (.ok r', d'') →
          r'.table = r.table ∨ r'.table = table) ↔ (writable → loaded = r.table ∨ loaded = table)) := by
  obtain ⟨b, hopenable, hg, ht, hlog⟩ := Region.openable_of_openAt names opens
  rw [hlog] at log
  cases log
  obtain ⟨last, hlast, -, hpresent⟩ := hopenable.run_latest
  refine ⟨last, hlast, ?_⟩
  intro loaded writable
  have hloaded : (b.overlay (nextGeneration last) table).table = loaded := Region.table_overlay hg ht _ table
  have hopens : ∀ {b' : Region.Basis} {d'}, Region.Openable dir b' d' →
      ∃ r' d'', (Region.openAt storageGroup id dir syncWal).run.run d' = (.ok r', d'') ∧ r'.table = b'.table := by
    intro b' d' h
    obtain ⟨t, file, d'', hrun, -⟩ := h.run storageGroup id syncWal
    exact ⟨_, d'', hrun, rfl⟩
  have hassures := hopenable.assures_load
    (fun d' => Region.Openable dir b d' ∨ writable ∧ Region.Openable dir (b.overlay (nextGeneration last) table) d')
    valid hlast syncWal (fun _ h => .inl h) fun hw _ h => .inr ⟨hw, h⟩
  have hends : writable → ∃ r' d', (load source storageGroup id dir syncWal).run.run d = (.ok r', d') ∧ r'.table = loaded ∧
      Region.Openable dir (b.overlay (nextGeneration last) table) d' := by
    intro hw
    obtain ⟨file, d', hrun, hnew⟩ := hopenable.run_load valid hlast hw syncWal
    exact ⟨_, d', hrun, hloaded, hnew⟩
  refine ⟨⟨fun hw => ?_, ?_⟩, fun d' hstops => ?_, fun hp => ?_, fun hclaim hw => ?_, fun hright d' hstops r' d'' hopen => ?_⟩
  · obtain ⟨r', d', hrun, htable, -⟩ := hends hw
    exact ⟨r', d', hrun, htable⟩
  · rintro ⟨r', d', hrun, -⟩
    have hended := hassures.of_run
    rw [hrun] at hended
    exact hended.1
  · obtain hold | ⟨-, hnew⟩ := hassures.of_stops hstops
    · obtain ⟨r', d'', hrun, htable⟩ := hopens hold
      exact ⟨r', d'', hrun, .inl (htable.trans ht.symm)⟩
    · obtain ⟨r', d'', hrun, htable⟩ := hopens hnew
      exact ⟨r', d'', hrun, .inr (htable.trans hloaded)⟩
  · rw [← hloaded, Region.Basis.overlay_next (hg ▸ bound) (hpresent hp)]
    rfl
  · -- The load has then been stopped at its end.
    obtain ⟨r', d', hrun, -, hnew⟩ := hends hw
    have hstops := FileTask.stops_run (load source storageGroup id dir syncWal).run d
    rw [hrun] at hstops
    obtain ⟨r₁, d'', hopen, htable⟩ := hopens hnew
    rw [← hloaded, ← htable]
    exact hclaim d' hstops r₁ d'' hopen
  · obtain hold | ⟨hw, hnew⟩ := hassures.of_stops hstops
    · obtain ⟨r₁, d₁, hrun, htable⟩ := hopens hold
      rw [hopen] at hrun
      cases hrun
      exact .inl (htable.trans ht.symm)
    · obtain ⟨r₁, d₁, hrun, htable⟩ := hopens hnew
      rw [hopen] at hrun
      cases hrun
      rw [htable, hloaded]
      exact hright hw

/-- The sample is loaded where relative paths start, under the empty path, which is only found once it has been made: what is
opened after the load has the point of the log and that of the sample. -/
theorem load_interrupted_unmade :
    ∃ r d₀, sampledBeside.OneName ∧
      (Region.openAt "g" 1 ⟨"", []⟩ false).run.run sampledBeside = (.ok r, d₀) ∧
      (r.logged.run.run d₀).1 = .ok [elsewhere] ∧ r.generation.toNat + 1 < UInt64.size ∧
      (readImage ⟨"", ["s"]⟩ "g" 1).run.run sampledBeside = (.ok sampled.table, sampledBeside) ∧
      ¬ ∀ d', (load ⟨"", ["s"]⟩ "g" 1 ⟨"", []⟩ false).run.Stops sampledBeside d' →
        ∀ r' d'', (Region.openAt "g" 1 ⟨"", []⟩ false).run.run d' = (.ok r', d'') →
          r'.table = r.table ∨ r'.table = sampled.table := by
  have hopenable := sampledBeside_standing.openable
  obtain ⟨t, file, d₀, hopen, hafter⟩ := hopenable.run "g" 1 false
  have hvalid := holds_iff.1 sampledBeside_holds
  have hlog := congrArg Prod.fst hafter.run_read
  have hbound : (0 : UInt64).toNat + 1 < UInt64.size := by decide
  refine ⟨_, d₀, sampledBeside_standing.names, hopen, hlog, hbound, hvalid, ?_⟩
  obtain ⟨last, hlast, -, -, -, hclaim⟩ := load_interrupted sampledBeside_standing.names hopen hlog hbound hvalid
  have hunmade : (Generation.latest ⟨"", []⟩).run.run sampledBeside = (.ok none, sampledBeside) :=
    Generation.run_latest_of_refusal (e := .notFound) (by cbv) _
  rw [hunmade] at hlast
  cases hlast
  rw [hclaim, sampledBeside_standing.made]
  intro hright
  obtain htable | htable := hright sampledBeside_writable
  · exact absurd (congrArg MemTable.pointCount htable) (by cbv)
  · exact absurd (congrArg MemTable.pointCount htable) (by cbv)

end Snapshot

end SeriesRegion
