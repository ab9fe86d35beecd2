import SeriesRegion.Proofs.Disk.Confined
import SeriesRegion.Proofs.Region.Records
import SeriesRegion.Proofs.Snapshot.Held

/-!
# What a load leaves alone

Writing a checkpoint and opening a region change nothing outside the directory, and so does a load
(`Region.Records.confined_load`).  A snapshot in another directory is still there afterwards (`Snapshot.Holds.confined`).
-/

namespace SeriesRegion

variable {source dir : Path} {storageGroup : String} {id : UInt32} {syncWal : Bool} {g : UInt64} {table : MemTable} {t : Trail}
  {k : Nat} {r r' : Region} {es : List LogEntry} {d d' : Disk}

namespace Generation

theorem confined_removeAll {names : List String} (plain : ∀ x ∈ names, Disk.IsPlain x) (hl : d.Leads dir t) :
    Disk.Confined t.here d ((removeAll dir names).run d).2 := by
  induction names generalizing d with
  | nil => exact .refl _ _
  | cons x names ih =>
    have hfirst := Disk.confined_remove hl (plain x List.mem_cons_self)
    exact hfirst.trans (ih (fun y hy => plain y (List.mem_cons_of_mem _ hy)) (hfirst.keeps.leads hl))

theorem confined_purge (g : UInt64) (hl : d.Leads dir t) : Disk.Confined t.here d ((purge dir g).run d).2 := by
  have hrun : (purge dir g).run d = (removeStale dir g (d.list dir)).run d := rfl
  rw [hrun]
  cases d.list dir with
  | error e => exact .refl _ _
  | ok names =>
    refine confined_removeAll (fun x hx => ?_) hl
    have hstale := (List.mem_filter.1 hx).2
    constructor <;> rintro rfl <;> cases hstale

end Generation

namespace Region

theorem confined_writeCheckpoint (names : d.OneName) (made : d.makeDirectories dir = (.ok (), d)) (hl : d.Leads dir t)
    (h : (writeCheckpoint dir g table).run.run d = (.ok (), d')) : Disk.Confined t.here d d' := by
  rw [writeCheckpoint] at h
  obtain ⟨_, d₁, h₁, h⟩ := FileWork.bind_ok h
  obtain ⟨_, d₂, h₂, h₃⟩ := FileWork.bind_ok h
  have hmade : d.makeDirectories dir = (.ok (), d₁) := FileWork.run_attempt_eq_ok.1 h₁
  obtain rfl : d₁ = d := congrArg Prod.snd (hmade.symm.trans made)
  have hwrite := FileWork.run_attempt_eq_ok.1 h₂
  have hrename := FileWork.run_attempt_eq_ok.1 h₃
  have hne : Generation.draftName g ≠ Generation.checkpointName g :=
    (Generation.draftName_ne_of_ofName? (Generation.ofName?_checkpointName g)).symm
  have hwritten := Disk.confined_write names hl (Generation.isPlain_draftName g) hwrite
  obtain ⟨k, f, hk, -, -, hf, -⟩ := Disk.child_of_write (Generation.isPlain_draftName g) hwrite
  obtain rfl : k = t := Except.ok.inj (hk.symm.trans hl)
  exact hwritten.trans (Disk.confined_rename (Generation.isPlain_draftName g) (Generation.isPlain_checkpointName g) hne
    (hwritten.keeps.leads hl) hf hrename)

theorem confined_openAt (names : d.OneName) (made : d.makeDirectories dir = (.ok (), d)) (hl : d.Leads dir t)
    (h : (openAt storageGroup id dir syncWal).run.run d = (.ok r, d')) : Disk.Confined t.here d d' := by
  obtain ⟨checkpoint, d₁, d₂, hopening, -, -, -, rfl⟩ := opening_of_openAt h
  obtain rfl : d₁ = d := congrArg Prod.snd (hopening.made.symm.trans made)
  have hopened := Disk.confined_openFile hl (Generation.isPlain_logName _) hopening.opened
  obtain ⟨k, hk, -, -, hf, -, -⟩ := Disk.child_of_openFile (Generation.isPlain_logName _) hopening.opened
  obtain rfl : k = t := Except.ok.inj (hk.symm.trans hl)
  have hnames : d₂.OneName := by
    have := names.openFile (dir.child (Generation.logName r.generation))
    rwa [hopening.opened] at this
  have hcut := hopened.trans ((r.log.agreeBut_cut d₂).confined hnames hf)
  exact hcut.trans (Generation.confined_purge _ (hcut.keeps.leads hl))

/-- A load changes nothing outside the directory of the region. -/
theorem Records.confined_load (h : Records dir es r d) (hl : d.Leads dir t)
    (hload : (Snapshot.load source storageGroup id dir syncWal).run.run d = (.ok r', d')) : Disk.Confined t.here d d' := by
  obtain ⟨table, latest, -, -, hrestore⟩ := Snapshot.load_ok hload
  obtain ⟨d₁, hwrite, hopen⟩ := restore_ok hrestore
  have hwritten := confined_writeCheckpoint h.names h.made hl hwrite
  obtain ⟨-, -, -, hrefusal⟩ := h.leads
  have hl₁ := hwritten.keeps.leads hl
  exact hwritten.trans (confined_openAt (h.names.of_run hwrite) (Disk.makeDirectories_of_leads hl₁ hrefusal) hl₁ hopen)

end Region

/-- A snapshot in another directory is still there. -/
theorem Snapshot.Holds.confined (h : Holds source storageGroup id table d) (confined : Disk.Confined k d d')
    (leads : d.Leads source t) (other : t.here ≠ k) : Holds source storageGroup id table d' := by
  obtain ⟨hdata, -, hmanifest⟩ := plain_names
  obtain ⟨bytes, text, m, image, hbytes, htext, hm, himage, hcertifies⟩ := h
  exact ⟨bytes, text, m, image, (confined.read leads other hmanifest).trans hbytes, htext, hm,
    (confined.read leads other hdata).trans himage, hcertifies⟩

end SeriesRegion
