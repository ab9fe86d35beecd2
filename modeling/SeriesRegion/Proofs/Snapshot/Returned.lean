import SeriesRegion.Proofs.Snapshot.Interrupted
import SeriesRegion.Proofs.Snapshot.Leftovers

/-!
# Loading what was taken

A snapshot that has been taken of a region is in its directory: the image of the region, and a manifest that certifies it
(`Snapshot.taken`).  So wherever it is loaded the region opens on the image, bit for bit, if the directory is found before the
load; one that is only found once it has been made may have files of its own (`Snapshot.load_taken`).
-/

namespace SeriesRegion.Snapshot

variable {r r₀ : Region} {target dir : Path} {stamp : Stamp} {m : Manifest} {syncWal : Bool} {es : List LogEntry}
  {last : Option UInt64} {d d₀ d₁ d₂ : Disk}

/-- A snapshot that has been taken consists of the image of the region and of the manifest that was answered. -/
theorem taken (names : d₀.OneName) (h : (take r target stamp).run.run d₀ = (.ok m, d₁)) :
    m = manifestOf r (Binary.Format.memTable.write r.table) stamp ∧
      d₁.read (target.child dataName) = .ok (Binary.Format.memTable.write r.table) ∧
      d₁.read (target.child manifestName) = .ok (Bytes.ofText m.text) := by
  obtain ⟨hdata, hdraft, hmanifest⟩ := plain_names
  obtain ⟨hne, hne', hne''⟩ := distinct_names
  rw [take] at h
  obtain ⟨_, d₂, h₂, h⟩ := FileWork.bind_ok h
  obtain ⟨_, d₃, h₃, h⟩ := FileWork.bind_ok h
  obtain ⟨_, d₄, h₄, h⟩ := FileWork.bind_ok h
  obtain ⟨_, d₅, h₅, h⟩ := FileWork.bind_ok h
  obtain ⟨_, d₆, h₆, h⟩ := FileWork.bind_ok h
  cases h
  have hnames₃ : d₃.OneName := (names.of_run h₂).of_run h₃
  have himage : d₃.write (target.child dataName) (Binary.Format.memTable.write r.table) = (.ok (), d₄) :=
    FileWork.run_attempt_eq_ok.1 h₄
  have htext := FileWork.run_attempt_eq_ok.1 h₅
  have hrename : d₅.rename (target.child draftName) (target.child manifestName) = (.ok (), d₁) :=
    FileWork.run_attempt_eq_ok.1 h₆
  obtain ⟨t, -, hl, -⟩ := Disk.child_of_write hdata himage
  obtain ⟨hrefusal, hkeeps, hstores, -, -⟩ := hnames₃.stores_of_write hl hdata himage
  obtain ⟨-, hkeeps', hstores', -, hothers⟩ := (hnames₃.of_run h₄).stores_of_write (hkeeps.leads hl) hdraft htext
  have hl₅ := hkeeps'.leads (hkeeps.leads hl)
  obtain ⟨hrefusal', hkeeps'', hput, hothers'⟩ := Disk.stores_of_rename hl₅ hdraft hmanifest hne'' hstores' hrename
  have hl₁ := hkeeps''.leads hl₅
  exact ⟨rfl, (hothers' _ _ hne hne' (hothers _ _ hne hstores)).read hl₁ hdata hrefusal, hput.read hl₁ hmanifest hrefusal'⟩

/-- A snapshot has been taken of a region, and its two files are still what they were when it is loaded into a directory that
can be opened and written to.  Its manifest is that of the image, and the load succeeds.  The region that it gives has the table
of the one that the snapshot was taken of if and only if the directory is found before the load, or what is opened once it has
been made leaves the table as it is. -/
theorem load_taken (names₀ : d₀.OneName) (takes : (take r target stamp).run.run d₀ = (.ok m, d₁))
    (fits : (Binary.Format.memTable.write r.table).length < UInt64.size) (json : Manifest.ofText m.text = .ok m)
    (image : d.read (target.child dataName) = d₁.read (target.child dataName))
    (manifest : d.read (target.child manifestName) = d₁.read (target.child manifestName)) (names : d.OneName)
    (opens : (Region.openAt r.storageGroup r.id dir syncWal).run.run d = (.ok r₀, d₂))
    (log : (r₀.logged.run.run d₂).1 = .ok es) (bound : r₀.generation.toNat + 1 < UInt64.size)
    (latest : (Generation.latest dir).run.run d = (.ok last, d))
    (writable : Region.Writable dir (nextGeneration last) (d.makeDirectories dir).2) :
    (∃ bytes, d₁.read (target.child dataName) = .ok bytes ∧ Binary.Format.memTable.decode bytes = .ok r.table ∧
      m.sha256 = Sha256.hex bytes ∧ m.pointCount.toNat = r.table.pointCount ∧
      m.maxSearchIndex = r.table.maxSearchIndex) ∧
    ∃ r' d', (load target r.storageGroup r.id dir syncWal).run.run d = (.ok r', d') ∧ r'.storageGroup = r.storageGroup ∧
      r'.id = r.id ∧ (d.present dir = true ∨ r₀.generation = 0 ∧ es = [] → r'.table = r.table) ∧
      (r'.table = r.table ↔ d.present dir = true ∨ r₀.overlaid es 0 r.table = r.table) := by
  obtain ⟨hm, hbytes, htext⟩ := taken names₀ takes
  have hreads := Binary.Format.memTable_roundTrips.reads fits
  refine ⟨⟨_, hbytes, hreads.decode, ?_, ?_, ?_⟩, ?_⟩
  · rw [hm]
    rfl
  · have hcount := Nat.lt_of_le_of_lt (Binary.Format.pointCount_le r.table) fits
    rw [hm]
    exact UInt64.toNat_ofNat_of_lt hcount
  · rw [hm]
    rfl
  · have hcertifies : Certifies m (Binary.Format.memTable.write r.table) r.storageGroup r.id r.table := by
      rw [hm]
      exact certifies_manifestOf fits stamp
    have hholds : Holds target r.storageGroup r.id r.table d :=
      ⟨_, _, m, _, manifest.trans htext, Binary.Format.decode_ofText m.text, json, image.trans hbytes, hcertifies⟩
    exact hholds.run_load names opens log bound latest writable

/-- The sample has been taken, and is loaded where relative paths start, under the empty path: its region then has the point of
the log there too. -/
theorem load_taken_unmade :
    ∃ d₀ d₁ d₂ r₀ r' d', d₀.OneName ∧
      (take sampled ⟨"", ["s"]⟩ sampledStamp).run.run d₀ = (.ok sampledManifest, d₁) ∧
      (Binary.Format.memTable.write sampled.table).length < UInt64.size ∧
      Manifest.ofText sampledManifest.text = .ok sampledManifest ∧
      sampledBeside.read (Path.child ⟨"", ["s"]⟩ dataName) = d₁.read (Path.child ⟨"", ["s"]⟩ dataName) ∧
      sampledBeside.read (Path.child ⟨"", ["s"]⟩ manifestName) = d₁.read (Path.child ⟨"", ["s"]⟩ manifestName) ∧
      sampledBeside.OneName ∧
      (Region.openAt sampled.storageGroup sampled.id ⟨"", []⟩ false).run.run sampledBeside = (.ok r₀, d₂) ∧
      (r₀.logged.run.run d₂).1 = .ok [elsewhere] ∧ r₀.generation.toNat + 1 < UInt64.size ∧
      (Generation.latest ⟨"", []⟩).run.run sampledBeside = (.ok none, sampledBeside) ∧
      Region.Writable ⟨"", []⟩ (nextGeneration none) (sampledBeside.makeDirectories ⟨"", []⟩).2 ∧
      (load ⟨"", ["s"]⟩ sampled.storageGroup sampled.id ⟨"", []⟩ false).run.run sampledBeside = (.ok r', d') ∧
      r'.table ≠ sampled.table := by
  have hnode : ∀ x, ((Disk.new "home").put 1 "s" (.directory 2)).node? 2 x = none := by
    intro x
    rw [Disk.node?_put, Disk.node?_new]
    rfl
  have hrelative : (⟨"", ["s"]⟩ : Path).isAbsolute = false := by cbv
  have hleads : ((Disk.new "home").put 1 "s" (.directory 2)).Leads ⟨"", ["s"]⟩ ⟨2, [1, 0]⟩ := by
    have hhome : ((Disk.new "home").put 1 "s" (.directory 2)).home = ⟨1, [0]⟩ := rfl
    have hnames : (⟨"", ["s"]⟩ : Path).names = ["s"] := rfl
    rw [Disk.Leads, hrelative, hnames]
    simp [Disk.descend, Disk.enter, Disk.node?_put, hhome, Trail.down]
  have hnames : ((Disk.new "home").put 1 "s" (.directory 2)).OneName :=
    (Disk.oneName_new "home").put fun f hf => by cases hf
  have hcleared : Cleared ⟨"", ["s"]⟩ ⟨2, [1, 0]⟩ ((Disk.new "home").put 1 "s" (.directory 2)) := by
    refine ⟨hnames, hleads, by cbv, fun {x node} hn => ?_⟩
    rw [hnode] at hn
    cases hn
  obtain ⟨d₁, htake, -, himage, hmanifest⟩ := hcleared.clear.run_take (by cbv) sampled sampledStamp
  have hread := read_beside (Log.frameOf elsewhere) (Binary.Format.memTable.write sampled.table)
    (Bytes.ofText sampledManifest.text)
  have hdata : sampledBeside.read (Path.child ⟨"", ["s"]⟩ dataName) = d₁.read (Path.child ⟨"", ["s"]⟩ dataName) :=
    hread.1.trans himage.symm
  have htext : sampledBeside.read (Path.child ⟨"", ["s"]⟩ manifestName) = d₁.read (Path.child ⟨"", ["s"]⟩ manifestName) :=
    hread.2.trans hmanifest.symm
  obtain ⟨t, file, d₂, hopen, hafter⟩ := sampledBeside_standing.openable.run sampled.storageGroup sampled.id false
  have hlog := congrArg Prod.fst hafter.run_read
  have hbound : (0 : UInt64).toNat + 1 < UInt64.size := by decide
  have hlatest : (Generation.latest ⟨"", []⟩).run.run sampledBeside = (.ok none, sampledBeside) :=
    Generation.run_latest_of_refusal (e := .notFound) (by cbv) _
  have hwritable : Region.Writable ⟨"", []⟩ (nextGeneration none) (sampledBeside.makeDirectories ⟨"", []⟩).2 := by
    rw [sampledBeside_standing.made]
    exact sampledBeside_writable
  obtain ⟨-, r', d', hload, -, -, -, hiff⟩ := load_taken hnames htake sampled_fits ofText_sampled hdata htext
    sampledBeside_standing.names hopen hlog hbound hlatest hwritable
  refine ⟨_, d₁, d₂, _, r', d', hnames, htake, sampled_fits, ofText_sampled, hdata, htext, sampledBeside_standing.names, hopen,
    hlog, hbound, hlatest, hwritable, hload, fun hsame => ?_⟩
  obtain hpresent | htable := hiff.1 hsame
  · rw [Disk.present, Disk.find, Disk.place, show (⟨"", []⟩ : Path).refusal? = some .notFound by cbv] at hpresent
    cases hpresent
  · exact absurd (congrArg MemTable.pointCount htable) (by cbv)

end SeriesRegion.Snapshot
