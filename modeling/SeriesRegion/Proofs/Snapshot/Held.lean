import SeriesRegion.Proofs.Binary.RoundTrip
import SeriesRegion.Proofs.Region.Overwriting
import SeriesRegion.Proofs.Snapshot.Manifest
import Mathlib

/-!
# What a directory with a snapshot holds

A snapshot can be read if and only if its directory holds a manifest of the region wanted and an image with the checksum that
the manifest says (`Snapshot.holds_iff`).  The manifest that is written with the image of a region is one of it
(`Snapshot.certifies_manifestOf`).
-/

namespace SeriesRegion

namespace Snapshot

theorem plain_names : Disk.IsPlain dataName ∧ Disk.IsPlain draftName ∧ Disk.IsPlain manifestName := by cbv

theorem distinct_names : dataName ≠ draftName ∧ dataName ≠ manifestName ∧ draftName ≠ manifestName := by cbv

theorem nameable_names : Disk.absence dataName = .notFound ∧ Disk.absence draftName = .notFound ∧
    Disk.absence manifestName = .notFound := by cbv

/-- A manifest is that of a snapshot of a region, and the image is the one it was written for. -/
structure Certifies (m : Manifest) (image : Bytes) (storageGroup : String) (id : UInt32) (table : MemTable) : Prop where
  storageGroup : m.storageGroup = storageGroup
  id : m.regionId = id
  checksum : Sha256.hex image = m.sha256
  table : Binary.Format.memTable.decode image = .ok table

/-- A directory holds a snapshot of a region. -/
def Holds (source : Path) (storageGroup : String) (id : UInt32) (table : MemTable) (d : Disk) : Prop :=
  ∃ bytes text m image, d.read (source.child manifestName) = .ok bytes ∧ Utf8.decode bytes = .ok text ∧
    Manifest.ofText text = .ok m ∧ d.read (source.child dataName) = .ok image ∧ Certifies m image storageGroup id table

variable {source : Path} {storageGroup : String} {id : UInt32} {table : MemTable} {d : Disk}

theorem run_readManifest_eq_ok {m : Manifest} : (readManifest source).run.run d = (.ok m, d) ↔
    ∃ bytes text, d.read (source.child manifestName) = .ok bytes ∧ Utf8.decode bytes = .ok text ∧
      Manifest.ofText text = .ok m := by
  constructor
  · intro h
    obtain ⟨bytes, text, hbytes, htext, hm, -⟩ := readManifest_ok h
    exact ⟨bytes, text, hbytes, htext, hm⟩
  · rintro ⟨bytes, text, hbytes, htext, hm⟩
    rw [readManifest, FileWork.run_bind_ok (FileWork.run_read_eq_ok.2 ⟨hbytes, rfl⟩),
      FileWork.run_bind_ok (FileWork.run_ofExcept_eq_ok.2 ⟨htext, rfl⟩)]
    exact FileWork.run_ofExcept_eq_ok.2 ⟨hm, rfl⟩

/-- A snapshot is read if and only if it is there. -/
theorem holds_iff : Holds source storageGroup id table d ↔
    (readImage source storageGroup id).run.run d = (.ok table, d) := by
  constructor
  · rintro ⟨bytes, text, m, image, hbytes, htext, hm, himage, hcertifies⟩
    have hmanifest := run_readManifest_eq_ok.2 ⟨bytes, text, hbytes, htext, hm⟩
    have hcheck : checkImage m image = .ok table := by
      rw [checkImage, if_pos hcertifies.checksum, hcertifies.table]
      rfl
    rw [readImage, FileWork.run_bind_ok hmanifest, if_pos ⟨hcertifies.storageGroup, hcertifies.id⟩,
      FileWork.run_bind_ok (FileWork.run_read_eq_ok.2 ⟨himage, rfl⟩)]
    exact FileWork.run_ofExcept_eq_ok.2 ⟨hcheck, rfl⟩
  · intro h
    obtain ⟨m, image, hmanifest, hgroup, hid, himage, hsum, hdecode, -⟩ := readImage_ok h
    obtain ⟨bytes, text, hbytes, htext, hm⟩ := run_readManifest_eq_ok.1 hmanifest
    exact ⟨bytes, text, m, image, hbytes, htext, hm, himage, hgroup, hid, hsum, hdecode⟩

/-- The manifest of a region's image certifies it. -/
theorem certifies_manifestOf {r : Region} (fits : (Binary.Format.memTable.write r.table).length < UInt64.size)
    (stamp : Stamp) : Certifies (manifestOf r (Binary.Format.memTable.write r.table) stamp)
      (Binary.Format.memTable.write r.table) r.storageGroup r.id r.table :=
  ⟨rfl, rfl, rfl, (Binary.Format.memTable_roundTrips.reads fits).decode⟩

/-! ### A snapshot beside a log -/

/-- A disk on which the log of a first generation stands where relative paths start, and a snapshot in a directory beside it. -/
def beside (log image manifest : Bytes) : Disk :=
  { Disk.new "home" with files := ⟨#[log.toArray, image.toArray, manifest.toArray]⟩ }
    |>.put 1 "s" (.directory 2) |>.put 1 (Generation.logName 0) (.file 0)
    |>.put 2 dataName (.file 1) |>.put 2 manifestName (.file 2)

section Beside

variable (log image manifest : Bytes)

theorem node?_beside (k : Nat) (x : String) : (beside log image manifest).node? k x =
    if k = 2 ∧ x = manifestName then some (.file 2) else if k = 2 ∧ x = dataName then some (.file 1)
    else if k = 1 ∧ x = Generation.logName 0 then some (.file 0) else if k = 1 ∧ x = "s" then some (.directory 2)
    else if k = 0 ∧ x = "home" then some (.directory 1) else none := by
  have hnew : ({ Disk.new "home" with files := ⟨#[log.toArray, image.toArray, manifest.toArray]⟩ } : Disk).node? k x =
      if k = 0 ∧ x = "home" then some (.directory 1) else none := Disk.node?_new "home" k x
  simp only [beside, Disk.node?_put]
  rw [hnew]

theorem node?_beside_home (x : String) : (beside log image manifest).node? 1 x =
    if x = Generation.logName 0 then some (.file 0) else if x = "s" then some (.directory 2) else none := by
  simp [node?_beside]

theorem oneName_beside : (beside log image manifest).OneName := by
  have hnext : (beside log image manifest).files.next = 3 := rfl
  refine ⟨fun {k x k' x' f} h h' => ?_, fun {k x f} h => ?_⟩
  · rw [node?_beside] at h h'
    grind
  · rw [node?_beside] at h
    grind

theorem leads_beside_home : (beside log image manifest).Leads ⟨"", []⟩ ⟨1, [0]⟩ := rfl

theorem leads_beside_dot : (beside log image manifest).Leads ⟨".", []⟩ ⟨1, [0]⟩ := by
  have hrelative : (⟨".", []⟩ : Path).isAbsolute = false := by cbv
  have hnames : (⟨".", []⟩ : Path).names = ["."] := by cbv
  rw [Disk.Leads, hrelative, hnames]
  rfl

theorem leads_beside : (beside log image manifest).Leads ⟨"", ["s"]⟩ ⟨2, [1, 0]⟩ := by
  have hrelative : (⟨"", ["s"]⟩ : Path).isAbsolute = false := by cbv
  have hnames : (⟨"", ["s"]⟩ : Path).names = ["s"] := rfl
  have hhome : (beside log image manifest).home = ⟨1, [0]⟩ := rfl
  have hlog : "s" ≠ Generation.logName 0 := by cbv
  rw [Disk.Leads, hrelative, hnames]
  simp [Disk.descend, Disk.enter, node?_beside, hhome, hlog, Trail.down]

theorem read_beside : (beside log image manifest).read (Path.child ⟨"", ["s"]⟩ dataName) = .ok image ∧
    (beside log image manifest).read (Path.child ⟨"", ["s"]⟩ manifestName) = .ok manifest := by
  obtain ⟨hdata, -, hmanifest⟩ := plain_names
  have hrefusal : (Path.child ⟨"", ["s"]⟩ dataName).refusal? = none ∧
      (Path.child ⟨"", ["s"]⟩ manifestName).refusal? = none := by
    constructor <;> cbv
  have hleads := leads_beside log image manifest
  constructor
  · rw [Disk.read, Disk.find_child hleads hdata hrefusal.1, node?_beside, if_neg (by simp [dataName, manifestName]),
      if_pos ⟨rfl, rfl⟩]
    rfl
  · rw [Disk.read, Disk.find_child hleads hmanifest hrefusal.2, node?_beside, if_pos ⟨rfl, rfl⟩]
    rfl

variable {log image}

theorem holds_beside {m : Manifest} (parses : Manifest.ofText m.text = .ok m)
    (certifies : Certifies m image storageGroup id table) :
    Holds ⟨"", ["s"]⟩ storageGroup id table (beside log image (Bytes.ofText m.text)) :=
  have hread := read_beside log image (Bytes.ofText m.text)
  ⟨_, _, m, image, hread.2, Binary.Format.decode_ofText m.text, parses, hread.1, certifies⟩

/-- There is no generation but the first. -/
theorem generation_beside {x : String} {g : UInt64} (hx : ((beside log image manifest).node? 1 x).isSome)
    (hg : Generation.ofName? x = some g) : g = 0 := by
  rw [node?_beside_home] at hx
  split at hx
  · subst x
    rw [Generation.ofName?_logName] at hg
    cases hg
    rfl
  · split at hx
    · subst x
      cases hg
    · cases hx

theorem standing_beside {es : List LogEntry} {dir : Path} (whole : Log.Whole log es)
    (leads : (beside log image manifest).Leads dir ⟨1, [0]⟩)
    (refusal : (dir.child (Generation.checkpointName 0)).refusal? = none) :
    Region.Standing dir ⟨1, [0]⟩ ⟨0, .empty, es⟩ (beside log image manifest) := by
  have hlog := Path.refusal?_child_of_le refusal (Generation.zero_not_mem_logName 0) (Generation.utf8ByteSize_logName_le 0)
  refine ⟨oneName_beside .., leads, hlog, fun _ x k hx hk => ?_, .inl rfl, ?_, .inr ⟨0, ?_, ?_⟩⟩
  · rw [generation_beside _ hx hk]
    exact UInt64.le_refl 0
  · have hnode : (beside log image manifest).node? 1 (Generation.checkpointName 0) = none := by
      have hnames : Generation.checkpointName 0 ≠ Generation.logName 0 ∧ Generation.checkpointName 0 ≠ "s" := by cbv
      rw [node?_beside_home, if_neg hnames.1, if_neg hnames.2]
    rw [Region.run_readCheckpoint, Disk.find_child leads (Generation.isPlain_checkpointName 0) refusal, hnode]
  · rw [node?_beside_home, if_pos rfl]
  · have hscan : Log.scan log = ⟨es, log.length, none⟩ := whole
    have hbytes : (beside log image manifest).bytesOf 0 = log := rfl
    rw [hbytes, hscan]
    exact ⟨rfl, rfl⟩

variable (log image)

/-- The checkpoint of any generation can be written beside them. -/
theorem writable_beside {dir : Path} {d : Disk} {g : UInt64} (leads : d.Leads dir ⟨1, [0]⟩)
    (refusal : (dir.child (Generation.draftName g)).refusal? = none)
    (same : ∀ x n, d.node? 1 x = some (.directory n) ↔ (beside log image manifest).node? 1 x = some (.directory n)) :
    Region.Writable dir g d := by
  have hs : ∀ x n, d.node? 1 x = some (.directory n) → x = "s" := by
    intro x n hn
    have hnode := (same x n).1 hn
    rw [node?_beside_home] at hnode
    split at hnode
    · cases hnode
    · split at hnode
      · assumption
      · cases hnode
  refine Region.writable_of_leads leads refusal (fun n hn => ?_) fun n hn => ?_
  · have hsize := congrArg String.utf8ByteSize (hs _ n hn)
    have hlast : ".tmp".utf8ByteSize = 4 := by decide
    have hone : "s".utf8ByteSize = 1 := by decide
    rw [Generation.draftName, String.utf8ByteSize_append] at hsize
    omega
  · have hname := Generation.ofName?_checkpointName g
    rw [hs _ n hn] at hname
    cases hname

end Beside

/-- A region with one point, whose snapshot stands beside a log. -/
def sampled : Region where
  storageGroup := "g"
  id := 1
  dataDir := ⟨"", ["r"]⟩
  generation := 0
  syncWal := false
  log := ⟨⟨"", ["r", "wal-0.log"]⟩, 0, false⟩
  table := MemTable.empty.applyAll [⟨some 2, .row ⟨"d", 2, ["m"], [.int64 2]⟩⟩]

def sampledStamp : Stamp := ⟨⟨List.replicate 16 0⟩, ⟨0, 0⟩⟩

def sampledManifest : Manifest := manifestOf sampled (Binary.Format.memTable.write sampled.table) sampledStamp

theorem sampled_fits : (Binary.Format.memTable.write sampled.table).length < UInt64.size := by
  have hlength : (Binary.Format.memTable.write sampled.table).length = 71 := by cbv
  rw [hlength]
  decide

theorem valid_sampledStamp : sampledStamp.Valid := ⟨rfl, rfl, .inl (by decide)⟩

/-- The manifest of the sample is read back from its text. -/
theorem ofText_sampled : Manifest.ofText sampledManifest.text = .ok sampledManifest :=
  valid_sampledStamp.ofText_manifestOf sampled _

/-- An entry with another point than that of the sample. -/
def elsewhere : LogEntry := ⟨some 1, .row ⟨"d", 1, ["m"], [.int64 1]⟩⟩

theorem elsewhere_whole : Log.Whole (Log.frameOf elsewhere) [elsewhere] := by
  have hlength : (Binary.Format.logEntry.write elsewhere).length = 67 := by cbv
  refine Log.whole_frameOf ?_
  rw [Log.Fits, hlength]
  decide

/-- The sample beside a log with the other point. -/
def sampledBeside : Disk :=
  beside (Log.frameOf elsewhere) (Binary.Format.memTable.write sampled.table) (Bytes.ofText sampledManifest.text)

theorem sampledBeside_holds : Holds ⟨"", ["s"]⟩ "g" 1 sampled.table sampledBeside :=
  holds_beside ofText_sampled (certifies_manifestOf sampled_fits sampledStamp)

theorem sampledBeside_standing : Region.Standing ⟨"", []⟩ ⟨1, [0]⟩ ⟨0, .empty, [elsewhere]⟩ sampledBeside :=
  standing_beside _ elsewhere_whole (leads_beside_home ..) (by cbv)

theorem sampledBeside_standing_dot : Region.Standing ⟨".", []⟩ ⟨1, [0]⟩ ⟨0, .empty, [elsewhere]⟩ sampledBeside :=
  standing_beside _ elsewhere_whole (leads_beside_dot ..) (by cbv)

theorem sampledBeside_generation {x : String} {g : UInt64} (hx : (sampledBeside.node? 1 x).isSome)
    (hg : Generation.ofName? x = some g) : g = 0 := by
  rw [sampledBeside] at hx
  exact generation_beside _ hx hg

theorem sampledBeside_writable : Region.Writable ⟨"", []⟩ 0 sampledBeside :=
  writable_beside (Log.frameOf elsewhere) (Binary.Format.memTable.write sampled.table)
    (Bytes.ofText sampledManifest.text) (leads_beside_home ..) (by cbv) fun _ _ => .rfl

end Snapshot

end SeriesRegion
