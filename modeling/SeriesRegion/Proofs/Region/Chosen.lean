import SeriesRegion.Proofs.Generation.Spelled
import SeriesRegion.Proofs.Region.Standing
import Mathlib

/-!
# The generation that is opened

A directory is opened on a generation exactly if no name in it spells a later one (`Region.generation_eq_iff`), and the table
is then what the files of this generation store (`Region.stored_of_openAt`).  Since a name may spell a generation without
being that of one of its files, a name that no region has given to a file can make opening pass over the files that are there,
and remove them (`Region.opened_on_iff`).
-/

namespace SeriesRegion

/-- The entries of the log under a name; without a file there are none. -/
def Disk.entriesAt (d : Disk) (k : Nat) (x : String) : List LogEntry :=
  match d.node? k x with
  | some (.file f) => (Log.scan (d.bytesOf f)).entries
  | _ => []

namespace Generation

/-- The names of the files of a generation. -/
def names (g : UInt64) : List String := [checkpointName g, logName g]

theorem mem_names {g : UInt64} {x : String} : x ∈ names g ↔ x = checkpointName g ∨ x = logName g := by
  simp [names]

theorem ofName?_of_mem_names {g : UInt64} {x : String} (h : x ∈ names g) : ofName? x = some g := by
  obtain rfl | rfl := mem_names.1 h
  · exact ofName?_checkpointName g
  · exact ofName?_logName g

/-- No name in a directory spells a generation after `g`. -/
def IsLast (g : UInt64) (d : Disk) (k : Nat) : Prop := ∀ x l, (d.node? k x).isSome → Spells x l → l ≤ g

end Generation

namespace Region

/-- The files of a generation store a table: what the entries of the log make of the checkpoint, or of the empty table if
there is none. -/
def Stored (d : Disk) (k : Nat) (g : UInt64) (table : MemTable) : Prop :=
  ∃ image, table = image.applyAll (d.entriesAt k (Generation.logName g)) ∧
    (d.node? k (Generation.checkpointName g) = none ∧ image = .empty ∨
      ∃ f, d.node? k (Generation.checkpointName g) = some (.file f) ∧
        Binary.Format.memTable.decode (d.bytesOf f) = .ok image)

variable {storageGroup : String} {id : UInt32} {dir : Path} {syncWal : Bool} {g : UInt64} {t : Trail} {x : String}
  {r : Region} {d d' d₁ : Disk}

/-! ### The generation -/

/-- Of the directory with the empty path no names are seen. -/
theorem generation_of_openAt (h : (openAt storageGroup id dir syncWal).run.run d = (.ok r, d'))
    (made : d.makeDirectories dir = (.ok (), d₁)) (leads : d₁.Leads dir t) :
    r.generation = if dir.isEmpty then 0 else (Generation.latestOf (d₁.directories.get t.here).keys).getD 0 := by
  obtain ⟨_, _, t', d₁', rfl, hmade, hopened, -⟩ := opened_of_openAt h
  obtain rfl : d₁ = d₁' := congrArg Prod.snd (made.symm.trans hmade)
  obtain ⟨latest, hlatest, hg⟩ := hopened.latest
  cases hempty : r.dataDir.isEmpty with
  | true =>
    rw [Generation.run_latest_of_refusal (Path.refusal?_of_isEmpty hempty)] at hlatest
    cases hlatest
    exact hg.symm
  | false =>
    have hrefusal : r.dataDir.refusal? = none :=
      (Path.refusal?_of_child hopened.refusal).resolve_left (by simp [hempty])
    rw [Generation.run_latest_of_leads leads hrefusal] at hlatest
    cases hlatest
    exact hg.symm

theorem le_generation_of_openAt (h : (openAt storageGroup id dir syncWal).run.run d = (.ok r, d'))
    (made : d.makeDirectories dir = (.ok (), d₁)) (leads : d₁.Leads dir t) (written : dir.isEmpty = false)
    (there : (d₁.node? t.here x).isSome) (hk : Generation.ofName? x = some g) : g ≤ r.generation := by
  obtain ⟨l, hl, hle⟩ := Generation.le_latestOf (Disk.mem_keys.2 there) hk
  rw [generation_of_openAt h made leads, written, hl]
  exact hle

/-- A directory in which a generation is named is opened on it if no name spells a later one. -/
theorem generation_eq_iff (h : (openAt storageGroup id dir syncWal).run.run d = (.ok r, d'))
    (made : d.makeDirectories dir = (.ok (), d₁)) (leads : d₁.Leads dir t) (there : (d₁.node? t.here x).isSome)
    (hk : Generation.ofName? x = some g) :
    r.generation = g ↔ if dir.isEmpty then g = 0 else Generation.IsLast g d₁ t.here := by
  cases hempty : dir.isEmpty with
  | true =>
    rw [generation_of_openAt h made leads, hempty]
    simp only [if_true]
    exact eq_comm
  | false =>
    simp only [Bool.false_eq_true, if_false]
    constructor
    · rintro rfl y l hy hl
      exact le_generation_of_openAt h made leads hempty hy (Generation.ofName?_eq_some_iff.2 hl)
    · intro hlast
      refine UInt64.le_antisymm ?_ (le_generation_of_openAt h made leads hempty there hk)
      obtain ⟨l, hl, -⟩ := Generation.le_latestOf (Disk.mem_keys.2 there) hk
      obtain ⟨y, hy, hyl⟩ := Generation.mem_of_latestOf hl
      rw [generation_of_openAt h made leads, hempty, hl]
      exact hlast y l (Disk.mem_keys.1 hy) (Generation.ofName?_eq_some_iff.1 hyl)

/-! ### The table -/

/-- A region is opened on what its log makes of what is read as its checkpoint. -/
theorem table_of_openAt (h : (openAt storageGroup id dir syncWal).run.run d = (.ok r, d'))
    (made : d.makeDirectories dir = (.ok (), d₁)) (leads : d₁.Leads dir t) :
    ∃ image, (readCheckpoint dir r.generation).run.run d₁ = (.ok image, d₁) ∧
      r.table = image.applyAll (d₁.entriesAt t.here (Generation.logName r.generation)) := by
  obtain ⟨image, d₁', d₂, hopening, -, -, htable, -⟩ := opening_of_openAt h
  obtain rfl : d₁ = d₁' := congrArg Prod.snd (made.symm.trans hopening.made)
  refine ⟨image, hopening.image, ?_⟩
  obtain ⟨t', name, hplace, -, hfile⟩ := Disk.openFile_ok hopening.opened
  obtain ⟨hl, rfl, -⟩ := Disk.leads_of_place (Generation.isPlain_logName _) hplace
  obtain rfl : t' = t := Except.ok.inj (hl.symm.trans leads)
  rw [htable, Disk.entriesAt]
  obtain ⟨hn, rfl⟩ | ⟨hn, hnew, rfl⟩ := hfile
  · rw [hn]
  · -- A log that was not there is empty.
    have hbytes : d₁.bytesOf d₁.files.next = [] := by
      rw [Disk.bytesOf, Numbered.get_of_next_le (Nat.le_refl _)]
      rfl
    have hnil : Log.scan [] = ⟨[], 0, none⟩ := Log.whole_nil
    rw [hn, hnew, Disk.bytesOf_createFile, hbytes, hnil]

/-- What is read as the checkpoint of a generation is what stands there, if the path to it can be used at all. -/
theorem stored_of_openAt (h : (openAt storageGroup id dir syncWal).run.run d = (.ok r, d'))
    (made : d.makeDirectories dir = (.ok (), d₁)) (leads : d₁.Leads dir t)
    (refusal : (dir.child (Generation.checkpointName r.generation)).refusal? = none) :
    Stored d₁ t.here r.generation r.table := by
  obtain ⟨image, hread, htable⟩ := table_of_openAt h made leads
  refine ⟨image, htable, ?_⟩
  rw [run_readCheckpoint, Disk.find_child leads (Generation.isPlain_checkpointName _) refusal] at hread
  cases hn : d₁.node? t.here (Generation.checkpointName r.generation) with
  | none =>
    rw [hn] at hread
    cases hread
    exact .inl ⟨rfl, rfl⟩
  | some node =>
    rw [hn] at hread
    cases node with
    | directory n => cases hread
    | file f =>
      refine .inr ⟨f, rfl, ?_⟩
      cases hdecode : Binary.Format.memTable.decode (d₁.bytesOf f) with
      | error e =>
        simp only [hdecode] at hread
        cases hread
      | ok table =>
        simp only [hdecode] at hread
        cases hread
        rfl

theorem table_of_openAt_of_refusal {e : IoFault} (h : (openAt storageGroup id dir syncWal).run.run d = (.ok r, d'))
    (made : d.makeDirectories dir = (.ok (), d₁)) (leads : d₁.Leads dir t)
    (refusal : (dir.child (Generation.checkpointName r.generation)).refusal? = some e) :
    r.table = MemTable.empty.applyAll (d₁.entriesAt t.here (Generation.logName r.generation)) := by
  obtain ⟨image, hread, htable⟩ := table_of_openAt h made leads
  rw [run_readCheckpoint, Disk.find, Disk.place, refusal] at hread
  cases hread
  exact htable

/-! ### The files -/

/-- The files of the generation that is opened stay. -/
theorem node?_of_openAt (h : (openAt storageGroup id dir syncWal).run.run d = (.ok r, d'))
    (made : d.makeDirectories dir = (.ok (), d₁)) (leads : d₁.Leads dir t) (hx : x ∈ Generation.names r.generation) {f : Nat}
    (hf : d₁.node? t.here x = some (.file f)) : d'.node? t.here x = some (.file f) := by
  obtain ⟨_, _, t', d₁', rfl, hmade, hopened, -⟩ := opened_of_openAt h
  obtain rfl : d₁ = d₁' := congrArg Prod.snd (made.symm.trans hmade)
  obtain rfl : t' = t := Except.ok.inj (hopened.before.symm.trans leads)
  obtain rfl | rfl := Generation.mem_names.1 hx
  · have hnode := (hopened.others _ (Generation.checkpointName_ne_logName _ _)).resolve_right fun hstale => by
      rw [Generation.isStale_checkpointName] at hstale
      exact Bool.false_ne_true hstale.1
    exact hnode.trans hf
  · obtain ⟨⟨d₂, hopen⟩, -⟩ := log_of_openAt h made
    have hfound : d₁.find r.log.path = .ok (.file f) := by
      rw [hopened.path, Disk.find_child leads (Generation.isPlain_logName _) hopened.refusal, hf]
    rw [Disk.openFile_of_find hfound] at hopen
    rw [hopened.log, ← Except.ok.inj (congrArg Prod.fst hopen)]

/-- A directory with a file of a generation is opened on what the files of the generation store, and these stay, if and only
if no name spells a later generation; there are only two exceptions to this: of the empty path no names are seen, and a
checkpoint whose path is too long is not read.  Otherwise the files of the generation are removed. -/
theorem opened_on_iff (h : (openAt storageGroup id dir syncWal).run.run d = (.ok r, d'))
    (made : d.makeDirectories dir = (.ok (), d₁)) (leads : d₁.Leads dir t)
    (file : ∃ x ∈ Generation.names g, ∃ f, d₁.node? t.here x = some (.file f)) :
    ((r.generation = g ∧ Stored d₁ t.here g r.table ∧ ∀ x ∈ Generation.names g, ∀ f,
        d₁.node? t.here x = some (.file f) → d'.node? t.here x = some (.file f)) ↔
      (if dir.isEmpty then g = 0 else Generation.IsLast g d₁ t.here) ∧
        ((dir.child (Generation.checkpointName g)).refusal? = none ∨
          Stored d₁ t.here g (MemTable.empty.applyAll (d₁.entriesAt t.here (Generation.logName g))))) ∧
      (r.generation ≠ g → dir.isEmpty = false → ∀ x ∈ Generation.names g, ∀ f, d₁.node? t.here x = some (.file f) →
        (dir.child x).refusal? = none → d'.node? t.here x = none) := by
  obtain ⟨y, hy, k, hk⟩ := file
  have hthere : (d₁.node? t.here y).isSome := by
    rw [hk]
    rfl
  have hgeneration := generation_eq_iff h made leads hthere (Generation.ofName?_of_mem_names hy)
  refine ⟨?_, fun hne hwritten x hx f hf hrefusal => ?_⟩
  · rw [← hgeneration]
    refine and_congr_right fun hg => ?_
    subst hg
    constructor
    · rintro ⟨hstored, -⟩
      cases hr : (dir.child (Generation.checkpointName r.generation)).refusal? with
      | none => exact .inl rfl
      | some e => exact .inr (table_of_openAt_of_refusal h made leads hr ▸ hstored)
    · intro hreads
      refine ⟨?_, fun x hx f hf => node?_of_openAt h made leads hx hf⟩
      cases hr : (dir.child (Generation.checkpointName r.generation)).refusal? with
      | none => exact stored_of_openAt h made leads hr
      | some e =>
        rw [table_of_openAt_of_refusal h made leads hr]
        exact hreads.resolve_left (by simp [hr])
  · have hname := Generation.ofName?_of_mem_names hx
    have hle := le_generation_of_openAt h made leads hwritten (by rw [hf]; rfl) hname
    have hstale := Generation.isStale_of_lt hname (UInt64.lt_of_le_of_ne hle hne.symm)
    have hdir := (Path.refusal?_of_child hrefusal).resolve_left (by simp [hwritten])
    exact node?_openAt h made leads hdir (Generation.isPlain_of_ofName? hname) hrefusal hf hstale

/-! ### A log that no region has named -/

/-- A disk on which the log of the first generation stands beside an empty file with a name that spells a later one. -/
def misnamed : Disk :=
  { Disk.new "home" with files := ⟨#[(Log.frameOf ⟨some 1, .row ⟨"d", 1, ["m"], [.int64 1]⟩⟩).toArray, #[]]⟩ }
    |>.put 1 (Generation.logName 0) (.file 0) |>.put 1 "wal-+5.log" (.file 1)

private theorem node?_misnamed (k : Nat) (x : String) : misnamed.node? k x =
    if k = 1 ∧ x = "wal-+5.log" then some (.file 1) else if k = 1 ∧ x = Generation.logName 0 then some (.file 0)
    else if k = 0 ∧ x = "home" then some (.directory 1) else none := by
  have hnew := Disk.node?_new "home" k x
  simp only [misnamed, Disk.node?_put]
  exact congrArg (fun node => if k = 1 ∧ x = "wal-+5.log" then some (.file 1)
    else if k = 1 ∧ x = Generation.logName 0 then some (.file 0) else node) hnew

private theorem ofName?_misnamed : Generation.ofName? "wal-+5.log" = some 5 :=
  Generation.ofName?_eq_some_iff.2 ⟨['+'], by simp, 0, .inr (by cbv)⟩

private theorem standing_misnamed : Standing ⟨".", []⟩ ⟨1, [0]⟩ ⟨5, .empty, []⟩ misnamed := by
  have hrelative : (⟨".", []⟩ : Path).isAbsolute = false := by cbv
  have hsteps : (⟨".", []⟩ : Path).names = ["."] := by cbv
  have hleads : misnamed.Leads ⟨".", []⟩ ⟨1, [0]⟩ := by
    rw [Disk.Leads, hrelative, hsteps]
    rfl
  have hnext : misnamed.files.next = 2 := rfl
  have hnames : Generation.checkpointName 5 ≠ "wal-+5.log" ∧ Generation.checkpointName 5 ≠ Generation.logName 0 ∧
      Generation.logName 5 ≠ "wal-+5.log" ∧ Generation.logName 5 ≠ Generation.logName 0 := by
    refine ⟨?_, Generation.checkpointName_ne_logName 5 0, ?_, ?_⟩ <;> cbv
  have hrefusal : (Path.child ⟨".", []⟩ (Generation.checkpointName 5)).refusal? = none := by cbv
  refine ⟨⟨fun {k x k' x' f} h h' => ?_, fun {k x f} h => ?_⟩, hleads, by cbv, fun _ x k hx hk => ?_,
    .inr ⟨by cbv, "wal-+5.log", by simp [node?_misnamed], ofName?_misnamed⟩, ?_, .inl ⟨?_, rfl⟩⟩
  · rw [node?_misnamed] at h h'
    grind
  · rw [node?_misnamed] at h
    grind
  · rw [node?_misnamed] at hx
    obtain rfl | rfl : x = "wal-+5.log" ∨ x = Generation.logName 0 := by grind
    · rw [ofName?_misnamed] at hk
      exact UInt64.le_of_eq (Option.some.inj hk).symm
    · rw [Generation.ofName?_logName] at hk
      cases hk
      decide
  · rw [run_readCheckpoint, Disk.find_child hleads (Generation.isPlain_checkpointName 5) hrefusal, node?_misnamed]
    simp [hnames]
  · rw [node?_misnamed]
    simp [hnames]

/-- The empty file makes the fifth generation the one that is opened, and the log of the first is removed. -/
theorem opened_on_iff_misnamed : ∃ r d', (openAt "g" 1 ⟨".", []⟩ false).run.run misnamed = (.ok r, d') ∧
    r.generation = 5 ∧ r.table = .empty ∧ misnamed.node? 1 (Generation.logName 0) = some (.file 0) ∧
    ¬ Generation.IsLast 0 misnamed 1 ∧ d'.node? 1 (Generation.logName 0) = none := by
  obtain ⟨t, file, d', hopen, -⟩ := Openable.run ⟨_, _, standing_misnamed.made, standing_misnamed⟩ "g" 1 false
  have hlog : misnamed.node? 1 (Generation.logName 0) = some (.file 0) := by
    have hne : Generation.logName 0 ≠ "wal-+5.log" := by cbv
    simp [node?_misnamed, hne]
  have hmem : Generation.logName 0 ∈ Generation.names 0 := Generation.mem_names.2 (.inr rfl)
  obtain ⟨hiff, hremoved⟩ := opened_on_iff (g := 0) hopen standing_misnamed.made standing_misnamed.leads ⟨_, hmem, 0, hlog⟩
  have hfive : (5 : UInt64) ≠ 0 := by decide
  have hgone := hremoved hfive (by cbv) _ hmem 0 hlog (by cbv)
  refine ⟨_, d', hopen, rfl, rfl, hlog, fun hlast => ?_, hgone⟩
  have hopened := hiff.2 ⟨hlast, .inl (by cbv)⟩
  exact hfive hopened.1

end Region

end SeriesRegion
