import SeriesRegion.Config
import SeriesRegion.Proofs.Json.Given
import Mathlib.Tactic.SplitIfs

/-!
# Configuration files lie over the defaults

A file may give any of the settings, in any order and with other members among them (`Config.Given.Writes`).  The settings
that it gives replace those of the default, and the others stay (`Config.ofText_overlay`).

The proof is the same for the three objects of a file.  Each is read by the fields of its record, so that what is read is
what the fields of the members that are known leave of the default, one after the other.  The field of a name changes this
setting alone (`copyStorage_ne` and its like), to the same value wherever it is met, and so the order of the members does not
matter.
-/

namespace SeriesRegion

open Json

namespace Config

variable {s : List Char} {text : String}

/-- The settings of a region that are given. -/
structure GivenStorage where
  dataDir : Option String
  storageGroup : Option String
  regionId : Option UInt32
  syncWal : Option Bool

/-- The settings of a sequencing buffer that are given. -/
structure GivenSequencer where
  capacity : Option UInt64
  waitWindow : Option UInt64

structure Given where
  storage : Option GivenStorage
  sequencer : Option GivenSequencer

/-- The settings that are given, and else those of the default. -/
def GivenStorage.config (g : GivenStorage) : StorageConfig where
  dataDir := g.dataDir.getD default.storage.dataDir
  storageGroup := g.storageGroup.getD default.storage.storageGroup
  regionId := g.regionId.getD default.storage.regionId
  syncWal := g.syncWal.getD default.storage.syncWal

def GivenSequencer.config (g : GivenSequencer) : SequencerConfig where
  capacity := g.capacity.getD default.sequencer.capacity
  waitWindow := g.waitWindow.getD default.sequencer.waitWindow

def Given.config (g : Given) : Config where
  storage := (g.storage.map GivenStorage.config).getD default.storage
  sequencer := (g.sequencer.map GivenSequencer.config).getD default.sequencer

def storageNames : List String := ["data_dir", "storage_group", "region_id", "sync_wal"]

def sequencerNames : List String := ["capacity", "wait_window_ms"]

def sectionNames : List String := ["storage", "sequencer"]

/-- A text is an object that gives these settings.  The values of other members are well formed. -/
def GivenStorage.Writes (g : GivenStorage) (s : List Char) : Prop :=
  ∃ ms, IsObject Spelling ms s ∧ Gives WritesText "data_dir" ms g.dataDir ∧
    Gives WritesText "storage_group" ms g.storageGroup ∧
    Gives (fun id => WritesNat id.toNat) "region_id" ms g.regionId ∧ Gives WritesBool "sync_wal" ms g.syncWal ∧
    ∀ m ∈ ms, m.1 ∉ storageNames → IsValue m.2

def GivenSequencer.Writes (g : GivenSequencer) (s : List Char) : Prop :=
  ∃ ms, IsObject Spelling ms s ∧ Gives (fun n => WritesNat n.toNat) "capacity" ms g.capacity ∧
    Gives (fun n => WritesNat n.toNat) "wait_window_ms" ms g.waitWindow ∧ ∀ m ∈ ms, m.1 ∉ sequencerNames → IsValue m.2

def Given.Writes (g : Given) (text : String) : Prop :=
  ∃ b b' s ms, AreBlanks b ∧ AreBlanks b' ∧ text.toList = b ++ (s ++ b') ∧ IsObject Spelling ms s ∧
    Gives GivenStorage.Writes "storage" ms g.storage ∧ Gives GivenSequencer.Writes "sequencer" ms g.sequencer ∧
    ∀ m ∈ ms, m.1 ∉ sectionNames → IsValue m.2

attribute [ext] StorageConfig SequencerConfig Config

/-- The settings `c'`, but the one of this name is that of `c`. -/
def copyStorage (c : StorageConfig) (name : String) (c' : StorageConfig) : StorageConfig :=
  if name = "data_dir" then { c' with dataDir := c.dataDir }
  else if name = "storage_group" then { c' with storageGroup := c.storageGroup }
  else if name = "region_id" then { c' with regionId := c.regionId }
  else if name = "sync_wal" then { c' with syncWal := c.syncWal }
  else c'

/-- What is copied under a name leaves the other settings. -/
theorem copyStorage_ne (c : StorageConfig) (name : String) (c' : StorageConfig) :
    (name ≠ "data_dir" → (copyStorage c name c').dataDir = c'.dataDir) ∧
    (name ≠ "storage_group" → (copyStorage c name c').storageGroup = c'.storageGroup) ∧
    (name ≠ "region_id" → (copyStorage c name c').regionId = c'.regionId) ∧
    (name ≠ "sync_wal" → (copyStorage c name c').syncWal = c'.syncWal) := by
  grind [copyStorage]

theorem readable_storage {g : GivenStorage} {ms : List (String × List Char)}
    (dataDir : Gives WritesText "data_dir" ms g.dataDir) (storageGroup : Gives WritesText "storage_group" ms g.storageGroup)
    (regionId : Gives (fun id => WritesNat id.toNat) "region_id" ms g.regionId)
    (syncWal : Gives WritesBool "sync_wal" ms g.syncWal) (others : ∀ m ∈ ms, m.1 ∉ storageNames → IsValue m.2) :
    storageRecord.Readable (copyStorage g.config) ms := by
  refine ⟨fun m hm hnone => others m hm (Record.not_mem_of_field? hnone), fun m hm f hf a => ?_, Record.nodup_known ?_⟩
  · obtain ⟨hmem, hname⟩ := Record.mem_of_field? hf
    rw [← hname]
    simp only [storageRecord, List.mem_cons, List.not_mem_nil, or_false] at hmem
    obtain rfl | rfl | rfl | rfl := hmem
    · exact dataDir.read hm hname.symm (fun _ _ h => readText_spells h _)
        fun v hv => by simp [copyStorage, GivenStorage.config, Field.of, hv]
    · exact storageGroup.read hm hname.symm (fun _ _ h => readText_spells h _)
        fun v hv => by simp [copyStorage, GivenStorage.config, Field.of, hv]
    · have hbound : ∀ id : UInt32, id.toNat ≤ UInt32.size - 1 := fun id => Nat.le_pred_of_lt id.toNat_lt
      exact regionId.read hm hname.symm
        (fun id _ h => readNat_writes h (hbound id) (Nat.le_trans (hbound id) (by decide)) _)
        fun v hv => by simp [copyStorage, GivenStorage.config, Field.of, hv]
    · exact syncWal.read hm hname.symm (fun _ _ h => readBool_spells h)
        fun v hv => by simp [copyStorage, GivenStorage.config, Field.of, hv]
  · simp only [storageRecord, List.forall_mem_cons]
    exact ⟨dataDir.count_le, storageGroup.count_le, regionId.count_le, syncWal.count_le, List.forall_mem_nil _⟩

theorem GivenStorage.Writes.spells {g : GivenStorage} (h : g.Writes s) :
    Spells (storageRecord.read default.storage) s g.config := by
  obtain ⟨ms, object, hdir, hgroup, hid, hsync, others⟩ := h
  have hread := Record.spells_object object (readable_storage hdir hgroup hid hsync others)
    (by simp [storageRecord, Field.of]) default.storage
  have hother := copyStorage_ne g.config
  have hconfig : (storageRecord.known ms).foldl (fun c name => copyStorage g.config name c) default.storage = g.config :=
    StorageConfig.ext
      (Record.foldl_given StorageConfig.dataDir hdir (by decide) (fun name hne c => (hother name c).1 hne) (fun _ => rfl)
        fun hnone => by rw [GivenStorage.config, hnone]; rfl)
      (Record.foldl_given StorageConfig.storageGroup hgroup (by decide) (fun name hne c => (hother name c).2.1 hne)
        (fun _ => rfl) fun hnone => by rw [GivenStorage.config, hnone]; rfl)
      (Record.foldl_given StorageConfig.regionId hid (by decide) (fun name hne c => (hother name c).2.2.1 hne)
        (fun _ => rfl) fun hnone => by rw [GivenStorage.config, hnone]; rfl)
      (Record.foldl_given StorageConfig.syncWal hsync (by decide) (fun name hne c => (hother name c).2.2.2 hne)
        (fun _ => rfl) fun hnone => by rw [GivenStorage.config, hnone]; rfl)
  rwa [hconfig] at hread

def copySequencer (c : SequencerConfig) (name : String) (c' : SequencerConfig) : SequencerConfig :=
  if name = "capacity" then { c' with capacity := c.capacity }
  else if name = "wait_window_ms" then { c' with waitWindow := c.waitWindow }
  else c'

theorem copySequencer_ne (c : SequencerConfig) (name : String) (c' : SequencerConfig) :
    (name ≠ "capacity" → (copySequencer c name c').capacity = c'.capacity) ∧
    (name ≠ "wait_window_ms" → (copySequencer c name c').waitWindow = c'.waitWindow) := by
  grind [copySequencer]

theorem readable_sequencer {g : GivenSequencer} {ms : List (String × List Char)}
    (capacity : Gives (fun n => WritesNat n.toNat) "capacity" ms g.capacity)
    (waitWindow : Gives (fun n => WritesNat n.toNat) "wait_window_ms" ms g.waitWindow)
    (others : ∀ m ∈ ms, m.1 ∉ sequencerNames → IsValue m.2) : sequencerRecord.Readable (copySequencer g.config) ms := by
  have hbound : ∀ n : UInt64, n.toNat ≤ maxWord := fun n => Nat.le_pred_of_lt n.toNat_lt
  refine ⟨fun m hm hnone => others m hm (Record.not_mem_of_field? hnone), fun m hm f hf a => ?_, Record.nodup_known ?_⟩
  · obtain ⟨hmem, hname⟩ := Record.mem_of_field? hf
    rw [← hname]
    simp only [sequencerRecord, List.mem_cons, List.not_mem_nil, or_false] at hmem
    obtain rfl | rfl := hmem
    · exact capacity.read hm hname.symm (fun n _ h => readNat_writes h (hbound n) (hbound n) _)
        fun v hv => by simp [copySequencer, GivenSequencer.config, Field.of, hv]
    · exact waitWindow.read hm hname.symm (fun n _ h => readNat_writes h (hbound n) (hbound n) _)
        fun v hv => by simp [copySequencer, GivenSequencer.config, Field.of, hv]
  · simp only [sequencerRecord, List.forall_mem_cons]
    exact ⟨capacity.count_le, waitWindow.count_le, List.forall_mem_nil _⟩

theorem GivenSequencer.Writes.spells {g : GivenSequencer} (h : g.Writes s) :
    Spells (sequencerRecord.read default.sequencer) s g.config := by
  obtain ⟨ms, object, hcapacity, hwindow, others⟩ := h
  have hread := Record.spells_object object (readable_sequencer hcapacity hwindow others)
    (by simp [sequencerRecord, Field.of]) default.sequencer
  have hother := copySequencer_ne g.config
  have hconfig : (sequencerRecord.known ms).foldl (fun c name => copySequencer g.config name c) default.sequencer =
      g.config :=
    SequencerConfig.ext
      (Record.foldl_given SequencerConfig.capacity hcapacity (by decide) (fun name hne c => (hother name c).1 hne)
        (fun _ => rfl) fun hnone => by rw [GivenSequencer.config, hnone]; rfl)
      (Record.foldl_given SequencerConfig.waitWindow hwindow (by decide) (fun name hne c => (hother name c).2 hne)
        (fun _ => rfl) fun hnone => by rw [GivenSequencer.config, hnone]; rfl)
  rwa [hconfig] at hread

def copyConfig (c : Config) (name : String) (c' : Config) : Config :=
  if name = "storage" then { c' with storage := c.storage }
  else if name = "sequencer" then { c' with sequencer := c.sequencer }
  else c'

theorem copyConfig_ne (c : Config) (name : String) (c' : Config) :
    (name ≠ "storage" → (copyConfig c name c').storage = c'.storage) ∧
    (name ≠ "sequencer" → (copyConfig c name c').sequencer = c'.sequencer) := by
  grind [copyConfig]

theorem readable_config {g : Given} {ms : List (String × List Char)}
    (storage : Gives GivenStorage.Writes "storage" ms g.storage)
    (sequencer : Gives GivenSequencer.Writes "sequencer" ms g.sequencer)
    (others : ∀ m ∈ ms, m.1 ∉ sectionNames → IsValue m.2) : record.Readable (copyConfig g.config) ms := by
  refine ⟨fun m hm hnone => others m hm (Record.not_mem_of_field? hnone), fun m hm f hf a => ?_, Record.nodup_known ?_⟩
  · obtain ⟨hmem, hname⟩ := Record.mem_of_field? hf
    rw [← hname]
    simp only [record, List.mem_cons, List.not_mem_nil, or_false] at hmem
    obtain rfl | rfl := hmem
    · exact storage.read hm hname.symm (fun _ _ h => h.spells) fun v hv => by simp [copyConfig, Given.config, Field.of, hv]
    · exact sequencer.read hm hname.symm (fun _ _ h => h.spells) fun v hv => by simp [copyConfig, Given.config, Field.of, hv]
  · simp only [record, List.forall_mem_cons]
    exact ⟨storage.count_le, sequencer.count_le, List.forall_mem_nil _⟩

theorem Given.Writes.readDocument {g : Given} (h : g.Writes text) :
    Json.readDocument (record.read default) text = .ok g.config := by
  obtain ⟨b, b', s, ms, blanks, blanks', document, object, hstorage, hsequencer, others⟩ := h
  have hread := Record.spells_object object (readable_config hstorage hsequencer others) (by simp [record, Field.of]) default
  have hother := copyConfig_ne g.config
  have hconfig : (record.known ms).foldl (fun c name => copyConfig g.config name c) default = g.config :=
    Config.ext
      (Record.foldl_given Config.storage hstorage (by decide) (fun name hne c => (hother name c).1 hne)
        (fun _ => rfl) fun hnone => by rw [Given.config, hnone]; rfl)
      (Record.foldl_given Config.sequencer hsequencer (by decide) (fun name hne c => (hother name c).2 hne)
        (fun _ => rfl) fun hnone => by rw [Given.config, hnone]; rfl)
  rw [hconfig] at hread
  exact readDocument_of_spells hread blanks blanks' document

/-! ### Fields that are given twice -/

/-- A text is an object that has two members of a name that is known where they stand. -/
def GivesTwice (text : String) : Prop :=
  ∃ b b' s ms, AreBlanks b ∧ AreBlanks b' ∧ text.toList = b ++ (s ++ b') ∧ IsObject Spelling ms s ∧
    (∀ m ∈ ms, IsValue m.2) ∧
    (Twice sectionNames ms ∨
      ∃ m ∈ ms, ∃ ms', IsObject Spelling ms' m.2 ∧ (∀ m ∈ ms', IsValue m.2) ∧
        (m.1 = "storage" ∧ Twice storageNames ms' ∨ m.1 = "sequencer" ∧ Twice sequencerNames ms'))

theorem exact_storage : storageRecord.HasExactFields := by
  simp only [Record.HasExactFields, storageRecord, List.forall_mem_cons]
  exact ⟨(exact_readString _ _).store _ _ _, (exact_readString _ _).store _ _ _, (exact_readNat _ _).store _ _ _,
    exact_readBool.store _ _ _, List.forall_mem_nil _⟩

theorem exact_sequencer : sequencerRecord.HasExactFields := by
  simp only [Record.HasExactFields, sequencerRecord, List.forall_mem_cons]
  exact ⟨(exact_readNat _ _).store _ _ _, (exact_readNat _ _).store _ _ _, List.forall_mem_nil _⟩

theorem exact_config : record.HasExactFields := by
  simp only [Record.HasExactFields, record, List.forall_mem_cons]
  exact ⟨(Record.exact_read exact_storage (List.cons_ne_nil _ _) _).store _ _ _,
    (Record.exact_read exact_sequencer (List.cons_ne_nil _ _) _).store _ _ _, List.forall_mem_nil _⟩

theorem GivesTwice.readDocument (h : GivesTwice text) : ∃ e, Json.readDocument (record.read default) text = .error e := by
  obtain ⟨b, b', s, ms, blanks, blanks', document, object, values, htwice⟩ := h
  have hrefuses : Refuses (record.read default) s := by
    obtain htwice | ⟨m, hm, ms', object', values', ⟨hname, htwice⟩ | ⟨hname, htwice⟩⟩ := htwice
    · exact Record.refuses_of_twice object values exact_config htwice default
    · have hfield : record.field? m.1 =
          some (.of "storage" false (storageRecord.read default.storage) fun c v => { c with storage := v }) := by
        rw [hname]
        rfl
      exact Record.refuses_of_member object values exact_config hm hfield
        ((Record.refuses_of_twice object' values' exact_storage htwice _).store _ _ _) default
    · have hfield : record.field? m.1 =
          some (.of "sequencer" false (sequencerRecord.read default.sequencer) fun c v => { c with sequencer := v }) := by
        rw [hname]
        rfl
      exact Record.refuses_of_member object values exact_config hm hfield
        ((Record.refuses_of_twice object' values' exact_sequencer htwice _).store _ _ _) default
  exact readDocument_of_refuses hrefuses blanks blanks' document

/-! ### What is read of a file -/

/-- A configuration that a region can be opened with. -/
structure Usable (c : Config) : Prop where
  capacity : 1 ≤ c.sequencer.capacity
  waitWindow : 1 ≤ c.sequencer.waitWindow
  storageGroup : c.storage.storageGroup ≠ ""

theorem usable_iff {c : Config} : c.Usable ↔ c.invalid? = none := by
  have hword : ∀ n : UInt64, 1 ≤ n ↔ ¬ n = 0 := fun n => by grind
  constructor
  · rintro ⟨capacity, waitWindow, storageGroup⟩
    rw [invalid?, if_neg ((hword _).1 capacity), if_neg ((hword _).1 waitWindow), if_neg storageGroup]
  · intro hnone
    rw [invalid?] at hnone
    split_ifs at hnone with capacity waitWindow storageGroup
    exact ⟨(hword _).2 capacity, (hword _).2 waitWindow, storageGroup⟩

/-- What is read of a configuration file are the defaults with the settings that are given in their place, if a region can be
opened with these, and else the file is refused as invalid.  A file with an object that gives a setting twice is unreadable,
even if it gives the same value both times. -/
theorem ofText_overlay (text : String) :
    (∀ g : Given, g.Writes text → (g.config.Usable → ofText text = .ok g.config) ∧
      (¬ g.config.Usable → ∃ cause, ofText text = .error (.invalid cause))) ∧
    (GivesTwice text → ∃ fault, ofText text = .error (.unreadable fault)) := by
  refine ⟨fun g writes => ⟨fun usable => ?_, fun unusable => ?_⟩, fun twice => ?_⟩
  · rw [ofText, writes.readDocument]
    simp only [usable_iff.1 usable]
  · obtain ⟨cause, hcause⟩ := Option.ne_none_iff_exists'.1 (mt usable_iff.2 unusable)
    refine ⟨cause, ?_⟩
    rw [ofText, writes.readDocument]
    simp only [hcause]
  · obtain ⟨fault, hfault⟩ := twice.readDocument
    exact ⟨fault, by rw [ofText, hfault]⟩

/-- One file gives a capacity and a group, the group by an escaped name, and has another member.  One gives no capacity, and
one gives a region twice. -/
theorem ofText_overlay_partial :
    ofText ("\x7b\"x\":[null,\x7b\x7d],\"sequencer\":\x7b\"capacity\":8\x7d,\n" ++
        "\"storage\":\x7b\"\\u0073torage_group\":\"root.ln\"\x7d\x7d") = .ok ⟨⟨"./data", "root.ln", 1, true⟩, ⟨8, 10000⟩⟩ ∧
    (∃ cause, ofText "\x7b\"sequencer\":\x7b\"capacity\":0\x7d\x7d" = .error (.invalid cause)) ∧
    ∃ fault, ofText "\x7b\"storage\":\x7b\x7d,\"storage\":\x7b\x7d\x7d" = .error (.unreadable fault) := by
  have plain : ∀ name : String, (name.toList.all fun c => c ≠ '"' ∧ c ≠ '\\' ∧ ¬ c < ' ') = true →
      Spelling name name.toList := fun name h => quotes_self h
  have empty : IsValue ['{', '}'] := .object (.empty areBlanks_nil) (List.forall_mem_nil _)
  have unknown : IsValue "[null,\x7b\x7d]".toList :=
    .list (.values areBlanks_nil (.comma areBlanks_nil areBlanks_nil (.close areBlanks_nil)))
      (List.forall_mem_cons.2 ⟨.null, List.forall_mem_singleton.2 empty⟩)
  have capacity : ∀ n : UInt64, GivenSequencer.Writes ⟨some n, none⟩
      ('{' :: ('"' :: ("capacity".toList ++ '"' :: ':' :: (toString n.toNat).toList) ++ ['}'])) := fun n =>
    ⟨_, .members (isMember_unspaced (plain "capacity" rfl) _) (.close areBlanks_nil),
      ⟨_, rfl, rfl⟩, by simp [Gives], by simp [sequencerNames]⟩
  have group : GivenStorage.Writes ⟨none, some "root.ln", none, none⟩
      "\x7b\"\\u0073torage_group\":\"root.ln\"\x7d".toList := by
    have spelled : Spelling "storage_group" ('\\' :: 'u' :: '0' :: '0' :: '7' :: '3' :: "torage_group".toList) :=
      .code (by decide : hexNumber? ['0', '0', '7', '3'] = some 0x73) (by decide) (quotes_self rfl)
    exact ⟨_, .members (isMember_unspaced spelled "\"root.ln\"".toList) (.close areBlanks_nil), by simp [Gives],
      ⟨_, ⟨_, plain "root.ln" rfl, rfl⟩, rfl⟩, by simp [Gives], by simp [Gives], by simp [storageNames]⟩
  have written : Given.Writes ⟨some ⟨none, some "root.ln", none, none⟩, some ⟨some 8, none⟩⟩
      ("\x7b\"x\":[null,\x7b\x7d],\"sequencer\":\x7b\"capacity\":8\x7d,\n" ++
        "\"storage\":\x7b\"\\u0073torage_group\":\"root.ln\"\x7d\x7d") := by
    have x := isMember_unspaced (plain "x" rfl) "[null,\x7b\x7d]".toList
    have sequencer := isMember_unspaced (plain "sequencer" rfl) "\x7b\"capacity\":8\x7d".toList
    have blank : AreBlanks ['\n'] := List.forall_mem_singleton.2 rfl
    have storage : IsMember Spelling ("storage", "\x7b\"\\u0073torage_group\":\"root.ln\"\x7d".toList) _ :=
      .mk blank (plain "storage" rfl) areBlanks_nil areBlanks_nil
    exact ⟨[], [], _, _, areBlanks_nil, areBlanks_nil, by decide +kernel,
      .members x (.comma areBlanks_nil sequencer (.comma areBlanks_nil storage (.close areBlanks_nil))),
      ⟨_, group, by simp⟩, ⟨_, capacity 8, rfl⟩, by simpa [sectionNames] using unknown⟩
  have zero : Given.Writes ⟨none, some ⟨some 0, none⟩⟩ "\x7b\"sequencer\":\x7b\"capacity\":0\x7d\x7d" :=
    ⟨[], [], _, _, areBlanks_nil, areBlanks_nil, rfl,
      .members (isMember_unspaced (plain "sequencer" rfl) _) (.close areBlanks_nil), by simp [Gives],
      ⟨_, capacity 0, rfl⟩, by simp [sectionNames]⟩
  have twice : GivesTwice "\x7b\"storage\":\x7b\x7d,\"storage\":\x7b\x7d\x7d" := by
    have storage := isMember_unspaced (plain "storage" rfl) ['{', '}']
    exact ⟨[], [], _, _, areBlanks_nil, areBlanks_nil, rfl,
      .members storage (.comma areBlanks_nil storage (.close areBlanks_nil)), by simp [empty],
      .inl ⟨"storage", by decide, by decide⟩⟩
  exact ⟨((ofText_overlay _).1 _ written).1 ⟨by decide, by decide, by decide⟩,
    ((ofText_overlay _).1 _ zero).2 fun usable => absurd usable.capacity (by decide), (ofText_overlay _).2 twice⟩

end Config

end SeriesRegion
