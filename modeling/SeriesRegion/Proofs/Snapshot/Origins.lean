import SeriesRegion.Proofs.Disk.Making
import SeriesRegion.Proofs.Log.Misfits
import SeriesRegion.Proofs.Snapshot.Held
import SeriesRegion.Proofs.Region.Standing

/-!
# Where the files of regions and snapshots come from

What regions and snapshots keep in files is made of inserts and of nothing else: a log holds entries that were inserted, and
an image is that of a table that such entries have made (`Disk.Traced`).  No file operation of a region or of a snapshot
changes this, on whatever directories it works: a log is opened (`Disk.Traced.openLog`) and appended to
(`Disk.Traced.append`), and an image is written (`Disk.Traced.write`) and renamed (`Disk.Traced.rename`).
-/

namespace SeriesRegion

variable {es es' : List LogEntry} {e : LogEntry} {t : MemTable} {bs : Bytes}

/-! ### Tables, logs and images -/

/-- A table has been made of inserts, some of them, in some order and some of them more than once. -/
def MemTable.MadeOf (t : MemTable) (es : List LogEntry) : Prop := ∃ made, made ⊆ es ∧ t = empty.applyAll made

theorem MemTable.madeOf_empty (es : List LogEntry) : empty.MadeOf es := ⟨[], List.nil_subset _, rfl⟩

theorem MemTable.MadeOf.mono (h : t.MadeOf es) (subset : es ⊆ es') : t.MadeOf es' := by
  obtain ⟨made, hmade, ht⟩ := h
  exact ⟨made, List.Subset.trans hmade subset, ht⟩

theorem MemTable.MadeOf.applyAll (h : t.MadeOf es) {more : List LogEntry} (subset : more ⊆ es) :
    (t.applyAll more).MadeOf es := by
  obtain ⟨made, hmade, rfl⟩ := h
  exact ⟨made ++ more, List.append_subset.2 ⟨hmade, subset⟩, (applyAll_append empty made more).symm⟩

/-- What is read of a log are inserts, and the log is read to its end unless it is refused. -/
structure Log.WrittenBy (bs : Bytes) (es : List LogEntry) : Prop where
  entries : (scan bs).entries ⊆ es
  complete : (scan bs).fault = none → Whole bs (scan bs).entries

theorem Log.writtenBy_nil (es : List LogEntry) : WrittenBy [] es := by
  have hnil : scan [] = ⟨[], 0, none⟩ := whole_nil
  refine ⟨?_, fun _ => ?_⟩
  · rw [hnil]
    exact List.nil_subset _
  · rw [hnil]
    exact whole_nil

theorem Log.WrittenBy.mono (h : WrittenBy bs es) (subset : es ⊆ es') : WrittenBy bs es' :=
  ⟨List.Subset.trans h.entries subset, h.complete⟩

/-- A log that is refused stays as it is read, whatever is appended. -/
theorem Log.scan_append_of_fault {fault : Binary.Fault} (h : (scan bs).fault = some fault) (more : Bytes) :
    scan (bs ++ more) = scan bs := by
  induction hn : bs.length using Nat.strongRecOn generalizing bs with
  | _ n ih =>
    rw [scan_eq] at h
    rw [scan_eq bs, scan_eq (bs ++ more)]
    cases hf : firstFrame? bs with
    | none =>
      rw [hf] at h
      cases h
    | some p =>
      obtain ⟨entry, rest⟩ := p
      have hlength := firstFrame?_length hf
      rw [firstFrame?_append hf]
      simp only [hf] at h ⊢
      cases hd : Binary.Format.logEntry.decode entry with
      | error e => rfl
      | ok e =>
        simp only [hd] at h ⊢
        rw [ih rest.length (by omega) h rfl]

/-- Appending an insert leaves a log of inserts, whatever its length. -/
theorem Log.WrittenBy.append (h : WrittenBy bs es) (memory : (Binary.Format.logEntry.write e).length < UInt64.size) :
    WrittenBy (bs ++ frameOf e) (es ++ [e]) := by
  have hbefore : (scan bs).entries ⊆ es ++ [e] := List.Subset.trans h.entries (List.subset_append_left _ _)
  have hentries : (scan bs).entries ++ [e] ⊆ es ++ [e] :=
    List.append_subset.2 ⟨hbefore, List.subset_append_right _ _⟩
  cases hfault : (scan bs).fault with
  | some fault =>
    have hscan := scan_append_of_fault hfault (frameOf e)
    refine ⟨?_, fun hnone => ?_⟩
    · rw [hscan]
      exact hbefore
    · rw [hscan, hfault] at hnone
      cases hnone
  | none =>
    have hwhole := h.complete hfault
    by_cases hfits : Fits e
    · have happend := hwhole.append (whole_frameOf hfits)
      have hscan : (scan (bs ++ frameOf e)).entries = (scan bs).entries ++ [e] := congrArg Scan.entries happend
      rw [← hscan] at happend hentries
      exact ⟨hentries, fun _ => happend⟩
    · obtain ⟨length, fault, hscan⟩ := hwhole.scan_misfit (List.forall_mem_nil _) memory hfits []
      rw [List.nil_append, framesOf_singleton, List.append_nil] at hscan
      refine ⟨?_, fun hnone => ?_⟩
      · rw [hscan]
        exact hbefore
      · rw [hscan] at hnone
        cases hnone

/-- Bytes are the image of a table that has been made of inserts. -/
def Snapshot.IsImageOf (bs : Bytes) (es : List LogEntry) : Prop :=
  ∃ t : MemTable, t.MadeOf es ∧ Binary.Format.memTable.Reads t ∧ bs = Binary.Format.memTable.write t

theorem Snapshot.IsImageOf.mono (h : IsImageOf bs es) (subset : es ⊆ es') : IsImageOf bs es' := by
  obtain ⟨t, hmade, hreads, hbs⟩ := h
  exact ⟨t, hmade.mono subset, hreads, hbs⟩

theorem Snapshot.IsImageOf.decode (h : IsImageOf bs es) (hd : Binary.Format.memTable.decode bs = .ok t) :
    t.MadeOf es ∧ IsImageOf (Binary.Format.memTable.write t) es := by
  obtain ⟨t', hmade, hreads, rfl⟩ := h
  obtain rfl : t' = t := Except.ok.inj (hreads.decode.symm.trans hd)
  exact ⟨hmade, t', hmade, hreads, rfl⟩

/-! ### Names -/

/-- The names of images: those of checkpoints and their drafts, and that of the data of a snapshot. -/
inductive Snapshot.IsImageName : String → Prop
  | data : IsImageName dataName
  | checkpoint (g : UInt64) : IsImageName (Generation.checkpointName g)
  | draft (g : UInt64) : IsImageName (Generation.draftName g)

theorem Generation.head?_logName (g : UInt64) : (logName g).toList.head? = some 'w' := by
  rw [logName_toList]
  rfl

theorem Generation.head?_checkpointName (g : UInt64) : (checkpointName g).toList.head? = some 'c' := by
  rw [checkpointName_toList]
  rfl

theorem Generation.head?_draftName (g : UInt64) : (draftName g).toList.head? = some 'c' := by
  rw [draftName_toList, List.head?_append, head?_checkpointName]
  rfl

theorem Snapshot.IsImageName.head? {x : String} (h : IsImageName x) :
    x.toList.head? = some 'd' ∨ x.toList.head? = some 'c' := by
  cases h with
  | data => exact .inl rfl
  | checkpoint g => exact .inr (Generation.head?_checkpointName g)
  | draft g => exact .inr (Generation.head?_draftName g)

/-- No image has the name of a log. -/
theorem Snapshot.IsImageName.ne_logName {x : String} (h : IsImageName x) (g : UInt64) : x ≠ Generation.logName g := by
  rintro rfl
  have hhead := h.head?
  rw [Generation.head?_logName] at hhead
  obtain hhead | hhead := hhead <;> cases hhead

/-! ### Disks -/

namespace Disk

/-- What stands under the names of logs and of images is made of inserts, and so are logs that are open, which stand under
names of logs or have lost their names. -/
structure Traced (es : List LogEntry) (logs : List Nat) (d : Disk) : Prop where
  names : d.OneName
  log : ∀ {k g f}, d.node? k (Generation.logName g) = some (.file f) → Log.WrittenBy (d.bytesOf f) es
  image : ∀ {k x f}, Snapshot.IsImageName x → d.node? k x = some (.file f) → Snapshot.IsImageOf (d.bytesOf f) es
  used : ∀ f ∈ logs, f < d.files.next
  named : ∀ f ∈ logs, ∀ {k x}, d.node? k x = some (.file f) → ∃ g, x = Generation.logName g
  written : ∀ f ∈ logs, Log.WrittenBy (d.bytesOf f) es

variable {logs : List Nat} {d d' : Disk} {dir : Path} {x y : String} {f : Nat}

/-- A file that has been opened stands under its name, and other names have not been given. -/
theorem file_of_openFile (h : d.openFile (dir.child x) = (.ok f, d')) :
    ∃ k, d'.node? k x = some (.file f) ∧
      (∀ {j y g}, d'.node? j y = some (.file g) → j = k ∧ y = x ∨ d.node? j y = some (.file g)) ∧
      (∀ g, d'.bytesOf g = d.bytesOf g) ∧ d.files.next ≤ d'.files.next ∧
      (d.node? k x = some (.file f) ∨ f = d.files.next ∧ d.bytesOf f = []) := by
  obtain ⟨t, x', hp, -, hfile⟩ := openFile_ok h
  obtain rfl := place_child hp
  obtain ⟨hx, rfl⟩ | ⟨-, rfl, rfl⟩ := hfile
  · exact ⟨t.here, hx, .inr, fun _ => rfl, Nat.le_refl _, .inl hx⟩
  · refine ⟨t.here, ?_, fun hy => ?_, d.bytesOf_createFile t.here x', ?_, .inr ⟨rfl, ?_⟩⟩
    · rw [node?_createFile, if_pos ⟨rfl, rfl⟩]
    · rw [node?_createFile] at hy
      split at hy
      · exact .inl (by assumption)
      · exact .inr hy
    · show d.files.next ≤ (d.setBytes d.files.next []).files.next
      rw [next_setBytes]
      exact Nat.le_max_left _ _
    · rw [bytesOf, Numbered.get_of_next_le (Nat.le_refl _)]
      rfl

namespace Traced

/-- A log may be closed. -/
theorem close (h : Traced es logs d) {logs' : List Nat} (subset : logs' ⊆ logs) : Traced es logs' d :=
  ⟨h.names, h.log, h.image, fun f hf => h.used f (subset hf), fun f hf => h.named f (subset hf),
    fun f hf => h.written f (subset hf)⟩

/-- Names may be taken away. -/
theorem shed (h : Traced es logs d) (names : d'.OneName)
    (nodes : ∀ {k x f}, d'.node? k x = some (.file f) → d.node? k x = some (.file f)) (files : d'.files = d.files) :
    Traced es logs d' := by
  have hbytes : ∀ f, d'.bytesOf f = d.bytesOf f := fun f => by rw [bytesOf, bytesOf, files]
  refine ⟨names, fun hx => ?_, fun himage hx => ?_, fun f hf => files ▸ h.used f hf, fun f hf k x hx => ?_, fun f hf => ?_⟩
  · rw [hbytes]
    exact h.log (nodes hx)
  · rw [hbytes]
    exact h.image himage (nodes hx)
  · exact h.named f hf (nodes hx)
  · rw [hbytes]
    exact h.written f hf

theorem makeDirectory (h : Traced es logs d) (p : Path) : Traced es logs (d.makeDirectory p).2 := by
  have hnames := h.names.makeDirectory p
  rw [Disk.makeDirectory] at hnames ⊢
  cases hp : d.place p with
  | error e => exact h
  | ok place =>
    cases place with
    | inside t => exact h
    | entry t x =>
      simp only [hp] at hnames ⊢
      cases hn : d.node? t.here x with
      | some node => exact h
      | none =>
        simp only [hn] at hnames ⊢
        split
        · rename_i habsent
          rw [if_pos habsent] at hnames
          refine h.shed hnames (fun {k y f} hy => ?_) (by rw [createDirectory, put, clear])
          rw [node?_createDirectory] at hy
          split at hy
          · cases hy
          · exact hy
        · exact h

theorem makeDirectories (h : Traced es logs d) (p : Path) : Traced es logs (d.makeDirectories p).2 :=
  makeDirectories_induction (fun _ p hd => hd.makeDirectory p) h p

theorem remove (h : Traced es logs d) (p : Path) : Traced es logs (d.remove p).2 := by
  refine h.shed (h.names.remove p) (fun {k y g} hy => ?_) (d.files_remove p)
  obtain hr | ⟨t, x, f, -, -, hr⟩ := d.remove_cases p
  · rwa [hr] at hy
  · rw [hr, node?_drop] at hy
    split at hy
    · cases hy
    · exact hy

/-- Bytes may be put into a file, under a name at which they may stand. -/
theorem store (h : Traced es logs d) {k : Nat} (names : d'.OneName) (here : d'.node? k x = some (.file f))
    (nodes : ∀ {j y g}, d'.node? j y = some (.file g) → j = k ∧ y = x ∨ d.node? j y = some (.file g))
    (contents : ∀ g, d'.bytesOf g = if g = f then bs else d.bytesOf g) (next : d.files.next ≤ d'.files.next)
    (log : ∀ g, x = Generation.logName g → Log.WrittenBy bs es) (image : Snapshot.IsImageName x → Snapshot.IsImageOf bs es)
    (opened : f ∈ logs → ∃ g, x = Generation.logName g) : Traced es logs d' := by
  -- A file other than the one that is written has kept its names.
  have hother : ∀ {j y g}, g ≠ f → d'.node? j y = some (.file g) → d.node? j y = some (.file g) := by
    intro j y g hne hy
    obtain ⟨rfl, rfl⟩ | hbefore := nodes hy
    · rw [here] at hy
      cases hy
      exact absurd rfl hne
    · exact hbefore
  constructor
  case names => exact names
  case log =>
    intro j g f' hy
    rw [contents]
    split
    · rename_i hf
      subst hf
      exact log g (names.unique here hy).2
    · rename_i hne
      exact h.log (hother hne hy)
  case image =>
    intro j y f' hname hy
    rw [contents]
    split
    · rename_i hf
      subst hf
      obtain ⟨-, rfl⟩ := names.unique here hy
      exact image hname
    · rename_i hne
      exact h.image hname (hother hne hy)
  case used => exact fun g hg => Nat.lt_of_lt_of_le (h.used g hg) next
  case named =>
    intro g hg j y hy
    by_cases hf : g = f
    · subst hf
      obtain ⟨-, rfl⟩ := names.unique here hy
      exact opened hg
    · exact h.named g hg (hother hf hy)
  case written =>
    intro g hg
    rw [contents]
    split
    · rename_i hf
      subst hf
      obtain ⟨k, hk⟩ := opened hg
      exact log k hk
    · exact h.written g hg

/-- A log that is opened is among those that are open from then on. -/
theorem openLog (h : Traced es logs d) {g : UInt64} (hopen : d.openFile (dir.child (Generation.logName g)) = (.ok f, d')) :
    Traced es (f :: logs) d' := by
  have hnames := h.names.openFile (dir.child (Generation.logName g))
  rw [hopen] at hnames
  obtain ⟨k, here, nodes, contents, next, hfile⟩ := file_of_openFile hopen
  have hwritten : Log.WrittenBy (d.bytesOf f) es := by
    obtain hx | ⟨-, hempty⟩ := hfile
    · exact h.log hx
    · rw [hempty]
      exact Log.writtenBy_nil es
  have hcontents : ∀ j, d'.bytesOf j = if j = f then d.bytesOf f else d.bytesOf j := by
    intro j
    rw [contents]
    split
    · rename_i hj
      rw [hj]
    · rfl
  have hafter : Traced es logs d' := by
    refine h.store hnames here nodes hcontents next (fun _ _ => hwritten)
      (fun himage => absurd rfl (himage.ne_logName g)) fun _ => ⟨g, rfl⟩
  refine ⟨hnames, hafter.log, hafter.image, ?_, ?_, ?_⟩ <;> refine List.forall_mem_cons.2 ⟨?_, ?_⟩
  · exact hnames.used here
  · exact hafter.used
  · exact fun hy => ⟨g, (hnames.unique hy here).2⟩
  · exact hafter.named
  · rw [contents]
    exact hwritten
  · exact hafter.written

/-- What is written under a name that is not that of a log is an image, if the name is that of an image. -/
theorem write (h : Traced es logs d) (plain : ∀ g, x ≠ Generation.logName g)
    (image : Snapshot.IsImageName x → Snapshot.IsImageOf bs es) : Traced es logs (d.write (dir.child x) bs).2 := by
  have hnames := h.names.write (dir.child x) bs
  rw [Disk.write] at hnames ⊢
  rcases hopen : d.openFile (dir.child x) with ⟨answer, d₁⟩
  rw [hopen] at hnames
  cases answer with
  | error e =>
    obtain rfl := openFile_error hopen
    exact h
  | ok f =>
    obtain ⟨k, here, nodes, contents, next, hfile⟩ := file_of_openFile hopen
    refine h.store hnames here nodes (fun g => ?_) ?_ (fun g hg => absurd hg (plain g)) image fun hf => ?_
    · rw [bytesOf_setBytes, contents]
    · rw [next_setBytes]
      exact Nat.le_trans next (Nat.le_max_left _ _)
    · obtain hx | ⟨rfl, -⟩ := hfile
      · exact h.named f hf hx
      · exact absurd (h.used _ hf) (Nat.lt_irrefl _)

/-- What is renamed is no log, and an image if its new name is that of an image. -/
theorem rename (h : Traced es logs d) (plain : ∀ g, x ≠ Generation.logName g) (plain' : ∀ g, y ≠ Generation.logName g)
    (image : Snapshot.IsImageName y → Snapshot.IsImageName x) :
    Traced es logs (d.rename (dir.child x) (dir.child y)).2 := by
  have hnames := h.names.rename (dir.child x) (dir.child y)
  obtain hr | ⟨s, x', t, y', node, hs, ht, hn, hr⟩ := d.rename_cases (dir.child x) (dir.child y)
  · rw [hr]
    exact h
  · obtain rfl := place_child hs
    obtain rfl := place_child ht
    rw [hr] at hnames ⊢
    -- A file stands under its new name, or where it stood.
    have hnodes : ∀ {j z f}, ((d.drop s.here x').put t.here y' node).node? j z = some (.file f) →
        z = y' ∧ d.node? s.here x' = some (.file f) ∨ d.node? j z = some (.file f) := by
      intro j z f hz
      rw [node?_put, node?_drop] at hz
      split at hz
      · rename_i hy
        cases hz
        exact .inl ⟨hy.2, hn⟩
      · split at hz
        · cases hz
        · exact .inr hz
    have hfiles : ((d.drop s.here x').put t.here y' node).files = d.files := by rw [put, drop]
    have hbytes : ∀ f, ((d.drop s.here x').put t.here y' node).bytesOf f = d.bytesOf f := fun f => by
      rw [bytesOf, hfiles, bytesOf]
    constructor
    case names => exact hnames
    case log =>
      intro j g f hz
      rw [hbytes]
      obtain ⟨rfl, -⟩ | hz := hnodes hz
      · exact absurd rfl (plain' g)
      · exact h.log hz
    case image =>
      intro j z f himage hz
      rw [hbytes]
      obtain ⟨rfl, hx⟩ | hz := hnodes hz
      · exact h.image (image himage) hx
      · exact h.image himage hz
    case used =>
      intro f hf
      rw [hfiles]
      exact h.used f hf
    case named =>
      intro f hf j z hz
      obtain ⟨-, hx⟩ | hz := hnodes hz
      · obtain ⟨g, hg⟩ := h.named f hf hx
        exact absurd hg (plain g)
      · exact h.named f hf hz
    case written =>
      intro f hf
      rw [hbytes]
      exact h.written f hf

/-- An insert that is appended to an open log is one of the inserts from then on. -/
theorem append (h : Traced es logs d) (hf : f ∈ logs) (memory : (Binary.Format.logEntry.write e).length < UInt64.size) :
    Traced (es ++ [e]) logs (d.append f (Log.frameOf e)) := by
  have hsubset : es ⊆ es ++ [e] := List.subset_append_left _ _
  have hlog : ∀ {g}, Log.WrittenBy (d.bytesOf g) es →
      Log.WrittenBy ((d.append f (Log.frameOf e)).bytesOf g) (es ++ [e]) := by
    intro g hg
    rw [bytesOf_append]
    split
    · exact (h.written f hf).append memory
    · exact hg.mono hsubset
  have hnode := (d.agreeBut_append f (Log.frameOf e)).node?
  constructor
  case names => exact h.names.perform (.append f (Log.frameOf e))
  case log => exact fun {k g f'} hx => hlog (h.log (hnode k _ ▸ hx))
  case image =>
    intro k x g himage hx
    rw [hnode] at hx
    rw [bytesOf_append, if_neg]
    · exact (h.image himage hx).mono hsubset
    · rintro rfl
      obtain ⟨k, rfl⟩ := h.named _ hf hx
      exact himage.ne_logName k rfl
  case used =>
    refine fun g hg => Nat.lt_of_lt_of_le (h.used g hg) (Nat.le_trans (Nat.le_max_left _ (f + 1)) (Nat.le_of_eq ?_))
    exact (Numbered.next_modify _ _ _).symm
  case named => exact fun g hg k x hx => h.named g hg (hnode k x ▸ hx)
  case written => exact fun g hg => hlog (h.written g hg)

end Traced

end Disk

end SeriesRegion
