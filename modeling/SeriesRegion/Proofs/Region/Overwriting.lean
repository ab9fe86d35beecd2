import SeriesRegion.Proofs.Region.Loaded
import SeriesRegion.Proofs.Region.Standing

/-!
# Writing a checkpoint into a directory that is in use

While a checkpoint is written the directory holds what it held, until the draft takes its place; from then on it holds the
checkpoint over what there was before (`Region.Placed.standing`).  So wherever writing it and opening the region on it
are stopped, the directory can be opened on the one or on the other (`Region.Openable.assures_restore`).
-/

namespace SeriesRegion.Region

variable {storageGroup : String} {id : UInt32} {dir : Path} {syncWal : Bool} {g : UInt64} {t : Trail} {d d' d₁ : Disk}
  {b : Basis} {table : MemTable}

/-- A draft can be written, and no directory stands where it is to take its place. -/
structure Writable (dir : Path) (g : UInt64) (d : Disk) : Prop where
  draft : ∀ bytes, (d.write (dir.child (Generation.draftName g)) bytes).1 = .ok ()
  free : d.isDirectory (dir.child (Generation.checkpointName g)) = false

/-- A checkpoint can be written into a directory, if no directory has its name or that of its draft. -/
theorem writable_of_leads (leads : d.Leads dir t) (refusal : (dir.child (Generation.draftName g)).refusal? = none)
    (draft : ∀ n, d.node? t.here (Generation.draftName g) ≠ some (.directory n))
    (checkpoint : ∀ n, d.node? t.here (Generation.checkpointName g) ≠ some (.directory n)) : Writable dir g d := by
  have hplain := Generation.isPlain_draftName g
  have hcheckpoint := Path.refusal?_child_of_le refusal (Generation.zero_not_mem_checkpointName g)
    (Generation.utf8ByteSize_checkpointName_le g)
  refine ⟨fun bytes => ?_, ?_⟩
  · cases hn : d.node? t.here (Generation.draftName g) with
    | none =>
      obtain ⟨d', hwrite⟩ := Disk.write_child leads hplain refusal hn (Generation.absence_draftName g) bytes
      rw [hwrite]
    | some node =>
      cases node with
      | directory n => exact absurd hn (draft n)
      | file f =>
        have hfind : d.find (dir.child (Generation.draftName g)) = .ok (.file f) := by
          rw [Disk.find_child leads hplain refusal, hn]
        rw [Disk.write, Disk.openFile_of_find hfind]
  · rw [Disk.isDirectory, Disk.find_child leads (Generation.isPlain_checkpointName g) hcheckpoint]
    cases hn : d.node? t.here (Generation.checkpointName g) with
    | none => rfl
    | some node =>
      cases node with
      | file f => rfl
      | directory n => exact absurd hn (checkpoint n)

namespace Standing

/-- A draft belongs to no generation, whatever is written into it. -/
theorem write_draft (h : Standing dir t b d) (g : UInt64) (bytes : Bytes) :
    Standing dir t b (d.write (dir.child (Generation.draftName g)) bytes).2 := by
  have hnames := h.names.write (dir.child (Generation.draftName g)) bytes
  rcases hwrite : d.write (dir.child (Generation.draftName g)) bytes with ⟨answer, d'⟩
  rw [hwrite] at hnames
  cases answer with
  | error e =>
    obtain rfl := Disk.write_error hwrite
    exact h
  | ok a =>
    obtain ⟨k, f, hl, -, hkeeps, hdraft, hothers, hcontents⟩ := Disk.child_of_write (Generation.isPlain_draftName g) hwrite
    obtain rfl : k = t := Except.ok.inj (hl.symm.trans h.leads)
    refine h.change hnames (hkeeps.leads hl) (fun x l hx _ => ?_) fun x k hx hk => ?_
    · exact hothers x (Generation.draftName_ne_of_ofName? hx)
    · rw [hcontents, if_neg]
      rintro rfl
      have hne := Generation.draftName_ne_of_ofName? (g := g) hx
      exact hne (hnames.unique ((hothers x hne).trans hk) hdraft).2

end Standing

/-- A checkpoint has been put in its place; the other names of generations are what they were. -/
structure Placed (dir : Path) (t : Trail) (g : UInt64) (table : MemTable) (d d' : Disk) : Prop where
  names : d'.OneName
  leads : d'.Leads dir t
  refusal : (dir.child (Generation.checkpointName g)).refusal? = none
  present : (d'.node? t.here (Generation.checkpointName g)).isSome
  image : ((readCheckpoint dir g).run.run d').1 = .ok table
  others : ∀ x k, Generation.ofName? x = some k → x ≠ Generation.checkpointName g →
    d'.node? t.here x = d.node? t.here x
  contents : ∀ f, d'.bytesOf f = d.bytesOf f

/-- The draft takes the place of the checkpoint. -/
theorem placed_of_rename {f : Nat} (names : d.OneName) (leads : d.Leads dir t)
    (draft : d.node? t.here (Generation.draftName g) = some (.file f))
    (image : d.bytesOf f = Binary.Format.memTable.write table) (reads : Binary.Format.memTable.Reads table)
    (rename : d.rename (dir.child (Generation.draftName g)) (dir.child (Generation.checkpointName g)) = (.ok (), d')) :
    Placed dir t g table d d' := by
  have hne : Generation.draftName g ≠ Generation.checkpointName g :=
    (Generation.draftName_ne_of_ofName? (Generation.ofName?_checkpointName g)).symm
  have hnames := names.rename (dir.child (Generation.draftName g)) (dir.child (Generation.checkpointName g))
  rw [rename] at hnames
  obtain ⟨hr, hkeeps, -, hcheckpoint, hothers, hfiles⟩ := Disk.child_of_rename (Generation.isPlain_draftName g)
    (Generation.isPlain_checkpointName g) hne leads draft rename
  have hbytes : ∀ k, d'.bytesOf k = d.bytesOf k := fun k => by rw [Disk.bytesOf, hfiles, Disk.bytesOf]
  refine ⟨hnames, hkeeps.leads leads, hr, by rw [hcheckpoint]; rfl, ?_, fun x k hx hc => ?_, hbytes⟩
  · rw [run_readCheckpoint, Disk.find_child (hkeeps.leads leads) (Generation.isPlain_checkpointName g) hr, hcheckpoint]
    simp only [hbytes, image, reads.decode]
    rfl
  · exact hothers x (Generation.draftName_ne_of_ofName? hx) hc

namespace Placed

/-- No name is of a later generation than the checkpoint, if none was before. -/
theorem highest (h : Placed dir t g table d d')
    (bound : ∀ x k, (d.node? t.here x).isSome → Generation.ofName? x = some k → k ≤ g) {x : String} {k : UInt64}
    (hx : (d'.node? t.here x).isSome) (hk : Generation.ofName? x = some k) : k ≤ g := by
  by_cases hc : x = Generation.checkpointName g
  · rw [hc, Generation.ofName?_checkpointName] at hk
    cases hk
    exact UInt64.le_refl g
  · rw [h.others x k hk hc] at hx
    exact bound x k hx hk

theorem log (h : Placed dir t g table d d') :
    d'.node? t.here (Generation.logName g) = d.node? t.here (Generation.logName g) :=
  h.others _ _ (Generation.ofName?_logName g) (Generation.checkpointName_ne_logName _ _).symm

theorem standing_later (h : Placed dir t g table d d') (stands : Standing dir t b d) (refusal : dir.refusal? = none)
    (later : b.generation < g) : Standing dir t ⟨g, table, []⟩ d' := by
  have hvacant : d'.node? t.here (Generation.logName g) = none := by
    rw [h.log]
    cases hn : d.node? t.here (Generation.logName g) with
    | none => rfl
    | some node =>
      have hle := stands.highest refusal _ g (by rw [hn]; rfl) (Generation.ofName?_logName g)
      exact absurd later (UInt64.not_lt.2 hle)
  refine ⟨h.names, h.leads, ?_, fun _ x k => h.highest fun y l hy hl => ?_,
    .inr ⟨refusal, _, h.present, Generation.ofName?_checkpointName _⟩, h.image, .inl ⟨hvacant, rfl⟩⟩
  · exact Path.refusal?_child_of_le h.refusal (Generation.zero_not_mem_logName g) (Generation.utf8ByteSize_logName_le g)
  · exact UInt64.le_of_lt (UInt64.lt_of_le_of_lt (stands.highest refusal y l hy hl) later)

theorem standing_same (h : Placed dir t b.generation table d d') (stands : Standing dir t b d) :
    Standing dir t ⟨b.generation, table, b.entries⟩ d' := by
  refine ⟨h.names, h.leads, stands.refusal, fun hr x k => h.highest (stands.highest hr), stands.reached.imp_right ?_,
    h.image, ?_⟩
  · rintro ⟨hr, -⟩
    exact ⟨hr, _, h.present, Generation.ofName?_checkpointName _⟩
  · rw [h.log]
    simp only [h.contents]
    exact stands.log

theorem standing_earlier (h : Placed dir t g table d d') (stands : Standing dir t b d) (earlier : g < b.generation) :
    Standing dir t b d' := by
  refine stands.change h.names h.leads (fun x k hk hle => h.others x k hk ?_) fun _ f _ _ => h.contents f
  rintro rfl
  rw [Generation.ofName?_checkpointName] at hk
  cases hk
  exact UInt64.not_le.2 earlier hle

/-- The directory then holds the checkpoint over what it held. -/
theorem standing (h : Placed dir t g table d d') (stands : Standing dir t b d)
    (later : b.generation < g → dir.refusal? = none) : Standing dir t (b.overlay g table) d' := by
  rw [Basis.overlay]
  split
  · exact h.standing_later stands (later ‹_›) ‹_›
  · split
    · rename_i hsame
      subst hsame
      exact h.standing_same stands
    · rename_i hlater hsame
      exact h.standing_earlier stands (UInt64.lt_of_le_of_ne (UInt64.not_lt.1 hlater) hsame)

end Placed

/-- Once a draft has been written and has taken its place, both were possible. -/
theorem writable_of_rename {bytes : Bytes} {d₂ : Disk} (hl : d.Leads dir t)
    (hwrite : d.write (dir.child (Generation.draftName g)) bytes = (.ok (), d₁))
    (hrename : d₁.rename (dir.child (Generation.draftName g)) (dir.child (Generation.checkpointName g)) = (.ok (), d₂)) :
    Writable dir g d := by
  obtain ⟨k, f, hk, -, hkeeps, hfile, hothers, -⟩ := Disk.child_of_write (Generation.isPlain_draftName g) hwrite
  obtain rfl : k = t := Except.ok.inj (hk.symm.trans hl)
  refine ⟨fun bytes' => ?_, ?_⟩
  · rw [Disk.write] at hwrite ⊢
    rcases hopen : d.openFile (dir.child (Generation.draftName g)) with ⟨answer, d'⟩
    rw [hopen] at hwrite
    cases answer with
    | error e => cases hwrite
    | ok f => rfl
  · obtain ⟨s, x, u, y, node, hsource, htarget, hnode, hrenamed⟩ := Disk.rename_ok hrename
    obtain ⟨hs, rfl, -⟩ := Disk.leads_of_place (Generation.isPlain_draftName g) hsource
    obtain ⟨hu, rfl, hrefusal⟩ := Disk.leads_of_place (Generation.isPlain_checkpointName g) htarget
    obtain rfl : s = k := Except.ok.inj (hs.symm.trans (hkeeps.leads hk))
    obtain rfl : u = s := Except.ok.inj (hu.symm.trans hs)
    rw [hfile] at hnode
    cases hnode
    have hne := Generation.draftName_ne_of_ofName? (g := g) (Generation.ofName?_checkpointName g)
    obtain ⟨-, hsame⟩ | ⟨hfree, -⟩ := hrenamed
    · exact absurd hsame.symm hne
    · rw [Disk.isDirectory, Disk.find_child hk (Generation.isPlain_checkpointName g) hrefusal, ← hothers _ hne]
      cases hn : d₁.node? u.here (Generation.checkpointName g) with
      | none => rfl
      | some node =>
        cases node with
        | file f => rfl
        | directory n => exact absurd hn (hfree rfl n)

/-- What has been written as a draft can take its place, if no directory stands there. -/
theorem rename_of_writable {bytes : Bytes} (writable : Writable dir g d) (hl : d.Leads dir t)
    (hwrite : d.write (dir.child (Generation.draftName g)) bytes = (.ok (), d₁)) :
    ∃ d₂, d₁.rename (dir.child (Generation.draftName g)) (dir.child (Generation.checkpointName g)) = (.ok (), d₂) := by
  obtain ⟨k, f, hk, hrefusal, hkeeps, hfile, hothers, -⟩ := Disk.child_of_write (Generation.isPlain_draftName g) hwrite
  obtain rfl : k = t := Except.ok.inj (hk.symm.trans hl)
  have hcheckpoint := Path.refusal?_child_of_le hrefusal (Generation.zero_not_mem_checkpointName g)
    (Generation.utf8ByteSize_checkpointName_le g)
  refine Disk.rename_child (Generation.isPlain_draftName g) (Generation.isPlain_checkpointName g) (hkeeps.leads hl) hrefusal
    hcheckpoint hfile (Generation.absence_checkpointName g) fun n hn => ?_
  rw [hothers _ (Generation.draftName_ne_of_ofName? (Generation.ofName?_checkpointName g))] at hn
  have hfree := writable.free
  rw [Disk.isDirectory, Disk.find_child hl (Generation.isPlain_checkpointName g) hcheckpoint, hn] at hfree
  cases hfree

section Stopped

variable {stopped : Disk → Prop} (h : Openable dir b d) (before : ∀ d, Openable dir b d → stopped d)
  (after : Writable dir g (d.makeDirectories dir).2 → ∀ d, Openable dir (b.overlay g table) d → stopped d)
  (reads : Binary.Format.memTable.Reads table) (later : b.generation < g → dir.refusal? = none)

include h before after reads later

/-- Wherever writing a checkpoint is stopped, the directory can be opened on what it held, or on the checkpoint over it.  If it
is written to its end the directory holds the checkpoint, and if not it has not been possible. -/
theorem Openable.assures_writeCheckpoint :
    (writeCheckpoint dir g table).run.Assures stopped
      (fun
        | .ok (), d' => Writable dir g (d.makeDirectories dir).2 ∧ ∃ t, Standing dir t (b.overlay g table) d'
        | .error _, d' => ¬ Writable dir g (d.makeDirectories dir).2 ∧ ∃ t, Standing dir t b d') d := by
  obtain ⟨t, d₁, hmade, hstanding⟩ := h
  have hmake : (FileWork.attempt (.perform (.makeDirectories dir)) RegionFault.io).run.Assures stopped
      (fun answer d' => answer = .ok () ∧ d' = d₁) d := by
    refine FileWork.assures_attempt_ok (FileTask.assures_performed hmade rfl (before _ ⟨t, d₁, hmade, hstanding⟩) ?_
      (before _ hstanding.openable))
    rintro d' ⟨⟩
    exact before _ ⟨t, d₁, Disk.makeDirectories_makeSome hmade _, hstanding⟩
  rw [hmade] at after ⊢
  refine FileWork.assures_bind_ok hmake ?_
  rcases hwrite : d₁.write (dir.child (Generation.draftName g)) (Binary.Format.memTable.write table) with ⟨answer, d₂⟩
  have hwritten : Standing dir t b d₂ := by
    have := hstanding.write_draft g (Binary.Format.memTable.write table)
    rwa [hwrite] at this
  have hdraft : (FileTask.perform (.write (dir.child (Generation.draftName g)) (Binary.Format.memTable.write table))).Assures
      stopped (fun a d' => a = answer ∧ d' = d₂) d₁ := by
    refine FileTask.assures_performed hwrite rfl (before _ hstanding.openable) ?_ (before _ hwritten.openable)
    rintro d' ⟨⟩
    exact before _ (hstanding.write_draft g _).openable
  cases answer with
  | error e =>
    obtain rfl := Disk.write_error hwrite
    refine FileWork.assures_bind_error (FileWork.assures_attempt_error hdraft) ⟨fun hwritable => ?_, t, hstanding⟩
    have := hwritable.draft (Binary.Format.memTable.write table)
    rw [hwrite] at this
    cases this
  | ok a =>
    refine FileWork.assures_bind_ok (FileWork.assures_attempt_ok hdraft) ?_
    obtain ⟨k, f, hl, -, -, hfile, -, hcontents⟩ := Disk.child_of_write (Generation.isPlain_draftName g) hwrite
    obtain rfl : k = t := Except.ok.inj (hl.symm.trans hstanding.leads)
    have himage : d₂.bytesOf f = Binary.Format.memTable.write table := by rw [hcontents, if_pos rfl]
    rcases hrename : d₂.rename (dir.child (Generation.draftName g)) (dir.child (Generation.checkpointName g)) with
      ⟨answer, d₃⟩
    have hput (here : stopped d₃) : (FileTask.perform (.rename (dir.child (Generation.draftName g))
        (dir.child (Generation.checkpointName g)))).Assures stopped (fun a d' => a = answer ∧ d' = d₃) d₂ :=
      FileTask.assures_performed hrename rfl (before _ hwritten.openable)
        (fun _ begins => (Disk.not_begins rfl begins).elim) here
    cases answer with
    | ok a =>
      have hplaced := placed_of_rename hwritten.names hwritten.leads hfile himage reads hrename
      have hstands := hplaced.standing hwritten later
      have hwritable := writable_of_rename hl hwrite hrename
      refine (FileWork.assures_attempt_ok (hput (after hwritable _ hstands.openable))).mono (fun _ here => here) ?_
      rintro _ _ - ⟨rfl, rfl⟩
      exact ⟨hwritable, _, hstands⟩
    | error e =>
      obtain rfl := Disk.rename_error hrename
      refine (FileWork.assures_attempt_error (hput (before _ hwritten.openable))).mono (fun _ here => here) ?_
      rintro _ _ - ⟨rfl, rfl⟩
      refine ⟨fun hwritable => ?_, _, hwritten⟩
      obtain ⟨d₄, hsucceeds⟩ := rename_of_writable hwritable hl hwrite
      rw [hrename] at hsucceeds
      cases hsucceeds

/-- Wherever opening a region on a table that is written as a checkpoint is stopped, the directory can be opened on what it
held, or on the checkpoint over it.  If it ends it has succeeded, unless the checkpoint could not be written. -/
theorem Openable.assures_restore :
    (restore storageGroup id dir g table syncWal).run.Assures stopped
      (fun
        | .ok r, d' => Writable dir g (d.makeDirectories dir).2 ∧
          (∃ file, r = ⟨storageGroup, id, dir, (b.overlay g table).generation, syncWal,
            ⟨dir.child (Generation.logName (b.overlay g table).generation), file, syncWal⟩, (b.overlay g table).table⟩) ∧
          ∃ t, Standing dir t (b.overlay g table) d'
        | .error _, d' => ¬ Writable dir g (d.makeDirectories dir).2 ∧ ∃ t, Standing dir t b d') d := by
  refine FileWork.assures_bind ((h.assures_writeCheckpoint before after reads later).mono (fun _ here => here) ?_)
  rintro (e | ⟨⟩) d' here hwritten
  · exact hwritten
  · obtain ⟨hwritable, t, hstanding⟩ := hwritten
    refine FileTask.Assures.bind ((hstanding.assures_openAt storageGroup id syncWal).mono
      (fun _ h => after hwritable _ h.openable) ?_)
    rintro _ d'' - ⟨hstands, file, rfl⟩
    exact ⟨after hwritable _ hstands.openable, hwritable, ⟨file, rfl⟩, t, hstands⟩

end Stopped

end SeriesRegion.Region
