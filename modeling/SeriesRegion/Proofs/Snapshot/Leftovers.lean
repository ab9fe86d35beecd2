import SeriesRegion.Proofs.Snapshot.Held

/-!
# What an attempt at a snapshot leaves behind

A snapshot is taken into a directory in which there is nothing, or at most the two files that an attempt leaves behind that
has been stopped (`Snapshot.Cleared`).  Wherever another one is stopped, the directory is such a directory again, or it has the
snapshot (`Snapshot.Clear.assures_take`).  A directory with any other name in it is left alone
(`Snapshot.assures_take_refused`).
-/

namespace SeriesRegion.Snapshot

variable {target : Path} {t : Trail} {x : String} {r : Region} {stamp : Stamp} {d d' : Disk}

/-- A name is listed in a directory. -/
def Lists (dir : Path) (x : String) (d : Disk) : Prop := ∃ names, d.list dir = .ok names ∧ x ∈ names

/-- A directory in which there are at most the files that an attempt leaves behind. -/
def Leftovers (target : Path) (d : Disk) : Prop :=
  ∃ k, d.find target = .ok (.directory k) ∧
    ∀ x node, d.node? k x = some node → isLeftover x = true ∧ node.isFile = true

/-- A directory with a snapshot of a region: its image, and the manifest of it. -/
structure Complete (target : Path) (r : Region) (stamp : Stamp) (d : Disk) : Prop where
  listed : Lists target manifestName d
  image : d.read (target.child dataName) = .ok (Binary.Format.memTable.write r.table)
  manifest : d.read (target.child manifestName) =
    .ok (Bytes.ofText (manifestOf r (Binary.Format.memTable.write r.table) stamp).text)

theorem isLeftover_iff : isLeftover x = true ↔ x = dataName ∨ x = draftName := decide_eq_true_iff

theorem isPlain_leftover (h : isLeftover x = true) : Disk.IsPlain x := by
  obtain rfl | rfl := isLeftover_iff.1 h
  · exact plain_names.1
  · exact plain_names.2.1

theorem absence_leftover (h : isLeftover x = true) : Disk.absence x = .notFound := by
  obtain rfl | rfl := isLeftover_iff.1 h
  · exact nameable_names.1
  · exact nameable_names.2.1

/-- If the longest of the names can be reached, so can the others. -/
theorem refusal?_of_draft (h : (target.child draftName).refusal? = none) :
    (target.child dataName).refusal? = none ∧ (target.child manifestName).refusal? = none :=
  ⟨Path.refusal?_child_of_le h (by decide) (by decide), Path.refusal?_child_of_le h (by decide) (by decide)⟩

theorem refusal?_leftover (hx : isLeftover x = true) (h : (target.child draftName).refusal? = none) :
    (target.child x).refusal? = none := by
  obtain rfl | rfl := isLeftover_iff.1 hx
  · exact (refusal?_of_draft h).1
  · exact h

theorem isLeftover_manifestName : isLeftover manifestName = false := by decide

/-- A directory that is there, with leftovers at most. -/
structure Cleared (target : Path) (t : Trail) (d : Disk) : Prop where
  names : d.OneName
  leads : d.Leads target t
  refusal : target.refusal? = none
  leftovers : ∀ {x node}, d.node? t.here x = some node → isLeftover x = true ∧ node.isFile = true

/-- A directory that has leftovers at most, once it has been made. -/
def Clear (target : Path) (d : Disk) : Prop := ∃ t d₁, d.makeDirectories target = (.ok (), d₁) ∧ Cleared target t d₁

theorem cleared_of_leftovers (names : d.OneName) (h : Leftovers target d) : ∃ t, Cleared target t d := by
  obtain ⟨k, hk, hleft⟩ := h
  obtain ⟨t, hl, rfl, hrefusal⟩ := Disk.leads_of_find_directory hk
  exact ⟨t, names, hl, hrefusal, fun hn => hleft _ _ hn⟩

theorem clear_of_made {d₁ : Disk} (names : d.OneName) (made : d.makeDirectories target = (.ok (), d₁))
    (h : Leftovers target d₁) : Clear target d := by
  have hnames := names.perform (.makeDirectories target)
  rw [Disk.perform, made] at hnames
  obtain ⟨t, hcleared⟩ := cleared_of_leftovers hnames h
  exact ⟨t, d₁, made, hcleared⟩

namespace Cleared

theorem find (h : Cleared target t d) : d.find target = .ok (.directory t.here) := Disk.find_of_leads h.leads h.refusal

theorem clear (h : Cleared target t d) : Clear target d := ⟨t, d, Disk.makeDirectories_of_find h.find, h⟩

theorem list (h : Cleared target t d) : d.list target = .ok (d.directories.get t.here).keys := by rw [Disk.list, h.find]

theorem isLeftover_of_mem (h : Cleared target t d) {names : List String} (hlist : d.list target = .ok names)
    (hx : x ∈ names) : (d.node? t.here x).isSome ∧ isLeftover x = true := by
  rw [h.list] at hlist
  cases hlist
  have hsome := Disk.mem_keys.1 hx
  obtain ⟨node, hn⟩ := Option.isSome_iff_exists.1 hsome
  exact ⟨hsome, (h.leftovers hn).1⟩

/-! ### Removing leftovers -/

theorem remove (h : Cleared target t d) (x : String) : Cleared target t (d.remove (target.child x)).2 := by
  refine ⟨h.names.remove _, (d.keeps_remove _).leads h.leads, h.refusal, fun {y node} hy => ?_⟩
  obtain hn | ⟨-, hn⟩ := d.node?_remove_child target x t.here y
  · exact h.leftovers (hn ▸ hy)
  · rw [hn] at hy
    cases hy

/-- A leftover is removed, if its path can be followed. -/
theorem remove_ok (h : Cleared target t d) (hx : (d.node? t.here x).isSome)
    (fits : (target.child draftName).refusal? = none) : (d.remove (target.child x)).1 = .ok () := by
  obtain ⟨node, hn⟩ := Option.isSome_iff_exists.1 hx
  obtain ⟨hleft, hfile⟩ := h.leftovers hn
  cases node with
  | directory k => cases hfile
  | file f =>
    rw [Disk.remove, Disk.place_of_leads h.leads (isPlain_leftover hleft) (refusal?_leftover hleft fits)]
    simp only [hn, Disk.asksForDirectory_child, Bool.false_eq_true, if_false]

/-- What is done in the directory comes to what is said, or fails at a path that cannot be followed and leaves it clear. -/
def Leads (target : Path) (t : Trail) (after : Disk → Prop) : Except SnapshotFault Unit → Disk → Prop
  | .ok _, d => after d
  | .error _, d => Cleared target t d ∧ (target.child draftName).refusal? ≠ none

theorem assures_removeLeftovers {names : List String} (h : Cleared target t d) (nodup : names.Nodup)
    (there : ∀ x ∈ names, (d.node? t.here x).isSome) :
    (removeLeftovers target names).run.Assures (Cleared target t) (Leads target t (Cleared target t)) d := by
  induction names generalizing d with
  | nil => exact FileTask.assures_pure h h
  | cons x names ih =>
    obtain ⟨hx, hnodup⟩ := List.nodup_cons.1 nodup
    refine FileWork.assures_bind (FileWork.assures_attempt (FileTask.assures_whole rfl h (h.remove x) fun answer answers => ?_))
    have hperform : d.perform (.remove (target.child x)) = d.remove (target.child x) := rfl
    rw [Disk.answer_eq rfl answers, hperform]
    cases hanswer : (d.remove (target.child x)).1 with
    | error e =>
      refine ⟨h.remove x, fun fits => ?_⟩
      rw [h.remove_ok (there x List.mem_cons_self) fits] at hanswer
      cases hanswer
    | ok a =>
      refine ih (h.remove x) hnodup fun y hy => ?_
      obtain hsame | ⟨rfl, -⟩ := d.node?_remove_child target x t.here y
      · rw [hsame]
        exact there y (List.mem_cons_of_mem _ hy)
      · exact absurd hy hx

/-- In whatever order names are listed, all are leftovers and are removed. -/
theorem assures_reclaim (h : Cleared target t d) :
    (reclaim target).run.Assures (Cleared target t) (Leads target t (Cleared target t)) d := by
  refine FileWork.assures_bind (FileWork.assures_attempt (FileTask.assures_whole rfl h h fun answer answers => ?_))
  obtain ⟨order, rfl, hperm⟩ := Disk.answers_list h.list answers
  have hmem : ∀ x ∈ order, (d.node? t.here x).isSome ∧ isLeftover x = true := fun x hx =>
    h.isLeftover_of_mem h.list (hperm.mem_iff.1 hx)
  show (if order.all isLeftover then removeLeftovers target order else throw (.targetNotEmpty target) :
    FileWork SnapshotFault Unit).run.Assures _ _ d
  rw [if_pos (List.all_eq_true.2 fun x hx => (hmem x hx).2)]
  exact h.assures_removeLeftovers (hperm.nodup_iff.2 (SortedMap.nodup_keys _)) fun x hx => (hmem x hx).1

/-! ### Writing the files -/

theorem write (h : Cleared target t d) (hx : isLeftover x = true) (bytes : Bytes) :
    Cleared target t (d.write (target.child x) bytes).2 := by
  have hnames := h.names.write (target.child x) bytes
  rcases hwrite : d.write (target.child x) bytes with ⟨answer, d'⟩
  rw [hwrite] at hnames
  cases answer with
  | error e =>
    obtain rfl := Disk.write_error hwrite
    exact h
  | ok a =>
    obtain ⟨-, hkeeps, ⟨f, hf, -⟩, hothers, -⟩ := h.names.stores_of_write h.leads (isPlain_leftover hx) hwrite
    refine ⟨hnames, hkeeps.leads h.leads, h.refusal, fun {y node} hy => ?_⟩
    by_cases hne : y = x
    · subst hne
      cases hf.symm.trans hy
      exact ⟨hx, rfl⟩
    · exact h.leftovers ((hothers y hne).symm.trans hy)

theorem write_ok (h : Cleared target t d) (hx : isLeftover x = true) (fits : (target.child draftName).refusal? = none)
    (bytes : Bytes) : (d.write (target.child x) bytes).1 = .ok () := by
  have hrefusal := refusal?_leftover hx fits
  cases hn : d.node? t.here x with
  | none =>
    obtain ⟨d', hwrite⟩ := Disk.write_child h.leads (isPlain_leftover hx) hrefusal hn (absence_leftover hx) bytes
    rw [hwrite]
  | some node =>
    cases node with
    | directory k => cases (h.leftovers hn).2
    | file f =>
      have hfind : d.find (target.child x) = .ok (.file f) := by
        rw [Disk.find_child h.leads (isPlain_leftover hx) hrefusal, hn]
      rw [Disk.write, Disk.openFile_of_find hfind]

/-- Of a file that is written any part may be there when this is stopped. -/
theorem assures_write (h : Cleared target t d) (hx : isLeftover x = true) (bytes : Bytes) (fault : IoFault → SnapshotFault) :
    (FileWork.attempt (.perform (.write (target.child x) bytes)) fault).run.Assures (Cleared target t)
      (Leads target t fun d' => Cleared target t d' ∧ (target.child x).refusal? = none ∧ d'.Stores t.here x bytes ∧
        ∀ y bytes', y ≠ x → d.Stores t.here y bytes' → d'.Stores t.here y bytes') d := by
  refine FileWork.assures_attempt (FileTask.assures_perform h ?_ (h.write hx bytes) fun answer answers => ?_)
  · rintro _ ⟨⟩
    exact h.write hx _
  · have hperform : d.perform (.write (target.child x) bytes) = d.write (target.child x) bytes := rfl
    rw [Disk.answer_eq rfl answers, hperform]
    have hafter := h.write hx bytes
    rcases hwrite : d.write (target.child x) bytes with ⟨answer, d'⟩
    rw [hwrite] at hafter
    cases answer with
    | error e =>
      refine ⟨hafter, fun fits => ?_⟩
      have hok := h.write_ok hx fits bytes
      rw [hwrite] at hok
      cases hok
    | ok a =>
      obtain ⟨hrefusal, -, hstores, -, hothers⟩ := h.names.stores_of_write h.leads (isPlain_leftover hx) hwrite
      exact ⟨hafter, hrefusal, hstores, hothers⟩

/-- When the draft takes its place the snapshot is there. -/
theorem complete (h : Cleared target t d) (fits : (target.child draftName).refusal? = none)
    (image : d.Stores t.here dataName (Binary.Format.memTable.write r.table))
    (draft : d.Stores t.here draftName
      (Bytes.ofText (manifestOf r (Binary.Format.memTable.write r.table) stamp).text)) :
    ∃ d', d.rename (target.child draftName) (target.child manifestName) = (.ok (), d') ∧ d'.OneName ∧
      Complete target r stamp d' := by
  obtain ⟨hdata, hdraft, hmanifest⟩ := plain_names
  obtain ⟨hne, hne', hne''⟩ := distinct_names
  obtain ⟨hfits, hfits'⟩ := refusal?_of_draft fits
  obtain ⟨f, hf, -⟩ := id draft
  obtain ⟨d', hrename⟩ := Disk.rename_child hdraft hmanifest h.leads fits hfits' hf nameable_names.2.2 fun n hn => by
    cases (h.leftovers hn).2
  have hnames := h.names.rename (target.child draftName) (target.child manifestName)
  rw [hrename] at hnames
  obtain ⟨-, hkeeps, hput, hothers⟩ := Disk.stores_of_rename h.leads hdraft hmanifest hne'' draft hrename
  have hl := hkeeps.leads h.leads
  have hlisted : Lists target manifestName d' := by
    refine ⟨(d'.directories.get t.here).keys, by rw [Disk.list, Disk.find_of_leads hl h.refusal], Disk.mem_keys.2 ?_⟩
    obtain ⟨k, hk, -⟩ := hput
    rw [hk]
    rfl
  exact ⟨d', hrename, hnames, hlisted, (hothers _ _ hne hne' image).read hl hdata hfits, hput.read hl hmanifest hfits'⟩

end Cleared

/-- A directory that an attempt may leave: it has leftovers at most, or the snapshot. -/
def Reached (target : Path) (r : Region) (stamp : Stamp) (d : Disk) : Prop :=
  Clear target d ∨ d.OneName ∧ Complete target r stamp d

/-- An attempt may be stopped anywhere.  If it is not, it succeeds if the path of the draft can be followed, and else fails. -/
theorem Clear.assures_take (h : Clear target d) (r : Region) (stamp : Stamp) :
    (take r target stamp).run.Assures (Reached target r stamp)
      (fun
        | .ok m, d' => (target.child draftName).refusal? = none ∧
          m = manifestOf r (Binary.Format.memTable.write r.table) stamp ∧ Complete target r stamp d'
        | .error _, _ => (target.child draftName).refusal? ≠ none) d := by
  obtain ⟨t, d₁, hmade, hcleared⟩ := h
  have hreached : ∀ d', Cleared target t d' → Reached target r stamp d' := fun _ h => .inl h.clear
  have hmake : (FileWork.attempt (.perform (.makeDirectories target)) (SnapshotFault.io target)).run.Assures
      (Reached target r stamp) (fun answer d' => answer = .ok () ∧ d' = d₁) d := by
    refine FileWork.assures_attempt_ok (FileTask.assures_performed hmade rfl (.inl ⟨t, d₁, hmade, hcleared⟩) ?_
      (hreached _ hcleared))
    rintro _ ⟨⟩
    exact .inl ⟨t, d₁, Disk.makeDirectories_makeSome hmade _, hcleared⟩
  refine FileWork.assures_bind_ok hmake (FileWork.assures_bind (hcleared.assures_reclaim.mono hreached ?_))
  rintro (e | u) d₂ - h₂
  · exact h₂.2
  refine FileWork.assures_bind ((Cleared.assures_write h₂ (isLeftover_iff.2 (.inl rfl)) _ _).mono hreached ?_)
  rintro (e | u) d₃ - h₃
  · exact h₃.2
  obtain ⟨hcleared₃, -, himage, -⟩ := h₃
  refine FileWork.assures_bind ((hcleared₃.assures_write (isLeftover_iff.2 (.inr rfl)) _ _).mono hreached ?_)
  rintro (e | u) d₄ - h₄
  · exact h₄.2
  obtain ⟨hcleared₄, hfits, hdraft, hothers⟩ := h₄
  obtain ⟨d₅, hrename, hnames, hcomplete⟩ := hcleared₄.complete hfits (hothers _ _ distinct_names.1 himage) hdraft
  have hput : (FileWork.attempt (.perform (.rename (target.child draftName) (target.child manifestName)))
      (SnapshotFault.io (target.child manifestName))).run.Assures (Reached target r stamp)
      (fun answer d' => answer = .ok () ∧ d' = d₅) d₄ :=
    FileWork.assures_attempt_ok (FileTask.assures_performed hrename rfl (hreached _ hcleared₄)
      (fun _ begins => (Disk.not_begins rfl begins).elim) (.inr ⟨hnames, hcomplete⟩))
  exact FileWork.assures_bind_ok hput ⟨.inr ⟨hnames, hcomplete⟩, hfits, rfl, hcomplete⟩

/-- An attempt that is not stopped succeeds if the path of the draft can be followed. -/
theorem Clear.run_take (h : Clear target d) (fits : (target.child draftName).refusal? = none) (r : Region) (stamp : Stamp) :
    ∃ d', (take r target stamp).run.run d = (.ok (manifestOf r (Binary.Format.memTable.write r.table) stamp), d') ∧
      Complete target r stamp d' := by
  have hended := (h.assures_take r stamp).of_run
  rcases hrun : (take r target stamp).run.run d with ⟨answer, d'⟩
  rw [hrun] at hended
  cases answer with
  | error e => exact absurd fits hended
  | ok m =>
    obtain ⟨-, rfl, hcomplete⟩ := hended
    exact ⟨d', rfl, hcomplete⟩

/-- A directory with any other name in it is refused and left alone, in whatever order names are listed. -/
theorem assures_take_refused {stopped : Disk → Prop} {ended : Except SnapshotFault Manifest → Disk → Prop}
    {names : List String} (list : d.list target = .ok names) (mem : x ∈ names) (other : isLeftover x = false)
    (here : stopped d) (after : ended (.error (.targetNotEmpty target)) d) (r : Region) (stamp : Stamp) :
    (take r target stamp).run.Assures stopped ended d := by
  obtain ⟨k, hk⟩ : ∃ k, d.find target = .ok (.directory k) := by
    rw [Disk.list] at list
    split at list
    · cases list
    · cases list
    · exact ⟨_, by assumption⟩
  have hmade : d.perform (.makeDirectories target) = (.ok (), d) := Disk.makeDirectories_of_find hk
  have hmake : (FileWork.attempt (.perform (.makeDirectories target)) (SnapshotFault.io target)).run.Assures stopped
      (fun answer d' => answer = .ok () ∧ d' = d) d := by
    refine FileWork.assures_attempt_ok (FileTask.assures_performed hmade rfl here ?_ here)
    rintro _ ⟨⟩
    rwa [Disk.makeSome_of_find hk]
  have hreclaim : (reclaim target).run.Assures stopped
      (fun answer d' => answer = .error (.targetNotEmpty target) ∧ d' = d) d := by
    refine FileWork.assures_bind (FileWork.assures_attempt (FileTask.assures_whole rfl here here fun answer answers => ?_))
    obtain ⟨order, rfl, hperm⟩ := Disk.answers_list list answers
    have hnot : ¬ order.all isLeftover = true := by
      intro hall
      rw [List.all_eq_true.1 hall x (hperm.mem_iff.2 mem)] at other
      cases other
    show (if order.all isLeftover then removeLeftovers target order else throw (.targetNotEmpty target) :
      FileWork SnapshotFault Unit).run.Assures _ _ d
    rw [if_neg hnot]
    exact ⟨here, rfl, rfl⟩
  exact FileWork.assures_bind_ok hmake (FileWork.assures_bind_error hreclaim after)

end SeriesRegion.Snapshot
