import SeriesRegion.Disk.Task
import SeriesRegion.Proofs.Disk.Children

/-!
# One name for each file

No operation gives a file a second name, so that on a disk on which each file stands under one name this stays so whatever
tasks are run (`Disk.OneName.run`).  There two names of a directory do not lead to the same file
(`Disk.OneName.eq_of_find_child`), and a file is not changed by what is written under another name
(`Disk.OneName.stores_of_write`).
-/

namespace SeriesRegion.Disk

/-- A file stands under one name at most, and a number that has not been used under none. -/
structure OneName (d : Disk) : Prop where
  unique : ∀ {k x k' x' f}, d.node? k x = some (.file f) → d.node? k' x' = some (.file f) → k = k' ∧ x = x'
  used : ∀ {k x f}, d.node? k x = some (.file f) → f < d.files.next

variable {d d' : Disk}

theorem node?_new_ne_file (home : String) (k : Nat) (x : String) (f : Nat) : (new home).node? k x ≠ some (.file f) := by
  rw [node?_new]
  split <;> simp

theorem oneName_new (home : String) : OneName (new home) :=
  ⟨fun h => (node?_new_ne_file _ _ _ _ h).elim, fun h => (node?_new_ne_file _ _ _ _ h).elim⟩

/-- Taking names away leaves each file one name at most. -/
theorem OneName.mono (h : OneName d) (nodes : ∀ {k x f}, d'.node? k x = some (.file f) → d.node? k x = some (.file f))
    (next : d.files.next ≤ d'.files.next) : OneName d' :=
  ⟨fun hx hx' => h.unique (nodes hx) (nodes hx'), fun hx => Nat.lt_of_lt_of_le (h.used (nodes hx)) next⟩

/-- What has no name yet can be given one. -/
theorem OneName.put (h : OneName d) {k : Nat} {x : String} {node : Node}
    (nameless : ∀ f, node = .file f → f < d.files.next ∧ ∀ k' x', d.node? k' x' ≠ some (.file f)) :
    OneName (d.put k x node) := by
  constructor
  · intro k₁ x₁ k₂ x₂ f h₁ h₂
    rw [node?_put] at h₁ h₂
    split at h₁
    · rename_i hx₁
      cases h₁
      split at h₂
      · rename_i hx₂
        exact ⟨hx₁.1.trans hx₂.1.symm, hx₁.2.trans hx₂.2.symm⟩
      · exact absurd h₂ ((nameless f rfl).2 _ _)
    · split at h₂
      · cases h₂
        exact absurd h₁ ((nameless f rfl).2 _ _)
      · exact h.unique h₁ h₂
  · intro k₁ x₁ f h₁
    rw [node?_put] at h₁
    split at h₁
    · cases h₁
      exact (nameless f rfl).1
    · exact h.used h₁

theorem OneName.drop (h : OneName d) (k : Nat) (x : String) : OneName (d.drop k x) := by
  refine h.mono (fun hx => ?_) (Nat.le_refl _)
  rw [node?_drop] at hx
  split at hx
  · cases hx
  · exact hx

/-- Writing into files gives none a name. -/
theorem OneName.of_directories (h : OneName d) (directories : d'.directories = d.directories)
    (next : d.files.next ≤ d'.files.next) : OneName d' := by
  refine h.mono (fun hx => ?_) next
  rwa [node?, directories] at hx

theorem next_setBytes (d : Disk) (f : Nat) (bytes : Bytes) :
    (d.setBytes f bytes).files.next = max d.files.next (f + 1) := Numbered.next_modify _ _ _

theorem OneName.setBytes (h : OneName d) (f : Nat) (bytes : Bytes) : OneName (d.setBytes f bytes) := by
  refine h.of_directories rfl ?_
  rw [next_setBytes]
  exact Nat.le_max_left _ _

theorem OneName.createFile (h : OneName d) (k : Nat) (x : String) : OneName (d.createFile k x) := by
  refine (h.setBytes d.files.next []).put fun f hf => ?_
  cases hf
  refine ⟨?_, fun k' x' hx => absurd (h.used hx) (Nat.lt_irrefl _)⟩
  rw [next_setBytes]
  omega

theorem OneName.createDirectory (h : OneName d) (k : Nat) (x : String) : OneName (d.createDirectory k x) := by
  have hclear : OneName (d.clear d.directories.next) := by
    refine h.mono (fun {k y f} hy => ?_) (Nat.le_refl _)
    rw [clear, node?, Numbered.get_set] at hy
    split at hy
    · cases hy
    · exact hy
  refine hclear.put ?_
  intro f hf
  cases hf

theorem OneName.makeDirectory (h : OneName d) (p : Path) : OneName (d.makeDirectory p).2 := by
  rw [Disk.makeDirectory]
  cases d.place p with
  | error e => exact h
  | ok place =>
    cases place with
    | inside t => exact h
    | entry t x =>
      simp only
      cases d.node? t.here x with
      | some node => exact h
      | none =>
        simp only
        split
        · exact h.createDirectory t.here x
        · exact h

theorem OneName.openFile (h : OneName d) (p : Path) : OneName (d.openFile p).2 := by
  rw [Disk.openFile]
  cases d.place p with
  | error e => exact h
  | ok place =>
    cases place with
    | inside t => exact h
    | entry t x =>
      simp only
      split
      · exact h
      · cases d.node? t.here x with
        | some node => cases node <;> exact h
        | none =>
          simp only
          split
          · exact h.createFile t.here x
          · exact h

theorem OneName.write (h : OneName d) (p : Path) (bytes : Bytes) : OneName (d.write p bytes).2 := by
  have hopen := h.openFile p
  rw [Disk.write]
  rcases ho : d.openFile p with ⟨answer, d'⟩
  rw [ho] at hopen
  cases answer with
  | error e => exact hopen
  | ok f => exact hopen.setBytes f bytes

theorem OneName.remove (h : OneName d) (p : Path) : OneName (d.remove p).2 := by
  obtain hr | ⟨t, x, f, -, -, hr⟩ := d.remove_cases p
  · rw [hr]
    exact h
  · rw [hr]
    exact h.drop t.here x

/-- What is renamed has lost its name before it is given another. -/
theorem OneName.rename (h : OneName d) (source target : Path) : OneName (d.rename source target).2 := by
  obtain hr | ⟨s, x, t, y, node, -, -, hn, hr⟩ := d.rename_cases source target
  · rw [hr]
    exact h
  · rw [hr]
    refine (h.drop s.here x).put fun f hf => ?_
    subst hf
    refine ⟨h.used hn, fun k' x' hx => ?_⟩
    rw [node?_drop] at hx
    split at hx
    · cases hx
    · rename_i hne
      exact hne (h.unique hx hn)

theorem OneName.perform (h : OneName d) (op : FileOp) : OneName (d.perform op).2 := by
  cases op with
  | makeDirectories p => exact makeDirectories_induction (fun _ p hd => hd.makeDirectory p) h p
  | list p => exact h
  | present p => exact h
  | read p => exact h
  | write p bytes => exact h.write p bytes
  | rename source target => exact h.rename source target
  | remove p => exact h.remove p
  | openLog p => exact h.openFile p
  | contents f => exact h
  | append f bytes =>
    refine h.of_directories rfl (Nat.le_trans (Nat.le_max_left _ (f + 1)) (Nat.le_of_eq ?_))
    exact (Numbered.next_modify _ _ _).symm
  | truncate f length =>
    refine h.of_directories rfl (Nat.le_trans (Nat.le_max_left _ (f + 1)) (Nat.le_of_eq ?_))
    exact (Numbered.next_modify _ _ _).symm
  | sync f => exact h

/-- Whatever is done, no file gets a second name. -/
theorem OneName.run {α : Type} (h : OneName d) (task : FileTask α) : OneName (task.run d).2 := by
  induction task generalizing d with
  | done a => exact h
  | call op next ih => exact ih _ (h.perform op)

theorem OneName.of_run {α : Type} {task : FileTask α} {a : α} (h : OneName d) (hrun : task.run d = (a, d')) :
    OneName d' := by
  have hafter := h.run task
  rwa [hrun] at hafter

theorem OneName.eq_of_find_child (h : OneName d) {dir : Path} {x y : String} (hx : IsPlain x) (hy : IsPlain y) {f : Nat}
    (hfx : d.find (dir.child x) = .ok (.file f)) (hfy : d.find (dir.child y) = .ok (.file f)) : x = y := by
  obtain ⟨t, -, hnx, -⟩ := leads_of_find hx hfx
  obtain ⟨k, -, hny, -⟩ := leads_of_find hy hfy
  exact (h.unique hnx hny).2

/-! ### Files beside each other -/

/-- Under a name in a directory stands a file with some bytes. -/
def Stores (d : Disk) (k : Nat) (x : String) (bytes : Bytes) : Prop :=
  ∃ f, d.node? k x = some (.file f) ∧ d.bytesOf f = bytes

variable {dir : Path} {t : Trail} {x y : String} {bytes : Bytes}

theorem Stores.read (h : d.Stores t.here x bytes) (hl : d.Leads dir t) (plain : IsPlain x)
    (refusal : (dir.child x).refusal? = none) : d.read (dir.child x) = .ok bytes := by
  obtain ⟨f, hf, rfl⟩ := h
  rw [Disk.read, find_child hl plain refusal, hf]

/-- What has been written is stored under its name, and all other names of the directory store what they did. -/
theorem OneName.stores_of_write (names : d.OneName) (hl : d.Leads dir t) (plain : IsPlain x)
    (h : d.write (dir.child x) bytes = (.ok (), d')) :
    (dir.child x).refusal? = none ∧ Keeps d d' ∧ d'.Stores t.here x bytes ∧
      (∀ y, y ≠ x → d'.node? t.here y = d.node? t.here y) ∧
      ∀ y bytes', y ≠ x → d.Stores t.here y bytes' → d'.Stores t.here y bytes' := by
  have hnames := names.write (dir.child x) bytes
  rw [h] at hnames
  obtain ⟨t', f, hl', hrefusal, hkeeps, hf, hothers, hbytes⟩ := child_of_write plain h
  obtain rfl : t' = t := Except.ok.inj (hl'.symm.trans hl)
  refine ⟨hrefusal, hkeeps, ⟨f, hf, by rw [hbytes, if_pos rfl]⟩, hothers, ?_⟩
  rintro y bytes' hne ⟨g, hg, rfl⟩
  rw [← hothers y hne] at hg
  refine ⟨g, hg, ?_⟩
  rw [hbytes, if_neg]
  -- Two names have two files.
  rintro rfl
  exact hne (hnames.unique hg hf).2

/-- What has been renamed is stored under the new name, and names other than the two store what they did. -/
theorem stores_of_rename (hl : d.Leads dir t) (hx : IsPlain x) (hy : IsPlain y) (hne : x ≠ y) (hstores : d.Stores t.here x bytes)
    (h : d.rename (dir.child x) (dir.child y) = (.ok (), d')) :
    (dir.child y).refusal? = none ∧ Keeps d d' ∧ d'.Stores t.here y bytes ∧
      ∀ z bytes', z ≠ x → z ≠ y → d.Stores t.here z bytes' → d'.Stores t.here z bytes' := by
  obtain ⟨f, hf, rfl⟩ := hstores
  obtain ⟨hrefusal, hkeeps, -, hput, hothers, hfiles⟩ := child_of_rename hx hy hne hl hf h
  have hbytes : ∀ g, d'.bytesOf g = d.bytesOf g := fun g => by rw [bytesOf, hfiles, bytesOf]
  refine ⟨hrefusal, hkeeps, ⟨f, hput, hbytes f⟩, ?_⟩
  rintro z bytes' hzx hzy ⟨g, hg, rfl⟩
  exact ⟨g, (hothers z hzx hzy).trans hg, hbytes g⟩

end SeriesRegion.Disk
