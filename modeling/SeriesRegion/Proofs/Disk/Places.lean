import SeriesRegion.Disk.Tree

/-!
# What paths lead to after a change

A path goes through directories, so whether it leads somewhere does not depend on what is in the files
(`Disk.find_congr`), and each step on it stays possible as long as the directories stay where they are
(`Disk.Keeps.enter`).  Each operation is said by what it does to the names: opening a file finds one or gives it a name
(`Disk.openFile_ok`), removing takes one away (`Disk.remove_cases`), and renaming does both (`Disk.rename_cases`).
-/

namespace SeriesRegion.Disk

variable {d d' : Disk} {p : Path} {f : Nat}

/-- What is under a name that leads to a directory stays there. -/
structure Keeps (d d' : Disk) : Prop where
  home : d'.home = d.home
  directories : ∀ k name n, d.node? k name = some (.directory n) → d'.node? k name = some (.directory n)

theorem Keeps.refl (d : Disk) : Keeps d d := ⟨rfl, fun _ _ _ h => h⟩

theorem Keeps.trans {d'' : Disk} (h : Keeps d d') (h' : Keeps d' d'') : Keeps d d'' :=
  ⟨h'.home.trans h.home, fun k name n hk => h'.directories k name n (h.directories k name n hk)⟩

theorem Keeps.enter (h : Keeps d d') {t k : Trail} {name : String} (hk : d.enter t name = .ok k) :
    d'.enter t name = .ok k := by
  simp only [Disk.enter] at hk ⊢
  split at hk
  · rename_i hdot
    rw [if_pos hdot]
    exact hk
  · rename_i hdot
    rw [if_neg hdot]
    split at hk
    · rename_i hup
      rw [if_pos hup]
      exact hk
    · rename_i hup
      rw [if_neg hup]
      cases hn : d.node? t.here name with
      | none => simp [hn] at hk
      | some node =>
        cases node with
        | file n => simp [hn] at hk
        | directory n =>
          rw [h.directories _ _ _ hn]
          rw [hn] at hk
          exact hk

theorem Keeps.walk_ok (h : Keeps d d') {t : Trail} {ns : List String} {place : Place} (hw : d.walk t ns = .ok place) :
    d'.walk t ns = .ok place := by
  induction ns generalizing t with
  | nil => exact hw
  | cons name ns ih =>
    rw [walk] at hw ⊢
    split
    · rename_i hlast
      rwa [if_pos hlast] at hw
    · rename_i hlast
      rw [if_neg hlast] at hw
      cases hk : d.enter t name with
      | error e => simp [hk] at hw
      | ok k =>
        rw [hk] at hw
        rw [h.enter hk]
        exact ih hw

theorem Keeps.place_ok (h : Keeps d d') {place : Place} (hp : d.place p = .ok place) : d'.place p = .ok place := by
  rw [Disk.place] at hp ⊢
  cases hr : p.refusal? with
  | some e => simp [hr] at hp
  | none =>
    rw [hr] at hp
    rw [h.home]
    exact h.walk_ok hp

/-- A path leads to a file if it leads to a name under which the file stands. -/
theorem find_eq_file : d.find p = .ok (.file f) ↔
    ∃ t name, d.place p = .ok (.entry t name) ∧ d.node? t.here name = some (.file f) ∧ p.asksForDirectory = false := by
  rw [find]
  cases hp : d.place p with
  | error e => simp
  | ok place =>
    cases place with
    | inside t => simp
    | entry t name =>
      cases hn : d.node? t.here name with
      | none => simp [hn]
      | some node =>
        cases node with
        | directory n => simp [hn]
        | file n =>
          constructor
          · intro h
            cases ha : p.asksForDirectory with
            | true => simp [hn, ha] at h
            | false =>
              simp only [hn, ha, Bool.false_eq_true, if_false, Except.ok.injEq, Node.file.injEq] at h
              exact ⟨t, name, rfl, h ▸ hn, rfl⟩
          · rintro ⟨t', name', hp', hn', ha⟩
            obtain ⟨rfl, rfl⟩ : t = t' ∧ name = name' := by simpa using hp'
            simp [hn', ha]

theorem node?_put (d : Disk) (k : Nat) (name : String) (n : Node) (k' : Nat) (name' : String) :
    (d.put k name n).node? k' name' = if k' = k ∧ name' = name then some n else d.node? k' name' := by
  rw [node?, node?, put, Numbered.get_modify]
  by_cases hk : k' = k
  · subst hk
    simp [SortedMap.get?_insert]
  · simp [hk]

theorem node?_drop (d : Disk) (k : Nat) (name : String) (k' : Nat) (name' : String) :
    (d.drop k name).node? k' name' = if k' = k ∧ name' = name then none else d.node? k' name' := by
  rw [node?, node?, drop, Numbered.get_modify]
  by_cases hk : k' = k
  · subst hk
    simp [SortedMap.get?_erase]
  · simp [hk]

/-- On a new disk there is only the directory that relative paths start from. -/
theorem node?_new (home : String) (k : Nat) (x : String) :
    (new home).node? k x = if k = 0 ∧ x = home then some (.directory 1) else none := by
  rw [new, node?, Numbered.get_set, Numbered.get_set]
  by_cases h₁ : k = 1
  · simp [h₁]
  · by_cases h₀ : k = 0
    · simp [h₀, SortedMap.get?_insert]
    · simp only [h₁, h₀, if_false, false_and]
      rfl

/-! ### Contents of files -/

theorem walk_congr (directories : d'.directories = d.directories) (t : Trail) (ns : List String) :
    d'.walk t ns = d.walk t ns := by
  induction ns generalizing t with
  | nil => rfl
  | cons name ns ih =>
    have henter : d'.enter t name = d.enter t name := by rw [enter, enter, node?, node?, directories]
    rw [walk, walk, henter]
    split
    · rfl
    · cases d.enter t name with
      | error e => rfl
      | ok k => exact ih k

/-- What is in the files does not matter to where paths lead. -/
theorem find_congr (home : d'.home = d.home) (directories : d'.directories = d.directories) (p : Path) :
    d'.find p = d.find p := by
  have hplace : d'.place p = d.place p := by
    rw [place, place, home]
    cases p.refusal? with
    | some e => rfl
    | none => exact walk_congr directories _ _
  rw [find, find, hplace]
  cases d.place p with
  | error e => rfl
  | ok place =>
    cases place with
    | inside t => rfl
    | entry t name =>
      have hnode : d'.node? t.here name = d.node? t.here name := by rw [node?, node?, directories]
      simp only [hnode]

/-- Two disks differ at most in what is in one file. -/
structure AgreeBut (f : Nat) (d d' : Disk) : Prop where
  home : d'.home = d.home
  directories : d'.directories = d.directories
  others : ∀ g, g ≠ f → d'.bytesOf g = d.bytesOf g

theorem AgreeBut.refl (f : Nat) (d : Disk) : AgreeBut f d d := ⟨rfl, rfl, fun _ _ => rfl⟩

theorem AgreeBut.trans {d₁ d₂ d₃ : Disk} (h : AgreeBut f d₁ d₂) (h' : AgreeBut f d₂ d₃) : AgreeBut f d₁ d₃ :=
  ⟨h'.home.trans h.home, h'.directories.trans h.directories, fun g hg => (h'.others g hg).trans (h.others g hg)⟩

theorem AgreeBut.node? (h : AgreeBut f d d') (k : Nat) (name : String) : d'.node? k name = d.node? k name := by
  rw [Disk.node?, Disk.node?, h.directories]

theorem AgreeBut.keeps (h : AgreeBut f d d') : Keeps d d' :=
  ⟨h.home, fun k name _ hk => (h.node? k name).trans hk⟩

theorem AgreeBut.find (h : AgreeBut f d d') (p : Path) : d'.find p = d.find p := find_congr h.home h.directories p

theorem agreeBut_append (d : Disk) (f : Nat) (bytes : Bytes) : AgreeBut f d (d.append f bytes) :=
  ⟨rfl, rfl, fun g hg => by rw [bytesOf_append, if_neg hg]⟩

theorem agreeBut_truncate (d : Disk) (f length : Nat) : AgreeBut f d (d.truncate f length) :=
  ⟨rfl, rfl, fun g hg => by rw [bytesOf_truncate, if_neg hg]⟩

/-! ### Opening and removing files -/

theorem node?_createFile (d : Disk) (k : Nat) (name : String) (k' : Nat) (name' : String) :
    (d.createFile k name).node? k' name' =
      if k' = k ∧ name' = name then some (.file d.files.next) else d.node? k' name' :=
  node?_put (d.setBytes d.files.next []) k name (.file d.files.next) k' name'

theorem bytesOf_createFile (d : Disk) (k : Nat) (name : String) (g : Nat) :
    (d.createFile k name).bytesOf g = d.bytesOf g := by
  refine (d.bytesOf_setBytes d.files.next g []).trans ?_
  split
  · rename_i hg
    rw [bytesOf, hg, Numbered.get_of_next_le (Nat.le_refl _)]
    rfl
  · rfl

/-- A new name takes nothing away. -/
theorem keeps_createFile {k : Nat} {name : String} (h : d.node? k name = none) : Keeps d (d.createFile k name) := by
  refine ⟨rfl, fun k' name' n hk => ?_⟩
  rw [node?_createFile, if_neg]
  · exact hk
  · rintro ⟨rfl, rfl⟩
    rw [h] at hk
    cases hk

/-- Opening finds the file under a name, or creates it where nothing stands. -/
theorem openFile_ok (h : d.openFile p = (.ok f, d')) : ∃ t name, d.place p = .ok (.entry t name) ∧
    p.asksForDirectory = false ∧
    ((d.node? t.here name = some (.file f) ∧ d' = d) ∨
      (d.node? t.here name = none ∧ f = d.files.next ∧ d' = d.createFile t.here name)) := by
  rw [openFile] at h
  cases hp : d.place p with
  | error e => simp [hp] at h
  | ok place =>
    cases place with
    | inside t => simp [hp] at h
    | entry t name =>
      simp only [hp] at h
      split at h
      · simp at h
      · rename_i ha
        rw [Bool.not_eq_true] at ha
        refine ⟨t, name, rfl, ha, ?_⟩
        cases hn : d.node? t.here name with
        | some node =>
          cases node with
          | directory n => simp [hn] at h
          | file n =>
            simp only [hn, Prod.mk.injEq, Except.ok.injEq] at h
            obtain ⟨rfl, rfl⟩ := h
            exact .inl ⟨rfl, rfl⟩
        | none =>
          simp only [hn] at h
          split at h
          · simp only [Prod.mk.injEq, Except.ok.injEq] at h
            exact .inr ⟨rfl, h.1.symm, h.2.symm⟩
          · simp at h

theorem openFile_error {e : IoFault} (h : d.openFile p = (.error e, d')) : d' = d := by
  rw [openFile] at h
  split at h
  · cases h
    rfl
  · cases h
    rfl
  · split at h
    · cases h
      rfl
    · split at h
      · cases h
        rfl
      · cases h
      · split at h
        · cases h
        · cases h
          rfl

theorem write_error {bytes : Bytes} {e : IoFault} (h : d.write p bytes = (.error e, d')) : d' = d := by
  rw [write] at h
  rcases ho : d.openFile p with ⟨answer, d₁⟩
  rw [ho] at h
  cases answer with
  | ok f => cases h
  | error e =>
    cases h
    exact openFile_error ho

/-- A file that is there is opened as it is. -/
theorem openFile_of_find (h : d.find p = .ok (.file f)) : d.openFile p = (.ok f, d) := by
  obtain ⟨t, name, hp, hn, ha⟩ := find_eq_file.1 h
  rw [openFile, hp]
  simp only [ha, hn, Bool.false_eq_true, if_false]

/-- A file that was not there is empty when it has been opened. -/
theorem bytesOf_openFile_of_missing (h : d.openFile p = (.ok f, d')) (missing : ∀ g, d.find p ≠ .ok (.file g)) :
    d'.bytesOf f = [] := by
  obtain ⟨t, name, hp, ha, ⟨hn, -⟩ | ⟨hn, rfl, rfl⟩⟩ := openFile_ok h
  · exact absurd (find_eq_file.2 ⟨t, name, hp, hn, ha⟩) (missing f)
  · rw [bytesOf_createFile, bytesOf, Numbered.get_of_next_le (Nat.le_refl _)]
    rfl

theorem names_child (p : Path) (name : String) : (p.child name).names = p.names ++ [name] :=
  (List.append_assoc _ _ _).symm

theorem walk_last {t t' : Trail} {ns : List String} {x name : String}
    (h : d.walk t (ns ++ [x]) = .ok (.entry t' name)) : name = x := by
  induction ns generalizing t with
  | nil =>
    rw [List.nil_append, walk] at h
    split at h
    · cases h
      rfl
    · split at h
      · rw [walk] at h
        cases h
      · cases h
  | cons y ns ih =>
    rw [List.cons_append, walk, if_neg (by simp)] at h
    split at h
    · exact ih h
    · cases h

theorem place_child {dir : Path} {x name : String} {t : Trail} (h : d.place (dir.child x) = .ok (.entry t name)) :
    name = x := by
  rw [place] at h
  split at h
  · cases h
  · rw [names_child] at h
    exact walk_last h

/-- Removing changes nothing, or takes a file from a name. -/
theorem remove_cases (d : Disk) (p : Path) : (d.remove p).2 = d ∨
    ∃ t name f, d.place p = .ok (.entry t name) ∧ d.node? t.here name = some (.file f) ∧
      (d.remove p).2 = d.drop t.here name := by
  rw [remove]
  cases hp : d.place p with
  | error e => exact .inl rfl
  | ok place =>
    cases place with
    | inside t => exact .inl rfl
    | entry t name =>
      cases hn : d.node? t.here name with
      | none => simp [hn]
      | some node =>
        cases node with
        | directory n => simp [hn]
        | file n =>
          cases ha : p.asksForDirectory with
          | true => simp [hn]
          | false => exact .inr ⟨t, name, n, rfl, hn, by simp [hn]⟩

/-- Renaming changes nothing, or takes what stands under a name to another. -/
theorem rename_cases (d : Disk) (source target : Path) : (d.rename source target).2 = d ∨
    ∃ s x t y node, d.place source = .ok (.entry s x) ∧ d.place target = .ok (.entry t y) ∧
      d.node? s.here x = some node ∧ (d.rename source target).2 = (d.drop s.here x).put t.here y node := by
  rw [rename]
  split
  · exact .inl rfl
  · exact .inl rfl
  · rename_i s x t y _ _
    cases hn : d.node? s.here x with
    | none => exact .inl rfl
    | some node =>
      simp only
      split
      · exact .inl rfl
      · split
        · exact .inl rfl
        · split
          · exact .inl rfl
          · split
            · exact .inl rfl
            · exact .inr ⟨s, x, t, y, node, by assumption, by assumption, hn, rfl⟩
  · exact .inl rfl

/-- What has been renamed stood under its old name; it has been taken from there, unless the new name is the old one. -/
theorem rename_ok {source target : Path} (h : d.rename source target = (.ok (), d')) :
    ∃ s x t y node, d.place source = .ok (.entry s x) ∧ d.place target = .ok (.entry t y) ∧
      d.node? s.here x = some node ∧ (s.here = t.here ∧ x = y ∨
        (node.isFile = true → ∀ n, d.node? t.here y ≠ some (.directory n)) ∧
          d' = (d.drop s.here x).put t.here y node) := by
  rw [rename] at h
  split at h
  · cases h
  · cases h
  · rename_i s x t y hsource htarget
    cases hn : d.node? s.here x with
    | none =>
      rw [hn] at h
      cases h
    | some node =>
      refine ⟨s, x, t, y, node, hsource, htarget, hn, ?_⟩
      simp only [hn] at h
      split at h
      · cases h
      split at h
      · cases h
      split at h
      · rename_i hsame
        exact .inl hsame
      · cases hfault : d.renameFault? node s t (d.node? t.here y) with
        | some e =>
          rw [hfault] at h
          cases h
        | none =>
          rw [hfault] at h
          cases h
          refine .inr ⟨fun hfile n hd => ?_, rfl⟩
          -- A file does not take the place of a directory.
          cases node with
          | directory m => cases hfile
          | file f =>
            rw [hd] at hfault
            cases hfault
  · cases h

theorem rename_error {source target : Path} {e : IoFault} (h : d.rename source target = (.error e, d')) : d' = d := by
  rw [rename] at h
  split at h
  · cases h
    rfl
  · cases h
    rfl
  · rename_i s x t y _ _
    cases hn : d.node? s.here x with
    | none =>
      rw [hn] at h
      cases h
      rfl
    | some node =>
      simp only [hn] at h
      split at h
      · cases h
        rfl
      split at h
      · cases h
        rfl
      split at h
      · cases h
      · cases hfault : d.renameFault? node s t (d.node? t.here y) with
        | some e' =>
          rw [hfault] at h
          cases h
          rfl
        | none =>
          rw [hfault] at h
          cases h
  · cases h
    rfl

theorem files_remove (d : Disk) (p : Path) : (d.remove p).2.files = d.files := by
  obtain h | ⟨t, name, f, -, -, h⟩ := d.remove_cases p
  · rw [h]
  · rw [h]
    rfl

/-- Only files are taken away, so that all directories stay. -/
theorem keeps_remove (d : Disk) (p : Path) : Keeps d (d.remove p).2 := by
  obtain h | ⟨t, name, f, -, hn, h⟩ := d.remove_cases p
  · rw [h]
    exact ⟨rfl, fun _ _ _ hk => hk⟩
  · rw [h]
    refine ⟨rfl, fun k name' n hk => ?_⟩
    rw [node?_drop, if_neg]
    · exact hk
    · rintro ⟨rfl, rfl⟩
      rw [hn] at hk
      cases hk

/-- Removing a name of a directory leaves all others as they are. -/
theorem node?_remove_child (d : Disk) (dir : Path) (y : String) (k : Nat) (x : String) :
    (d.remove (dir.child y)).2.node? k x = d.node? k x ∨ (x = y ∧ (d.remove (dir.child y)).2.node? k x = none) := by
  obtain h | ⟨t, name, f, hp, hn, h⟩ := d.remove_cases (dir.child y)
  · rw [h]
    exact .inl rfl
  · obtain rfl := place_child hp
    rw [h, node?_drop]
    by_cases hx : k = t.here ∧ x = name
    · rw [if_pos hx]
      exact .inr ⟨hx.2, rfl⟩
    · rw [if_neg hx]
      exact .inl rfl

end SeriesRegion.Disk
