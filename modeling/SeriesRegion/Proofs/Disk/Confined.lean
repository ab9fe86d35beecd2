import SeriesRegion.Proofs.Disk.OneName

/-!
# Changes in one directory

What is done with the names of one directory leaves all other directories as they are, with what is in their files, and puts no
new directory anywhere (`Disk.Confined`).
-/

namespace SeriesRegion.Disk

/-- Nothing has changed outside a directory, and the directories are those that there were. -/
structure Confined (k : Nat) (d d' : Disk) : Prop where
  home : d'.home = d.home
  directories : ∀ j x n, d'.node? j x = some (.directory n) ↔ d.node? j x = some (.directory n)
  nodes : ∀ j x, j ≠ k → d'.node? j x = d.node? j x
  contents : ∀ j x f, j ≠ k → d.node? j x = some (.file f) → d'.bytesOf f = d.bytesOf f

variable {k f : Nat} {d d' d'' : Disk} {dir : Path} {t : Trail} {x y : String}

namespace Confined

theorem refl (k : Nat) (d : Disk) : Confined k d d := ⟨rfl, fun _ _ _ => .rfl, fun _ _ _ => rfl, fun _ _ _ _ _ => rfl⟩

theorem trans (h : Confined k d d') (h' : Confined k d' d'') : Confined k d d'' := by
  refine ⟨h'.home.trans h.home, fun j x n => (h'.directories j x n).trans (h.directories j x n),
    fun j x hj => (h'.nodes j x hj).trans (h.nodes j x hj), fun j x f hj hf => ?_⟩
  exact (h'.contents j x f hj ((h.nodes j x hj).trans hf)).trans (h.contents j x f hj hf)

theorem keeps (h : Confined k d d') : Keeps d d' := ⟨h.home, fun j x n hn => (h.directories j x n).2 hn⟩

/-- What is found in another directory is found there still. -/
theorem read (h : Confined k d d') (hl : d.Leads dir t) (other : t.here ≠ k) (plain : IsPlain x) :
    d'.read (dir.child x) = d.read (dir.child x) := by
  rw [Disk.read, Disk.read]
  cases hr : (dir.child x).refusal? with
  | some e => rw [find, find, place, place, hr]
  | none =>
    rw [find_child (h.keeps.leads hl) plain hr, find_child hl plain hr, h.nodes _ _ other]
    cases hn : d.node? t.here x with
    | none => rfl
    | some node =>
      cases node with
      | directory n => rfl
      | file f => simp only [h.contents _ _ _ other hn]

end Confined

/-! ### Single changes -/

theorem confined_createFile (missing : d.node? k x = none) : Confined k d (d.createFile k x) := by
  refine ⟨rfl, fun j y n => ?_, fun j y hj => ?_, fun _ _ f _ _ => d.bytesOf_createFile k x f⟩
  · rw [node?_createFile]
    split
    · rename_i h
      rw [h.1, h.2, missing]
      simp
    · rfl
  · rw [node?_createFile, if_neg fun h => hj h.1]

/-- A file of the directory stands in no other. -/
theorem AgreeBut.confined (h : AgreeBut f d d') (names : d.OneName) (hf : d.node? k x = some (.file f)) :
    Confined k d d' := by
  refine ⟨h.home, fun j y n => by rw [h.node?], fun j y _ => h.node? j y, fun j y g hj hg => h.others g ?_⟩
  rintro rfl
  exact hj (names.unique hg hf).1

theorem confined_drop (hf : d.node? k x = some (.file f)) : Confined k d (d.drop k x) := by
  refine ⟨rfl, fun j y n => ?_, fun j y hj => ?_, fun _ _ _ _ _ => rfl⟩
  · rw [node?_drop]
    split
    · rename_i h
      rw [h.1, h.2, hf]
      simp
    · rfl
  · rw [node?_drop, if_neg fun h => hj h.1]

theorem confined_put (free : ∀ n, d.node? k x ≠ some (.directory n)) (f : Nat) : Confined k d (d.put k x (.file f)) := by
  refine ⟨rfl, fun j y n => ?_, fun j y hj => ?_, fun _ _ _ _ _ => rfl⟩
  · rw [node?_put]
    split
    · rename_i h
      rw [h.1, h.2]
      simp [free n]
    · rfl
  · rw [node?_put, if_neg fun h => hj h.1]

/-! ### Operations on names of the directory -/

theorem confined_openFile (hl : d.Leads dir t) (plain : IsPlain x) (h : d.openFile (dir.child x) = (.ok f, d')) :
    Confined t.here d d' := by
  obtain ⟨k, name, hp, -, ⟨-, rfl⟩ | ⟨hn, -, rfl⟩⟩ := openFile_ok h
  · exact .refl _ _
  · obtain ⟨hk, rfl, -⟩ := leads_of_place plain hp
    obtain rfl : k = t := Except.ok.inj (hk.symm.trans hl)
    exact confined_createFile hn

theorem confined_write (names : d.OneName) (hl : d.Leads dir t) (plain : IsPlain x) {bytes : Bytes}
    (h : d.write (dir.child x) bytes = (.ok (), d')) : Confined t.here d d' := by
  rw [write] at h
  rcases hopen : d.openFile (dir.child x) with ⟨answer, d₁⟩
  rw [hopen] at h
  cases answer with
  | error e => cases h
  | ok f =>
    cases h
    have hconfined := confined_openFile hl plain hopen
    obtain ⟨k, hk, -, -, hf, -, -⟩ := child_of_openFile plain hopen
    obtain rfl : k = t := Except.ok.inj (hk.symm.trans hl)
    have hnames : d₁.OneName := by
      have := names.openFile (dir.child x)
      rwa [hopen] at this
    have hagree : AgreeBut f d₁ (d₁.setBytes f bytes) := ⟨rfl, rfl, fun g hg => by rw [bytesOf_setBytes, if_neg hg]⟩
    exact hconfined.trans (hagree.confined hnames hf)

theorem confined_rename (hx : IsPlain x) (hy : IsPlain y) (hne : x ≠ y) (hl : d.Leads dir t)
    (hf : d.node? t.here x = some (.file f)) (h : d.rename (dir.child x) (dir.child y) = (.ok (), d')) :
    Confined t.here d d' := by
  obtain ⟨s, x', k, y', node, hsource, htarget, hnode, hrenamed⟩ := rename_ok h
  obtain ⟨hs, rfl, -⟩ := leads_of_place hx hsource
  obtain ⟨hk, rfl, -⟩ := leads_of_place hy htarget
  obtain rfl : s = t := Except.ok.inj (hs.symm.trans hl)
  obtain rfl : k = s := Except.ok.inj (hk.symm.trans hl)
  rw [hf] at hnode
  cases hnode
  obtain ⟨-, hsame⟩ | ⟨hfree, rfl⟩ := hrenamed
  · exact absurd hsame hne
  · refine (confined_drop hf).trans (confined_put (fun n hn => hfree rfl n ?_) f)
    rwa [node?_drop, if_neg fun h => hne h.2.symm] at hn

theorem confined_remove (hl : d.Leads dir t) (plain : IsPlain x) : Confined t.here d (d.remove (dir.child x)).2 := by
  obtain h | ⟨k, name, f, hp, hn, h⟩ := d.remove_cases (dir.child x)
  · rw [h]
    exact .refl _ _
  · obtain ⟨hk, rfl, -⟩ := leads_of_place plain hp
    obtain rfl : k = t := Except.ok.inj (hk.symm.trans hl)
    rw [h]
    exact confined_drop hn

end SeriesRegion.Disk
