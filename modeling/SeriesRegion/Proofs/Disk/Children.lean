import SeriesRegion.Proofs.Disk.Places

/-!
# What stands in a directory

A path to a name in a directory leads to what the directory has under the name (`Disk.find_child`), and the path to the
directory itself leads to the directory (`Disk.find_of_leads`).  Both keep leading there as long as directories stay where
they are (`Disk.Keeps.leads`), and making a directory that is there changes nothing (`Disk.makeDirectories_of_find`).
-/

namespace SeriesRegion

theorem Path.text_child (dir : Path) : ∃ s, ∀ x, (dir.child x).text = dir.text ++ s ++ x := by
  have htext : ∀ x, (dir.child x).text = Path.join dir.text x := by
    intro x
    rw [Path.text, Path.child, List.foldl_append]
    rfl
  simp only [htext, Path.join]
  split
  · exact ⟨"", fun x => by rw [String.append_empty]⟩
  · exact ⟨"/", fun _ => rfl⟩

/-- If a path to a name in a directory leads somewhere, so does the path to the directory, unless nothing is written of
it. -/
theorem Path.refusal?_of_child {dir : Path} {x : String} (h : (dir.child x).refusal? = none) :
    dir.isEmpty = true ∨ dir.refusal? = none := by
  obtain ⟨s, hs⟩ := dir.text_child
  cases hempty : dir.isEmpty with
  | true => exact .inl rfl
  | false =>
    right
    simp only [Path.refusal?, hs, String.contains_char_eq, String.toList_append, String.utf8ByteSize_append] at h
    simp only [Path.refusal?, hempty, String.contains_char_eq]
    split at h
    · cases h
    · rename_i hzero
      rw [if_neg fun hd => hzero (by simpa using .inl (by simpa using hd))]
      split at h
      · cases h
      · split at h
        · cases h
        · rename_i hsize
          rw [if_neg (by simp), if_neg (by omega)]

theorem Path.refusal?_of_isEmpty {p : Path} (h : p.isEmpty = true) : p.refusal? = some .notFound := by
  obtain ⟨base, below⟩ := p
  obtain ⟨rfl, rfl⟩ : base = "" ∧ below = [] := of_decide_eq_true h
  cbv

/-- If a path to a name in a directory leads somewhere, so does that to a name that is not longer. -/
theorem Path.refusal?_child_of_le {dir : Path} {x y : String} (h : (dir.child x).refusal? = none)
    (zero : '\x00' ∉ y.toList) (size : y.utf8ByteSize ≤ x.utf8ByteSize) : (dir.child y).refusal? = none := by
  obtain ⟨s, hs⟩ := dir.text_child
  have hempty : (dir.child y).isEmpty = false := by simp [Path.isEmpty, Path.child]
  simp only [Path.refusal?, hs, String.contains_char_eq, String.toList_append, String.utf8ByteSize_append] at h
  simp only [Path.refusal?, hs, hempty, String.contains_char_eq, String.toList_append, String.utf8ByteSize_append]
  split at h
  · cases h
  · rename_i hzero
    rw [if_neg fun hy => hzero (by simp_all), if_neg (by simp)]
    split at h
    · cases h
    · split at h
      · cases h
      · rw [if_neg (by omega)]

namespace Disk

variable {d d' : Disk} {dir : Path} {t : Trail} {x : String} {f : Nat}

/-! ### The way to a directory -/

/-- Goes from a directory through names, all of which must lead to directories. -/
def descend (d : Disk) (t : Trail) : List String → Except IoFault Trail
  | [] => .ok t
  | name :: rest =>
    match d.enter t name with
    | .ok k => d.descend k rest
    | .error e => .error e

/-- The names of a path lead to a directory. -/
def Leads (d : Disk) (dir : Path) (t : Trail) : Prop :=
  d.descend (if dir.isAbsolute then .root else d.home) dir.names = .ok t

/-- A name that is no word for the directory that it stands in or for the one above. -/
def IsPlain (x : String) : Prop := x ≠ "." ∧ x ≠ ".."

theorem walk_concat (plain : IsPlain x) (d : Disk) (t : Trail) (ns : List String) :
    d.walk t (ns ++ [x]) =
      match d.descend t ns with
      | .ok k => .ok (.entry k x)
      | .error e => .error e := by
  induction ns generalizing t with
  | nil =>
    rw [List.nil_append, walk, if_pos ⟨rfl, plain⟩]
    rfl
  | cons y ns ih =>
    rw [List.cons_append, walk, if_neg (by simp), descend]
    cases d.enter t y with
    | error e => rfl
    | ok k => exact ih k

theorem walk_of_descend {ns : List String} {t k : Trail} (h : d.descend t ns = .ok k) :
    d.walk t ns = .ok (.inside k) ∨ ∃ k' name n, d.walk t ns = .ok (.entry k' name) ∧
      d.node? k'.here name = some (.directory n) ∧ k = k'.down n := by
  induction ns generalizing t with
  | nil =>
    cases h
    exact .inl rfl
  | cons name ns ih =>
    rw [descend] at h
    cases hk : d.enter t name with
    | error e => simp [hk] at h
    | ok k' =>
      rw [hk] at h
      rw [walk]
      split
      · rename_i hlast
        obtain ⟨rfl, hdot, hup⟩ := hlast
        cases h
        rw [enter, if_neg hdot, if_neg hup] at hk
        cases hn : d.node? t.here name with
        | none => simp [hn] at hk
        | some node =>
          cases node with
          | file n => simp [hn] at hk
          | directory n =>
            rw [hn] at hk
            cases hk
            exact .inr ⟨t, name, n, rfl, hn, rfl⟩
      · rw [hk]
        exact ih h

theorem descend_of_walk {ns : List String} {t k : Trail}
    (h : d.walk t ns = .ok (.inside k) ∨ ∃ k' name n, d.walk t ns = .ok (.entry k' name) ∧
      d.node? k'.here name = some (.directory n) ∧ k = k'.down n) : d.descend t ns = .ok k := by
  induction ns generalizing t with
  | nil =>
    rw [walk] at h
    obtain h | ⟨_, _, _, h, -, -⟩ := h
    · cases h
      rfl
    · cases h
  | cons name ns ih =>
    rw [walk] at h
    rw [descend]
    split at h
    · rename_i hlast
      obtain ⟨rfl, hdot, hup⟩ := hlast
      obtain h | ⟨_, _, n, h, hn, rfl⟩ := h
      · cases h
      · cases h
        rw [enter, if_neg hdot, if_neg hup, hn]
        rfl
    · cases hk : d.enter t name with
      | error e => simp [hk] at h
      | ok k' =>
        rw [hk] at h
        exact ih h

theorem find_of_leads (h : d.Leads dir t) (refusal : dir.refusal? = none) : d.find dir = .ok (.directory t.here) := by
  rw [find, place, refusal]
  obtain hw | ⟨k, name, n, hw, hn, rfl⟩ := walk_of_descend h
  · simp only [hw]
  · simp only [hw, hn]
    rfl

theorem leads_of_find_directory {k : Nat} (h : d.find dir = .ok (.directory k)) :
    ∃ t, d.Leads dir t ∧ t.here = k ∧ dir.refusal? = none := by
  rw [find, place] at h
  cases hr : dir.refusal? with
  | some e => simp [hr] at h
  | none =>
    rw [hr] at h
    simp only at h
    split at h
    · cases h
    · rename_i t hw
      cases h
      exact ⟨t, descend_of_walk (.inl hw), rfl, rfl⟩
    · rename_i t name hw
      cases hn : d.node? t.here name with
      | none => simp [hn] at h
      | some node =>
        cases node with
        | file f =>
          simp only [hn] at h
          split at h <;> cases h
        | directory n =>
          simp only [hn] at h
          cases h
          exact ⟨t.down _, descend_of_walk (.inr ⟨t, name, _, hw, hn, rfl⟩), rfl, rfl⟩

theorem place_of_leads (h : d.Leads dir t) (plain : IsPlain x) (refusal : (dir.child x).refusal? = none) :
    d.place (dir.child x) = .ok (.entry t x) := by
  rw [place, refusal, names_child]
  refine (walk_concat plain d _ _).trans ?_
  rw [show d.descend (if (dir.child x).isAbsolute then .root else d.home) dir.names = .ok t from h]

theorem asksForDirectory_child (dir : Path) (x : String) : (dir.child x).asksForDirectory = false := by
  simp [Path.asksForDirectory, Path.child]

/-- A path to a name in a directory leads to what the directory has under the name. -/
theorem find_child (h : d.Leads dir t) (plain : IsPlain x) (refusal : (dir.child x).refusal? = none) :
    d.find (dir.child x) =
      match d.node? t.here x with
      | some node => .ok node
      | none => .error (absence x) := by
  have hplace := place_of_leads h plain refusal
  have hasks := asksForDirectory_child dir x
  rw [find, hplace]
  cases hn : d.node? t.here x with
  | none => simp only [hn]
  | some node =>
    cases node with
    | directory n => simp only [hn]
    | file n => simp only [hn, hasks, Bool.false_eq_true, if_false]

/-- If a name in a directory is reached, the directory is. -/
theorem leads_of_place (plain : IsPlain x) {name : String} (h : d.place (dir.child x) = .ok (.entry t name)) :
    d.Leads dir t ∧ name = x ∧ (dir.child x).refusal? = none := by
  rw [place] at h
  cases hr : (dir.child x).refusal? with
  | some e => simp [hr] at h
  | none =>
    rw [hr, names_child] at h
    change d.walk (if dir.isAbsolute then .root else d.home) _ = _ at h
    rw [walk_concat plain] at h
    rw [Leads]
    cases hd : d.descend (if dir.isAbsolute then .root else d.home) dir.names with
    | error e => simp [hd] at h
    | ok k =>
      rw [hd] at h
      cases h
      exact ⟨rfl, rfl, rfl⟩

theorem leads_of_find (plain : IsPlain x) (h : d.find (dir.child x) = .ok (.file f)) :
    ∃ t, d.Leads dir t ∧ d.node? t.here x = some (.file f) ∧ (dir.child x).refusal? = none := by
  obtain ⟨t, name, hp, hn, -⟩ := find_eq_file.1 h
  obtain ⟨hl, rfl, hr⟩ := leads_of_place plain hp
  exact ⟨t, hl, hn, hr⟩

theorem Keeps.descend (h : Keeps d d') {ns : List String} {t k : Trail} (hk : d.descend t ns = .ok k) :
    d'.descend t ns = .ok k := by
  induction ns generalizing t with
  | nil => exact hk
  | cons name ns ih =>
    rw [Disk.descend] at hk ⊢
    cases he : d.enter t name with
    | error e => simp [he] at hk
    | ok k' =>
      rw [h.enter he]
      rw [he] at hk
      exact ih hk

theorem Keeps.leads (h : Keeps d d') (hl : d.Leads dir t) : d'.Leads dir t := by
  rw [Leads, h.home]
  exact h.descend hl

theorem mem_keys {k : Nat} {x : String} : x ∈ (d.directories.get k).keys ↔ (d.node? k x).isSome := by
  rw [SortedMap.keys, List.mem_map, Option.isSome_iff_exists]
  constructor
  · rintro ⟨⟨y, node⟩, hy, rfl⟩
    exact ⟨node, SortedMap.mem_entries.1 hy⟩
  · rintro ⟨node, hn⟩
    exact ⟨(x, node), SortedMap.mem_entries.2 hn, rfl⟩

/-- A file that has been opened stands under its name, and nothing else has changed. -/
theorem child_of_openFile (plain : IsPlain x) (h : d.openFile (dir.child x) = (.ok f, d')) :
    ∃ t, d.Leads dir t ∧ (dir.child x).refusal? = none ∧ Keeps d d' ∧ d'.node? t.here x = some (.file f) ∧
      (∀ y, y ≠ x → d'.node? t.here y = d.node? t.here y) ∧ ∀ g, d'.bytesOf g = d.bytesOf g := by
  obtain ⟨t, name, hp, -, hfile⟩ := openFile_ok h
  obtain ⟨hl, rfl, hr⟩ := leads_of_place plain hp
  refine ⟨t, hl, hr, ?_⟩
  obtain ⟨hn, rfl⟩ | ⟨hn, rfl, rfl⟩ := hfile
  · exact ⟨.refl _, hn, fun _ _ => rfl, fun _ => rfl⟩
  · refine ⟨keeps_createFile hn, ?_, fun y hy => ?_, fun g => ?_⟩
    · rw [node?_createFile, if_pos ⟨rfl, rfl⟩]
    · rw [node?_createFile, if_neg fun h => hy h.2]
    · exact d.bytesOf_createFile t.here name g

/-- A name that a file can have is given to a new one. -/
theorem openFile_child (hl : d.Leads dir t) (plain : IsPlain x) (refusal : (dir.child x).refusal? = none)
    (missing : d.node? t.here x = none) (nameable : absence x = .notFound) :
    d.openFile (dir.child x) = (.ok d.files.next, d.createFile t.here x) := by
  rw [openFile, place_of_leads hl plain refusal]
  simp only [asksForDirectory_child, missing, nameable, Bool.false_eq_true, if_false, if_true]

/-- What is written under a name that a file can have is put into a new one. -/
theorem write_child (hl : d.Leads dir t) (plain : IsPlain x) (refusal : (dir.child x).refusal? = none)
    (missing : d.node? t.here x = none) (nameable : absence x = .notFound) (bytes : Bytes) :
    ∃ d', d.write (dir.child x) bytes = (.ok (), d') := by
  rw [write, openFile_child hl plain refusal missing nameable]
  exact ⟨_, rfl⟩

/-- A file can be renamed to a name that no directory has. -/
theorem rename_child {y : String} (hx : IsPlain x) (hy : IsPlain y) (hl : d.Leads dir t)
    (source : (dir.child x).refusal? = none) (target : (dir.child y).refusal? = none)
    (hf : d.node? t.here x = some (.file f)) (nameable : absence y = .notFound)
    (free : ∀ n, d.node? t.here y ≠ some (.directory n)) :
    ∃ d', d.rename (dir.child x) (dir.child y) = (.ok (), d') := by
  rw [rename, place_of_leads hl hx source, place_of_leads hl hy target]
  simp only [hf, asksForDirectory_child]
  rw [if_neg (by rw [nameable]; rintro ⟨-, h⟩; cases h), if_neg (by simp)]
  split
  · exact ⟨d, rfl⟩
  · have hfault : d.renameFault? (.file f) t t (d.node? t.here y) = none := by
      cases hn : d.node? t.here y with
      | none => rfl
      | some node =>
        cases node with
        | file g => rfl
        | directory n => exact absurd hn (free n)
    rw [hfault]
    exact ⟨_, rfl⟩

/-- A file that is removed under a name in a directory is no longer there. -/
theorem node?_remove_child_file (hl : d.Leads dir t) (plain : IsPlain x) (refusal : (dir.child x).refusal? = none)
    (hf : d.node? t.here x = some (.file f)) : (d.remove (dir.child x)).2.node? t.here x = none := by
  rw [remove, place_of_leads hl plain refusal]
  simp only [hf, asksForDirectory_child, Bool.false_eq_true, if_false]
  rw [node?_drop, if_pos ⟨rfl, rfl⟩]

/-- What has been written stands in a file under its name, and nothing else has changed. -/
theorem child_of_write (plain : IsPlain x) {bytes : Bytes} (h : d.write (dir.child x) bytes = (.ok (), d')) :
    ∃ t f, d.Leads dir t ∧ (dir.child x).refusal? = none ∧ Keeps d d' ∧ d'.node? t.here x = some (.file f) ∧
      (∀ y, y ≠ x → d'.node? t.here y = d.node? t.here y) ∧
      ∀ g, d'.bytesOf g = if g = f then bytes else d.bytesOf g := by
  rw [write] at h
  rcases hopen : d.openFile (dir.child x) with ⟨answer, d₁⟩
  rw [hopen] at h
  cases answer with
  | error e => cases h
  | ok f =>
    cases h
    obtain ⟨t, hl, hr, hkeeps, hx, hothers, hcontents⟩ := child_of_openFile plain hopen
    refine ⟨t, f, hl, hr, ⟨hkeeps.home, hkeeps.directories⟩, hx, hothers, fun g => ?_⟩
    rw [bytesOf_setBytes, hcontents]

/-- A file that has been renamed in its directory stands under the new name alone, and nothing else has changed. -/
theorem child_of_rename {y : String} (hx : IsPlain x) (hy : IsPlain y) (hne : x ≠ y) (hl : d.Leads dir t)
    (hf : d.node? t.here x = some (.file f)) (h : d.rename (dir.child x) (dir.child y) = (.ok (), d')) :
    (dir.child y).refusal? = none ∧ Keeps d d' ∧ d'.node? t.here x = none ∧ d'.node? t.here y = some (.file f) ∧
      (∀ z, z ≠ x → z ≠ y → d'.node? t.here z = d.node? t.here z) ∧ d'.files = d.files := by
  obtain ⟨s, x', k, y', node, hsource, htarget, hnode, hrenamed⟩ := rename_ok h
  obtain ⟨hs, rfl, -⟩ := leads_of_place hx hsource
  obtain ⟨hk, rfl, hr⟩ := leads_of_place hy htarget
  have hst : s = t := Except.ok.inj (hs.symm.trans hl)
  have hkt : k = t := Except.ok.inj (hk.symm.trans hl)
  subst hst hkt
  rw [hf] at hnode
  cases hnode
  obtain ⟨-, hsame⟩ | ⟨hfree, rfl⟩ := hrenamed
  · exact absurd hsame hne
  have hafter : ∀ m z, ((d.drop k.here x').put k.here y' (.file f)).node? m z =
      if m = k.here ∧ z = y' then some (.file f) else if m = k.here ∧ z = x' then none else d.node? m z := by
    intro m z
    rw [node?_put, node?_drop]
  refine ⟨hr, ⟨?_, fun m z n hd => ?_⟩, ?_, ?_, fun z hzx hzy => ?_, ?_⟩
  · rw [put, drop]
  · rw [hafter, if_neg, if_neg, hd]
    · rintro ⟨rfl, rfl⟩
      rw [hf] at hd
      cases hd
    · rintro ⟨rfl, rfl⟩
      exact hfree rfl n hd
  · rw [hafter, if_neg fun h => hne h.2, if_pos ⟨rfl, rfl⟩]
  · rw [hafter, if_pos ⟨rfl, rfl⟩]
  · rw [hafter, if_neg fun h => hzy h.2, if_neg fun h => hzx h.2]
  · rw [put, drop]

/-! ### Making directories -/

section Running

variable {σ : Type} (make : Path → StateM σ (Except IoFault Unit)) (isThere : Path → StateM σ Bool)

theorem run_makeOne (p : Path) (s : σ) : (Path.makeOne make isThere p).run s =
    match (make p).run s with
    | (.error .alreadyExists, s) =>
      (if ((isThere p).run s).1 then .ok () else .error .alreadyExists, ((isThere p).run s).2)
    | made => made := by
  rw [Path.makeOne, StateT.run_bind]
  rcases (make p).run s with ⟨answer, s'⟩
  cases answer with
  | ok a => rfl
  | error e => cases e <;> rfl

theorem run_makeFirst (p : Path) (above : List Path) (s : σ) :
    (Path.makeFirst make isThere (p :: above)).run s =
      match (Path.makeOne make isThere p).run s with
      | (.error .notFound, s) =>
        match (Path.makeFirst make isThere above).run s with
        | (.ok (), s) => (Path.makeOne make isThere p).run s
        | failed => failed
      | made => made := by
  rw [Path.makeFirst, StateT.run_bind]
  rcases (Path.makeOne make isThere p).run s with ⟨answer, s'⟩
  cases answer with
  | ok a => rfl
  | error e =>
    cases e with
    | notFound =>
      refine (StateT.run_bind _ _ _).trans ?_
      simp only
      rcases (Path.makeFirst make isThere above).run s' with ⟨answer', s''⟩
      cases answer' <;> rfl
    | _ => rfl

end Running

def making (p : Path) : StateM Disk (Except IoFault Unit) := fun d => d.makeDirectory p

def testing (p : Path) : StateM Disk Bool := fun d => (d.isDirectory p, d)

theorem makeDirectories_eq (d : Disk) (p : Path) : d.makeDirectories p = (p.makeDirectories making testing).run d := rfl

theorem run_makeOne_making (p : Path) (d : Disk) : (Path.makeOne making testing p).run d =
    match d.makeDirectory p with
    | (.error .alreadyExists, d) => (if d.isDirectory p then .ok () else .error .alreadyExists, d)
    | made => made := by
  have hmake : (making p).run d = d.makeDirectory p := rfl
  rw [run_makeOne, hmake]
  rcases d.makeDirectory p with ⟨answer, d'⟩
  cases answer with
  | ok a => rfl
  | error e => cases e <;> rfl

/-- Directories are made one after the other. -/
theorem makeFirst_induction {motive : Disk → Prop} (step : ∀ d p, motive d → motive (d.makeDirectory p).2) (ps : List Path)
    (h : motive d) : motive ((Path.makeFirst making testing ps).run d).2 := by
  have hone : ∀ p d, motive d → motive ((Path.makeOne making testing p).run d).2 := by
    intro p d hd
    have hmade := step d p hd
    rw [run_makeOne_making]
    split
    · rename_i hm
      rwa [hm] at hmade
    · exact hmade
  induction ps generalizing d with
  | nil => exact h
  | cons p above ih =>
    have hmade := hone p d h
    rw [run_makeFirst]
    split
    · rename_i hm
      rw [hm] at hmade
      have habove := ih hmade
      split
      · rename_i ha
        rw [ha] at habove
        exact hone p _ habove
      · exact habove
    · exact hmade

theorem makeDirectories_induction {motive : Disk → Prop} (step : ∀ d p, motive d → motive (d.makeDirectory p).2)
    (h : motive d) (p : Path) : motive (d.makeDirectories p).2 := by
  rw [makeDirectories_eq, Path.makeDirectories]
  split
  · exact h
  · exact makeFirst_induction step _ h

theorem makeOne_of_find {k : Nat} (h : d.find dir = .ok (.directory k)) :
    (Path.makeOne making testing dir).run d = (.ok (), d) := by
  have hmade : d.makeDirectory dir = (.error .alreadyExists, d) := by
    rw [find] at h
    rw [makeDirectory]
    cases hp : d.place dir with
    | error e => simp [hp] at h
    | ok place =>
      cases place with
      | inside t => rfl
      | entry t name =>
        cases hn : d.node? t.here name with
        | none => simp [hp, hn] at h
        | some node => simp [hn]
  have htest : d.isDirectory dir = true := by rw [isDirectory, h]
  rw [run_makeOne_making, hmade]
  simp only [htest, if_true]

/-- Making a directory that is there changes nothing. -/
theorem makeDirectories_of_find {k : Nat} (h : d.find dir = .ok (.directory k)) :
    d.makeDirectories dir = (.ok (), d) := by
  rw [makeDirectories_eq, Path.makeDirectories]
  split
  · rfl
  · rw [run_makeFirst, makeOne_of_find h]

theorem makeDirectories_of_isStart (d : Disk) (h : dir.isStart = true) : d.makeDirectories dir = (.ok (), d) := by
  rw [makeDirectories_eq, Path.makeDirectories, if_pos h]
  rfl

/-- A directory in which a name is reached need not be made. -/
theorem makeDirectories_of_leads (hl : d.Leads dir t) (refusal : (dir.child x).refusal? = none) :
    d.makeDirectories dir = (.ok (), d) := by
  obtain hempty | hrefusal := Path.refusal?_of_child refusal
  · exact d.makeDirectories_of_isStart (by simp [Path.isStart, hempty])
  · exact makeDirectories_of_find (find_of_leads hl hrefusal)

end Disk

end SeriesRegion
