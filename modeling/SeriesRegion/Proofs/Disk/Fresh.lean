import SeriesRegion.Proofs.Disk.Making

/-!
# Directories that have just been made

A directory gets the next number when it is made, so on a disk whose directories all have numbers below that
(`Disk.Counted`) there is nothing in it.  If a path that does not lead back up is made a directory, then this is the one that
has been made last, and nothing is in it (`Disk.vacant_of_makeDirectories`).
-/

namespace SeriesRegion.Disk

variable {d d' : Disk} {p : Path} {t : Trail} {x : String}

/-- The directories of a disk have numbers that have been given. -/
structure Counted (d : Disk) : Prop where
  home : d.home.here < d.directories.next
  directories : ∀ {k x n}, d.node? k x = some (.directory n) → n < d.directories.next

theorem counted_new (home : String) : Counted (new home) := by
  have hnext : (new home).directories.next = 2 := rfl
  refine ⟨by rw [hnext]; exact Nat.one_lt_two, fun {k x n} hn => ?_⟩
  rw [node?_new] at hn
  split at hn
  · cases hn
    rw [hnext]
    decide
  · cases hn

/-- No directory loses its number. -/
theorem Counted.mono (h : Counted d) (home : d'.home = d.home) (next : d.directories.next ≤ d'.directories.next)
    (nodes : ∀ {k x n}, d'.node? k x = some (.directory n) →
      n < d'.directories.next ∨ ∃ k' x', d.node? k' x' = some (.directory n)) : Counted d' := by
  refine ⟨home ▸ Nat.lt_of_lt_of_le h.home next, fun {k x n} hn => ?_⟩
  obtain hlt | ⟨k', x', hn'⟩ := nodes hn
  · exact hlt
  · exact Nat.lt_of_lt_of_le (h.directories hn') next

theorem next_put (d : Disk) (k : Nat) (x : String) (node : Node) :
    (d.put k x node).directories.next = max d.directories.next (k + 1) := Numbered.next_modify _ _ _

theorem next_drop (d : Disk) (k : Nat) (x : String) :
    (d.drop k x).directories.next = max d.directories.next (k + 1) := Numbered.next_modify _ _ _

theorem next_createDirectory (d : Disk) (k : Nat) (x : String) :
    d.directories.next < (d.createDirectory k x).directories.next := by
  have hclear : (d.clear d.directories.next).directories.next = max d.directories.next (d.directories.next + 1) :=
    Numbered.next_modify _ _ _
  rw [createDirectory, next_put, hclear]
  omega

theorem Counted.createDirectory (h : Counted d) (k : Nat) (x : String) : Counted (d.createDirectory k x) := by
  have hnext := d.next_createDirectory k x
  refine h.mono (by rw [Disk.createDirectory, put, clear]) (Nat.le_of_lt hnext) fun {k' x' n} hn => ?_
  rw [node?_createDirectory] at hn
  split at hn
  · cases hn
    exact .inl hnext
  · exact .inr ⟨_, _, hn⟩

theorem Counted.createFile (h : Counted d) (k : Nat) (x : String) : Counted (d.createFile k x) := by
  refine h.mono rfl ?_ fun {k' x' n} hn => ?_
  · have hnext := (d.setBytes d.files.next []).next_put k x (.file d.files.next)
    exact Nat.le_trans (Nat.le_max_left _ (k + 1)) (Nat.le_of_eq hnext.symm)
  · rw [node?_createFile] at hn
    split at hn
    · cases hn
    · exact .inr ⟨_, _, hn⟩

theorem Counted.makeDirectory (h : Counted d) (p : Path) : Counted (d.makeDirectory p).2 := by
  rw [Disk.makeDirectory]
  split
  · exact h
  · exact h
  · split
    · exact h
    · split
      · exact h.createDirectory _ _
      · exact h

theorem Counted.openFile (h : Counted d) (p : Path) : Counted (d.openFile p).2 := by
  rw [Disk.openFile]
  split
  · exact h
  · exact h
  · split
    · exact h
    · split
      · exact h
      · exact h
      · split
        · exact h.createFile _ _
        · exact h

theorem Counted.write (h : Counted d) (p : Path) (bytes : Bytes) : Counted (d.write p bytes).2 := by
  have hopen := h.openFile p
  rw [Disk.write]
  rcases ho : d.openFile p with ⟨answer, d'⟩
  rw [ho] at hopen
  cases answer with
  | error e => exact hopen
  | ok f => exact ⟨hopen.home, hopen.directories⟩

theorem Counted.remove (h : Counted d) (p : Path) : Counted (d.remove p).2 := by
  obtain hr | ⟨t, x, f, -, -, hr⟩ := d.remove_cases p
  · rw [hr]
    exact h
  · rw [hr]
    refine h.mono rfl (by rw [next_drop]; exact Nat.le_max_left _ _) fun {k' x' n} hn => ?_
    rw [node?_drop] at hn
    split at hn
    · cases hn
    · exact .inr ⟨_, _, hn⟩

theorem Counted.rename (h : Counted d) (source target : Path) : Counted (d.rename source target).2 := by
  obtain hr | ⟨s, x, t, y, node, -, -, hnode, hr⟩ := d.rename_cases source target
  · rw [hr]
    exact h
  · rw [hr]
    refine h.mono (by rw [put, drop]) ?_ fun {k' x' n} hn => ?_
    · rw [next_put, next_drop]
      omega
    · rw [node?_put, node?_drop] at hn
      split at hn
      · cases hn
        exact .inr ⟨_, _, hnode⟩
      · split at hn
        · cases hn
        · exact .inr ⟨_, _, hn⟩

theorem Counted.perform (h : Counted d) (op : FileOp) : Counted (d.perform op).2 := by
  cases op with
  | makeDirectories p => exact makeDirectories_induction (fun _ p hd => hd.makeDirectory p) h p
  | list p => exact h
  | present p => exact h
  | read p => exact h
  | write p bytes => exact h.write p bytes
  | rename source target => exact h.rename source target
  | remove p => exact h.remove p
  | openLog p => exact h.openFile p
  | contents f => exact h
  | append f bytes => exact ⟨h.home, h.directories⟩
  | truncate f length => exact ⟨h.home, h.directories⟩
  | sync f => exact h

/-- Whatever is done, every directory has a number that has been given. -/
theorem Counted.run {α : Type} (h : Counted d) (task : FileTask α) : Counted (task.run d).2 := by
  induction task generalizing d with
  | done a => exact h
  | call op next ih => exact ih _ (h.perform op)

/-! ### What is in a directory that has been made -/

/-- There is a directory, and nothing in it. -/
def Vacant (p : Path) (d : Disk) : Prop := ∃ k, d.find p = .ok (.directory k) ∧ ∀ x, d.node? k x = none

/-- A path that does not lead back up goes through directories that have been given a number. -/
theorem Counted.here_lt (h : Counted d) {ns : List String} {k : Trail} (start : t.here < d.directories.next)
    (down : ".." ∉ ns) (hw : d.walk t ns = .ok (.entry k x)) : k.here < d.directories.next := by
  induction ns generalizing t with
  | nil => cases hw
  | cons y ns ih =>
    rw [walk] at hw
    split at hw
    · cases hw
      exact start
    · cases hk : d.enter t y with
      | error e => simp [hk] at hw
      | ok k' =>
        rw [hk] at hw
        refine ih ?_ (fun hy => down (List.mem_cons_of_mem _ hy)) hw
        rw [enter] at hk
        split at hk
        · cases hk
          exact start
        · rw [if_neg fun hy => down (by rw [← hy]; exact List.mem_cons_self)] at hk
          split at hk
          · rename_i hn
            cases hk
            exact h.directories hn
          · cases hk
          · cases hk

/-- What is made a directory was one, or is one now in which there is nothing. -/
theorem Counted.vacant_of_makeOne (h : Counted d) (down : ".." ∉ p.names)
    (made : (Path.makeOne making testing p).run d = (.ok (), d')) : d.isDirectory p = true ∨ Vacant p d' := by
  obtain ⟨e, -, hrun⟩ | ⟨htest, -, -⟩ | ⟨t, x, hp, ⟨f, -, hrun⟩ | ⟨hn, hrun⟩⟩ := d.makeOne_cases p
  · rw [hrun] at made
    cases made
  · exact .inl htest
  · rw [hrun] at made
    cases made
  · split at hrun
    · rename_i ha
      rw [hrun] at made
      cases made
      right
      have hapart : d.directories.next ≠ t.here := by
        rw [place] at hp
        split at hp
        · cases hp
        · have hstart : (if p.isAbsolute then Trail.root else d.home).here < d.directories.next := by
            split
            · exact Nat.lt_of_le_of_lt (Nat.zero_le _) h.home
            · exact h.home
          exact Nat.ne_of_gt (h.here_lt hstart down hp)
      refine ⟨d.directories.next, ?_, fun y => ?_⟩
      · rw [find, (grows_createDirectory hn ha).keeps.place_ok hp]
        simp only [node?_createDirectory, and_self, if_true]
      · rw [node?_createDirectory, if_neg fun hy => hapart hy.1]
        exact node?_of_next_le (Nat.le_refl _) y
    · rw [hrun] at made
      cases made

theorem isDirectory_iff : d.isDirectory p = true ↔ ∃ k, d.find p = .ok (.directory k) := by
  rw [isDirectory]
  split
  · exact iff_of_true rfl ⟨_, by assumption⟩
  · rename_i hnot
    refine iff_of_false Bool.false_ne_true ?_
    rintro ⟨k, hk⟩
    exact hnot k hk

/-- In a directory that was not there, and has nothing in it now, there is no directory. -/
private theorem Vacant.isDirectory_eq_false {q : Path} (under : Under p q) (refusal : q.refusal? = none)
    (down : ".." ∉ p.names) (absent : d.isDirectory q = false) (h : Vacant q d') : d'.isDirectory p = false := by
  obtain ⟨k, hk, hvacant⟩ := h
  refine Bool.eq_false_iff.2 fun htest => ?_
  obtain ⟨_, hp⟩ := isDirectory_iff.1 htest
  obtain ⟨t, hl, -, -⟩ := leads_of_find_directory hp
  have hfilter := (d'.descend_filter _ _).trans hl
  have hnames := under.names
  obtain hnil | ⟨ns, x, hconcat⟩ := List.eq_nil_or_concat (p.names.filter (· ≠ "."))
  · -- The directory above is where paths start, which is always there.
    rw [hnil] at hnames
    have hstart : d.Leads q (if q.isAbsolute then .root else d.home) := by
      rw [Leads, hnames]
      rfl
    rw [isDirectory_iff.2 ⟨_, find_of_leads hstart refusal⟩] at absent
    cases absent
  · rw [List.concat_eq_append] at hconcat
    rw [hconcat, List.dropLast_concat] at hnames
    have hx : x ∈ p.names ∧ x ≠ "." := by
      have hmem : x ∈ p.names.filter (· ≠ ".") := by
        rw [hconcat]
        exact List.mem_append_right _ List.mem_cons_self
      simpa using hmem
    rw [hconcat, descend_append] at hfilter
    split at hfilter
    · rename_i s hs
      have hq : d'.Leads q s := by rwa [Leads, under.start, hnames]
      rw [find_of_leads hq refusal] at hk
      cases hk
      rw [descend, enter, if_neg hx.2, if_neg fun hup => down (by rw [← hup]; exact hx.1), hvacant] at hfilter
      cases hfilter
    · cases hfilter

/-- The first of some paths is a directory in which there is nothing, once it has been made. -/
private def Vacates (ps : List Path) : Prop :=
  ∀ p above d d', ps = p :: above → Counted d → d.isDirectory p = false → p.refusal? = none → ".." ∉ p.names →
    (Path.makeFirst making testing ps).run d = (.ok (), d') → Vacant p d'

private theorem Vacates.cons {above : List Path} (h : Vacates above) (under : ∀ q, above.head? = some q → Under p q) :
    Vacates (p :: above) := by
  rintro _ _ d d' ⟨⟩ counted absent refusal down made
  rw [run_makeFirst] at made
  rcases hone : (Path.makeOne making testing p).run d with ⟨answer, d₁⟩
  rw [hone] at made
  cases answer with
  | ok a =>
    cases made
    refine (counted.vacant_of_makeOne down hone).resolve_left ?_
    rw [absent]
    exact Bool.false_ne_true
  | error e =>
    obtain rfl := disk_of_makeOne_error hone
    cases e with
    | notFound =>
      simp only at made
      rcases habove : (Path.makeFirst making testing above).run d₁ with ⟨answer, d₂⟩
      rw [habove] at made
      cases answer with
      | error e => cases made
      | ok a =>
        have hlast : (Path.makeOne making testing p).run d₂ = (.ok (), d') := made
        have hcounted : Counted d₂ := by
          have hafter := makeFirst_induction (motive := Counted) (fun _ p hd => hd.makeDirectory p) above counted
          rwa [habove] at hafter
        refine (hcounted.vacant_of_makeOne down hlast).resolve_left fun htest => ?_
        cases above with
        | nil =>
          cases habove
          rw [absent] at htest
          cases htest
        | cons q rest =>
          have hunder := under q rfl
          have hrefusal := refusal?_of_makeFirst hunder.written habove
          cases hq : d₁.isDirectory q with
          | true =>
            -- Nothing was left to be made above, so that the path is still missing.
            obtain ⟨k, hk⟩ := isDirectory_iff.1 hq
            rw [run_makeFirst, makeOne_of_find hk] at habove
            cases habove
            rw [absent] at htest
            cases htest
          | false =>
            have hdown : ".." ∉ q.names := by
              rw [hunder.names]
              exact fun hy => down (List.mem_filter.1 ((List.dropLast_sublist _).subset hy)).1
            have hvacant := h q rest _ _ rfl counted hq hrefusal hdown habove
            rw [hvacant.isDirectory_eq_false hunder hrefusal down hq] at htest
            cases htest
    | _ => cases made

/-- If a path that does not lead back up is made a directory, then nothing is in it. -/
theorem vacant_of_makeDirectories (h : Counted d) (absent : d.present p = false) (refusal : p.refusal? = none)
    (down : ".." ∉ p.names) (made : d.makeDirectories p = (.ok (), d')) : Vacant p d' := by
  have hnot : d.isDirectory p = false := by
    refine Bool.eq_false_iff.2 fun htest => ?_
    obtain ⟨k, hk⟩ := isDirectory_iff.1 htest
    rw [present, hk] at absent
    cases absent
  rw [makeDirectories_eq, Path.makeDirectories] at made
  split at made
  · -- Where paths start is there.
    rename_i hstart
    rw [Path.isStart, decide_eq_true_eq] at hstart
    obtain hempty | ⟨-, hall⟩ := hstart
    · simp only [Path.refusal?, hempty, if_true] at refusal
      split at refusal <;> cases refusal
    · have hfilter : p.names.filter (· ≠ ".") = [] :=
        List.filter_eq_nil_iff.2 fun x hx => by simpa using List.all_eq_true.1 hall x hx
      have hl : d.Leads p (if p.isAbsolute then .root else d.home) := by
        rw [Leads, ← descend_filter, hfilter]
        rfl
      rw [isDirectory_iff.2 ⟨_, find_of_leads hl refusal⟩] at hnot
      cases hnot
  · have hnil : Vacates [] := by
      intro q above d d' h
      cases h
    have hall : Vacates (p :: p.ancestors) := ancestors_induction hnil (fun under h => h.cons under) p
    exact hall p _ d d' rfl h hnot refusal down made

end SeriesRegion.Disk
