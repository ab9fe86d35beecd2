import SeriesRegion.Proofs.Disk.Children
import SeriesRegion.Proofs.Disk.Stops

/-!
# Making directories again

If making directories is stopped and then done once more, the disk is the one that there would have been at once
(`Disk.makeDirectories_makeSome`): what has been made stays (`Disk.Grows`), and a directory cannot be made before the one
above it (`Disk.makeOne_of_under`).
-/

namespace SeriesRegion.Disk

variable {d d' : Disk} {p q : Path} {t : Trail} {x : String} {e : IoFault}

/-! ### What is there stays -/

/-- Names have come and none has gone, and where nothing can stand nothing has come. -/
structure Grows (d d' : Disk) : Prop where
  home : d'.home = d.home
  nodes : ∀ {k x node}, d.node? k x = some node → d'.node? k x = some node
  absent : ∀ {k x}, d.node? k x = none → absence x ≠ .notFound → d'.node? k x = none

theorem Grows.refl (d : Disk) : Grows d d := ⟨rfl, id, fun h _ => h⟩

theorem Grows.trans {d'' : Disk} (h : Grows d d') (h' : Grows d' d'') : Grows d d'' :=
  ⟨h'.home.trans h.home, fun hx => h'.nodes (h.nodes hx), fun hx ha => h'.absent (h.absent hx ha) ha⟩

theorem Grows.keeps (h : Grows d d') : Keeps d d' := ⟨h.home, fun _ _ _ hx => h.nodes hx⟩

theorem node?_clear (d : Disk) (k k' : Nat) (x : String) :
    (d.clear k).node? k' x = if k' = k then none else d.node? k' x := by
  rw [clear, node?, Numbered.get_set]
  split <;> rfl

theorem node?_of_next_le {k : Nat} (h : d.directories.next ≤ k) (x : String) : d.node? k x = none := by
  rw [node?, Numbered.get_of_next_le h]
  rfl

theorem node?_createDirectory (d : Disk) (k : Nat) (x : String) (k' : Nat) (x' : String) :
    (d.createDirectory k x).node? k' x' =
      if k' = k ∧ x' = x then some (.directory d.directories.next) else d.node? k' x' := by
  rw [createDirectory, node?_put]
  split
  · rfl
  · rw [node?_clear]
    split
    · rename_i hnext
      exact (node?_of_next_le (Nat.le_of_eq hnext.symm) x').symm
    · rfl

theorem grows_createDirectory {k : Nat} (hn : d.node? k x = none) (ha : absence x = .notFound) :
    Grows d (d.createDirectory k x) := by
  have hhome : (d.createDirectory k x).home = d.home := by rw [createDirectory, put, clear]
  refine ⟨hhome, fun {k' y node} hy => ?_, fun {k' y} hy hnot => ?_⟩
  · rw [node?_createDirectory, if_neg, hy]
    rintro ⟨rfl, rfl⟩
    rw [hn] at hy
    cases hy
  · rw [node?_createDirectory, if_neg, hy]
    rintro ⟨rfl, rfl⟩
    exact hnot ha

theorem grows_makeDirectory (d : Disk) (p : Path) : Grows d (d.makeDirectory p).2 := by
  rw [makeDirectory]
  cases d.place p with
  | error e => exact .refl d
  | ok place =>
    cases place with
    | inside t => exact .refl d
    | entry t x =>
      cases hn : d.node? t.here x with
      | some node => simpa [hn] using Grows.refl d
      | none =>
        simp only [hn]
        split
        · exact grows_createDirectory hn (by assumption)
        · exact .refl d

/-- A fault other than that something is missing stays. -/
theorem Grows.enter_error (h : Grows d d') (he : d.enter t x = .error e) (found : e ≠ .notFound) :
    d'.enter t x = .error e := by
  simp only [enter] at he ⊢
  split at he
  · cases he
  · rename_i hdot
    rw [if_neg hdot]
    split at he
    · cases he
    · rename_i hup
      rw [if_neg hup]
      cases hn : d.node? t.here x with
      | none =>
        rw [hn] at he
        cases he
        rw [h.absent hn found]
      | some node =>
        rw [h.nodes hn]
        rwa [hn] at he

theorem Grows.walk_error (h : Grows d d') {ns : List String} (hw : d.walk t ns = .error e) (found : e ≠ .notFound) :
    d'.walk t ns = .error e := by
  induction ns generalizing t with
  | nil => cases hw
  | cons y ns ih =>
    rw [walk] at hw ⊢
    split
    · rename_i hlast
      rw [if_pos hlast] at hw
      cases hw
    · rename_i hlast
      rw [if_neg hlast] at hw
      cases hk : d.enter t y with
      | error e' =>
        rw [hk] at hw
        cases hw
        rw [h.enter_error hk found]
      | ok k =>
        rw [hk] at hw
        rw [h.keeps.enter hk]
        exact ih hw

theorem Grows.place_error (h : Grows d d') (hp : d.place p = .error e) (found : e ≠ .notFound) :
    d'.place p = .error e := by
  rw [Disk.place] at hp ⊢
  cases hr : p.refusal? with
  | some e' => rwa [hr] at hp
  | none =>
    rw [hr] at hp
    rw [h.home]
    exact h.walk_error hp found

/-! ### One directory -/

/-- Making one directory fails where its path does not lead on, or to a file, or to a name that nothing can have; it finds a
directory that is there, or makes a new one. -/
theorem makeOne_cases (d : Disk) (p : Path) :
    (∃ e, d.place p = .error e ∧ (Path.makeOne making testing p).run d = (.error e, d)) ∨
    (d.isDirectory p = true ∧ (∃ place, d.place p = .ok place) ∧ (Path.makeOne making testing p).run d = (.ok (), d)) ∨
    ∃ t x, d.place p = .ok (.entry t x) ∧
      ((∃ f, d.node? t.here x = some (.file f) ∧ (Path.makeOne making testing p).run d = (.error .alreadyExists, d)) ∨
        d.node? t.here x = none ∧
          if absence x = .notFound then (Path.makeOne making testing p).run d = (.ok (), d.createDirectory t.here x)
          else (Path.makeOne making testing p).run d = (.error (absence x), d)) := by
  rw [run_makeOne_making, makeDirectory]
  cases hp : d.place p with
  | error e =>
    refine .inl ⟨e, rfl, ?_⟩
    cases e with
    | alreadyExists =>
      have htest : d.isDirectory p = false := by simp [isDirectory, find, hp]
      simp [htest]
    | _ => rfl
  | ok place =>
    cases place with
    | inside t =>
      have htest : d.isDirectory p = true := by simp [isDirectory, find, hp]
      exact .inr (.inl ⟨htest, ⟨_, rfl⟩, by simp [htest]⟩)
    | entry t x =>
      cases hn : d.node? t.here x with
      | some node =>
        cases node with
        | directory n =>
          have htest : d.isDirectory p = true := by simp [isDirectory, find, hp, hn]
          exact .inr (.inl ⟨htest, ⟨_, rfl⟩, by simp [hn, htest]⟩)
        | file f =>
          have htest : d.isDirectory p = false := by
            simp only [isDirectory, find, hp, hn]
            cases p.asksForDirectory <;> rfl
          exact .inr (.inr ⟨t, x, rfl, .inl ⟨f, hn, by simp [hn, htest]⟩⟩)
      | none =>
        refine .inr (.inr ⟨t, x, rfl, .inr ⟨hn, ?_⟩⟩)
        simp only [hn]
        rw [absence]
        by_cases hlong : Path.maxNameSize < x.utf8ByteSize
        · simp [if_pos hlong]
        · simp [if_neg hlong]

/-- A directory that has been made is there. -/
theorem makeOne_again (h : (Path.makeOne making testing p).run d = (.ok (), d')) :
    (Path.makeOne making testing p).run d' = (.ok (), d') := by
  obtain ⟨e, -, hrun⟩ | ⟨-, -, hrun⟩ | ⟨t, x, hp, ⟨f, -, hrun⟩ | ⟨hn, hrun⟩⟩ := d.makeOne_cases p
  · rw [hrun] at h
    cases h
  · rw [hrun] at h
    cases h
    exact hrun
  · rw [hrun] at h
    cases h
  · split at hrun
    · rename_i ha
      rw [hrun] at h
      cases h
      have hmade : d.makeDirectory p = (.ok (), d.createDirectory t.here x) := by
        simp only [makeDirectory, hp, hn, if_pos ha]
      have hgrows := d.grows_makeDirectory p
      rw [hmade] at hgrows
      have hp' := hgrows.keeps.place_ok hp
      have hn' : (d.createDirectory t.here x).node? t.here x = some (.directory d.directories.next) := by
        rw [node?_createDirectory, if_pos ⟨rfl, rfl⟩]
      rw [run_makeOne_making, makeDirectory, hp']
      simp only [hn', isDirectory, find, hp']
      rfl
    · rw [hrun] at h
      cases h

/-- A fault other than that something is missing is met again. -/
theorem Grows.makeOne_error (h : Grows d d') {d₁ : Disk} (hm : (Path.makeOne making testing p).run d = (.error e, d₁))
    (found : e ≠ .notFound) : (Path.makeOne making testing p).run d' = (.error e, d') := by
  obtain ⟨e', hp, hrun⟩ | ⟨-, -, hrun⟩ | ⟨t, x, hp, ⟨f, hn, hrun⟩ | ⟨hn, hrun⟩⟩ := d.makeOne_cases p
  · rw [hrun] at hm
    cases hm
    rw [run_makeOne_making, makeDirectory, h.place_error hp found]
    cases e with
    | alreadyExists => simp [isDirectory, find, h.place_error hp found]
    | _ => rfl
  · rw [hrun] at hm
    cases hm
  · rw [hrun] at hm
    cases hm
    rw [run_makeOne_making, makeDirectory, h.keeps.place_ok hp]
    simp only [h.nodes hn, isDirectory, find, h.keeps.place_ok hp]
    cases p.asksForDirectory <;> rfl
  · split at hrun
    · rw [hrun] at hm
      cases hm
    · rename_i ha
      rw [hrun] at hm
      cases hm
      rw [run_makeOne_making, makeDirectory, h.keeps.place_ok hp]
      simp only [h.absent hn ha, if_neg ha]
      cases hx : absence x with
      | alreadyExists =>
        rw [absence] at hx
        split at hx <;> cases hx
      | _ => rfl

theorem place_of_makeOne (h : (Path.makeOne making testing p).run d = (.ok (), d')) : ∃ place, d.place p = .ok place := by
  obtain ⟨e, -, hrun⟩ | ⟨-, hp, -⟩ | ⟨t, x, hp, -⟩ := d.makeOne_cases p
  · rw [hrun] at h
    cases h
  · exact hp
  · exact ⟨_, hp⟩

theorem disk_of_makeOne_error (h : (Path.makeOne making testing p).run d = (.error e, d')) : d' = d := by
  obtain ⟨e', -, hrun⟩ | ⟨-, -, hrun⟩ | ⟨t, x, -, ⟨f, -, hrun⟩ | ⟨-, hrun⟩⟩ := d.makeOne_cases p
  · rw [hrun] at h
    cases h
    rfl
  · rw [hrun] at h
    cases h
  · rw [hrun] at h
    cases h
    rfl
  · split at hrun
    · rw [hrun] at h
      cases h
    · rw [hrun] at h
      cases h
      rfl

theorem grows_makeFirst (d : Disk) (ps : List Path) : Grows d ((Path.makeFirst making testing ps).run d).2 :=
  makeFirst_induction (fun d' p h => h.trans (d'.grows_makeDirectory p)) ps (.refl d)

/-! ### The directory above -/

theorem descend_append (d : Disk) (t : Trail) (ns ms : List String) :
    d.descend t (ns ++ ms) =
      match d.descend t ns with
      | .ok k => d.descend k ms
      | .error e => .error e := by
  induction ns generalizing t with
  | nil => rfl
  | cons y ns ih =>
    rw [List.cons_append, descend, descend]
    cases d.enter t y with
    | error e => rfl
    | ok k => exact ih k

theorem descend_of_prefix {ns ms : List String} {k : Trail} (hpre : ms <+: ns) (h : d.descend t ns = .ok k) :
    ∃ k', d.descend t ms = .ok k' := by
  obtain ⟨rest, rfl⟩ := hpre
  rw [descend_append] at h
  cases hm : d.descend t ms with
  | error e => simp [hm] at h
  | ok k' => exact ⟨k', rfl⟩

/-- A name for the directory that it stands in leads no further. -/
theorem descend_filter (d : Disk) (t : Trail) (ns : List String) :
    d.descend t (ns.filter (· ≠ ".")) = d.descend t ns := by
  induction ns generalizing t with
  | nil => rfl
  | cons y ns ih =>
    by_cases hdot : y = "."
    · rw [List.filter_cons_of_neg (by simp [hdot]), ih, descend, enter, if_pos hdot]
    · rw [List.filter_cons_of_pos (by simp [hdot]), descend, descend]
      cases d.enter t y with
      | error e => rfl
      | ok k => exact ih k

theorem descend_dropLast_of_walk {ns : List String} {place : Place} (h : d.walk t ns = .ok place) :
    ∃ k, d.descend t ns.dropLast = .ok k := by
  induction ns generalizing t with
  | nil => exact ⟨t, rfl⟩
  | cons y ns ih =>
    cases ns with
    | nil => exact ⟨t, rfl⟩
    | cons z ns =>
      rw [walk, if_neg (by simp)] at h
      rw [List.dropLast_cons_of_ne_nil (List.cons_ne_nil z ns), descend]
      cases he : d.enter t y with
      | error e => simp [he] at h
      | ok k =>
        rw [he] at h
        exact ih h

private theorem isPrefix_dropLast_filter {α : Type} (f : α → Bool) (l : List α) :
    (l.filter f).dropLast <+: l.dropLast.filter f := by
  rcases List.eq_nil_or_concat l with rfl | ⟨l, a, rfl⟩
  · exact List.prefix_refl _
  · rw [List.concat_eq_append, List.dropLast_concat, List.filter_append, List.filter_cons, List.filter_nil]
    cases f a with
    | true =>
      simp only [if_true, List.dropLast_concat]
      exact List.prefix_refl _
    | false =>
      simp only [Bool.false_eq_true, if_false, List.append_nil]
      exact List.dropLast_prefix _

/-- A path leads through the names of another but the last, that is through the directory above. -/
structure Under (p q : Path) : Prop where
  start : q.isAbsolute = p.isAbsolute
  names : q.names = (p.names.filter (· ≠ ".")).dropLast
  written : q.isEmpty = false

/-- Where a directory can be made the one above it is. -/
theorem makeOne_of_under (h : Under p q) (refusal : q.refusal? = none) {place : Place} (hp : d.place p = .ok place) :
    (Path.makeOne making testing q).run d = (.ok (), d) := by
  rw [Disk.place] at hp
  cases hr : p.refusal? with
  | some e => simp [hr] at hp
  | none =>
    rw [hr] at hp
    obtain ⟨k, hk⟩ := descend_dropLast_of_walk hp
    obtain ⟨k', hk'⟩ := descend_of_prefix (isPrefix_dropLast_filter _ p.names) ((d.descend_filter _ _).trans hk)
    have hl : d.Leads q k' := by rwa [Leads, h.start, h.names]
    exact makeOne_of_find (find_of_leads hl refusal)

/-- A path that is refused is no directory that can be made. -/
theorem refusal?_of_makeFirst {above : List Path} (written : q.isEmpty = false)
    (h : (Path.makeFirst making testing (q :: above)).run d = (.ok (), d')) : q.refusal? = none := by
  cases hr : q.refusal? with
  | none => rfl
  | some e =>
    have hp : d.place q = .error e := by rw [Disk.place, hr]
    have hone : (Path.makeOne making testing q).run d = (.error e, d) := by
      obtain ⟨e', hp', hrun⟩ | ⟨-, ⟨_, hp'⟩, -⟩ | ⟨t, x, hp', -⟩ := d.makeOne_cases q
      · rw [hp] at hp'
        cases hp'
        exact hrun
      · rw [hp] at hp'
        cases hp'
      · rw [hp] at hp'
        cases hp'
    have hfound : e ≠ .notFound := by
      rintro rfl
      simp only [Path.refusal?, written] at hr
      split at hr
      · cases hr
      · split at hr
        · rename_i hempty
          cases hempty
        · split at hr <;> cases hr
    rw [run_makeFirst, hone] at h
    cases e with
    | notFound => exact absurd rfl hfound
    | _ => cases h

/-! ### Stopping and going on -/

private def counting (p : Path) : StateM (Nat × Disk) (Except IoFault Unit) := fun
  | (0, d) => (.error .other, 0, d)
  | (n + 1, d) => ((d.makeDirectory p).1, n, (d.makeDirectory p).2)

private def looking (p : Path) : StateM (Nat × Disk) Bool := fun s => (s.2.isDirectory p, s)

private theorem makeSome_eq (d : Disk) (n : Nat) (p : Path) :
    d.makeSome n p = ((p.makeDirectories counting looking).run (n, d)).2.2 := rfl

private theorem run_makeOne_zero (p : Path) (d : Disk) :
    (Path.makeOne counting looking p).run (0, d) = (.error .other, 0, d) := run_makeOne counting looking p (0, d)

private theorem run_makeOne_succ (p : Path) (n : Nat) (d : Disk) : (Path.makeOne counting looking p).run (n + 1, d) =
    (((Path.makeOne making testing p).run d).1, n, ((Path.makeOne making testing p).run d).2) := by
  have hcount : (counting p).run (n + 1, d) = ((d.makeDirectory p).1, n, (d.makeDirectory p).2) := rfl
  rw [run_makeOne, hcount, run_makeOne_making]
  rcases d.makeDirectory p with ⟨answer, d'⟩
  cases answer with
  | ok a => rfl
  | error e => cases e <;> rfl

/-- If making the first of some directories succeeds, then it does so too after it has been stopped, with the same disk. -/
private def Resumes (ps : List Path) : Prop :=
  ∀ d d₁, (Path.makeFirst making testing ps).run d = (.ok (), d₁) → ∀ n,
    ∃ m d₂, (Path.makeFirst making testing ps).run d₂ = (.ok (), d₁) ∧
      ((Path.makeFirst counting looking ps).run (n, d) = (.ok (), m, d₂) ∧ d₂ = d₁ ∨
        (Path.makeFirst counting looking ps).run (n, d) = (.error .other, m, d₂))

private theorem resumes_nil : Resumes [] := by
  intro d d₁ h n
  cases h
  exact ⟨n, d, rfl, .inl ⟨rfl, rfl⟩⟩

/-- What has been made above a directory is made from another disk too, and then the directory is made as before. -/
private theorem makeFirst_of_above {q : Path} {rest : List Path} {d₁ d₂ d₃ : Disk} (under : Under p q)
    (again : (Path.makeFirst making testing (q :: rest)).run d₃ = (.ok (), d₂))
    (last : (Path.makeOne making testing p).run d₂ = (.ok (), d₁)) :
    (Path.makeFirst making testing (p :: q :: rest)).run d₃ = (.ok (), d₁) := by
  rw [run_makeFirst]
  rcases hfirst : (Path.makeOne making testing p).run d₃ with ⟨answer, d₄⟩
  cases answer with
  | ok a =>
    -- Nothing was left to be made above.
    obtain ⟨place, hplace⟩ := place_of_makeOne hfirst
    have hsame := again
    rw [run_makeFirst, makeOne_of_under under (refusal?_of_makeFirst under.written again) hplace] at hsame
    cases hsame
    rw [last] at hfirst
    cases hfirst
    rfl
  | error e =>
    obtain rfl := disk_of_makeOne_error hfirst
    by_cases hfound : e = .notFound
    · subst hfound
      simp only [again]
      exact last
    · have hgrows := d₄.grows_makeFirst (q :: rest)
      rw [again] at hgrows
      have hfails := hgrows.makeOne_error hfirst hfound
      rw [last] at hfails
      cases hfails

private theorem Resumes.cons {above : List Path} (h : Resumes above) (under : ∀ q, above.head? = some q → Under p q) :
    Resumes (p :: above) := by
  intro d d₁ hrun n
  have hdone : ∀ d d₁, (Path.makeOne making testing p).run d = (.ok (), d₁) →
      (Path.makeFirst making testing (p :: above)).run d = (.ok (), d₁) := by
    intro d d₁ hone
    rw [run_makeFirst, hone]
  cases n with
  | zero => exact ⟨0, d, hrun, .inr (by rw [run_makeFirst, run_makeOne_zero])⟩
  | succ n =>
    rw [run_makeFirst] at hrun
    rcases hone : (Path.makeOne making testing p).run d with ⟨answer, d'⟩
    rw [hone] at hrun
    cases answer with
    | ok a =>
      cases hrun
      exact ⟨n, d₁, hdone _ _ (makeOne_again hone), .inl ⟨by rw [run_makeFirst, run_makeOne_succ, hone], rfl⟩⟩
    | error e =>
      obtain rfl := disk_of_makeOne_error hone
      cases e with
      | notFound =>
        simp only at hrun
        rcases habove : (Path.makeFirst making testing above).run d' with ⟨answer, d₂⟩
        rw [habove] at hrun
        cases answer with
        | error e => cases hrun
        | ok a =>
          have hlast : (Path.makeOne making testing p).run d₂ = (.ok (), d₁) := hrun
          obtain ⟨m, d₃, hagain, ⟨hcount, rfl⟩ | hcount⟩ := h d' d₂ habove n
          · cases m with
            | zero =>
              refine ⟨0, d₃, hdone _ _ hlast, .inr ?_⟩
              rw [run_makeFirst, run_makeOne_succ, hone]
              simp only [hcount, run_makeOne_zero]
            | succ m =>
              refine ⟨m, d₁, hdone _ _ (makeOne_again hlast), .inl ⟨?_, rfl⟩⟩
              rw [run_makeFirst, run_makeOne_succ, hone]
              simp only [hcount, run_makeOne_succ, hlast]
          · -- It has been stopped above, and the first is to be made from there.
            cases above with
            | nil => cases hcount
            | cons q rest =>
              refine ⟨m, d₃, makeFirst_of_above (under q rfl) hagain hlast, .inr ?_⟩
              rw [run_makeFirst, run_makeOne_succ, hone]
              simp only [hcount]
      | _ => cases hrun

/-- The path through some of the names of another. -/
private def through (p : Path) (n : Nat) : Path :=
  ⟨if p.isAbsolute then "/" else "", (p.names.filter (· ≠ ".")).take n⟩

private theorem ancestors_eq (p : Path) :
    p.ancestors = ((List.range (p.names.filter (· ≠ ".")).length).drop 1).reverse.map (through p) := rfl

private theorem names_through (p : Path) (n : Nat) : (through p n).names = (p.names.filter (· ≠ ".")).take n := by
  rw [through, Path.names]
  cases p.isAbsolute <;> simp [Path.parts]

private theorem isAbsolute_through (p : Path) (n : Nat) : (through p n).isAbsolute = p.isAbsolute := by
  show (if p.isAbsolute then "/" else "").startsWith "/" = p.isAbsolute
  cases p.isAbsolute <;> decide +kernel

private theorem under_through {q : Path} {n : Nat} (start : q.isAbsolute = p.isAbsolute)
    (names : q.names.filter (· ≠ ".") = (p.names.filter (· ≠ ".")).take (n + 2))
    (length : n + 2 ≤ (p.names.filter (· ≠ ".")).length) : Under q (through p (n + 1)) := by
  refine ⟨(isAbsolute_through p _).trans start.symm, ?_, ?_⟩
  · rw [names_through, names, List.dropLast_eq_take, List.length_take, List.take_take]
    congr 1
    omega
  · have hne : (through p (n + 1)).below ≠ [] := by
      intro hnil
      have hlength := congrArg List.length hnil
      rw [through, List.length_take, List.length_nil] at hlength
      omega
    simp [Path.isEmpty, hne]

private theorem filter_names_through (p : Path) (n : Nat) :
    (through p n).names.filter (· ≠ ".") = (p.names.filter (· ≠ ".")).take n := by
  rw [names_through, List.filter_eq_self]
  intro x hx
  exact (List.mem_filter.1 (List.mem_of_mem_take hx)).2

/-- The paths through the first names, the longest first. -/
private theorem ranges_succ (n : Nat) :
    ((List.range (n + 2)).drop 1).reverse = (n + 1) :: ((List.range (n + 1)).drop 1).reverse := by
  rw [List.range_succ, List.drop_append_of_le_length (by simp), List.reverse_append]
  rfl

/-- What holds of a path with those above it holds by going down to it: each is the directory above the next. -/
theorem ancestors_induction {motive : List Path → Prop} (nil : motive [])
    (cons : ∀ {p above}, (∀ q, above.head? = some q → Under p q) → motive above → motive (p :: above)) (p : Path) :
    motive (p :: p.ancestors) := by
  have hthrough : ∀ n, n ≤ (p.names.filter (· ≠ ".")).length →
      motive (((List.range n).drop 1).reverse.map (through p)) := by
    intro n length
    induction n with
    | zero => exact nil
    | succ n ih =>
      cases n with
      | zero => exact nil
      | succ n =>
        rw [ranges_succ, List.map_cons]
        refine cons (fun q hq => ?_) (ih (by omega))
        cases n with
        | zero => cases hq
        | succ n =>
          rw [ranges_succ, List.map_cons] at hq
          cases hq
          exact under_through (isAbsolute_through p _) (filter_names_through p _) (by omega)
  rw [ancestors_eq]
  refine cons (fun q hq => ?_) (hthrough _ (Nat.le_refl _))
  generalize hn : (p.names.filter (· ≠ ".")).length = n at hq
  match n with
  | 0 => cases hq
  | 1 => cases hq
  | n + 2 =>
    rw [ranges_succ, List.map_cons] at hq
    cases hq
    exact under_through rfl (by rw [← hn, List.take_length]) (Nat.le_of_eq hn.symm)

private theorem resumes_ancestors (p : Path) : Resumes (p :: p.ancestors) :=
  ancestors_induction resumes_nil (fun under h => h.cons under) p

/-- Making a directory after it has been stopped leaves the disk that there would have been at once. -/
theorem makeDirectories_makeSome {d₁ : Disk} (h : d.makeDirectories p = (.ok (), d₁)) (n : Nat) :
    (d.makeSome n p).makeDirectories p = (.ok (), d₁) := by
  rw [makeDirectories_eq, Path.makeDirectories] at h
  rw [makeDirectories_eq, makeSome_eq, Path.makeDirectories, Path.makeDirectories]
  split at h
  · rename_i hstart
    rw [if_pos hstart, if_pos hstart]
    exact h
  · rename_i hstart
    rw [if_neg hstart, if_neg hstart]
    obtain ⟨m, d₂, hagain, ⟨hcount, -⟩ | hcount⟩ := resumes_ancestors p d d₁ h n
    · rw [hcount]
      exact hagain
    · rw [hcount]
      exact hagain

private theorem ne_dot_of_walk {ns : List String} {k : Trail} (h : d.walk t ns = .ok (.entry k x)) : x ∈ ns ∧ x ≠ "." := by
  induction ns generalizing t with
  | nil => cases h
  | cons y ns ih =>
    rw [walk] at h
    split at h
    · rename_i hlast
      cases h
      exact ⟨List.mem_cons_self, hlast.2.1⟩
    · cases he : d.enter t y with
      | error e => simp [he] at h
      | ok k' =>
        rw [he] at h
        obtain ⟨hmem, hne⟩ := ih h
        exact ⟨List.mem_cons_of_mem _ hmem, hne⟩

/-- What is there and can be made a directory is one. -/
theorem find_of_makeDirectories (h : d.makeDirectories p = (.ok (), d')) (there : d.present p = true) :
    ∃ k, d.find p = .ok (.directory k) := by
  cases hfind : d.find p with
  | error e => simp [present, hfind] at there
  | ok node =>
    cases node with
    | directory k => exact ⟨k, rfl⟩
    | file f =>
      obtain ⟨t, x, hp, hn, -⟩ := find_eq_file.1 hfind
      rw [makeDirectories_eq, Path.makeDirectories] at h
      split at h
      · rename_i hstart
        rw [Disk.place] at hp
        cases hr : p.refusal? with
        | some e => simp [hr] at hp
        | none =>
          rw [hr] at hp
          obtain ⟨hmem, hne⟩ := ne_dot_of_walk hp
          rw [Path.isStart, decide_eq_true_eq] at hstart
          obtain hempty | ⟨-, hall⟩ := hstart
          · simp only [Path.refusal?, hempty, if_true] at hr
            split at hr <;> cases hr
          · exact absurd (of_decide_eq_true (List.all_eq_true.1 hall x hmem)) hne
      · obtain ⟨e, hp', -⟩ | ⟨htest, -⟩ | ⟨k, y, hp', ⟨f', -, hrun⟩ | ⟨hn', -⟩⟩ := d.makeOne_cases p
        · rw [hp] at hp'
          cases hp'
        · rw [isDirectory, hfind] at htest
          cases htest
        · rw [run_makeFirst, hrun] at h
          cases h
        · rw [hp] at hp'
          cases hp'
          rw [hn] at hn'
          cases hn'

/-- A directory that is there is not made again, not even in part. -/
theorem makeSome_of_find {k : Nat} (h : d.find p = .ok (.directory k)) (n : Nat) : d.makeSome n p = d := by
  rw [makeSome_eq, Path.makeDirectories]
  split
  · rfl
  · rw [run_makeFirst]
    cases n with
    | zero => rw [run_makeOne_zero]
    | succ n => rw [run_makeOne_succ, makeOne_of_find h]

theorem makeSome_of_leads (hl : d.Leads p t) (refusal : (p.child x).refusal? = none) (n : Nat) : d.makeSome n p = d := by
  obtain hempty | hrefusal := Path.refusal?_of_child refusal
  · rw [makeSome_eq, Path.makeDirectories, if_pos (by simp [Path.isStart, hempty])]
    rfl
  · exact makeSome_of_find (find_of_leads hl hrefusal) n

end SeriesRegion.Disk
