import SeriesRegion.Generation
import SeriesRegion.Proofs.Disk.Children

/-!
# Reading generations from file names

The name of a log says the generation that it was made from (`Generation.ofName?_logName`), and so does that of a
checkpoint (`Generation.ofName?_checkpointName`).  The latest generation among names is the highest that one of them says
(`Generation.latestOf_eq_some`).
-/

namespace SeriesRegion

private theorem foldl_digits {ds : List Char} (h : ∀ c ∈ ds, c.isDigit) (n : Nat) :
    ds.foldl (fun n c => do if c.isDigit then return 10 * (← n) + (c.toNat - 48) else none) (some n) =
      some (Nat.ofDigitChars 10 ds n) := by
  induction ds generalizing n with
  | nil => rfl
  | cons c ds ih =>
    rw [List.foldl_cons, Nat.ofDigitChars_cons, ← ih fun c' hc => h c' (List.mem_cons_of_mem _ hc),
      if_pos (h c List.mem_cons_self)]
    rfl

theorem decimalNumber?_of_isDigit {ds : List Char} (hne : ds ≠ []) (h : ∀ c ∈ ds, c.isDigit) :
    decimalNumber? ds = some (Nat.ofDigitChars 10 ds 0) := by
  cases ds with
  | nil => exact absurd rfl hne
  | cons c ds => exact foldl_digits h 0

theorem isDigit_of_mem_toDigits {n : Nat} {c : Char} (h : c ∈ Nat.toDigits 10 n) : c.isDigit :=
  Nat.isDigit_of_mem_toDigits (by decide) (by decide) h

theorem decimalNumber?_toDigits (n : Nat) : decimalNumber? (Nat.toDigits 10 n) = some n := by
  rw [decimalNumber?_of_isDigit Nat.toDigits_ne_nil fun c => isDigit_of_mem_toDigits, Nat.ofDigitChars_ten_toDigits]

theorem parseWord?_toDigits (g : UInt64) : parseWord? (Nat.toDigits 10 g.toNat) = some g := by
  have hn : ∀ rest, Nat.toDigits 10 g.toNat ≠ '+' :: rest := by
    intro rest h
    have hplus : '+'.isDigit := isDigit_of_mem_toDigits (n := g.toNat) (by simp [h])
    exact absurd hplus (by decide)
  rw [parseWord?, decimalNumber?_toDigits]
  · simp only [g.toNat_lt, if_true, UInt64.ofNat_toNat]
  · exact hn

theorem stripEnds?_append (first last s : List Char) : stripEnds? first last (first ++ s ++ last) = some s := by
  have hpre : first.isPrefixOf (first ++ s ++ last) = true := by
    rw [List.isPrefixOf_iff_prefix, List.append_assoc]
    exact List.prefix_append _ _
  have hdrop : (first ++ s ++ last).drop first.length = s ++ last := by
    rw [List.append_assoc, List.drop_left]
  have hsuf : last.isSuffixOf (s ++ last) = true := by
    rw [List.isSuffixOf_iff_suffix]
    exact List.suffix_append _ _
  rw [stripEnds?, if_pos hpre]
  simp only [hdrop]
  rw [if_pos hsuf, List.length_append, Nat.add_sub_cancel, List.take_left]

namespace Generation

theorem logName_toList (g : UInt64) :
    (logName g).toList = "wal-".toList ++ Nat.toDigits 10 g.toNat ++ ".log".toList := by
  have h : logName g = "wal-" ++ g.toNat.repr ++ ".log" := rfl
  rw [h, String.toList_append, String.toList_append, Nat.toList_repr]

theorem checkpointName_toList (g : UInt64) :
    (checkpointName g).toList = "checkpoint-".toList ++ Nat.toDigits 10 g.toNat ++ ".bin".toList := by
  have h : checkpointName g = "checkpoint-" ++ g.toNat.repr ++ ".bin" := rfl
  rw [h, String.toList_append, String.toList_append, Nat.toList_repr]

theorem ofName?_checkpointName (g : UInt64) : ofName? (checkpointName g) = some g := by
  rw [ofName?, checkpointName_toList, stripEnds?_append]
  exact parseWord?_toDigits g

theorem ofName?_logName (g : UInt64) : ofName? (logName g) = some g := by
  have hother : stripEnds? "checkpoint-".toList ".bin".toList (logName g).toList = none := by
    rw [logName_toList, stripEnds?, if_neg]
    simp
  rw [ofName?, hother, logName_toList]
  simp only [stripEnds?_append, Option.bind_some, parseWord?_toDigits]

/-- The log of a generation does not belong to an earlier one. -/
theorem isStale_logName (g : UInt64) : isStale g (logName g) = false := by
  rw [isStale, ofName?_logName]
  simp

theorem isStale_checkpointName (g : UInt64) : isStale g (checkpointName g) = false := by
  rw [isStale, ofName?_checkpointName]
  simp

theorem isStale_of_lt {g k : UInt64} {x : String} (hk : ofName? x = some k) (h : k < g) : isStale g x = true := by
  rw [isStale, hk]
  exact decide_eq_true h

private theorem ne_of_length_lt {s s' : String} (h : s'.toList.length < s.toList.length) : s ≠ s' := by
  rintro rfl
  exact Nat.lt_irrefl _ h

theorem isPlain_logName (g : UInt64) : Disk.IsPlain (logName g) := by
  have hlength : 8 ≤ (logName g).toList.length := by
    rw [logName_toList, List.length_append, List.length_append]
    show 8 ≤ 4 + _ + 4
    omega
  exact ⟨ne_of_length_lt (Nat.lt_of_lt_of_le (by decide) hlength),
    ne_of_length_lt (Nat.lt_of_lt_of_le (by decide) hlength)⟩

theorem isPlain_checkpointName (g : UInt64) : Disk.IsPlain (checkpointName g) := by
  have hlength : 15 ≤ (checkpointName g).toList.length := by
    rw [checkpointName_toList, List.length_append, List.length_append]
    show 15 ≤ 11 + _ + 4
    omega
  exact ⟨ne_of_length_lt (Nat.lt_of_lt_of_le (by decide) hlength),
    ne_of_length_lt (Nat.lt_of_lt_of_le (by decide) hlength)⟩

/-! ### How long the names are -/

private theorem utf8ByteSize_of_digits {cs : List Char} (h : ∀ c ∈ cs, c.isDigit) :
    (String.ofList cs).utf8ByteSize = cs.length := by
  induction cs with
  | nil => rfl
  | cons c cs ih =>
    have hc : c.isDigit := h c List.mem_cons_self
    rw [Char.isDigit, Bool.and_eq_true, decide_eq_true_eq, decide_eq_true_eq] at hc
    have hsize : c.utf8Size = 1 := by rw [Char.utf8Size, if_pos (UInt32.le_trans hc.2 (by decide))]
    rw [String.ofList_cons, String.utf8ByteSize_append, String.utf8ByteSize_singleton, hsize,
      ih fun c' hc' => h c' (List.mem_cons_of_mem _ hc'), List.length_cons, Nat.add_comm]

/-- A number of a machine word has twenty digits at most. -/
theorem utf8ByteSize_repr_le (g : UInt64) : g.toNat.repr.utf8ByteSize ≤ 20 := by
  have hsize : g.toNat.repr.utf8ByteSize = (Nat.toDigits 10 g.toNat).length := by
    rw [← String.ofList_toList (s := g.toNat.repr), Nat.toList_repr]
    exact utf8ByteSize_of_digits fun c => isDigit_of_mem_toDigits
  rw [hsize]
  exact (Nat.length_toDigits_le_iff (by decide) (by decide)).2 (Nat.lt_trans g.toNat_lt (by decide))

private theorem utf8ByteSize_logName (g : UInt64) : (logName g).utf8ByteSize = g.toNat.repr.utf8ByteSize + 8 := by
  have h : logName g = "wal-" ++ g.toNat.repr ++ ".log" := rfl
  have hfirst : "wal-".utf8ByteSize = 4 := by decide
  have hlast : ".log".utf8ByteSize = 4 := by decide
  rw [h, String.utf8ByteSize_append, String.utf8ByteSize_append]
  omega

private theorem utf8ByteSize_checkpointName (g : UInt64) :
    (checkpointName g).utf8ByteSize = g.toNat.repr.utf8ByteSize + 15 := by
  have h : checkpointName g = "checkpoint-" ++ g.toNat.repr ++ ".bin" := rfl
  have hfirst : "checkpoint-".utf8ByteSize = 11 := by decide
  have hlast : ".bin".utf8ByteSize = 4 := by decide
  rw [h, String.utf8ByteSize_append, String.utf8ByteSize_append]
  omega

theorem utf8ByteSize_logName_le (g : UInt64) : (logName g).utf8ByteSize ≤ (checkpointName g).utf8ByteSize := by
  rw [utf8ByteSize_logName, utf8ByteSize_checkpointName]
  omega

theorem utf8ByteSize_checkpointName_le (g : UInt64) : (checkpointName g).utf8ByteSize ≤ (draftName g).utf8ByteSize := by
  rw [draftName, String.utf8ByteSize_append]
  exact Nat.le_add_right _ _

theorem absence_logName (g : UInt64) : Disk.absence (logName g) = .notFound := by
  have h := utf8ByteSize_repr_le g
  rw [Disk.absence, if_neg]
  rw [utf8ByteSize_logName, Path.maxNameSize]
  omega

theorem absence_checkpointName (g : UInt64) : Disk.absence (checkpointName g) = .notFound := by
  have h := utf8ByteSize_repr_le g
  rw [Disk.absence, if_neg]
  rw [utf8ByteSize_checkpointName, Path.maxNameSize]
  omega

theorem absence_draftName (g : UInt64) : Disk.absence (draftName g) = .notFound := by
  have h := utf8ByteSize_repr_le g
  have hlast : ".tmp".utf8ByteSize = 4 := by decide
  rw [Disk.absence, if_neg]
  rw [draftName, String.utf8ByteSize_append, utf8ByteSize_checkpointName, Path.maxNameSize]
  omega

private theorem zero_not_mem_digits (g : UInt64) : '\x00' ∉ Nat.toDigits 10 g.toNat := by
  intro h
  have : '\x00'.isDigit := isDigit_of_mem_toDigits h
  exact absurd this (by decide)

theorem zero_not_mem_logName (g : UInt64) : '\x00' ∉ (logName g).toList := by
  rw [logName_toList]
  simp [zero_not_mem_digits]

theorem zero_not_mem_checkpointName (g : UInt64) : '\x00' ∉ (checkpointName g).toList := by
  rw [checkpointName_toList]
  simp [zero_not_mem_digits]

theorem checkpointName_ne_logName (g k : UInt64) : checkpointName g ≠ logName k := by
  intro h
  have hlist : (checkpointName g).toList = (logName k).toList := by rw [h]
  rw [checkpointName_toList, logName_toList] at hlist
  simp at hlist

theorem isPlain_of_ofName? {g : UInt64} {x : String} (h : ofName? x = some g) : Disk.IsPlain x := by
  constructor <;> rintro rfl <;> cases h

theorem draftName_toList (g : UInt64) : (draftName g).toList = (checkpointName g).toList ++ ".tmp".toList :=
  String.toList_append

/-- A draft belongs to no generation. -/
theorem ofName?_draftName (g : UInt64) : ofName? (draftName g) = none := by
  have hlist : (draftName g).toList =
      "checkpoint-".toList ++ (Nat.toDigits 10 g.toNat ++ ".bin".toList ++ ".tmp".toList) := by
    rw [draftName_toList, checkpointName_toList]
    simp only [List.append_assoc]
  have hcheckpoint : stripEnds? "checkpoint-".toList ".bin".toList (draftName g).toList = none := by
    rw [hlist, stripEnds?, if_pos (List.isPrefixOf_iff_prefix.2 (List.prefix_append _ _)), List.drop_left]
    refine if_neg fun hsuffix => ?_
    obtain ⟨s, hs⟩ := List.isSuffixOf_iff_suffix.1 hsuffix
    have hlast := congrArg List.getLast? hs
    simp at hlast
  have hlog : stripEnds? "wal-".toList ".log".toList (draftName g).toList = none := by
    rw [hlist, stripEnds?, if_neg]
    simp
  rw [ofName?, hcheckpoint, hlog]
  rfl

theorem draftName_ne_of_ofName? {g k : UInt64} {x : String} (h : ofName? x = some k) : x ≠ draftName g := by
  rintro rfl
  rw [ofName?_draftName] at h
  cases h

theorem isPlain_draftName (g : UInt64) : Disk.IsPlain (draftName g) := by
  have hlength : 4 ≤ (draftName g).toList.length := by
    rw [draftName_toList, List.length_append]
    exact Nat.le_add_left _ _
  exact ⟨ne_of_length_lt (Nat.lt_of_lt_of_le (by decide) hlength),
    ne_of_length_lt (Nat.lt_of_lt_of_le (by decide) hlength)⟩

/-! ### The next generation -/

theorem toNat_next {g : UInt64} (bound : g.toNat + 1 < UInt64.size) : (g + 1).toNat = g.toNat + 1 := by
  rw [UInt64.toNat_add, UInt64.toNat_one, Nat.mod_eq_of_lt bound]

theorem lt_next {g : UInt64} (bound : g.toNat + 1 < UInt64.size) : g < g + 1 := by
  rw [UInt64.lt_iff_toNat_lt, toNat_next bound]
  exact Nat.lt_succ_self _

/-! ### The latest generation -/

private theorem latest_step (latest : Option UInt64) (g : UInt64) : ∃ l, g ≤ l ∧ (l = g ∨ latest = some l) ∧
    (∀ k, latest = some k → k ≤ l) ∧ some (match latest with | some l => max l g | none => g) = some l := by
  cases latest with
  | none =>
    refine ⟨g, UInt64.le_refl g, .inl rfl, ?_, rfl⟩
    intro k hk
    cases hk
  | some l =>
    have hmax : max l g = if l ≤ g then g else l := rfl
    by_cases h : l ≤ g
    · refine ⟨g, UInt64.le_refl g, .inl rfl, ?_, congrArg some (hmax.trans (if_pos h))⟩
      rintro k ⟨⟩
      exact h
    · refine ⟨l, UInt64.le_of_lt (UInt64.not_le.1 h), .inr rfl, ?_, congrArg some (hmax.trans (if_neg h))⟩
      rintro k ⟨⟩
      exact UInt64.le_refl l

private theorem foldl_latest (gs : List UInt64) (latest : Option UInt64) :
    let last := gs.foldl (fun latest g => some (match latest with | some l => max l g | none => g)) latest
    (∀ g, g ∈ gs ∨ latest = some g → ∃ l, last = some l ∧ g ≤ l) ∧ (∀ l, last = some l → l ∈ gs ∨ latest = some l) := by
  induction gs generalizing latest with
  | nil => exact ⟨fun g hg => ⟨g, by simpa using hg, UInt64.le_refl g⟩, fun l hl => .inr hl⟩
  | cons g gs ih =>
    obtain ⟨k, hle, hfrom, hbefore, hstep⟩ := latest_step latest g
    obtain ⟨hbound, hsource⟩ := ih (some k)
    simp only [List.foldl_cons, hstep]
    obtain ⟨l, hl, hkl⟩ := hbound k (.inr rfl)
    refine ⟨?_, ?_⟩
    · rintro g' (hg' | hg')
      · rcases List.mem_cons.1 hg' with rfl | hg'
        · exact ⟨l, hl, UInt64.le_trans hle hkl⟩
        · exact hbound g' (.inl hg')
      · exact ⟨l, hl, UInt64.le_trans (hbefore g' hg') hkl⟩
    · intro l' hl'
      rcases hsource l' hl' with hmem | heq
      · exact .inl (List.mem_cons_of_mem _ hmem)
      · cases heq
        rcases hfrom with rfl | hlatest
        · exact .inl List.mem_cons_self
        · exact .inr hlatest

theorem le_latestOf {names : List String} {name : String} (hmem : name ∈ names) {g : UInt64}
    (hg : ofName? name = some g) : ∃ l, latestOf names = some l ∧ g ≤ l :=
  (foldl_latest _ none).1 g (.inl (List.mem_filterMap.2 ⟨name, hmem, hg⟩))

theorem mem_of_latestOf {names : List String} {l : UInt64} (h : latestOf names = some l) :
    ∃ name ∈ names, ofName? name = some l := by
  rcases (foldl_latest _ none).2 l h with hl | hl
  · exact List.mem_filterMap.1 hl
  · cases hl

/-- The latest generation is one of those there are, and none of these is later. -/
theorem latestOf_eq_some {names : List String} {g : UInt64} : latestOf names = some g ↔
    (∃ name ∈ names, ofName? name = some g) ∧ ∀ name ∈ names, ∀ k, ofName? name = some k → k ≤ g := by
  constructor
  · intro h
    refine ⟨mem_of_latestOf h, fun name hmem k hk => ?_⟩
    obtain ⟨l, hl, hkl⟩ := le_latestOf hmem hk
    rw [h, Option.some.injEq] at hl
    rwa [← hl] at hkl
  · rintro ⟨⟨name, hmem, hg⟩, hall⟩
    obtain ⟨l, hl, hgl⟩ := le_latestOf hmem hg
    obtain ⟨name', hmem', hl'⟩ := mem_of_latestOf hl
    rw [hl, UInt64.le_antisymm hgl (hall name' hmem' l hl')]

end Generation

end SeriesRegion
