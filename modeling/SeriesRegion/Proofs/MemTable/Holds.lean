import SeriesRegion.Proofs.MemTable.LastWrite
import Mathlib.Order.Bounds.Defs

/-!
# What a table holds of entries

A table holds entries if it has their devices and, at each point that they write, the value that they leave there
(`MemTable.Holds`).  Entries that have been applied are held (`MemTable.holds_applyAll`), so that of entries of which the
first have been applied the others decide (`MemTable.holds_append_iff`).  The highest log position of a table only grows
(`MemTable.le_maxSearchIndex_applyAll`): it is the highest of those before and those of the entries
(`MemTable.maxSearchIndex_applyAll_eq_some`).  So entries that name the same and have the same last writes leave the same
table (`MemTable.applyAll_congr`), and the order in which entries are applied shows in the last writes and nowhere else
(`MemTable.applyAll_eq_iff_of_perm`).
-/

namespace SeriesRegion.MemTable

variable {t : MemTable} {es : List LogEntry} {i k : UInt64}

/-- A table has the devices of entries and, at each point, the value that their last write leaves. -/
def Holds (t : MemTable) (es : List LogEntry) : Prop :=
  (∀ e ∈ es, t.hasDevice e.payload.device = true) ∧ ∀ x v, lastWrite es x = some v → t.value x = some v

theorem holds_applyAll (t : MemTable) (es : List LogEntry) : (t.applyAll es).Holds es := by
  constructor
  · intro e he
    rw [hasDevice_applyAll, Bool.or_eq_true, List.any_eq_true]
    exact .inr ⟨e, he, decide_eq_true rfl⟩
  · intro x v hv
    rw [value_applyAll, hv, Option.some_or]

theorem lastWrite_append (es es' : List LogEntry) (x : Point) :
    lastWrite (es ++ es') x = (lastWrite es' x).or (lastWrite es x) := by
  rw [lastWrite, List.flatMap_append, lastOf_append, lastWrite, lastWrite]

/-- Of entries of which the first have been applied, the others decide. -/
theorem holds_append_iff (t : MemTable) (es more : List LogEntry) :
    (t.applyAll es).Holds (es ++ more) ↔ (t.applyAll es).Holds more := by
  constructor
  · intro ⟨hdevices, hvalues⟩
    refine ⟨fun e he => hdevices e (List.mem_append_right _ he), fun x v hv => hvalues x v ?_⟩
    rw [lastWrite_append, hv, Option.some_or]
  · intro ⟨hdevices, hvalues⟩
    obtain ⟨hown, -⟩ := holds_applyAll t es
    refine ⟨fun e he => ?_, fun x v hv => ?_⟩
    · rcases List.mem_append.1 he with he | he
      · exact hown e he
      · exact hdevices e he
    · rw [lastWrite_append] at hv
      cases hmore : lastWrite more x with
      | some w =>
        rw [hmore, Option.some_or] at hv
        cases hv
        exact hvalues x v hmore
      | none =>
        rw [hmore, Option.none_or] at hv
        rw [value_applyAll, hv, Option.some_or]

/-! ### The highest log position -/

theorem toNat_max (i j : UInt64) : (max i j).toNat = max i.toNat j.toNat := by
  have h : max i j = if i ≤ j then j else i := rfl
  rw [h, Nat.max_def]
  by_cases hij : i ≤ j
  · rw [if_pos hij, if_pos (UInt64.le_iff_toNat_le.1 hij)]
  · rw [if_neg hij, if_neg (fun hn => hij (UInt64.le_iff_toNat_le.2 hn))]

theorem le_raise (h : k ≤ i) (j : Option UInt64) : ∃ l, raise (some i) j = some l ∧ k ≤ l := by
  cases j with
  | none => exact ⟨i, rfl, h⟩
  | some j =>
    refine ⟨max i j, rfl, UInt64.le_iff_toNat_le.2 ?_⟩
    rw [toNat_max]
    exact Nat.le_trans (UInt64.le_iff_toNat_le.1 h) (Nat.le_max_left _ _)

/-- The highest log position of a table only grows. -/
theorem le_maxSearchIndex_applyAll (h : t.maxSearchIndex = some k) (es : List LogEntry) :
    ∃ l, (t.applyAll es).maxSearchIndex = some l ∧ k ≤ l := by
  induction es generalizing t k with
  | nil => exact ⟨k, h, UInt64.le_refl k⟩
  | cons e es ih =>
    obtain ⟨j, hj, hkj⟩ := le_raise (UInt64.le_refl k) e.searchIndex
    have happly : (t.apply e).maxSearchIndex = some j := (congrArg (raise · e.searchIndex) h).trans hj
    obtain ⟨l, hl, hjl⟩ := ih happly
    exact ⟨l, hl, UInt64.le_trans hkj hjl⟩

/-- A log position that was raised to another is one of the two. -/
theorem eq_or_eq_of_raise {h j : Option UInt64} (hraise : raise h j = some i) : h = some i ∨ j = some i := by
  cases h with
  | none => exact .inr (by cases j <;> exact hraise)
  | some a =>
    cases j with
    | none => exact .inl hraise
    | some b =>
      have hmax : max a b = i := Option.some.inj hraise
      rw [← UInt64.toNat_inj, toNat_max] at hmax
      simp only [Option.some.injEq, ← UInt64.toNat_inj]
      omega

theorem le_raise_right (h : Option UInt64) (j : UInt64) : ∃ l, raise h (some j) = some l ∧ j ≤ l := by
  cases h with
  | none => exact ⟨j, rfl, UInt64.le_refl j⟩
  | some i =>
    refine ⟨max i j, rfl, UInt64.le_iff_toNat_le.2 ?_⟩
    rw [toNat_max]
    exact Nat.le_max_right _ _

/-- There is no highest log position if there was none before and no entry is bound to one. -/
theorem maxSearchIndex_applyAll_eq_none :
    (t.applyAll es).maxSearchIndex = none ↔ t.maxSearchIndex = none ∧ ∀ e ∈ es, e.searchIndex = none := by
  have hraise : ∀ h j : Option UInt64, raise h j = none ↔ h = none ∧ j = none := by
    intro h j
    cases h <;> cases j <;> simp [raise]
  induction es generalizing t with
  | nil => simp [applyAll]
  | cons e es ih =>
    rw [applyAll_cons]
    refine ih.trans ?_
    rw [List.forall_mem_cons, ← and_assoc]
    exact and_congr_left' (hraise _ _)

/-- A highest log position is that of the table before or that of an entry. -/
theorem mem_of_maxSearchIndex_applyAll (h : (t.applyAll es).maxSearchIndex = some i) :
    t.maxSearchIndex = some i ∨ ∃ e ∈ es, e.searchIndex = some i := by
  induction es generalizing t with
  | nil => exact .inl h
  | cons e es ih =>
    obtain h | ⟨e', he', h⟩ := ih h
    · exact (eq_or_eq_of_raise h).imp_right fun he => ⟨e, List.mem_cons_self, he⟩
    · exact .inr ⟨e', List.mem_cons_of_mem e he', h⟩

/-- No entry lies above the highest log position. -/
theorem mem_le_maxSearchIndex_applyAll {e : LogEntry} (he : e ∈ es) (hk : e.searchIndex = some k) :
    ∃ l, (t.applyAll es).maxSearchIndex = some l ∧ k ≤ l := by
  obtain ⟨before, after, rfl⟩ := List.append_of_mem he
  rw [applyAll_append, applyAll_cons]
  obtain ⟨j, hj, hkj⟩ := le_raise_right (t.applyAll before).maxSearchIndex k
  have happly : ((t.applyAll before).apply e).maxSearchIndex = some j := by
    rw [← hj, ← hk]
    rfl
  obtain ⟨l, hl, hjl⟩ := le_maxSearchIndex_applyAll happly after
  exact ⟨l, hl, UInt64.le_trans hkj hjl⟩

/-- The highest log position is the highest among those before and those of the entries. -/
theorem maxSearchIndex_applyAll_eq_some :
    (t.applyAll es).maxSearchIndex = some i ↔
      IsGreatest {k | t.maxSearchIndex = some k ∨ ∃ e ∈ es, e.searchIndex = some k} i := by
  have habove : ∀ k, (t.maxSearchIndex = some k ∨ ∃ e ∈ es, e.searchIndex = some k) →
      ∃ l, (t.applyAll es).maxSearchIndex = some l ∧ k ≤ l := by
    rintro k (h | ⟨e, he, hk⟩)
    · exact le_maxSearchIndex_applyAll h es
    · exact mem_le_maxSearchIndex_applyAll he hk
  constructor
  · refine fun h => ⟨mem_of_maxSearchIndex_applyAll h, fun k hk => ?_⟩
    obtain ⟨l, hl, hkl⟩ := habove k hk
    rwa [Option.some.inj (h.symm.trans hl)]
  · rintro ⟨hmem, hupper⟩
    obtain ⟨l, hl, hil⟩ := habove i hmem
    rw [hl, UInt64.le_antisymm (hupper (mem_of_maxSearchIndex_applyAll hl)) hil]

/-- Entries bound to one log position, which is not below those before, make it the highest. -/
theorem maxSearchIndex_applyAll_bound (bound : ∀ e ∈ es, e.searchIndex = some i) (ne : es ≠ [])
    (above : ∀ k, t.maxSearchIndex = some k → k ≤ i) : (t.applyAll es).maxSearchIndex = some i := by
  rw [maxSearchIndex_applyAll_eq_some]
  constructor
  · obtain ⟨e, he⟩ := List.exists_mem_of_ne_nil es ne
    exact .inr ⟨e, he, bound e he⟩
  · rintro k (hk | ⟨e, he, hk⟩)
    · exact above k hk
    · rw [bound e he, Option.some.injEq] at hk
      exact UInt64.le_of_eq hk.symm

/-! ### Entries that leave the same -/

/-- Entries that name the same devices, series and log positions and have the same last writes leave the same table. -/
theorem applyAll_congr {es' : List LogEntry} (t : MemTable)
    (devices : ∀ device, (∃ e ∈ es, e.payload.device = device) ↔ ∃ e ∈ es', e.payload.device = device)
    (series : ∀ device measurement, (∃ e ∈ es, names e device measurement) ↔ ∃ e ∈ es', names e device measurement)
    (values : ∀ x, lastWrite es x = lastWrite es' x)
    (indexes : ∀ k, (∃ e ∈ es, e.searchIndex = some k) ↔ ∃ e ∈ es', e.searchIndex = some k) :
    t.applyAll es = t.applyAll es' := by
  apply ext_points
  · intro device
    have hany : (es.any fun e => e.payload.device = device) = es'.any fun e => e.payload.device = device := by
      rw [Bool.eq_iff_iff, List.any_eq_true, List.any_eq_true]
      simpa only [decide_eq_true_eq] using devices device
    rw [hasDevice_applyAll, hasDevice_applyAll, hany]
  · intro device measurement
    have hany : (es.any fun e => names e device measurement) = es'.any fun e => names e device measurement := by
      rw [Bool.eq_iff_iff, List.any_eq_true, List.any_eq_true]
      exact series device measurement
    rw [hasSeries_applyAll, hasSeries_applyAll, hany]
  · intro x
    rw [value_applyAll, value_applyAll, values]
  · apply Option.ext
    intro i
    rw [maxSearchIndex_applyAll_eq_some, maxSearchIndex_applyAll_eq_some]
    simp only [indexes]

/-- The same entries with the same last writes leave the same table, however often and in whatever order they are applied. -/
theorem applyAll_eq_of_mem_iff {es' : List LogEntry} (t : MemTable) (members : ∀ e, e ∈ es ↔ e ∈ es')
    (values : ∀ x, lastWrite es x = lastWrite es' x) : t.applyAll es = t.applyAll es' := by
  have hmem : ∀ P : LogEntry → Prop, (∃ e ∈ es, P e) ↔ ∃ e ∈ es', P e := by
    intro P
    simp only [members]
  exact t.applyAll_congr (fun device => hmem _) (fun device measurement => hmem _) values fun k => hmem _

/-- The order of entries shows in the last writes of the points and nowhere else. -/
theorem applyAll_eq_iff_of_perm {es' : List LogEntry} (t : MemTable) (h : es.Perm es') :
    t.applyAll es = t.applyAll es' ↔ ∀ x, lastWrite es x = lastWrite es' x := by
  constructor
  · intro heq x
    have hv : (t.applyAll es).value x = (t.applyAll es').value x := by rw [heq]
    rw [value_applyAll, value_applyAll] at hv
    -- The same points are written in either order, so the values before do not count.
    refine eq_of_isSome ?_ fun v v' hx hx' => ?_
    · rw [Bool.eq_iff_iff, lastWrite, lastWrite, lastOf_isSome, lastOf_isSome]
      exact ((h.flatMap_right writes).map _).mem_iff
    · rw [hx, hx', Option.some_or, Option.some_or] at hv
      exact Option.some.inj hv
  · exact t.applyAll_eq_of_mem_iff fun e => h.mem_iff

end SeriesRegion.MemTable
