import SeriesRegion.Proofs.MemTable.Counting
import SeriesRegion.Proofs.MemTable.Holds
import SeriesRegion.Proofs.MemTable.Written
import Mathlib.Data.Set.Card
import Mathlib.Data.String.Basic

/-!
# What a table answers

A table that entries have made of an empty one knows the last write of each point, and nothing else: a scan gives the points
of the series within the range with the values of their last writes, in the order of time, and the points, the devices and
the highest log position are those of the entries (`MemTable.answers_applyAll`).
-/

namespace SeriesRegion.MemTable

variable {t : MemTable} {es : List LogEntry}

/-- What a table answers if it is made of entries alone. -/
structure Answers (t : MemTable) (es : List LogEntry) : Prop where
  query_ascending : ∀ device measurement start stop, (t.query device measurement start stop).Pairwise fun a b => a.1 < b.1
  mem_query : ∀ device measurement start stop time v, (time, v) ∈ t.query device measurement start stop ↔
    start ≤ time ∧ time < stop ∧ LastWritten es ⟨device, measurement, time⟩ v
  pointCount : t.pointCount = {x | ∃ entry column line v, WrittenAt es entry column line x v}.ncard
  deviceNames_ascending : t.deviceNames.Pairwise (· < ·)
  mem_deviceNames : ∀ device, device ∈ t.deviceNames ↔ ∃ e ∈ es, e.payload.device = device
  maxSearchIndex_some : ∀ i, t.maxSearchIndex = some i ↔ IsGreatest {k | ∃ e ∈ es, e.searchIndex = some k} i
  maxSearchIndex_none : t.maxSearchIndex = none ↔ ∀ e ∈ es, e.searchIndex = none

/-! ### Scans -/

theorem pairwise_query (t : MemTable) (device measurement : String) (start stop : Int64) :
    (t.query device measurement start stop).Pairwise fun a b => a.1 < b.1 := by
  rw [query]
  cases t.series? device measurement with
  | none => exact .nil
  | some s => exact (s.ascending.imp fun h => Std.compare_eq_lt.1 h).filter _

/-- A scan gives the points within its range with their values. -/
theorem mem_query {device measurement : String} {start stop time : Int64} {v : Value} :
    (time, v) ∈ t.query device measurement start stop ↔
      start ≤ time ∧ time < stop ∧ t.value ⟨device, measurement, time⟩ = some v := by
  rw [query, value, value?]
  cases t.series? device measurement with
  | none => simp
  | some s =>
    rw [Option.bind_some, List.mem_filter, SortedMap.mem_entries, decide_eq_true_eq]
    exact ⟨fun h => ⟨h.2.1, h.2.2, h.1⟩, fun h => ⟨h.2.2, h.1, h.2.1⟩⟩

/-! ### Names and numbers -/

theorem pairwise_deviceNames (t : MemTable) : t.deviceNames.Pairwise (· < ·) :=
  List.pairwise_map.2 (t.devices.ascending.imp fun h => compare_lt_iff_lt.1 h)

theorem pointCount_applyAll_eq_ncard (es : List LogEntry) :
    (empty.applyAll es).pointCount = {x | ∃ entry column line v, WrittenAt es entry column line x v}.ncard := by
  have hpoints : {x | ∃ entry column line v, WrittenAt es entry column line x v} =
      (((es.flatMap writes).map (·.1)).toFinset : Set Point) := by
    ext x
    rw [Finset.mem_coe, List.mem_toFinset]
    exact mem_map_writes.symm
  rw [pointCount_applyAll, hpoints, Set.ncard_coe_finset, List.card_toFinset]

/-- Entries that are applied to an empty table leave the values of their last writes, and nothing else.  Of an entry whose
lists fit together each value takes part, and each point that is named is given a value. -/
theorem answers_applyAll (es : List LogEntry) :
    (empty.applyAll es).Answers es ∧
    ∀ entry e, es[entry]? = some e → e.payload.shapeFault? = none → ∀ column line,
      (∀ v, e.payload.cell? column line = some v → ∃ x, WrittenAt es entry column line x v) ∧
      ∀ x, e.payload.point? column line = some x → ∃ v, WrittenAt es entry column line x v := by
  have hnone : ∀ x, empty.value x = none := fun _ => rfl
  constructor
  · constructor
    case query_ascending => exact fun device measurement start stop => pairwise_query _ device measurement start stop
    case mem_query =>
      intro device measurement start stop time v
      rw [mem_query, value_applyAll, hnone, Option.or_none, lastWrite_eq_some_iff]
    case pointCount => exact pointCount_applyAll_eq_ncard es
    case deviceNames_ascending => exact pairwise_deviceNames _
    case mem_deviceNames =>
      intro device
      have hempty : empty.hasDevice device = false := rfl
      rw [mem_deviceNames, hasDevice_applyAll, hempty, Bool.false_or, List.any_eq_true]
      simp only [decide_eq_true_eq]
    case maxSearchIndex_some =>
      intro i
      rw [maxSearchIndex_applyAll_eq_some]
      simp [empty]
    case maxSearchIndex_none =>
      rw [maxSearchIndex_applyAll_eq_none]
      exact and_iff_right rfl
  · intro entry e he valid column line
    have hsome := e.payload.isSome_cell? valid column line
    constructor
    · intro v hv
      rw [hv] at hsome
      obtain ⟨x, hx⟩ := Option.isSome_iff_exists.1 hsome.symm
      exact ⟨x, e, he, hx, hv⟩
    · intro x hx
      rw [hx] at hsome
      obtain ⟨v, hv⟩ := Option.isSome_iff_exists.1 hsome
      exact ⟨v, e, he, hx, hv⟩

/-- A tablet that names a measurement and a time twice, and a row that lacks the value of a measurement. -/
def overlapping : List LogEntry :=
  [⟨some 7, .tablet ⟨"d", ["m", "m"], [5, 5], [[.int64 1, .int64 2], [.int64 3, .int64 4]]⟩⟩,
    ⟨some 3, .row ⟨"d", 9, ["m", "n"], [.int64 6]⟩⟩]

/-- Of the four values of the tablet the one in the last column and the last line is found, and the row gives the value that
it has. -/
theorem answers_applyAll_overlapping :
    (∃ e, overlapping[0]? = some e ∧ e.payload.shapeFault? = none ∧ e.payload.cell? 0 1 = some (.int64 2)) ∧
      (∃ x, WrittenAt overlapping 0 0 1 x (.int64 2)) ∧
      (5, .int64 4) ∈ (empty.applyAll overlapping).query "d" "m" 0 9 ∧
      (9, .int64 6) ∈ (empty.applyAll overlapping).query "d" "m" 9 10 ∧
      (∀ time v, (time, v) ∉ (empty.applyAll overlapping).query "d" "n" 0 10) ∧
      (empty.applyAll overlapping).maxSearchIndex = some 7 := by
  obtain ⟨hanswers, htakes⟩ := answers_applyAll overlapping
  refine ⟨⟨_, rfl, rfl, rfl⟩, (htakes 0 _ rfl rfl 0 1).1 _ rfl, ?_, ?_, ?_, ?_⟩
  · rw [hanswers.mem_query, ← lastWrite_eq_some_iff]
    decide
  · rw [hanswers.mem_query, ← lastWrite_eq_some_iff]
    decide
  · intro time v hquery
    have hmeasured : ∀ x ∈ (overlapping.flatMap writes).map (·.1), x.measurement = "m" := by decide
    obtain ⟨-, -, hlast⟩ := (hanswers.mem_query ..).1 hquery
    have hwritten := lastOf_isSome.1 (Option.isSome_of_eq_some (lastWrite_eq_some_iff.2 hlast))
    have hname : "n" = "m" := hmeasured _ hwritten
    exact absurd hname (by decide)
  · have hbelow : ∀ e ∈ overlapping, ∀ k, e.searchIndex = some k → k ≤ 7 := by
      rw [overlapping, List.forall_mem_cons, List.forall_mem_singleton]
      constructor
      all_goals
        intro k hk
        cases hk
        decide
    rw [hanswers.maxSearchIndex_some]
    exact ⟨⟨_, List.mem_cons_self, rfl⟩, fun k ⟨e, he, hk⟩ => hbelow e he k hk⟩

end SeriesRegion.MemTable
