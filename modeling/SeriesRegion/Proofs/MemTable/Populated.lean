import SeriesRegion.Proofs.MemTable.Counting
import SeriesRegion.Proofs.MemTable.Written

/-!
# Which devices and series have points

An insert of good shape gives a point to every measurement that it names.  A row names one at least, but a tablet may name
none (`Payload.IsColumnless`): it has lines with nothing in them, and what it leaves is the name of its device.  So in a table
that inserts have made of an empty one each series has a point (`MemTable.entries_ne_nil_applyAll`), and a device has one
exactly if some insert for it names a measurement (`MemTable.hasPoint_applyAll`).
-/

namespace SeriesRegion

/-- A tablet without measurements. -/
def Payload.IsColumnless : Payload → Prop
  | .row _ => False
  | .tablet t => t.measurements = []

namespace MemTable

/-- A device has a point, in one of its series. -/
def HasPoint (t : MemTable) (device : String) : Prop := ∃ measurement time, (t.value ⟨device, measurement, time⟩).isSome

variable {es : List LogEntry} {e : LogEntry} {p : Payload} {device measurement : String}

theorem columnsOf_eq_nil_iff (valid : p.shapeFault? = none) : columnsOf p = [] ↔ p.IsColumnless := by
  cases p with
  | row r =>
    obtain ⟨hne, hlength⟩ := Row.shapeFault?_eq_none.1 valid
    refine iff_of_false (fun hnil => ?_) id
    rw [columnsOf, List.map_eq_nil_iff, List.zip_eq_nil_iff] at hnil
    obtain hm | hv := hnil
    · exact hne hm
    · rw [hv, List.length_nil, List.length_eq_zero_iff] at hlength
      exact hne hlength
  | tablet t =>
    obtain ⟨-, hlength, -⟩ := Tablet.shapeFault?_eq_none.1 valid
    rw [columnsOf, List.map_eq_nil_iff, List.zip_eq_nil_iff, Payload.IsColumnless]
    refine or_iff_left_of_imp fun hcolumns => ?_
    rwa [hcolumns, List.length_nil, eq_comm, List.length_eq_zero_iff] at hlength

/-- A column that is named is not empty. -/
theorem ne_nil_of_mem_columnsOf (valid : p.shapeFault? = none) {c : String × List (Int64 × Value)}
    (hc : c ∈ columnsOf p) : c.2 ≠ [] := by
  cases p with
  | row r =>
    obtain ⟨q, -, rfl⟩ := List.mem_map.1 hc
    exact List.cons_ne_nil _ _
  | tablet t =>
    obtain ⟨htimes, -, hcolumns⟩ := Tablet.shapeFault?_eq_none.1 valid
    obtain ⟨q, hq, rfl⟩ := List.mem_map.1 hc
    have hlength := hcolumns q.2 (List.of_mem_zip hq).2
    intro hnil
    rw [List.zip_eq_nil_iff] at hnil
    obtain ht | hv := hnil
    · exact htimes ht
    · rw [hv, List.length_nil, eq_comm, List.length_eq_zero_iff] at hlength
      exact htimes hlength

/-- An insert gives a point to each series that it names. -/
theorem exists_mem_writes_of_names (valid : e.payload.shapeFault? = none) (h : names e device measurement) :
    ∃ time, (⟨device, measurement, time⟩ : Point) ∈ (writes e).map (·.1) := by
  rw [names, decide_eq_true_eq, List.any_eq_true] at h
  obtain ⟨rfl, c, hc, hname⟩ := h
  obtain rfl := of_decide_eq_true hname
  obtain ⟨q, hq⟩ := List.exists_mem_of_ne_nil _ (ne_nil_of_mem_columnsOf valid hc)
  exact ⟨q.1, List.mem_map.2 ⟨_, List.mem_flatMap.2 ⟨c, hc, List.mem_map_of_mem hq⟩, rfl⟩⟩

/-- Inserts leave no series without a point. -/
theorem entries_ne_nil_applyAll (valid : ∀ e ∈ es, e.payload.shapeFault? = none) {s : Series}
    (h : (empty.applyAll es).series? device measurement = some s) : s.entries ≠ [] := by
  have hempty : empty.hasSeries device measurement = false := rfl
  have hseries : (empty.applyAll es).hasSeries device measurement := Option.isSome_iff_exists.2 ⟨s, h⟩
  rw [hasSeries_applyAll, hempty, Bool.false_or, List.any_eq_true] at hseries
  obtain ⟨e, he, hnames⟩ := hseries
  obtain ⟨time, hwritten⟩ := exists_mem_writes_of_names (valid e he) hnames
  obtain ⟨v, hv⟩ := Option.isSome_iff_exists.1 (isSome_value_applyAll.2 ⟨e, he, hwritten⟩)
  rw [value, value?, h] at hv
  exact List.ne_nil_of_mem (SortedMap.mem_entries.2 hv)

/-- A device has a point exactly if an insert for it names a measurement. -/
theorem hasPoint_applyAll (valid : ∀ e ∈ es, e.payload.shapeFault? = none) :
    (empty.applyAll es).HasPoint device ↔ ∃ e ∈ es, e.payload.device = device ∧ ¬ e.payload.IsColumnless := by
  constructor
  · rintro ⟨measurement, time, hsome⟩
    obtain ⟨e, he, hwritten⟩ := isSome_value_applyAll.1 hsome
    obtain ⟨w, hw, hx⟩ := List.mem_map.1 hwritten
    obtain ⟨c, hc, hw⟩ := List.mem_flatMap.1 hw
    obtain ⟨q, -, rfl⟩ := List.mem_map.1 hw
    obtain ⟨rfl, -, -⟩ := Point.mk.inj hx
    refine ⟨e, he, rfl, fun hcolumnless => ?_⟩
    rw [(columnsOf_eq_nil_iff (valid e he)).2 hcolumnless] at hc
    cases hc
  · rintro ⟨e, he, rfl, hcolumns⟩
    obtain ⟨c, hc⟩ := List.exists_mem_of_ne_nil _ fun hnil => hcolumns ((columnsOf_eq_nil_iff (valid e he)).1 hnil)
    have hnames : names e e.payload.device c.1 := by
      rw [names, decide_eq_true_eq, List.any_eq_true]
      exact ⟨rfl, c, hc, decide_eq_true rfl⟩
    obtain ⟨time, hwritten⟩ := exists_mem_writes_of_names (valid e he) hnames
    exact ⟨c.1, time, isSome_value_applyAll.2 ⟨e, he, hwritten⟩⟩

end MemTable

end SeriesRegion
