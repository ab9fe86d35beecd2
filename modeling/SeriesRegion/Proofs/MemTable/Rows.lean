import SeriesRegion.Proofs.MemTable.Holds
import SeriesRegion.Proofs.MemTable.Written
import Mathlib.Data.List.Basic

/-!
# Tablets row by row

A tablet is written column by column; its rows, one for each of its times, hold the same values line by line
(`Tablet.rows`).  Where a measurement or a time is named more than once the two orders come to a point differently.  But a
point is named by every column of its measurement in every line of its time, so in either order its last write stands in the
last of these columns and the last of these lines (`Tablet.Leaves`).  To apply a tablet is therefore to apply its rows
(`MemTable.apply_tablet`).
-/

namespace SeriesRegion

namespace Tablet

variable {t : Tablet} {index : Option UInt64} {column line column' line' : Nat} {x : Point} {v v' : Value}

/-- The rows of a tablet in the order of its times.  Each has the values of its line. -/
def rows (t : Tablet) : List Row :=
  t.times.zipIdx.map fun p => ⟨t.device, p.1, t.measurements, t.columns.filterMap (·[p.2]?)⟩

def rowEntries (t : Tablet) (index : Option UInt64) : List LogEntry := t.rows.map fun r => ⟨index, .row r⟩

private theorem getElem?_filterMap_of_isSome {α β : Type} {f : α → Option β} {l : List α} (h : ∀ a ∈ l, (f a).isSome)
    (i : Nat) : (l.filterMap f)[i]? = l[i]?.bind f := by
  induction l generalizing i with
  | nil => rfl
  | cons a l ih =>
    obtain ⟨ha, hl⟩ := List.forall_mem_cons.1 h
    obtain ⟨b, hb⟩ := Option.isSome_iff_exists.1 ha
    rw [List.filterMap_cons_some hb]
    cases i with
    | zero => exact hb.symm
    | succ i => exact ih hl i

theorem getElem?_rowEntries {e : LogEntry} :
    (t.rowEntries index)[line]? = some e ↔
      ∃ time, t.times[line]? = some time ∧
        e = ⟨index, .row ⟨t.device, time, t.measurements, t.columns.filterMap (·[line]?)⟩⟩ := by
  simp only [rowEntries, rows, List.getElem?_map, List.getElem?_zipIdx, Option.map_map, Option.map_eq_some_iff, Nat.zero_add,
    Function.comp_apply, eq_comm (a := e)]

private theorem isSome_getElem? (valid : t.shapeFault? = none) (hline : line < t.times.length) :
    ∀ values ∈ t.columns, values[line]?.isSome := by
  obtain ⟨-, -, hcolumns⟩ := shapeFault?_eq_none.1 valid
  intro values hvalues
  rw [List.getElem?_eq_getElem (hcolumns values hvalues ▸ hline)]
  rfl

/-- The values of a row are those of its line. -/
theorem values_row (valid : t.shapeFault? = none) (hline : line < t.times.length) (column : Nat) :
    (t.columns.filterMap (·[line]?))[column]? = t.columns[column]?.bind (·[line]?) :=
  getElem?_filterMap_of_isSome (isSome_getElem? valid hline) column

/-- The lists of each row fit together. -/
theorem shapeFault?_rows (valid : t.shapeFault? = none) (measured : t.measurements ≠ []) :
    ∀ r ∈ t.rows, r.shapeFault? = none := by
  obtain ⟨-, hlength, -⟩ := shapeFault?_eq_none.1 valid
  intro r hr
  obtain ⟨⟨time, line⟩, hline, rfl⟩ := List.mem_map.1 hr
  have hline : line < t.times.length := List.snd_lt_of_mem_zipIdx hline
  refine Row.shapeFault?_eq_none.2 ⟨measured, ?_⟩
  rw [List.filterMap_length_eq_length.2 (isSome_getElem? valid hline)]
  exact hlength.symm

theorem point?_tablet : (Payload.tablet t).point? column line = some x ↔
    t.device = x.device ∧ t.measurements[column]? = some x.measurement ∧ t.times[line]? = some x.time := by
  rw [Payload.point?]
  constructor
  · intro hx
    obtain ⟨m, hm, hx⟩ := Option.bind_eq_some_iff.1 hx
    obtain ⟨time, htime, rfl⟩ := Option.map_eq_some_iff.1 hx
    exact ⟨rfl, hm, htime⟩
  · rintro ⟨hdevice, hm, htime⟩
    rw [hm, Option.bind_some, htime, hdevice]
    rfl

/-- The rows write in their lines what the tablet writes there. -/
theorem writtenAt_rowEntries (valid : t.shapeFault? = none) :
    MemTable.WrittenAt (t.rowEntries index) line column line' x v ↔
      line' = 0 ∧ (Payload.tablet t).Writes column line x v := by
  constructor
  · rintro ⟨e, he, hx, hv⟩
    obtain ⟨time, htime, rfl⟩ := getElem?_rowEntries.1 he
    obtain ⟨hline, -⟩ := List.getElem?_eq_some_iff.1 htime
    cases line' with
    | zero =>
      obtain ⟨m, hm, rfl⟩ := Option.map_eq_some_iff.1 hx
      exact ⟨rfl, point?_tablet.2 ⟨rfl, hm, htime⟩, (values_row valid hline column).symm.trans hv⟩
    | succ line' => cases hx
  · rintro ⟨rfl, hx, hv⟩
    obtain ⟨hdevice, hm, htime⟩ := point?_tablet.1 hx
    obtain ⟨hline, -⟩ := List.getElem?_eq_some_iff.1 htime
    refine ⟨_, getElem?_rowEntries.2 ⟨x.time, htime, rfl⟩, ?_, (values_row valid hline column).trans hv⟩
    exact Option.map_eq_some_iff.2 ⟨x.measurement, hm, by rw [hdevice]⟩

/-! ### The last column and the last line -/

/-- The value that a tablet leaves at a point: that in the last of the columns and the last of the lines that write it. -/
def Leaves (t : Tablet) (x : Point) (v : Value) : Prop :=
  ∃ column line, (Payload.tablet t).Writes column line x v ∧
    ∀ column' line' v', (Payload.tablet t).Writes column' line' x v' → column' ≤ column ∧ line' ≤ line

/-- A point that is written in two places is written where the column of one crosses the line of the other. -/
theorem writes_exchange (valid : t.shapeFault? = none) (h : (Payload.tablet t).Writes column line x v)
    (h' : (Payload.tablet t).Writes column' line' x v') : ∃ w, (Payload.tablet t).Writes column line' x w := by
  obtain ⟨hdevice, hm, -⟩ := point?_tablet.1 h.1
  obtain ⟨-, -, htime⟩ := point?_tablet.1 h'.1
  have hx : (Payload.tablet t).point? column line' = some x := point?_tablet.2 ⟨hdevice, hm, htime⟩
  have hsome := Payload.isSome_cell? (p := .tablet t) valid column line'
  rw [hx] at hsome
  obtain ⟨w, hw⟩ := Option.isSome_iff_exists.1 hsome
  exact ⟨w, hx, hw⟩

open MemTable in
/-- Column by column the last write is that in the last column and the last line. -/
theorem lastWritten_tablet (valid : t.shapeFault? = none) :
    LastWritten [⟨index, .tablet t⟩] x v ↔ t.Leaves x v := by
  simp only [LastWritten, writtenAt_singleton, place_le_place]
  constructor
  · rintro ⟨_, column, line, ⟨rfl, hwrites⟩, hlast⟩
    refine ⟨column, line, hwrites, fun column' line' v' hwrites' => ?_⟩
    have hplace := hlast 0 column' line' v' ⟨rfl, hwrites'⟩
    -- In the last column the line of the other write is written, too.
    obtain ⟨w, hcrossing⟩ := writes_exchange valid hwrites hwrites'
    have hline := hlast 0 column line' w ⟨rfl, hcrossing⟩
    omega
  · rintro ⟨column, line, hwrites, hlast⟩
    refine ⟨0, column, line, ⟨rfl, hwrites⟩, ?_⟩
    rintro entry' column' line' v' ⟨rfl, hwrites'⟩
    have := hlast column' line' v' hwrites'
    omega

open MemTable in
/-- Row by row the last write is that in the last column and the last line. -/
theorem lastWritten_rowEntries (valid : t.shapeFault? = none) :
    LastWritten (t.rowEntries index) x v ↔ t.Leaves x v := by
  simp only [LastWritten, writtenAt_rowEntries valid, place_le_place]
  constructor
  · rintro ⟨line, column, _, ⟨rfl, hwrites⟩, hlast⟩
    refine ⟨column, line, hwrites, fun column' line' v' hwrites' => ?_⟩
    have hplace := hlast line' column' 0 v' ⟨rfl, hwrites'⟩
    -- In the last line the column of the other write is written, too.
    obtain ⟨w, hcrossing⟩ := writes_exchange valid hwrites' hwrites
    have hcolumn := hlast line column' 0 w ⟨rfl, hcrossing⟩
    omega
  · rintro ⟨column, line, hwrites, hlast⟩
    refine ⟨line, column, 0, ⟨rfl, hwrites⟩, ?_⟩
    rintro line' column' _ v' ⟨rfl, hwrites'⟩
    have := hlast column' line' v' hwrites'
    omega

end Tablet

namespace MemTable

variable {t : Tablet}

private theorem names_iff {e : LogEntry} {device measurement : String} :
    names e device measurement ↔ e.payload.device = device ∧ measurement ∈ (columnsOf e.payload).map (·.1) := by
  simp [names]

private theorem map_fst_columnsOf_tablet (valid : t.shapeFault? = none) :
    (columnsOf (.tablet t)).map (·.1) = t.measurements := by
  obtain ⟨-, hlength, -⟩ := Tablet.shapeFault?_eq_none.1 valid
  rw [columnsOf, List.map_map]
  exact List.map_fst_zip (Nat.le_of_eq hlength.symm)

private theorem map_fst_columnsOf_row {r : Row} (valid : r.shapeFault? = none) :
    (columnsOf (.row r)).map (·.1) = r.measurements := by
  obtain ⟨-, hlength⟩ := Row.shapeFault?_eq_none.1 valid
  rw [columnsOf, List.map_map]
  exact List.map_fst_zip (Nat.le_of_eq hlength)

/-- What is true of the tablet just if it is true of each row is true of it if it is true of one. -/
private theorem exists_mem_rowEntries {index : Option UInt64} (valid : t.shapeFault? = none) {P : LogEntry → Prop}
    (h : ∀ r ∈ t.rows, P ⟨index, .row r⟩ ↔ P ⟨index, .tablet t⟩) :
    (∃ e ∈ [(⟨index, .tablet t⟩ : LogEntry)], P e) ↔ ∃ e ∈ t.rowEntries index, P e := by
  have hne : t.rows ≠ [] := by
    obtain ⟨htimes, -⟩ := Tablet.shapeFault?_eq_none.1 valid
    simpa [Tablet.rows] using htimes
  obtain ⟨r, hr⟩ := List.exists_mem_of_ne_nil t.rows hne
  constructor
  · rintro ⟨e, he, hP⟩
    obtain rfl := List.mem_singleton.1 he
    exact ⟨_, List.mem_map.2 ⟨r, hr, rfl⟩, (h r hr).2 hP⟩
  · rintro ⟨e, he, hP⟩
    obtain ⟨r, hr, rfl⟩ := List.mem_map.1 he
    exact ⟨_, List.mem_singleton_self _, (h r hr).1 hP⟩

/-- A tablet whose lists fit together and that has a measurement has as many rows as times.  The lists of each row fit
together, it has the values of its line, and to apply the tablet is to apply its rows one after the other. -/
theorem apply_tablet (table : MemTable) (t : Tablet) (index : Option UInt64) (valid : t.shapeFault? = none)
    (measured : t.measurements ≠ []) :
    t.rows.length = t.rowCount ∧
    (∀ line r, t.rows[line]? = some r →
      r.shapeFault? = none ∧ ∀ column, r.values[column]? = (Payload.tablet t).cell? column line) ∧
    table.apply ⟨index, .tablet t⟩ = table.applyAll (t.rowEntries index) := by
  have hrows := t.shapeFault?_rows valid measured
  refine ⟨by simp [Tablet.rows, Tablet.rowCount], fun line r hr => ⟨hrows r (List.mem_of_getElem? hr), ?_⟩, ?_⟩
  · have hentry : (t.rowEntries index)[line]? = some ⟨index, .row r⟩ := by rw [Tablet.rowEntries, List.getElem?_map, hr]; rfl
    obtain ⟨time, htime, he⟩ := Tablet.getElem?_rowEntries.1 hentry
    cases he
    obtain ⟨hline, -⟩ := List.getElem?_eq_some_iff.1 htime
    exact Tablet.values_row valid hline
  change table.applyAll [⟨index, .tablet t⟩] = _
  have hnamed : ∀ r ∈ t.rows, (Payload.row r).device = (Payload.tablet t).device ∧ r.measurements = t.measurements := by
    intro r hr
    obtain ⟨p, -, rfl⟩ := List.mem_map.1 hr
    exact ⟨rfl, rfl⟩
  apply applyAll_congr
  case devices =>
    refine fun device => exists_mem_rowEntries valid fun r hr => ?_
    rw [(hnamed r hr).1]
  case series =>
    refine fun device measurement => exists_mem_rowEntries valid fun r hr => ?_
    obtain ⟨hdevice, hmeasurements⟩ := hnamed r hr
    rw [names_iff, names_iff, map_fst_columnsOf_row (hrows r hr), map_fst_columnsOf_tablet valid, hdevice, hmeasurements]
  case values =>
    intro x
    apply Option.ext
    intro v
    rw [lastWrite_eq_some_iff, lastWrite_eq_some_iff, Tablet.lastWritten_tablet valid, Tablet.lastWritten_rowEntries valid]
  case indexes =>
    exact fun k => exists_mem_rowEntries valid fun r hr => Iff.rfl

/-- A tablet that names a measurement and a time twice. -/
def crossing : Tablet :=
  ⟨"d", ["m", "n", "m"], [5, 9, 5],
    [[.int64 1, .int64 2, .int64 3], [.int64 4, .int64 5, .int64 6], [.int64 7, .int64 8, .int64 9]]⟩

/-- Of the four values that are given to one point the last in the last column is left, in either order. -/
theorem apply_tablet_crossing :
    crossing.shapeFault? = none ∧ crossing.measurements ≠ [] ∧
      let table := empty.apply ⟨some 6, .row ⟨"d", 5, ["m"], [.int64 0]⟩⟩
      table.apply ⟨some 4, .tablet crossing⟩ = table.applyAll
        [⟨some 4, .row ⟨"d", 5, ["m", "n", "m"], [.int64 1, .int64 4, .int64 7]⟩⟩,
          ⟨some 4, .row ⟨"d", 9, ["m", "n", "m"], [.int64 2, .int64 5, .int64 8]⟩⟩,
          ⟨some 4, .row ⟨"d", 5, ["m", "n", "m"], [.int64 3, .int64 6, .int64 9]⟩⟩] ∧
      (table.apply ⟨some 4, .tablet crossing⟩).value ⟨"d", "m", 5⟩ = some (.int64 9) := by
  have hmeasured : crossing.measurements ≠ [] := by decide
  obtain ⟨-, -, hrows⟩ := apply_tablet (empty.apply ⟨some 6, .row ⟨"d", 5, ["m"], [.int64 0]⟩⟩) crossing (some 4) rfl hmeasured
  refine ⟨rfl, hmeasured, hrows, ?_⟩
  rw [value_apply]
  decide

end MemTable

end SeriesRegion
