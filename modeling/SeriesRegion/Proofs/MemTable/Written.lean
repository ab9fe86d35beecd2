import SeriesRegion.Proofs.MemTable.LastWrite
import Mathlib.Data.List.Induction
import Mathlib.Data.Prod.Lex
import Mathlib.Order.Nat

/-!
# Writes and their places

A payload names a point, and holds a value, in each of its columns and lines; where it does both it writes
(`Payload.Writes`).  If its lists fit together, it names points exactly where it holds values (`Payload.isSome_cell?`).
The place of a write is its entry, its column and its line, in this order, and the value that entries leave at a point is
that of the write with the last place (`MemTable.lastWrite_eq_some_iff`).
-/

namespace SeriesRegion

/-! ### Columns and lines of a payload -/

/-- The value in a column and a line.  A row has one line; a tablet has one for each of its times. -/
def Payload.cell? : Payload → Nat → Nat → Option Value
  | .row r, column, 0 => r.values[column]?
  | .row _, _, _ + 1 => none
  | .tablet t, column, line => t.columns[column]?.bind fun values => values[line]?

/-- The point that is named in a column and a line. -/
def Payload.point? : Payload → Nat → Nat → Option Point
  | .row r, column, 0 => r.measurements[column]?.map fun m => ⟨r.device, m, r.time⟩
  | .row _, _, _ + 1 => none
  | .tablet t, column, line => t.measurements[column]?.bind fun m => t.times[line]?.map fun time => ⟨t.device, m, time⟩

/-- A payload writes a value to a point in a column and a line. -/
def Payload.Writes (p : Payload) (column line : Nat) (x : Point) (v : Value) : Prop :=
  p.point? column line = some x ∧ p.cell? column line = some v

theorem Row.shapeFault?_eq_none {r : Row} :
    r.shapeFault? = none ↔ r.measurements ≠ [] ∧ r.measurements.length = r.values.length := by
  rw [shapeFault?]
  by_cases hempty : r.measurements = []
  · simp [hempty]
  · by_cases hlength : r.measurements.length = r.values.length <;> simp [hempty, hlength]

private theorem raggedColumn?_eq_none {rows : Nat} {names : List String} {columns : List (List Value)}
    (length : columns.length = names.length) :
    Tablet.raggedColumn? rows names columns = none ↔ ∀ values ∈ columns, values.length = rows := by
  induction names generalizing columns with
  | nil =>
    obtain rfl := List.length_eq_zero_iff.1 length
    simp [Tablet.raggedColumn?]
  | cons name names ih =>
    obtain ⟨values, columns, rfl⟩ := List.exists_cons_of_length_eq_add_one length
    have hlength : columns.length = names.length := by simpa using length
    rw [Tablet.raggedColumn?, List.forall_mem_cons, ← ih hlength]
    by_cases h : values.length = rows <;> simp [h]

theorem Tablet.shapeFault?_eq_none {t : Tablet} :
    t.shapeFault? = none ↔
      t.times ≠ [] ∧ t.columns.length = t.measurements.length ∧ ∀ values ∈ t.columns, values.length = t.times.length := by
  rw [shapeFault?]
  by_cases htimes : t.times = []
  · simp [htimes]
  · by_cases hlength : t.columns.length = t.measurements.length
    · simp [htimes, hlength, raggedColumn?_eq_none hlength]
    · simp [htimes, hlength]

/-- Lists of one length have elements at the same positions. -/
private theorem isSome_getElem?_congr {α β : Type} {as : List α} {bs : List β} (length : as.length = bs.length) (i : Nat) :
    as[i]?.isSome = bs[i]?.isSome := by
  rw [Bool.eq_iff_iff]
  simp only [Option.isSome_iff_ne_none, ne_eq, List.getElem?_eq_none_iff, length]

/-- A payload whose lists fit together has a value wherever it names a point, and names a point wherever it has a value. -/
theorem Payload.isSome_cell? {p : Payload} (valid : p.shapeFault? = none) (column line : Nat) :
    (p.cell? column line).isSome = (p.point? column line).isSome := by
  cases p with
  | row r =>
    obtain ⟨-, hlength⟩ := Row.shapeFault?_eq_none.1 valid
    cases line with
    | zero =>
      rw [cell?, point?, Option.isSome_map]
      exact isSome_getElem?_congr hlength.symm column
    | succ line => rfl
  | tablet t =>
    obtain ⟨-, hlength, hcolumns⟩ := Tablet.shapeFault?_eq_none.1 valid
    by_cases hc : column < t.columns.length
    · have hm : column < t.measurements.length := hlength ▸ hc
      rw [cell?, point?, List.getElem?_eq_getElem hc, List.getElem?_eq_getElem hm, Option.bind_some, Option.bind_some,
        Option.isSome_map]
      exact isSome_getElem?_congr (hcolumns _ (List.getElem_mem hc)) line
    · have hm : ¬ column < t.measurements.length := hlength ▸ hc
      rw [cell?, point?, List.getElem?_eq_none (Nat.not_lt.1 hc), List.getElem?_eq_none (Nat.not_lt.1 hm)]
      rfl

namespace MemTable

/-- What a payload writes in a column and a line stands there among the writes of its columns. -/
theorem writes_iff {p : Payload} {column line : Nat} {x : Point} {v : Value} :
    p.Writes column line x v ↔
      ∃ c, (columnsOf p)[column]? = some c ∧ (columnWrites p.device c)[line]? = some (x, v) := by
  cases p with
  | row r =>
    simp only [Payload.Writes, columnsOf, List.getElem?_map, Option.map_eq_some_iff, List.getElem?_zip_eq_some]
    cases line with
    | zero =>
      constructor
      · rintro ⟨hx, hv⟩
        obtain ⟨m, hm, rfl⟩ := Option.map_eq_some_iff.1 hx
        exact ⟨_, ⟨(m, v), ⟨hm, hv⟩, rfl⟩, rfl⟩
      · rintro ⟨_, ⟨⟨m, w⟩, ⟨hm, hw⟩, rfl⟩, hwrite⟩
        cases hwrite
        exact ⟨Option.map_eq_some_iff.2 ⟨m, hm, rfl⟩, hw⟩
    | succ line =>
      refine iff_of_false nofun ?_
      rintro ⟨_, ⟨⟨m, w⟩, -, rfl⟩, hwrite⟩
      cases hwrite
  | tablet t =>
    simp only [Payload.Writes, columnsOf, columnWrites, List.getElem?_map, Option.map_eq_some_iff,
      List.getElem?_zip_eq_some]
    constructor
    · rintro ⟨hx, hv⟩
      obtain ⟨m, hm, hx⟩ := Option.bind_eq_some_iff.1 hx
      obtain ⟨time, htime, rfl⟩ := Option.map_eq_some_iff.1 hx
      obtain ⟨values, hvalues, hv⟩ := Option.bind_eq_some_iff.1 hv
      exact ⟨_, ⟨(m, values), ⟨hm, hvalues⟩, rfl⟩, (time, v), List.getElem?_zip_eq_some.2 ⟨htime, hv⟩, rfl⟩
    · rintro ⟨_, ⟨⟨m, values⟩, ⟨hm, hvalues⟩, rfl⟩, ⟨time, w⟩, hwrite, hx⟩
      obtain ⟨htime, hw⟩ := List.getElem?_zip_eq_some.1 hwrite
      cases hx
      exact ⟨Option.bind_eq_some_iff.2 ⟨m, hm, Option.map_eq_some_iff.2 ⟨time, htime, rfl⟩⟩,
        Option.bind_eq_some_iff.2 ⟨values, hvalues, hw⟩⟩

theorem mem_writes {e : LogEntry} {x : Point} {v : Value} :
    (x, v) ∈ writes e ↔ ∃ column line, e.payload.Writes column line x v := by
  rw [writes, List.mem_flatMap]
  simp only [writes_iff]
  constructor
  · rintro ⟨c, hc, hx⟩
    obtain ⟨column, hc⟩ := List.mem_iff_getElem?.1 hc
    obtain ⟨line, hx⟩ := List.mem_iff_getElem?.1 hx
    exact ⟨column, line, c, hc, hx⟩
  · rintro ⟨column, line, c, hc, hx⟩
    exact ⟨c, List.mem_of_getElem? hc, List.mem_of_getElem? hx⟩

/-! ### The last write -/

/-- An entry writes a value to a point in a column and a line. -/
def WrittenAt (es : List LogEntry) (entry column line : Nat) (x : Point) (v : Value) : Prop :=
  ∃ e, es[entry]? = some e ∧ e.payload.Writes column line x v

theorem writtenAt_singleton {e : LogEntry} {entry column line : Nat} {x : Point} {v : Value} :
    WrittenAt [e] entry column line x v ↔ entry = 0 ∧ e.payload.Writes column line x v := by
  constructor
  · rintro ⟨e', he, hwrites⟩
    cases entry with
    | zero =>
      cases he
      exact ⟨rfl, hwrites⟩
    | succ entry => cases he
  · rintro ⟨rfl, hwrites⟩
    exact ⟨e, rfl, hwrites⟩

/-- The place of a write.  Of two places that with the later entry is the later one, then that with the later column, and
then that with the later line. -/
def place (entry column line : Nat) : ℕ ×ₗ ℕ ×ₗ ℕ := toLex (entry, toLex (column, line))

/-- A value is that of the write of a point that has the last place. -/
def LastWritten (es : List LogEntry) (x : Point) (v : Value) : Prop :=
  ∃ entry column line, WrittenAt es entry column line x v ∧
    ∀ entry' column' line' v', WrittenAt es entry' column' line' x v' →
      place entry' column' line' ≤ place entry column line

theorem place_le_place {i j k i' j' k' : Nat} :
    place i j k ≤ place i' j' k' ↔ i < i' ∨ i = i' ∧ (j < j' ∨ j = j' ∧ k ≤ k') := by
  rw [place, place, Prod.Lex.toLex_le_toLex, Prod.Lex.toLex_le_toLex]

/-- No two values are last. -/
theorem LastWritten.unique {es : List LogEntry} {x : Point} {v v' : Value} (h : LastWritten es x v)
    (h' : LastWritten es x v') : v = v' := by
  obtain ⟨i, j, k, hwritten, hlast⟩ := h
  obtain ⟨i', j', k', hwritten', hlast'⟩ := h'
  have hplace : place i j k = place i' j' k' := le_antisymm (hlast' i j k v hwritten) (hlast i' j' k' v' hwritten')
  cases hplace
  obtain ⟨e, he, -, hv⟩ := hwritten
  obtain ⟨e', he', -, hv'⟩ := hwritten'
  obtain rfl : e = e' := Option.some.inj (he.symm.trans he')
  exact Option.some.inj (hv.symm.trans hv')

/-- Of several lists of writes the last that writes a point has its last write. -/
theorem exists_of_lastOf_flatMap {α : Type} {l : List α} {f : α → List (Point × Value)} {x : Point} {v : Value}
    (h : lastOf (l.flatMap f) x = some v) :
    ∃ (i : Nat) (a : α), l[i]? = some a ∧ lastOf (f a) x = some v ∧
      ∀ (i' : Nat) (a' : α), l[i']? = some a' → x ∈ (f a').map (·.1) → i' ≤ i := by
  induction l using List.reverseRecOn with
  | nil => cases h
  | append_singleton l a ih =>
    rw [List.flatMap_append, lastOf_append, List.flatMap_singleton] at h
    have hbound : ∀ (i' : Nat) (a' : α), (l ++ [a])[i']? = some a' → i' ≤ l.length := by
      intro i' a' ha'
      obtain ⟨hi', -⟩ := List.getElem?_eq_some_iff.1 ha'
      rw [List.length_append] at hi'
      exact Nat.le_of_lt_succ hi'
    cases hlast : lastOf (f a) x with
    | some w =>
      rw [hlast, Option.some_or] at h
      exact ⟨l.length, a, List.getElem?_concat_length, hlast.trans h, fun i' a' ha' _ => hbound i' a' ha'⟩
    | none =>
      rw [hlast, Option.none_or] at h
      obtain ⟨i, b, hb, hvalue, hlater⟩ := ih h
      obtain ⟨hi, -⟩ := List.getElem?_eq_some_iff.1 hb
      refine ⟨i, b, (List.getElem?_append_left hi).trans hb, hvalue, fun i' a' ha' hx => ?_⟩
      by_cases hi' : i' < l.length
      · exact hlater i' a' ((List.getElem?_append_left hi').symm.trans ha') hx
      · -- The list behind the others does not write the point.
        obtain rfl : i' = l.length := Nat.le_antisymm (hbound i' a' ha') (Nat.not_lt.1 hi')
        obtain rfl : a = a' := Option.some.inj (List.getElem?_concat_length.symm.trans ha')
        rw [← lastOf_isSome, hlast] at hx
        cases hx

theorem lastOf_singleton {w : Point × Value} {x : Point} {v : Value} : lastOf [w] x = some v ↔ w.1 = x ∧ w.2 = v := by
  rw [lastOf, List.reverse_singleton, List.lookup_cons]
  by_cases h : x = w.1
  · simp [h]
  · rw [beq_false_of_ne h]
    refine iff_of_false (fun hv => ?_) fun hw => h hw.1.symm
    cases hv

theorem lastWritten_of_lastWrite {es : List LogEntry} {x : Point} {v : Value} (h : lastWrite es x = some v) :
    LastWritten es x v := by
  obtain ⟨i, e, he, h, hentries⟩ := exists_of_lastOf_flatMap h
  obtain ⟨j, c, hc, h, hcolumns⟩ := exists_of_lastOf_flatMap h
  rw [columnWrites, List.map_eq_flatMap] at h
  obtain ⟨k, q, hq, h, hlines⟩ := exists_of_lastOf_flatMap h
  obtain ⟨rfl, rfl⟩ := lastOf_singleton.1 h
  refine ⟨i, j, k, ⟨e, he, writes_iff.2 ⟨c, hc, ?_⟩⟩, ?_⟩
  · rw [columnWrites, List.getElem?_map, hq]
    rfl
  · rintro i' j' k' v' ⟨e', he', hwrites⟩
    have hentry : i' ≤ i := hentries i' e' he' (List.mem_map.2 ⟨(_, v'), mem_writes.2 ⟨j', k', hwrites⟩, rfl⟩)
    obtain hentry | rfl := Nat.lt_or_eq_of_le hentry
    · exact place_le_place.2 (.inl hentry)
    · obtain rfl : e = e' := Option.some.inj (he.symm.trans he')
      obtain ⟨c', hc', hwrite⟩ := writes_iff.1 hwrites
      have hcolumn : j' ≤ j := hcolumns j' c' hc' (List.mem_map.2 ⟨(_, v'), List.mem_of_getElem? hwrite, rfl⟩)
      obtain hcolumn | rfl := Nat.lt_or_eq_of_le hcolumn
      · exact place_le_place.2 (.inr ⟨rfl, .inl hcolumn⟩)
      · obtain rfl : c = c' := Option.some.inj (hc.symm.trans hc')
        rw [columnWrites, List.getElem?_map, Option.map_eq_some_iff] at hwrite
        obtain ⟨q', hq', hx⟩ := hwrite
        obtain ⟨hx, -⟩ := Prod.mk.inj hx
        have hline : k' ≤ k := hlines k' q' hq' (List.mem_map.2 ⟨_, List.mem_singleton_self _, hx⟩)
        exact place_le_place.2 (.inr ⟨rfl, .inr ⟨rfl, hline⟩⟩)

theorem mem_map_writes {es : List LogEntry} {x : Point} :
    x ∈ (es.flatMap writes).map (·.1) ↔ ∃ entry column line v, WrittenAt es entry column line x v := by
  constructor
  · intro hx
    obtain ⟨⟨_, v⟩, hw, rfl⟩ := List.mem_map.1 hx
    obtain ⟨e, he, hw⟩ := List.mem_flatMap.1 hw
    obtain ⟨i, hi⟩ := List.mem_iff_getElem?.1 he
    obtain ⟨j, k, hwrites⟩ := mem_writes.1 hw
    exact ⟨i, j, k, v, e, hi, hwrites⟩
  · rintro ⟨i, j, k, v, e, hi, hwrites⟩
    exact List.mem_map.2 ⟨(x, v), List.mem_flatMap.2 ⟨e, List.mem_of_getElem? hi, mem_writes.2 ⟨j, k, hwrites⟩⟩, rfl⟩

/-- The value that entries leave at a point is that of its last write. -/
theorem lastWrite_eq_some_iff {es : List LogEntry} {x : Point} {v : Value} :
    lastWrite es x = some v ↔ LastWritten es x v := by
  refine ⟨lastWritten_of_lastWrite, fun h => ?_⟩
  have hwritten : (lastWrite es x).isSome := by
    obtain ⟨i, j, k, hwritten, -⟩ := h
    rw [lastWrite, lastOf_isSome, mem_map_writes]
    exact ⟨i, j, k, v, hwritten⟩
  obtain ⟨w, hw⟩ := Option.isSome_iff_exists.1 hwritten
  rw [hw, h.unique (lastWritten_of_lastWrite hw)]

end MemTable

end SeriesRegion
