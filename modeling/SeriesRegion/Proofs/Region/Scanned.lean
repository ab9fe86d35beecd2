import SeriesRegion.Machine
import SeriesRegion.Proofs.MemTable.Answers
import SeriesRegion.Proofs.Region.Applied
import SeriesRegion.Proofs.Region.History
import Mathlib

/-!
# What the widest scans find

A scan gives the points before the end of its range, so one that ends at the latest time there is does not give a point at
that time, and no scan ends later.  Every other point of a region is found by the widest scan of its series
(`MemTable.sum_length_widest`), and so the point count is the number of points that these scans find and of those at the
latest time (`Region.pointCount_eq_sum_widest`).
-/

namespace SeriesRegion

/-- The fragment that asks for as much of a series as a fragment can ask for. -/
def Fragment.widest (id : String) (series : String × String) : Fragment :=
  ⟨id, series.1, series.2, Int64.minValue, Int64.maxValue⟩

/-- The device and the measurement of a point. -/
def Point.series (x : Point) : String × String := (x.device, x.measurement)

namespace MemTable

variable {t : MemTable} {es : List LogEntry} {series : String × String} {time : Int64} {v : Value}

/-- The points that entries write. -/
def written (es : List LogEntry) : Finset Point := ((es.flatMap writes).map (·.1)).toFinset

theorem mem_written {x : Point} : x ∈ written es ↔ ((empty.applyAll es).value x).isSome := by
  rw [written, List.mem_toFinset, isSome_value_applyAll, List.map_flatMap, List.mem_flatMap]

theorem pointCount_applyAll_eq_card (es : List LogEntry) : (empty.applyAll es).pointCount = (written es).card := by
  rw [pointCount_applyAll, written, List.card_toFinset]

theorem lt_maxValue_iff : time < Int64.maxValue ↔ time ≠ Int64.maxValue :=
  Int64.lt_iff_le_and_ne.trans (and_iff_right time.le_maxValue)

/-- The points that the widest scan of a series gives. -/
def widest (t : MemTable) (series : String × String) : List (Int64 × Value) :=
  t.query series.1 series.2 Int64.minValue Int64.maxValue

theorem mem_widest :
    (time, v) ∈ t.widest series ↔ time ≠ Int64.maxValue ∧ t.value ⟨series.1, series.2, time⟩ = some v := by
  rw [widest, mem_query, lt_maxValue_iff]
  exact and_iff_right time.minValue_le

/-- The widest scan of a series gives each of its points once, but for the one at the latest time. -/
theorem length_widest (es : List LogEntry) (series : String × String) :
    ((empty.applyAll es).widest series).length =
      {x ∈ {x ∈ written es | x.time ≠ Int64.maxValue} | x.series = series}.card := by
  let point (p : Int64 × Value) : Point := ⟨series.1, series.2, p.1⟩
  have hnodup : (((empty.applyAll es).widest series).map point).Nodup :=
    List.pairwise_map.2 ((pairwise_query ..).imp fun hlt heq => (Int64.ne_of_lt hlt) (congrArg Point.time heq))
  have hpoints : (((empty.applyAll es).widest series).map point).toFinset =
      {x ∈ {x ∈ written es | x.time ≠ Int64.maxValue} | x.series = series} := by
    ext x
    rw [List.mem_toFinset, List.mem_map, Finset.mem_filter, Finset.mem_filter, mem_written, Option.isSome_iff_exists]
    constructor
    · rintro ⟨⟨time, v⟩, hmem, rfl⟩
      obtain ⟨hne, hv⟩ := mem_widest.1 hmem
      exact ⟨⟨⟨v, hv⟩, hne⟩, rfl⟩
    · rintro ⟨⟨⟨v, hv⟩, hne⟩, rfl⟩
      exact ⟨(x.time, v), mem_widest.2 ⟨hne, hv⟩, rfl⟩
  rw [← hpoints, List.toFinset_card_of_nodup hnodup, List.length_map]

/-- The widest scans of all series find the points that are not at the latest time. -/
theorem sum_length_widest (es : List LogEntry) :
    ∑ series ∈ (written es).image Point.series, ((empty.applyAll es).widest series).length =
      {x ∈ written es | x.time ≠ Int64.maxValue}.card := by
  have hseries : ∀ x ∈ {x ∈ written es | x.time ≠ Int64.maxValue}, x.series ∈ (written es).image Point.series :=
    fun x hx => Finset.mem_image_of_mem _ (Finset.mem_filter.1 hx).1
  rw [Finset.card_eq_sum_card_fiberwise hseries]
  exact Finset.sum_congr rfl fun series _ => length_widest es series

end MemTable

namespace Region

open MemTable

variable {r : Region} {es : List LogEntry} {d : Disk}

/-- The point count of a region is the number of points that the widest scans of its series give and of the points at the
latest time there is.  The scans give all other points, with the values of their last writes, and no fragment gives a point
at the latest time.  So the scans give as many points as are counted exactly if no insert has written at that time. -/
theorem pointCount_eq_sum_widest (new : r.table = .empty) (es : List LogEntry) (d : Disk) (id : String) :
    let after := ((r.insertAll es).run d).1.1
    let points := written (accepted es)
    let found := ∑ series ∈ points.image Point.series, (Machine.scan (.widest id series) after).length
    after.table.pointCount = found + {x ∈ points | x.time = Int64.maxValue}.card ∧
    (∀ series time v, (time, v) ∈ Machine.scan (.widest id series) after ↔
      time ≠ Int64.maxValue ∧ LastWritten (accepted es) ⟨series.1, series.2, time⟩ v) ∧
    (∀ f v, (Int64.maxValue, v) ∉ Machine.scan f after) ∧
    (after.table.pointCount = found ↔ ∀ x ∈ points, x.time ≠ Int64.maxValue) := by
  intro after points found
  have htable : after.table = empty.applyAll (accepted es) := by
    show ((r.insertAll es).run d).1.1.table = _
    rw [run_insertAll, new]
  have hscan : ∀ series, Machine.scan (.widest id series) after = (empty.applyAll (accepted es)).widest series :=
    fun series => congrArg (·.widest series) htable
  have hfound : found = {x ∈ points | x.time ≠ Int64.maxValue}.card := by
    rw [← sum_length_widest (accepted es)]
    exact Finset.sum_congr rfl fun series _ => congrArg List.length (hscan series)
  have hcount : after.table.pointCount = found + {x ∈ points | x.time = Int64.maxValue}.card := by
    rw [htable, pointCount_applyAll_eq_card, hfound, Nat.add_comm]
    exact (Finset.card_filter_add_card_filter_not _).symm
  refine ⟨hcount, fun series time v => ?_, fun f v hmem => ?_, ?_⟩
  · rw [hscan, mem_widest, value_applyAll_empty, lastWrite_eq_some_iff]
  · obtain ⟨-, hlt, -⟩ := mem_query.1 hmem
    exact Int64.not_lt.2 f.stop.le_maxValue hlt
  · rw [hcount, Nat.add_eq_left, Finset.card_eq_zero, Finset.filter_eq_empty_iff]

/-- A row at the latest time there is. -/
def latest : LogEntry := ⟨some 3, .row ⟨"d", Int64.maxValue, ["m"], [.int64 7]⟩⟩

/-- Of two points of a series, one of them at the latest time, the widest scan finds the other. -/
theorem pointCount_eq_sum_widest_latest :
    fresh.table = .empty ∧
      let after := ((fresh.insertAll [sound, misshapen, latest]).run (Disk.new "home")).1.1
      after.table.pointCount = (Machine.scan (.widest "f" ("d", "m")) after).length + 1 ∧
        (5, .double 0) ∈ Machine.scan (.widest "f" ("d", "m")) after ∧
        ∀ v, (Int64.maxValue, v) ∉ Machine.scan (.widest "f" ("d", "m")) after := by
  refine ⟨rfl, ?_⟩
  obtain ⟨hcount, hfound, hnone, -⟩ :=
    pointCount_eq_sum_widest (r := fresh) rfl [sound, misshapen, latest] (Disk.new "home") "f"
  have haccepted : accepted [sound, misshapen, latest] = [sound, latest] := by decide
  have hseries : (written [sound, latest]).image Point.series = {("d", "m")} := by decide
  have hlatest : {x ∈ written [sound, latest] | x.time = Int64.maxValue}.card = 1 := by decide
  rw [haccepted, hseries, Finset.sum_singleton, hlatest] at hcount
  rw [haccepted] at hfound
  exact ⟨hcount, (hfound ..).2 ⟨by decide, lastWrite_eq_some_iff.1 (by decide)⟩, fun v => hnone _ v⟩

/-- A row at the latest time is accepted and counted, and the widest scan of its series finds nothing. -/
theorem pointCount_ne_sum_widest :
    let after := ((fresh.insertAll [latest]).run (Disk.new "home")).1
    after.2 = [.success] ∧ after.1.table.pointCount = 1 ∧
      ∑ series ∈ (written [latest]).image Point.series, (Machine.scan (.widest "f" series) after.1).length = 0 := by
  have hseries : (written [latest]).image Point.series = {("d", "m")} := by decide
  refine ⟨by cbv, by cbv, ?_⟩
  rw [hseries, Finset.sum_singleton]
  cbv

end Region

end SeriesRegion
