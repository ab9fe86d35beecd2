import SeriesRegion.Insert
import SeriesRegion.SortedMap

/-!
# The table of points

`MemTable` holds every point of a region, by device, measurement and time, together with the highest log position
applied to it.  Entries are applied one after the other and the last write of a point wins; a query scans one series
over a half-open range of time.
-/

namespace SeriesRegion

/-- The points of one measurement by time. -/
abbrev Series := SortedMap Int64 Value

/-- The points of a region, and the highest log position among the entries applied. -/
structure MemTable where
  devices : SortedMap String (SortedMap String Series)
  maxSearchIndex : Option UInt64
  deriving DecidableEq

namespace MemTable

def empty : MemTable := ⟨.empty, none⟩

instance : Inhabited MemTable := ⟨empty⟩

/-- Writes the points of one series, the later pairs over the earlier ones. -/
def writeSeries (s : Series) (points : List (Int64 × Value)) : Series :=
  points.foldl (fun s p => s.insert p.1 p.2) s

/-- Writes points into the series of a measurement, which is created if it is missing. -/
def writeMeasurement (d : SortedMap String Series) (measurement : String) (points : List (Int64 × Value)) :
    SortedMap String Series :=
  d.alter measurement fun s => writeSeries (s.getD .empty) points

/-- The columns an entry writes: a measurement with the points given to it. -/
def columnsOf : Payload → List (String × List (Int64 × Value))
  | .row r => (r.measurements.zip r.values).map fun p => (p.1, [(r.time, p.2)])
  | .tablet t => (t.measurements.zip t.columns).map fun p => (p.1, t.times.zip p.2)

/-- Writes a payload column by column.  The device is created even when no column is written. -/
def write (m : SortedMap String (SortedMap String Series)) (p : Payload) :
    SortedMap String (SortedMap String Series) :=
  m.alter p.device fun d => (columnsOf p).foldl (fun d c => writeMeasurement d c.1 c.2) (d.getD .empty)

/-- The higher of two optional log positions. -/
def raise (highest index : Option UInt64) : Option UInt64 :=
  match highest, index with
  | h, none => h
  | none, some i => some i
  | some h, some i => some (max h i)

def apply (t : MemTable) (e : LogEntry) : MemTable :=
  ⟨write t.devices e.payload, raise t.maxSearchIndex e.searchIndex⟩

def applyAll (t : MemTable) (es : List LogEntry) : MemTable := es.foldl apply t

def pointCount (t : MemTable) : Nat :=
  t.devices.values.foldl (fun n d => d.values.foldl (fun n s => n + s.size) n) 0

/-- The devices written to, in ascending order. -/
def deviceNames (t : MemTable) : List String := t.devices.keys

def series? (t : MemTable) (device measurement : String) : Option Series :=
  (t.devices.get? device).bind (·.get? measurement)

/-- The points of one series with `start ≤ time < stop`, in the order of time. -/
def query (t : MemTable) (device measurement : String) (start stop : Int64) : List (Int64 × Value) :=
  match t.series? device measurement with
  | none => []
  | some s => s.entries.filter fun p => start ≤ p.1 ∧ p.1 < stop

/-- The value written to a point. -/
def value? (t : MemTable) (device measurement : String) (time : Int64) : Option Value :=
  (t.series? device measurement).bind (·.get? time)

end MemTable

end SeriesRegion
