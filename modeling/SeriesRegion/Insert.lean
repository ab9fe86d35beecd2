/-!
# Values and inserts

What a client writes: a row gives one timestamp of a device a value per measurement, a tablet gives a block of
rows of one device column by column.  Only inserts whose lists fit together are accepted; `ShapeFault` names the
first misfit.
-/

namespace SeriesRegion

/-- The value of one measurement at one time.  Floating point values are kept as their bits, so that two values are
equal exactly when they are stored alike. -/
inductive Value where
  | boolean (value : Bool)
  | int32 (value : Int32)
  | int64 (value : Int64)
  | float (bits : UInt32)
  | double (bits : UInt64)
  | text (value : String)
  deriving DecidableEq, Repr

/-- One timestamp of a device: `values[i]` belongs to `measurements[i]`. -/
structure Row where
  device : String
  time : Int64
  measurements : List String
  values : List Value
  deriving DecidableEq, Repr

/-- A block of rows of one device: `columns[m][r]` is the value of `measurements[m]` at `times[r]`. -/
structure Tablet where
  device : String
  measurements : List String
  times : List Int64
  columns : List (List Value)
  deriving DecidableEq, Repr

/-- Why the lists of an insert do not fit together. -/
inductive ShapeFault where
  | noMeasurements
  | valueCount (measurements values : Nat)
  | noRows
  | columnCount (measurements columns : Nat)
  | columnLength (measurement : String) (values timestamps : Nat)
  deriving DecidableEq, Repr

def ShapeFault.message : ShapeFault → String
  | .noMeasurements => "row has no measurements"
  | .valueCount m v => s!"{m} measurements but {v} values"
  | .noRows => "tablet has no rows"
  | .columnCount m c => s!"{m} measurements but {c} columns"
  | .columnLength name v t => s!"column {name} has {v} values for {t} timestamps"

/-- A row needs a measurement, and a value for each. -/
def Row.shapeFault? (r : Row) : Option ShapeFault :=
  if r.measurements.isEmpty then some .noMeasurements
  else if r.measurements.length ≠ r.values.length then
    some (.valueCount r.measurements.length r.values.length)
  else none

/-- The first column whose length differs from `rows`, with the measurement it belongs to. -/
def Tablet.raggedColumn? (rows : Nat) : List String → List (List Value) → Option ShapeFault
  | name :: names, column :: columns =>
    if column.length ≠ rows then some (.columnLength name column.length rows)
    else raggedColumn? rows names columns
  | _, _ => none

/-- A tablet needs a row, a column for each measurement, and in each column a value for each timestamp. -/
def Tablet.shapeFault? (t : Tablet) : Option ShapeFault :=
  if t.times.isEmpty then some .noRows
  else if t.columns.length ≠ t.measurements.length then
    some (.columnCount t.measurements.length t.columns.length)
  else Tablet.raggedColumn? t.times.length t.measurements t.columns

def Tablet.rowCount (t : Tablet) : Nat := t.times.length

/-- What one log entry writes. -/
inductive Payload where
  | row (row : Row)
  | tablet (tablet : Tablet)
  deriving DecidableEq, Repr

def Payload.device : Payload → String
  | .row r => r.device
  | .tablet t => t.device

def Payload.shapeFault? : Payload → Option ShapeFault
  | .row r => r.shapeFault?
  | .tablet t => t.shapeFault?

/-- An insert as it is logged: the payload with the log position it is bound to, if any. -/
structure LogEntry where
  searchIndex : Option UInt64
  payload : Payload
  deriving DecidableEq, Repr

end SeriesRegion
