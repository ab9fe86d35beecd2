import SeriesRegion.Binary.Format
import SeriesRegion.MemTable

/-!
# The layout of log entries and table images

Records are written field by field in the order of their declaration, and kinds are numbered in the order of theirs.
-/

namespace SeriesRegion.Binary

namespace Format

def value : Format Value :=
  variants 6
    (fun
      | .boolean b => (0, boolean.write b)
      | .int32 n => (1, int32.write n)
      | .int64 n => (2, int64.write n)
      | .float bits => (3, word32.write bits)
      | .double bits => (4, word64.write bits)
      | .text s => (5, text.write s))
    (fun
      | 0 => some (boolean.read.map .boolean)
      | 1 => some (int32.read.map .int32)
      | 2 => some (int64.read.map .int64)
      | 3 => some (word32.read.map .float)
      | 4 => some (word64.read.map .double)
      | 5 => some (text.read.map .text)
      | _ => none)

def row : Format Row :=
  (text.pair (int64.pair (text.list.pair value.list))).imap
    (fun (device, time, measurements, values) => ⟨device, time, measurements, values⟩)
    (fun r => (r.device, r.time, r.measurements, r.values))

def tablet : Format Tablet :=
  (text.pair (text.list.pair (int64.list.pair value.list.list))).imap
    (fun (device, measurements, times, columns) => ⟨device, measurements, times, columns⟩)
    (fun t => (t.device, t.measurements, t.times, t.columns))

def payload : Format Payload :=
  variants 2
    (fun
      | .row r => (0, row.write r)
      | .tablet t => (1, tablet.write t))
    (fun
      | 0 => some (row.read.map .row)
      | 1 => some (tablet.read.map .tablet)
      | _ => none)

def logEntry : Format LogEntry :=
  (word64.option.pair payload).imap (fun (index, payload) => ⟨index, payload⟩)
    (fun e => (e.searchIndex, e.payload))

/-- The image of a table: its devices, measurements and points, then the highest log position. -/
def memTable : Format MemTable :=
  ((text.map (text.map (int64.map value))).pair word64.option).imap
    (fun (devices, index) => ⟨devices, index⟩) (fun t => (t.devices, t.maxSearchIndex))

end Format

end SeriesRegion.Binary
