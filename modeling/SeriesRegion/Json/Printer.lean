import SeriesRegion.Bytes
import SeriesRegion.Insert
import SeriesRegion.Json.Floating

/-!
# Writing JSON

Strings, floating point numbers and inserts as JSON texts.  A number that is not finite is written `null`.
-/

namespace SeriesRegion.Json

/-- A character inside a JSON string. -/
def stringChar (c : Char) : String :=
  match c with
  | '"' => "\\\""
  | '\\' => "\\\\"
  | '\x08' => "\\b"
  | '\x0c' => "\\f"
  | '\n' => "\\n"
  | '\r' => "\\r"
  | '\t' => "\\t"
  | c =>
    if c < ' ' then "\\u00" ++ Bytes.hex [UInt8.ofNat c.toNat] else String.singleton c

def string (s : String) : String := "\"" ++ String.join (s.toList.map stringChar) ++ "\""

def list (items : List String) : String := "[" ++ ",".intercalate items ++ "]"

/-- An object with its members in the order given. -/
def object (members : List (String × String)) : String :=
  "\x7b" ++ ",".intercalate (members.map fun m => string m.1 ++ ":" ++ m.2) ++ "\x7d"

def value : Value → String
  | .boolean b => object [("Boolean", toString b)]
  | .int32 n => object [("Int32", toString n.toInt)]
  | .int64 n => object [("Int64", toString n.toInt)]
  | .float bits => object [("Float", (single? bits).getD "null")]
  | .double bits => object [("Double", (double? bits).getD "null")]
  | .text s => object [("Text", string s)]

def payload : Payload → String
  | .row r =>
    object [("Row", object [("device", string r.device), ("time", toString r.time.toInt),
      ("measurements", list (r.measurements.map string)), ("values", list (r.values.map value))])]
  | .tablet t =>
    object [("Tablet", object [("device", string t.device), ("measurements", list (t.measurements.map string)),
      ("times", list (t.times.map fun n => toString n.toInt)),
      ("columns", list (t.columns.map fun c => list (c.map value)))])]

/-- An object over several lines, one member on each. -/
def block (members : List (String × String)) : String :=
  "\x7b\n" ++ ",\n".intercalate (members.map fun m => "  " ++ string m.1 ++ ": " ++ m.2) ++ "\n\x7d"

end SeriesRegion.Json
