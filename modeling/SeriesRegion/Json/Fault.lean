import SeriesRegion.Text.Quoted

/-!
# Faults of JSON texts

A text is read in one pass and the first problem met is reported: what it is, and how many bytes were left to read.
Problems fall into three classes: the text ends too early, it is no JSON, or it is JSON of the wrong content.
-/

namespace SeriesRegion.Json

/-- What was found in the place of the value that was wanted. -/
inductive Found where
  | null
  | boolean (value : Bool)
  | integer (value : Int)
  | fraction (text : String)
  | string (value : String)
  | sequence
  | map
  deriving DecidableEq, Repr

def Found.text : Found → String
  | .null => "null"
  | .boolean b => "boolean `" ++ toString b ++ "`"
  | .integer n => "integer `" ++ toString n ++ "`"
  | .fraction t => "floating point `" ++ t ++ "`"
  | .string s => s!"string {Text.quoted s}"
  | .sequence => "sequence"
  | .map => "map"

/-- Why a text cannot be read. -/
inductive Cause where
  | endInList
  | endInObject
  | endInString
  | endInValue
  | expectedColon
  | expectedCommaOrBracket
  | expectedCommaOrBrace
  | expectedIdent
  | expectedValue
  | invalidEscape
  | invalidNumber
  | numberOutOfRange
  | controlCharacter
  | keyNotString
  | loneSurrogate
  | trailingComma
  | trailingCharacters
  | unexpectedEndOfEscape
  | wrongType (found : Found) (expected : String)
  | wrongValue (found : Found) (expected : String)
  | duplicateField (name : String)
  | missingField (name : String)
  | wrongLength (found : Nat) (expected : String)
  | refused (message : String)
  deriving DecidableEq, Repr

inductive Category where
  | malformed
  | truncated
  | content
  deriving DecidableEq, Repr

def Cause.category : Cause → Category
  | .endInList | .endInObject | .endInString | .endInValue => .truncated
  | .wrongType .. | .wrongValue .. | .duplicateField _ | .missingField _ | .wrongLength .. | .refused _ => .content
  | _ => .malformed

def Cause.message : Cause → String
  | .endInList => "EOF while parsing a list"
  | .endInObject => "EOF while parsing an object"
  | .endInString => "EOF while parsing a string"
  | .endInValue => "EOF while parsing a value"
  | .expectedColon => "expected `:`"
  | .expectedCommaOrBracket => "expected `,` or `]`"
  | .expectedCommaOrBrace => "expected `,` or `\x7d`"
  | .expectedIdent => "expected ident"
  | .expectedValue => "expected value"
  | .invalidEscape => "invalid escape"
  | .invalidNumber => "invalid number"
  | .numberOutOfRange => "number out of range"
  | .controlCharacter => "control character (\\u0000-\\u001F) found while parsing a string"
  | .keyNotString => "key must be a string"
  | .loneSurrogate => "lone leading surrogate in hex escape"
  | .trailingComma => "trailing comma"
  | .trailingCharacters => "trailing characters"
  | .unexpectedEndOfEscape => "unexpected end of hex escape"
  | .wrongType found expected => s!"invalid type: {found.text}, expected {expected}"
  | .wrongValue found expected => s!"invalid value: {found.text}, expected {expected}"
  | .duplicateField name => "duplicate field `" ++ name ++ "`"
  | .missingField name => "missing field `" ++ name ++ "`"
  | .wrongLength found expected => s!"invalid length {found}, expected {expected}"
  | .refused message => message

/-- A problem, with the number of bytes that were left. -/
structure Fault where
  cause : Cause
  left : Nat
  deriving DecidableEq, Repr

def byteCount (s : List Char) : Nat := s.foldr (fun c n => c.utf8Size + n) 0

/-- A problem met before `rest`. -/
def Fault.before (cause : Cause) (rest : List Char) : Fault := ⟨cause, byteCount rest⟩

/-- A problem met at the first byte of `rest`. -/
def Fault.upon (cause : Cause) (rest : List Char) : Fault := ⟨cause, byteCount rest - 1⟩

/-- A problem, with the line and column after the last byte read. -/
structure Located where
  cause : Cause
  line : Nat
  column : Nat
  deriving DecidableEq, Repr

def Located.message (f : Located) : String := s!"{f.cause.message} at line {f.line} column {f.column}"

/-- The line and column that are reached when `bytes` bytes are read. -/
def position (bytes : Nat) (line column : Nat) : List Char → Nat × Nat
  | [] => (line, column)
  | c :: rest =>
    if bytes < c.utf8Size then (line, column + bytes)
    else if c = '\n' then position (bytes - c.utf8Size) (line + 1) 0 rest
    else position (bytes - c.utf8Size) line (column + c.utf8Size) rest

def Fault.locate (f : Fault) (text : List Char) : Located :=
  let p := position (byteCount text - f.left) 1 0 text
  ⟨f.cause, p.1, p.2⟩

abbrev Reader (α : Type) := List Char → Except Fault (α × List Char)

end SeriesRegion.Json
