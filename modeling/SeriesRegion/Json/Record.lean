import SeriesRegion.Json.Skip

/-!
# Reading records

Readers for the values of known fields, and for records.  A record is an object whose members are found by name, in any
order, or a list of its fields in the order of their declaration.  Members of other names are skipped, a member given
twice is refused, and fields that are missing keep the value they had unless they are required.
-/

namespace SeriesRegion.Json

/-- The problem of a value that is not of the wanted kind.  The value is looked at to say what was found. -/
def mismatch (expected : String) (c : Char) (rest : List Char) : Fault :=
  let found (f : Found) (rest : List Char) : Fault := .before (.wrongType f expected) rest
  let ofWord (letters : List Char) (f : Found) : Fault :=
    match word letters rest with
    | .ok rest => found f rest
    | .error e => e
  let ofNumber (negative : Bool) (s : List Char) : Fault :=
    match number negative s with
    | .ok (n, rest) => found n.found rest
    | .error e => e
  if c = 'n' then ofWord ['u', 'l', 'l'] .null
  else if c = 't' then ofWord ['r', 'u', 'e'] (.boolean true)
  else if c = 'f' then ofWord ['a', 'l', 's', 'e'] (.boolean false)
  else if c = '"' then
    match stringTail rest with
    | .ok (cs, rest) => found (.string (String.ofList cs)) rest
    | .error e => e
  else if c = '[' then found .sequence (c :: rest)
  else if c = '{' then found .map (c :: rest)
  else if c = '-' then ofNumber true rest
  else if c.isDigit then ofNumber false (c :: rest)
  else .upon .expectedValue (c :: rest)

/-- Reads a natural number up to `limit`. -/
def readNat (limit : Nat) (expected : String) : Reader Nat := fun s =>
  let check : Number × List Char → Except Fault (Nat × List Char)
    | (.natural n, rest) =>
      if n ≤ limit then .ok (n, rest) else .error (.before (.wrongValue (.integer n) expected) rest)
    | (.negative n, rest) => .error (.before (.wrongValue (.integer (-(n : Int))) expected) rest)
    | (.fraction t, rest) => .error (.before (.wrongType (.fraction t) expected) rest)
  match skipBlanks s with
  | [] => .error (.before .endInValue [])
  | c :: rest =>
    if c = '-' then (number true rest).bind check
    else if c.isDigit then (number false (c :: rest)).bind check
    else .error (mismatch expected c rest)

def readBool : Reader Bool := fun s =>
  match skipBlanks s with
  | [] => .error (.before .endInValue [])
  | c :: rest =>
    if c = 't' then (word ['r', 'u', 'e'] rest).map fun rest => (true, rest)
    else if c = 'f' then (word ['a', 'l', 's', 'e'] rest).map fun rest => (false, rest)
    else .error (mismatch "a boolean" c rest)

/-- Reads a string and takes what it spells through `use`. -/
def readString {α : Type} (expected : String) (use : String → Except String α) : Reader α := fun s =>
  match skipBlanks s with
  | [] => .error (.before .endInValue [])
  | c :: rest =>
    if c = '"' then
      match stringTail rest with
      | .error e => .error e
      | .ok (cs, rest) =>
        match use (String.ofList cs) with
        | .ok a => .ok (a, rest)
        | .error m => .error (.before (.refused m) rest)
    else .error (mismatch expected c rest)

def readText (expected : String) : Reader String := readString expected .ok

def readOptional {α : Type} (r : Reader α) : Reader (Option α) := fun s =>
  match skipBlanks s with
  | [] => .error (.before .endInValue [])
  | c :: rest =>
    if c = 'n' then (word ['u', 'l', 'l'] rest).map fun rest => (none, rest)
    else (r (c :: rest)).map fun p => (some p.1, p.2)

/-- A field of a record: its name, and how its value changes the record. -/
structure Field (α : Type) where
  name : String
  required : Bool
  update : α → Reader α

/-- The field whose value is stored by `store`. -/
def Field.of {α β : Type} (name : String) (required : Bool) (r : Reader β) (store : α → β → α) : Field α :=
  ⟨name, required, fun a s => (r s).map fun p => (store a p.1, p.2)⟩

/-- A record: what it is called in reports, its fields, and whether a list may leave fields out at its end. -/
structure Record (α : Type) where
  expected : String
  fields : List (Field α)
  shortLists : Bool

namespace Record

variable {α : Type}

/-- How long a list of all fields is. -/
def lengthText (r : Record α) : String := s!" with {r.fields.length} elements"

/-- Reads the end of a list after its last field. -/
def listEnd (s : List Char) : Except Fault (List Char) :=
  match skipBlanks s with
  | [] => .error (.before .endInList [])
  | c :: rest =>
    if c = ']' then .ok rest
    else if c = ',' then
      match skipBlanks rest with
      | ']' :: rest => .error (.upon .trailingComma (']' :: rest))
      | rest => .error (.upon .trailingCharacters rest)
    else .error (.upon .trailingCharacters (c :: rest))

/-- Moves to the next item of a list; `none` when the list ends. -/
def nextItem (first : Bool) (s : List Char) : Except Fault (Option (List Char)) :=
  match skipBlanks s with
  | [] => .error (.before .endInList [])
  | c :: rest =>
    if c = ']' then .ok none
    else if first then .ok (some (c :: rest))
    else if c = ',' then
      match skipBlanks rest with
      | [] => .error (.before .endInValue [])
      | ']' :: rest => .error (.upon .trailingComma (']' :: rest))
      | rest => .ok (some rest)
    else .error (.upon .expectedCommaOrBracket (c :: rest))

/-- Reads the fields of a record from the items of a list. -/
def items (r : Record α) (a : α) (s : List Char) : (read : Nat) → List (Field α) → Except Fault (α × List Char)
  | _, [] => (listEnd s).map fun rest => (a, rest)
  | read, f :: fs =>
    match nextItem (read = 0) s with
    | .error e => .error e
    | .ok none =>
      let rest := (skipBlanks s).drop 1
      if r.shortLists then .ok (a, rest) else .error (.before (.wrongLength read (r.expected ++ r.lengthText)) rest)
    | .ok (some s) =>
      match f.update a s with
      | .error e => .error e
      | .ok (a, s) => items r a s (read + 1) fs

/-- The place after a refused key or at the end of an object. -/
def afterRefusal (s : List Char) : List Char :=
  match skipBlanks s with
  | '}' :: rest => rest
  | rest => rest

/-- The first required field that was not given. -/
def missing? (r : Record α) (seen : List String) : Option String :=
  (r.fields.find? fun f => f.required && !seen.contains f.name).map (·.name)

/-- Moves to the next key of an object, past its opening quote; `none` when the object ends. -/
def nextKey (first : Bool) (s : List Char) : Except Fault (Option (List Char)) :=
  match skipBlanks s with
  | [] => .error (.before .endInObject [])
  | c :: rest =>
    if c = '}' then .ok none
    else if first then
      if c = '"' then .ok (some rest) else .error (.upon .keyNotString (c :: rest))
    else if c = ',' then
      match skipBlanks rest with
      | [] => .error (.before .endInValue [])
      | '"' :: rest => .ok (some rest)
      | '}' :: rest => .error (.upon .trailingComma ('}' :: rest))
      | c :: rest => .error (.upon .keyNotString (c :: rest))
    else .error (.upon .expectedCommaOrBrace (c :: rest))

/-- Reads the colon after a key. -/
def colon (s : List Char) : Except Fault (List Char) :=
  match skipBlanks s with
  | [] => .error (.before .endInObject [])
  | c :: rest => if c = ':' then .ok rest else .error (.upon .expectedColon (c :: rest))

/-- Reads the members of an object.  Each round takes a character; `fuel` bounds their number. -/
def members (r : Record α) : (fuel : Nat) → (first : Bool) → (seen : List String) → α → Reader α
  | 0, _, _, _, s => .error (.before .endInObject s)
  | fuel + 1, first, seen, a, s =>
    match nextKey first s with
    | .error e => .error e
    | .ok none =>
      match r.missing? seen with
      | some name => .error (.before (.missingField name) (afterRefusal s))
      | none => .ok (a, afterRefusal s)
    | .ok (some s) =>
      match stringTail s with
      | .error e => .error e
      | .ok (key, s) =>
        let key := String.ofList key
        match r.fields.find? (·.name = key) with
        | none =>
          match colon s with
          | .error e => .error e
          | .ok s =>
            match skipValue s with
            | .error e => .error e
            | .ok s => members r fuel false seen a s
        | some f =>
          if seen.contains key then .error (.before (.duplicateField key) (afterRefusal s))
          else
            match colon s with
            | .error e => .error e
            | .ok s =>
              match f.update a s with
              | .error e => .error e
              | .ok (a, s) => members r fuel false (key :: seen) a s

/-- Reads a record over the values it has so far. -/
def read (r : Record α) (a : α) : Reader α := fun s =>
  match skipBlanks s with
  | [] => .error (.before .endInValue [])
  | c :: rest =>
    if c = '[' then r.items a rest 0 r.fields
    else if c = '{' then r.members (rest.length + 1) true [] a rest
    else .error (mismatch r.expected c rest)

end Record

/-- Reads a text that holds one value and blanks. -/
def readDocument {α : Type} (r : Reader α) (text : String) : Except Located α :=
  let s := text.toList
  match r s with
  | .error e => .error (e.locate s)
  | .ok (a, rest) =>
    match skipBlanks rest with
    | [] => .ok a
    | c :: rest => .error ((Fault.upon .trailingCharacters (c :: rest)).locate s)

end SeriesRegion.Json
