import SeriesRegion.Json.Number

/-!
# Skipping values

A value that nobody asked for is skipped with only its shape checked, whatever its depth: the open lists and objects
are kept on a stack.
-/

namespace SeriesRegion.Json

/-- An open list or object. -/
inductive Frame where
  | list
  | object
  deriving DecidableEq, Repr

/-- What may come next. -/
inductive Place where
  | value
  | key
  | colon
  /-- The first item or member of the innermost frame, or its end. -/
  | first
  /-- A comma, or the end of the innermost frame. -/
  | next
  deriving DecidableEq, Repr

/-- The place inside a frame where an item or member begins. -/
def Frame.item : Frame → Place
  | .list => .value
  | .object => .key

/-- The problem of a text that ends where `place` is wanted. -/
def endAt (stack : List Frame) : Place → Cause
  | .value => .endInValue
  | .key | .colon => .endInObject
  | .first | .next =>
    match stack with
    | .object :: _ => .endInObject
    | _ => .endInList

/-- Reads one word, number or string, or opens a frame. -/
inductive Scalar where
  | done (rest : List Char)
  | opened (frame : Frame) (rest : List Char)
  | failed (fault : Fault)

def scalar (c : Char) (rest : List Char) : Scalar :=
  let ofExcept : Except Fault (List Char) → Scalar
    | .ok rest => .done rest
    | .error e => .failed e
  if c = 'n' then ofExcept (word ['u', 'l', 'l'] rest)
  else if c = 't' then ofExcept (word ['r', 'u', 'e'] rest)
  else if c = 'f' then ofExcept (word ['a', 'l', 's', 'e'] rest)
  else if c = '"' then ofExcept (skipString rest)
  else if c = '[' then .opened .list rest
  else if c = '{' then .opened .object rest
  else if c = '-' then ofExcept (skipNumber rest)
  else if c.isDigit then ofExcept (skipNumber (c :: rest))
  else .failed (.upon .expectedValue (c :: rest))

/-- Skips on from a place inside the open frames, until the outermost value is over.  Each round takes a character;
`fuel` bounds their number. -/
def skipFrom : (fuel : Nat) → (stack : List Frame) → Place → List Char → Except Fault (List Char)
  | 0, stack, place, s => .error (.before (endAt stack place) s)
  | fuel + 1, stack, place, s =>
    match skipBlanks s with
    | [] => .error (.before (endAt stack place) [])
    | c :: rest =>
      let finish (stack : List Frame) (rest : List Char) : Except Fault (List Char) :=
        match stack with
        | [] => .ok rest
        | stack => skipFrom fuel stack .next rest
      let inside (stack : List Frame) : Except Fault (List Char) :=
        match scalar c rest with
        | .failed e => .error e
        | .done rest => finish stack rest
        | .opened frame rest => skipFrom fuel (frame :: stack) .first rest
      match place with
      | .value => inside stack
      | .key =>
        if c = '"' then
          match skipString rest with
          | .error e => .error e
          | .ok rest => skipFrom fuel stack .colon rest
        else .error (.upon .keyNotString (c :: rest))
      | .colon =>
        if c = ':' then skipFrom fuel stack .value rest else .error (.upon .expectedColon (c :: rest))
      | .first =>
        match stack with
        | .list :: outer => if c = ']' then finish outer rest else inside stack
        | .object :: outer =>
          if c = '}' then finish outer rest else skipFrom fuel stack .key (c :: rest)
        | [] => .ok (c :: rest)
      | .next =>
        match stack with
        | .list :: outer =>
          if c = ']' then finish outer rest
          else if c = ',' then skipFrom fuel stack .value rest
          else .error (.upon .expectedCommaOrBracket (c :: rest))
        | .object :: outer =>
          if c = '}' then finish outer rest
          else if c = ',' then skipFrom fuel stack .key rest
          else .error (.upon .expectedCommaOrBrace (c :: rest))
        | [] => .ok (c :: rest)

/-- Skips the value at the front of a text. -/
def skipValue (s : List Char) : Except Fault (List Char) := skipFrom (2 * s.length + 1) [] .value s

end SeriesRegion.Json
