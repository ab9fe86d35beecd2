import SeriesRegion.Json.Floating
import SeriesRegion.Json.Text

/-!
# Numbers of JSON

A number is an integer literal that fits in a machine word, or else a floating point number; a literal without fraction
and exponent that is too large for a word is a floating point number too, and so is minus zero.
-/

namespace SeriesRegion.Json

inductive Number where
  | natural (value : Nat)
  | negative (magnitude : Nat)
  | fraction (text : String)

def Number.found : Number → Found
  | .natural n => .integer n
  | .negative n => .integer (-(n : Int))
  | .fraction t => .fraction t

def maxWord : Nat := UInt64.size - 1

/-- The digits at the front of a text, and what follows them. -/
def digits : List Char → List Char × List Char
  | [] => ([], [])
  | c :: rest => if c.isDigit then ((digits rest).map (c :: ·) id) else ([], c :: rest)

/-- Appends digits to a number as long as it does not exceed `limit`; gives the digits that are left over. -/
def appendDigits (limit n : Nat) : List Char → Nat × List Char
  | [] => (n, [])
  | c :: rest =>
    let n' := 10 * n + (c.toNat - 48)
    if n' ≤ limit then appendDigits limit n' rest else (n, c :: rest)

/-- Appends digits to a significand as long as it stays a machine word. -/
def significand (n : Nat) (ds : List Char) : Nat × List Char := appendDigits maxWord n ds

/-- The largest exponent that is told from larger ones. -/
def maxExponent : Nat := 2147483647

/-- The floating point number `significand · 10 ^ exponent`, computed by one multiplication or division by a power of
ten where that is possible. -/
def floatOf (negative : Bool) (significand : Nat) (exponent : Int) : Option Float :=
  let f := significand.toFloat
  let value :=
    if significand = 0 then f
    else if 308 < exponent then 1.0 / 0.0
    else if 0 ≤ exponent then f * Float.ofScientific 1 false exponent.toNat
    else if -308 ≤ exponent then f / Float.ofScientific 1 false (-exponent).toNat
    else if -616 ≤ exponent then f / 1e308 / Float.ofScientific 1 false (-exponent - 308).toNat
    else 0.0
  if value.isInf then none else some (if negative then -value else value)

def float (negative : Bool) (significand : Nat) (exponent : Int) (rest : List Char) :
    Except Fault (Number × List Char) :=
  match floatOf negative significand exponent with
  | some f => .ok (.fraction ((double? f.toBits).getD ""), rest)
  | none => .error (.before .numberOutOfRange rest)

/-- Reads an exponent after its letter.  A number other than zero is out of range at the digit that takes the exponent
over its limit; a negative exponent of that size makes zero of it. -/
def exponentTail (negative : Bool) (sig : Nat) (start : Int) (s : List Char) : Except Fault (Number × List Char) :=
  let (down, s) :=
    match s with
    | '+' :: rest => (false, rest)
    | '-' :: rest => (true, rest)
    | s => (false, s)
  match s with
  | [] => .error (.before .endInValue [])
  | c :: rest =>
    if c.isDigit then
      let (ds, rest') := digits (c :: rest)
      match appendDigits maxExponent 0 ds with
      | (e, []) => float negative sig (if down then start - e else start + e) rest'
      | (_, _ :: excess) =>
        if sig = 0 ∨ down then float negative 0 0 rest' else .error (.before .numberOutOfRange (excess ++ rest'))
    else .error (.upon .invalidNumber (c :: rest))

/-- Reads what may follow the digits of a floating point number. -/
def exponentOr (negative : Bool) (sig : Nat) (exponent : Int) (s : List Char) : Except Fault (Number × List Char) :=
  match s with
  | 'e' :: rest | 'E' :: rest => exponentTail negative sig exponent rest
  | s => float negative sig exponent s

/-- Reads a fraction after its point. -/
def fractionTail (negative : Bool) (sig : Nat) (dropped : Nat) (s : List Char) : Except Fault (Number × List Char) :=
  let (ds, rest) := digits s
  if ds.isEmpty then
    match rest with
    | [] => .error (.upon .endInValue [])
    | c :: rest => .error (.upon .invalidNumber (c :: rest))
  else
    let (sig', excess) := significand sig ds
    exponentOr negative sig' (dropped - (ds.length - excess.length : Nat)) rest

def number (negative : Bool) (s : List Char) : Except Fault (Number × List Char) :=
  match s with
  | [] => .error (.before .endInValue [])
  | c :: rest =>
    if c = '0' then
      match rest with
      | d :: _ =>
        if d.isDigit then .error (.upon .invalidNumber rest)
        else if d = '.' then fractionTail negative 0 0 (rest.drop 1)
        else if d = 'e' ∨ d = 'E' then exponentTail negative 0 0 (rest.drop 1)
        else .ok (if negative then .fraction "-0.0" else .natural 0, rest)
      | [] => .ok (if negative then .fraction "-0.0" else .natural 0, rest)
    else if c.isDigit then
      let (ds, rest) := digits (c :: rest)
      let (sig, excess) := significand 0 ds
      match rest with
      | '.' :: rest => fractionTail negative sig excess.length rest
      | 'e' :: rest | 'E' :: rest => exponentTail negative sig excess.length rest
      | rest =>
        if excess.isEmpty then
          if !negative then .ok (.natural sig, rest)
          else if sig ≤ 9223372036854775808 then .ok (.negative sig, rest)
          else float negative sig 0 rest
        else float negative sig excess.length rest
    else .error (.upon .invalidNumber (c :: rest))

/-- Skips the exponent of a number after its letter. -/
def skipExponent (s : List Char) : Except Fault (List Char) :=
  let s :=
    match s with
    | '+' :: rest | '-' :: rest => rest
    | s => s
  match digits s with
  | ([], rest) => .error (.upon .invalidNumber rest)
  | (_, rest) => .ok rest

/-- Skips a number after its sign. -/
def skipNumber (s : List Char) : Except Fault (List Char) :=
  match s with
  | [] => .error (.before .invalidNumber [])
  | c :: rest =>
    if !c.isDigit then .error (.upon .invalidNumber (c :: rest))
    else
      let whole := if c = '0' then rest else (digits rest).2
      match whole with
      | d :: rest =>
        if c = '0' ∧ d.isDigit then .error (.upon .invalidNumber (d :: rest))
        else if d = '.' then
          match digits rest with
          | ([], rest) => .error (.upon .invalidNumber rest)
          | (_, 'e' :: rest) | (_, 'E' :: rest) => skipExponent rest
          | (_, rest) => .ok rest
        else if d = 'e' ∨ d = 'E' then skipExponent rest
        else .ok (d :: rest)
      | [] => .ok []

end SeriesRegion.Json
