import SeriesRegion.Bytes

/-!
# Identifiers

Sixteen bytes that name one thing among all.  They are written as hexadecimal digits in five groups, or without the
hyphens; in groups they may stand between braces or after `urn:uuid:`.
-/

namespace SeriesRegion

structure Uuid where
  bytes : Bytes
  deriving DecidableEq, Repr

namespace Uuid

inductive Fault where
  | character (found : Char) (place : Nat)
  | length (found : Nat)
  | groupCount (found : Nat)
  | groupLength (group expected found : Nat)
  deriving DecidableEq, Repr

def Fault.message : Fault → String
  | .character c place => s!"invalid character: found \x60{c}\x60 at {place}"
  | .length n => s!"invalid length: found {n}"
  | .groupCount n => s!"invalid group count: expected 5, found {n}"
  | .groupLength g expected n => s!"invalid group length in group {g}: expected {expected}, found {n}"

/-- The digits of an identifier in five groups. -/
def text (u : Uuid) : String :=
  let ds := u.bytes.hex.toList
  let group (first width : Nat) : String := String.ofList ((ds.drop first).take width)
  "-".intercalate [group 0 8, group 8 4, group 12 4, group 16 4, group 20 12]

def hyphens : List Nat := [8, 13, 18, 23]

/-- Reads digits in groups. -/
def ofGroups? (s : List Char) : Option Uuid :=
  if s.length = 36 ∧ (hyphens.all fun i => s[i]? = some '-') then
    (Bytes.ofHexDigits? ((s.zipIdx.filter fun p => !hyphens.contains p.2).map (·.1))).map Uuid.mk
  else none

def size (s : List Char) : Nat := s.foldr (fun c n => c.utf8Size + n) 0

/-- What a text holds besides digits and hyphens: the first such character with its place in bytes. -/
def stranger? (place : Nat) : List Char → Option (Char × Nat)
  | [] => none
  | c :: rest =>
    if c = '-' ∨ (hexValue? c).isSome then stranger? (place + 1) rest else some (c, place)

/-- The lengths of the groups between hyphens. -/
def groupLengths : List Char → List Nat
  | [] => [0]
  | c :: rest =>
    match groupLengths rest with
    | [] => []
    | n :: ns => if c = '-' then 0 :: n :: ns else (n + 1) :: ns

/-- The first group that has not the length it should have. -/
def badGroup? (number : Nat) : List Nat → List Nat → Option Fault
  | expected :: more, n :: ns =>
    if n ≠ expected then some (.groupLength number expected n) else badGroup? (number + 1) more ns
  | _, _ => none

/-- What stands before an identifier in a name of the resource scheme, in any case. -/
def scheme : List Char := "urn:uuid:".toList

/-- What follows the name of the scheme. -/
def afterScheme? (s : List Char) : Option (List Char) :=
  if (s.take scheme.length).map Char.toLower = scheme then some (s.drop scheme.length) else none

/-- What stands between braces. -/
def insideBraces? (s : List Char) : Option (List Char) :=
  if s.head? = some '{' ∧ s.getLast? = some '}' ∧ 2 ≤ s.length then some s.tail.dropLast else none

/-- How a text is read that is no identifier: what should be one, the bytes that stood before it, and whether it may be
without hyphens. -/
structure Reading where
  inner : List Char
  skipped : Nat
  simple : Bool

/-- A text without its braces or scheme. -/
def unwrapped (s : List Char) : Reading :=
  match insideBraces? s with
  | some inner => ⟨inner, 1, false⟩
  | none =>
    match afterScheme? s with
    | some inner => ⟨inner, scheme.length, false⟩
    | none => ⟨s, 0, true⟩

/-- The fault of a text that is no identifier.  The last group reaches to the end of the text, closing brace and all,
and its length counts what stood before the first one as well. -/
def Reading.fault (r : Reading) (s : List Char) : Fault :=
  match stranger? r.skipped r.inner with
  | some (c, place) => .character c place
  | none =>
    let groups := groupLengths r.inner
    if groups.length = 1 ∧ r.simple then .length (size s)
    else if groups.length ≠ 5 then .groupCount groups.length
    else (badGroup? 0 [8, 4, 4, 4] groups).getD (.groupLength 4 12 (size s - 24))

/-- The fault of a text that may have any form. -/
def faultOf (s : List Char) : Fault := (unwrapped s).fault s

/-- The fault of a text that has the length of five groups. -/
def groupedFaultOf (s : List Char) : Fault := Reading.fault ⟨s, 0, false⟩ s

/-- The length in bytes of the longest form. -/
def longest : Nat := 45

/-- Reads an identifier.  The number of bytes decides which form the text has, and a form that holds another is blamed
for what is wrong inside it. -/
def parse (text : String) : Except Fault Uuid :=
  let s := text.toList
  let simple (t : List Char) : Except Fault Uuid :=
    match Bytes.ofHexDigits? t with
    | some bs => .ok ⟨bs⟩
    | none => .error (faultOf t)
  let grouped (t : List Char) : Except Fault Uuid :=
    match ofGroups? t with
    | some u => .ok u
    | none => .error (groupedFaultOf t)
  let wrapped : Option (List Char) → Except Fault Uuid
    | some inner => grouped inner
    | none => .error (faultOf s)
  match size s with
  | 32 => simple s
  | 36 => grouped s
  | 38 => wrapped (insideBraces? s)
  | 45 => wrapped (afterScheme? s)
  | n => .error (if longest < n then .length n else faultOf s)

end Uuid

end SeriesRegion
