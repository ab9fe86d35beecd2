import SeriesRegion.Bytes

/-!
# UTF-8

Reading text from bytes.  Bytes that are no text are described by `Utf8.Fault`: where the longest valid beginning
ends, and how long the ill-formed part after it is, if it is not just cut off.
-/

namespace SeriesRegion.Utf8

/-- What is wrong with the first ill-formed part of a byte string. -/
inductive Fault where
  /-- `length` bytes from `index` on begin no character. -/
  | invalid (length index : Nat)
  /-- The bytes end inside the character that begins at `index`. -/
  | incomplete (index : Nat)
  deriving DecidableEq, Repr

def Fault.message : Fault → String
  | .invalid length index => s!"invalid utf-8 sequence of {length} bytes from index {index}"
  | .incomplete index => s!"incomplete utf-8 byte sequence from index {index}"

/-- The number of bytes that follow a leading byte, and the range of the first of them.  The ranges leave out overlong
forms, surrogates and everything above the last code point. -/
def tailOf (lead : UInt8) : Option (Nat × UInt8 × UInt8) :=
  if lead < 0x80 then some (0, 0x80, 0xbf)
  else if lead < 0xc2 then none
  else if lead < 0xe0 then some (1, 0x80, 0xbf)
  else if lead = 0xe0 then some (2, 0xa0, 0xbf)
  else if lead = 0xed then some (2, 0x80, 0x9f)
  else if lead < 0xf0 then some (2, 0x80, 0xbf)
  else if lead = 0xf0 then some (3, 0x90, 0xbf)
  else if lead < 0xf4 then some (3, 0x80, 0xbf)
  else if lead = 0xf4 then some (3, 0x80, 0x8f)
  else none

/-- Scans on inside a character that begins at `start`, of which `seen` bytes are read and `owed` are missing, the next
of them between `low` and `high`. -/
def scan (start seen owed : Nat) (low high : UInt8) : Bytes → Option Fault
  | [] => if owed = 0 then none else some (.incomplete start)
  | b :: rest =>
    if owed = 0 then
      match tailOf b with
      | none => some (.invalid 1 (start + seen))
      | some (n, low, high) => scan (start + seen) 1 n low high rest
    else if low ≤ b ∧ b ≤ high then scan start (seen + 1) (owed - 1) 0x80 0xbf rest
    else some (.invalid seen start)

def fault? (bs : Bytes) : Option Fault := scan 0 0 0 0x80 0xbf bs

def decode (bs : Bytes) : Except Fault String :=
  match String.fromUTF8? ⟨bs.toArray⟩ with
  | some s => .ok s
  | none => .error ((fault? bs).getD (.incomplete bs.length))

end SeriesRegion.Utf8
