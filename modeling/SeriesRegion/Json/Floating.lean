import SeriesRegion.Decimal.Shortest

/-!
# Floating point numbers as JSON

A finite number is written as the shortest decimal numeral that reads back.  There is no JSON text for the others.
-/

namespace SeriesRegion.Json

/-- Narrow numbers from `0.000001` up to, but not with, ten to the thirteenth power are written without an exponent. -/
def singleStyle : Decimal.Style := ⟨-6, 12⟩

/-- Wide numbers from `0.00001` up to, but not with, ten to the sixteenth power are written without an exponent. -/
def doubleStyle : Decimal.Style := ⟨-5, 15⟩

/-- The text of the number with the given bits; `none` if it is not finite. -/
def floating? (l : Decimal.Layout) (s : Decimal.Style) (bits : Nat) : Option String :=
  match l.ofBits bits with
  | .finite true f => some ("-" ++ f.shortest.text s)
  | .finite false f => some (f.shortest.text s)
  | _ => none

def single? (bits : UInt32) : Option String := floating? .single singleStyle bits.toNat

def double? (bits : UInt64) : Option String := floating? .double doubleStyle bits.toNat

end SeriesRegion.Json
