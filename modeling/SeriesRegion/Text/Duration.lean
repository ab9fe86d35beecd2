/-!
# Lengths of time

A length of time is written in the largest unit it fills, with as many decimals as it needs.
-/

namespace SeriesRegion.Text

/-- The decimals of a fraction whose denominator has `width` zeros, without zeros at the end. -/
def decimals (width n : Nat) : String :=
  let digits := (toString (Nat.pow 10 width + n)).toList.drop 1
  let kept := (digits.reverse.dropWhile (· = '0')).reverse
  if kept.isEmpty then "" else "." ++ String.ofList kept

def duration (nanos : Nat) : String :=
  let inUnit (width : Nat) (unit : String) : String :=
    toString (nanos / Nat.pow 10 width) ++ decimals width (nanos % Nat.pow 10 width) ++ unit
  if 1000000000 ≤ nanos then inUnit 9 "s"
  else if 1000000 ≤ nanos then inUnit 6 "ms"
  else if 1000 ≤ nanos then inUnit 3 "µs"
  else inUnit 0 "ns"

end SeriesRegion.Text
