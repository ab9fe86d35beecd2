/-!
# Shortest decimals

The shortest decimal numeral that reads back as a given binary floating point number.  A positive number is `m · 2 ^ q`;
the reals that round to it form an interval, whose ends belong to it when `m` is even.  Of the decimal grids with one,
two, … digits the first with a point in the interval is taken, and of two such points the nearer.
-/

namespace SeriesRegion.Decimal

/-- A binary format: the width of the fraction and of the exponent field. -/
structure Layout where
  fractionBits : Nat
  exponentBits : Nat

def Layout.single : Layout := ⟨23, 8⟩

def Layout.double : Layout := ⟨52, 11⟩

/-- A finite number `mantissa · 2 ^ exponent`.  `narrowBelow` says that the gap to the next smaller number is half the
gap to the next larger one. -/
structure Finite where
  mantissa : Nat
  exponent : Int
  narrowBelow : Bool

inductive Float where
  | nan
  | infinite (negative : Bool)
  | finite (negative : Bool) (value : Finite)

def Layout.ofBits (l : Layout) (bits : Nat) : Float :=
  let fraction := bits % (1 <<< l.fractionBits)
  let field := (bits >>> l.fractionBits) % (1 <<< l.exponentBits)
  let negative := (bits >>> (l.fractionBits + l.exponentBits)) % 2 = 1
  let bias : Int := ((1 <<< (l.exponentBits - 1) : Nat) : Int) - 1 + l.fractionBits
  if field = (1 <<< l.exponentBits) - 1 then
    if fraction = 0 then .infinite negative else .nan
  else if field = 0 then .finite negative ⟨fraction, 1 - bias, false⟩
  else .finite negative ⟨(1 <<< l.fractionBits) + fraction, field - bias, fraction = 0 ∧ 1 < field⟩

/-- A quotient of natural numbers scaled by a power of ten: `numerator / denominator`. -/
def scaleTen (exponent : Int) (numerator denominator : Nat) : Nat × Nat :=
  if 0 ≤ exponent then (numerator * Nat.pow 10 exponent.toNat, denominator)
  else (numerator, denominator * Nat.pow 10 (-exponent).toNat)

/-- The numeral `digits · 10 ^ exponent`. -/
structure Numeral where
  digits : Nat
  exponent : Int
  deriving DecidableEq, Repr

/-- Four times a finite number and four times the ends of its interval, over a common denominator. -/
structure Interval where
  value : Nat
  low : Nat
  high : Nat
  denominator : Nat
  closed : Bool

def Finite.interval (f : Finite) : Interval :=
  let e := f.exponent - 2
  let up := 1 <<< e.toNat
  ⟨4 * f.mantissa * up, (4 * f.mantissa - if f.narrowBelow then 1 else 2) * up, (4 * f.mantissa + 2) * up,
    1 <<< (-e).toNat, f.mantissa % 2 = 0⟩

def Interval.contains (i : Interval) (n : Numeral) : Bool :=
  let (a, b) := scaleTen n.exponent n.digits 1
  if i.closed then i.low * b ≤ a * i.denominator ∧ a * i.denominator ≤ i.high * b
  else i.low * b < a * i.denominator ∧ a * i.denominator < i.high * b

/-- The points of the grid with step `10 ^ exponent` that are next to the number, the nearer first; of two equally near
ones the even. -/
def Interval.neighbours (i : Interval) (exponent : Int) : List Numeral :=
  let (a, b) := scaleTen (-exponent) i.value i.denominator
  let below := a / b
  let twice := 2 * (a % b)
  if twice < b ∨ (twice = b ∧ below % 2 = 0) then [⟨below, exponent⟩, ⟨below + 1, exponent⟩]
  else [⟨below + 1, exponent⟩, ⟨below, exponent⟩]

/-- Searches the grids from the step `10 ^ exponent` down, `steps` of them. -/
def Interval.search (i : Interval) (exponent : Int) : (steps : Nat) → Option Numeral
  | 0 => none
  | steps + 1 =>
    match (i.neighbours exponent).find? fun n => 0 < n.digits && i.contains n with
    | some n => some n
    | none => search i (exponent - 1) steps

/-- The largest exponent of ten, counted down from `exponent`, that does not exceed the number. -/
def Interval.magnitude (i : Interval) (exponent : Int) : (steps : Nat) → Int
  | 0 => exponent
  | steps + 1 =>
    let (a, b) := scaleTen exponent 1 1
    if a * i.denominator ≤ i.value * b then exponent else magnitude i (exponent - 1) steps

def Numeral.trim (n : Numeral) : (steps : Nat) → Numeral
  | 0 => n
  | steps + 1 => if n.digits % 10 = 0 ∧ n.digits ≠ 0 then trim ⟨n.digits / 10, n.exponent + 1⟩ steps else n

def Finite.shortest (f : Finite) : Numeral :=
  if f.mantissa = 0 then ⟨0, 0⟩
  else
    let i := f.interval
    let top := i.magnitude 309 640
    ((i.search top 17).getD ⟨f.mantissa, f.exponent⟩).trim 20

/-! ### Notation -/

/-- A numeral without an exponent, and with a point in it. -/
def Numeral.positional (n : Numeral) : String :=
  let digits := toString n.digits
  if 0 ≤ n.exponent then digits ++ String.ofList (List.replicate n.exponent.toNat '0') ++ ".0"
  else
    let places := (-n.exponent).toNat
    let padded := String.ofList (List.replicate (places + 1 - digits.length) '0') ++ digits
    let whole := padded.length - places
    String.ofList (padded.toList.take whole) ++ "." ++ String.ofList (padded.toList.drop whole)

/-- The power of ten of the first digit of a numeral. -/
def Numeral.magnitude (n : Numeral) : Int := n.exponent + (toString n.digits).length - 1

/-- A numeral with one digit before the point, and an exponent, which has a sign and no leading zeros. -/
def Numeral.scientific (n : Numeral) : String :=
  let digits := (toString n.digits).toList
  let tail := digits.drop 1
  String.ofList (digits.take 1) ++ (if tail.isEmpty then "" else "." ++ String.ofList tail) ++
    (if n.magnitude < 0 then "e" else "e+") ++ toString n.magnitude

/-- The magnitudes of the numerals that are written without an exponent, with both ends included. -/
structure Style where
  lowest : Int
  highest : Int
  deriving DecidableEq, Repr

def Numeral.text (s : Style) (n : Numeral) : String :=
  if s.lowest ≤ n.magnitude ∧ n.magnitude ≤ s.highest then n.positional else n.scientific

end SeriesRegion.Decimal
