import SeriesRegion.Text.Printable

/-!
# Quoted texts

A text between double quotes, for people to read: quotes, backslashes and the common controls are escaped by a
backslash and a letter, other hidden characters by their number.
-/

namespace SeriesRegion.Text

/-- The digits of a number in base sixteen, in lower case and without leading zeros. -/
def hexNumeral (n : Nat) : String := String.ofList (Nat.toDigits 16 n)

/-- A character inside quotes. -/
def quoteChar (c : Char) : String :=
  match c with
  | '"' => "\\\""
  | '\\' => "\\\\"
  | '\n' => "\\n"
  | '\r' => "\\r"
  | '\t' => "\\t"
  | '\x00' => "\\0"
  | c =>
    if c < ' ' ∨ c = '\x7f' ∨ (128 ≤ c.toNat ∧ isHidden c) then "\\u\x7b" ++ hexNumeral c.toNat ++ "\x7d"
    else String.singleton c

/-- A text between quotes. -/
def quoted (s : String) : String := "\"" ++ String.join (s.toList.map quoteChar) ++ "\""

end SeriesRegion.Text
