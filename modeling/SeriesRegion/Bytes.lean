/-!
# Byte strings

Little-endian numerals and hexadecimal text over lists of bytes.  A numeral of a given width read back is the number
modulo the width (`ofLittleEndian_littleEndian`), and hexadecimal text read back is what it was written from
(`Bytes.ofHexDigits?_hex`).
-/

namespace SeriesRegion

abbrev Bytes := List UInt8

/-- The `width` lowest bytes of a number, the lowest first. -/
def littleEndian : (width : Nat) → Nat → Bytes
  | 0, _ => []
  | width + 1, n => UInt8.ofNat n :: littleEndian width (n / 256)

/-- The number whose bytes are listed, the lowest first. -/
def ofLittleEndian : Bytes → Nat
  | [] => 0
  | b :: rest => b.toNat + 256 * ofLittleEndian rest

@[simp] theorem length_littleEndian (width n : Nat) : (littleEndian width n).length = width := by
  induction width generalizing n with
  | zero => rfl
  | succ width ih => simp [littleEndian, ih]

theorem ofLittleEndian_littleEndian (width n : Nat) :
    ofLittleEndian (littleEndian width n) = n % Nat.pow 256 width := by
  induction width generalizing n with
  | zero => simp [littleEndian, ofLittleEndian, Nat.mod_one]
  | succ width ih =>
    have h : Nat.pow 256 (width + 1) = 256 * Nat.pow 256 width := Nat.pow_succ'
    simp only [littleEndian, ofLittleEndian, ih, UInt8.toNat_ofNat']
    rw [h, Nat.mod_mul]

theorem littleEndian_ofLittleEndian (bs : Bytes) : littleEndian bs.length (ofLittleEndian bs) = bs := by
  induction bs with
  | nil => rfl
  | cons b bs ih =>
    simp only [List.length_cons, littleEndian, ofLittleEndian, List.cons.injEq]
    have h : (b.toNat + 256 * ofLittleEndian bs) / 256 = ofLittleEndian bs := by
      have := b.toNat_lt
      omega
    refine ⟨?_, by rw [h, ih]⟩
    apply UInt8.toNat_inj.1
    have := b.toNat_lt
    simp only [UInt8.toNat_ofNat']
    omega

def Bytes.ofText (s : String) : Bytes := s.toByteArray.data.toList

def hexDigit (n : Nat) : Char := if n < 10 then Char.ofNat (48 + n) else Char.ofNat (87 + n)

/-- Two lower-case hexadecimal digits for each byte. -/
def Bytes.hex (bs : Bytes) : String :=
  String.ofList (bs.flatMap fun b => [hexDigit (b.toNat / 16), hexDigit (b.toNat % 16)])

/-- The value of a hexadecimal digit of either case. -/
def hexValue? (c : Char) : Option Nat :=
  if '0' ≤ c ∧ c ≤ '9' then some (c.toNat - 48)
  else if 'a' ≤ c ∧ c ≤ 'f' then some (c.toNat - 87)
  else if 'A' ≤ c ∧ c ≤ 'F' then some (c.toNat - 55)
  else none

/-- The bytes that pairs of hexadecimal digits spell. -/
def Bytes.ofHexDigits? : List Char → Option Bytes
  | [] => some []
  | [_] => none
  | a :: b :: rest => do
    let high ← hexValue? a
    let low ← hexValue? b
    let bytes ← ofHexDigits? rest
    return UInt8.ofNat (16 * high + low) :: bytes

theorem hexValue?_hexDigit : ∀ d < 16, hexValue? (hexDigit d) = some d := by decide

theorem Bytes.ofHexDigits?_hex (bs : Bytes) : ofHexDigits? bs.hex.toList = some bs := by
  rw [hex, String.toList_ofList]
  induction bs with
  | nil => rfl
  | cons b bs ih =>
    have hb := b.toNat_lt
    have hvalue : 16 * (b.toNat / 16) + b.toNat % 16 = b.toNat := by omega
    simp only [List.flatMap_cons, List.cons_append, List.nil_append, ofHexDigits?, ih, Option.bind_eq_bind,
      Option.bind_some, hexValue?_hexDigit (b.toNat / 16) (by omega), hexValue?_hexDigit (b.toNat % 16) (by omega), hvalue,
      UInt8.ofNat_toNat, Option.pure_def]

/-- The bytes a hexadecimal text spells. -/
def Bytes.ofHex? (s : String) : Option Bytes := Bytes.ofHexDigits? s.toList

end SeriesRegion
