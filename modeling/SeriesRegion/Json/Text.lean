import SeriesRegion.Bytes
import SeriesRegion.Json.Fault

/-!
# Strings and words of JSON

Readers for blanks, for the words `null`, `true` and `false`, and for strings.  A string that is used must spell
characters; of one that is skipped only the shape of its escapes is checked.
-/

namespace SeriesRegion.Json

def isBlank (c : Char) : Bool := c = ' ' || c = '\n' || c = '\t' || c = '\r'

def skipBlanks : List Char → List Char
  | [] => []
  | c :: rest => if isBlank c then skipBlanks rest else c :: rest

def word : (letters : List Char) → List Char → Except Fault (List Char)
  | [], s => .ok s
  | _ :: _, [] => .error (.before .endInValue [])
  | l :: ls, c :: rest => if c = l then word ls rest else .error (.upon .expectedIdent (c :: rest))

/-- The number that hexadecimal digits spell. -/
def hexNumber? (digits : List Char) : Option Nat :=
  digits.foldl (fun n c => do return 16 * (← n) + (← hexValue? c)) (some 0)

/-- Reads the four digits of an escape.  If fewer than four bytes are left the text ends too early. -/
def fourDigits (s : List Char) : Except Fault (Nat × List Char) :=
  if byteCount s < 4 then .error (.before .endInString [])
  else
    match s with
    | a :: b :: c :: d :: rest =>
      match hexNumber? [a, b, c, d] with
      | some n => .ok (n, rest)
      | none => .error ⟨.invalidEscape, byteCount s - 4⟩
    | _ => .error ⟨.invalidEscape, byteCount s - 4⟩

theorem fourDigits_length {s r : List Char} {n : Nat} (h : fourDigits s = .ok (n, r)) : r.length < s.length := by
  unfold fourDigits at h
  split at h
  · cases h
  · split at h
    · split at h
      · cases h
        simp only [List.length_cons]
        omega
      · cases h
    · cases h

/-- The character of a one-letter escape. -/
def shortEscape? : Char → Option Char
  | '"' => some '"'
  | '\\' => some '\\'
  | '/' => some '/'
  | 'b' => some '\x08'
  | 'f' => some '\x0c'
  | 'n' => some '\n'
  | 'r' => some '\r'
  | 't' => some '\t'
  | _ => none

/-- Reads the second half of a pair of surrogates, and gives the character of the pair. -/
def lowSurrogate (high : Nat) : List Char → Except Fault (Char × List Char)
  | [] => .error (.before .endInString [])
  | '\\' :: [] => .error (.before .endInString [])
  | '\\' :: 'u' :: rest =>
    match fourDigits rest with
    | .error e => .error e
    | .ok (low, rest) =>
      if 0xdc00 ≤ low ∧ low ≤ 0xdfff then
        .ok (Char.ofNat (0x10000 + 0x400 * (high - 0xd800) + (low - 0xdc00)), rest)
      else .error (.before .loneSurrogate rest)
  | '\\' :: c :: rest => .error (.upon .unexpectedEndOfEscape (c :: rest))
  | c :: rest => .error (.upon .unexpectedEndOfEscape (c :: rest))

theorem lowSurrogate_length {high : Nat} {s r : List Char} {c : Char} (h : lowSurrogate high s = .ok (c, r)) :
    r.length < s.length := by
  unfold lowSurrogate at h
  split at h
  · cases h
  · cases h
  · split at h
    · cases h
    · rename_i low rest' hd
      have := fourDigits_length hd
      split at h
      · simp only [Except.ok.injEq, Prod.mk.injEq] at h
        obtain ⟨-, rfl⟩ := h
        simp only [List.length_cons]
        omega
      · cases h
  · cases h
  · cases h

/-- Reads an escape after its backslash. -/
def escape : List Char → Except Fault (Char × List Char)
  | [] => .error (.before .endInString [])
  | c :: rest =>
    if c = 'u' then
      match fourDigits rest with
      | .error e => .error e
      | .ok (n, rest) =>
        if 0xdc00 ≤ n ∧ n ≤ 0xdfff then .error (.before .loneSurrogate rest)
        else if 0xd800 ≤ n ∧ n ≤ 0xdbff then lowSurrogate n rest
        else .ok (Char.ofNat n, rest)
    else
      match shortEscape? c with
      | some d => .ok (d, rest)
      | none => .error (.upon .invalidEscape (c :: rest))

theorem escape_length {s r : List Char} {c : Char} (h : escape s = .ok (c, r)) : r.length < s.length := by
  cases s with
  | nil => cases h
  | cons d s =>
    simp only [escape] at h
    split at h
    · split at h
      · cases h
      · rename_i n rest hd
        have := fourDigits_length hd
        split at h
        · cases h
        · split at h
          · have := lowSurrogate_length h
            simp only [List.length_cons]
            omega
          · cases h
            simp only [List.length_cons]
            omega
    · split at h
      · cases h
        simp
      · cases h

/-- Reads a string after its opening quote, up to and with the closing one. -/
def stringTail (s : List Char) : Except Fault (List Char × List Char) :=
  match s with
  | [] => .error (.before .endInString [])
  | c :: rest =>
    if c = '"' then .ok ([], rest)
    else if c = '\\' then
      match h : escape rest with
      | .error e => .error e
      | .ok (d, rest') =>
        have := escape_length h
        match stringTail rest' with
        | .error e => .error e
        | .ok (cs, rest'') => .ok (d :: cs, rest'')
    else if c < ' ' then .error (.before .controlCharacter rest)
    else
      match stringTail rest with
      | .error e => .error e
      | .ok (cs, rest') => .ok (c :: cs, rest')
  termination_by s.length
  decreasing_by all_goals simp only [List.length_cons]; omega

/-- Skips an escape after its backslash. -/
def skipEscape : List Char → Except Fault (List Char)
  | [] => .error (.before .endInString [])
  | c :: rest =>
    if c = 'u' then
      match fourDigits rest with
      | .error e => .error e
      | .ok (_, rest) => .ok rest
    else
      match shortEscape? c with
      | some _ => .ok rest
      | none => .error (.upon .invalidEscape (c :: rest))

theorem skipEscape_length {s r : List Char} (h : skipEscape s = .ok r) : r.length < s.length := by
  cases s with
  | nil => cases h
  | cons d s =>
    simp only [skipEscape] at h
    split at h
    · split at h
      · cases h
      · rename_i n rest hd
        have := fourDigits_length hd
        cases h
        simp only [List.length_cons]
        omega
    · split at h
      · cases h
        simp
      · cases h

/-- Skips a string after its opening quote. -/
def skipString (s : List Char) : Except Fault (List Char) :=
  match s with
  | [] => .error (.before .endInString [])
  | c :: rest =>
    if c = '"' then .ok rest
    else if c = '\\' then
      match h : skipEscape rest with
      | .error e => .error e
      | .ok rest' =>
        have := skipEscape_length h
        skipString rest'
    else if c < ' ' then .error (.before .controlCharacter (c :: rest))
    else skipString rest
  termination_by s.length
  decreasing_by all_goals simp only [List.length_cons]; omega

end SeriesRegion.Json
