import SeriesRegion.Proofs.Json.Written

/-!
# The grammar of JSON

Texts of JSON as they may be written by others: with blanks between the parts, with any spelling of a string, with members in
any order.  A string that is used spells characters (`Json.Quotes`), and it is read with these (`Json.stringTail_quotes`).  Of
one that is skipped only the shape of its escapes matters (`Json.IsBody`), so that a string that can be read can be skipped, to
the same end (`Json.skipString_of_stringTail`).
-/

namespace SeriesRegion.Json

/-- Blanks and nothing else. -/
def AreBlanks (s : List Char) : Prop := ∀ c ∈ s, isBlank c = true

/-- What stands between the quotes of a string.  An escape may give any code. -/
inductive IsBody : List Char → Prop
  | nil : IsBody []
  | plain {c : Char} {s : List Char} (quote : c ≠ '"') (slash : c ≠ '\\') (visible : ¬ c < ' ') (more : IsBody s) :
    IsBody (c :: s)
  | short {c d : Char} {s : List Char} (short : shortEscape? c = some d) (more : IsBody s) : IsBody ('\\' :: c :: s)
  | code {w x y z : Char} {n : Nat} {s : List Char} (digits : hexNumber? [w, x, y, z] = some n) (more : IsBody s) :
    IsBody ('\\' :: 'u' :: w :: x :: y :: z :: s)

/-- What stands between the quotes of a string that spells these characters.  A character that does not fit into one code is
spelled by a pair of surrogates. -/
inductive Quotes : (spelled : List Char) → List Char → Prop
  | nil : Quotes [] []
  | plain {c : Char} {cs s : List Char} (quote : c ≠ '"') (slash : c ≠ '\\') (visible : ¬ c < ' ') (more : Quotes cs s) :
    Quotes (c :: cs) (c :: s)
  | short {c d : Char} {cs s : List Char} (short : shortEscape? c = some d) (more : Quotes cs s) :
    Quotes (d :: cs) ('\\' :: c :: s)
  | code {w x y z : Char} {n : Nat} {cs s : List Char} (digits : hexNumber? [w, x, y, z] = some n)
    (scalar : n < 0xd800 ∨ 0xdfff < n) (more : Quotes cs s) :
    Quotes (Char.ofNat n :: cs) ('\\' :: 'u' :: w :: x :: y :: z :: s)
  | pair {w x y z w' x' y' z' : Char} {high low : Nat} {cs s : List Char} (digits : hexNumber? [w, x, y, z] = some high)
    (digits' : hexNumber? [w', x', y', z'] = some low) (isHigh : 0xd800 ≤ high ∧ high ≤ 0xdbff)
    (isLow : 0xdc00 ≤ low ∧ low ≤ 0xdfff) (more : Quotes cs s) :
    Quotes (Char.ofNat (0x10000 + 0x400 * (high - 0xd800) + (low - 0xdc00)) :: cs)
      ('\\' :: 'u' :: w :: x :: y :: z :: '\\' :: 'u' :: w' :: x' :: y' :: z' :: s)

/-- The digits of a whole number: a zero, or digits that do not begin with one. -/
inductive IsWhole : List Char → Prop
  | zero : IsWhole ['0']
  | digits {c : Char} {ds : List Char} (nonzero : c ≠ '0') (digits : ∀ d ∈ c :: ds, d.isDigit = true) : IsWhole (c :: ds)

inductive IsFraction : List Char → Prop
  | none : IsFraction []
  | digits {c : Char} {ds : List Char} (digits : ∀ d ∈ c :: ds, d.isDigit = true) : IsFraction ('.' :: c :: ds)

inductive IsExponent : List Char → Prop
  | none : IsExponent []
  | plain {e c : Char} {ds : List Char} (letter : e = 'e' ∨ e = 'E') (digits : ∀ d ∈ c :: ds, d.isDigit = true) :
    IsExponent (e :: c :: ds)
  | signed {e sign c : Char} {ds : List Char} (letter : e = 'e' ∨ e = 'E') (signed : sign = '+' ∨ sign = '-')
    (digits : ∀ d ∈ c :: ds, d.isDigit = true) : IsExponent (e :: sign :: c :: ds)

/-- A number without its sign. -/
inductive IsNumber : List Char → Prop
  | mk {ds f e : List Char} (whole : IsWhole ds) (fraction : IsFraction f) (exponent : IsExponent e) :
    IsNumber (ds ++ (f ++ e))

/-- What follows a value in a list, with the values in it. -/
inductive IsListTail : (values : List (List Char)) → List Char → Prop
  | close {b : List Char} (blanks : AreBlanks b) : IsListTail [] (b ++ [']'])
  | comma {b b' v s : List Char} {vs : List (List Char)} (blanks : AreBlanks b) (blanks' : AreBlanks b')
    (more : IsListTail vs s) : IsListTail (v :: vs) (b ++ ',' :: (b' ++ (v ++ s)))

inductive IsList : (values : List (List Char)) → List Char → Prop
  | empty {b : List Char} (blanks : AreBlanks b) : IsList [] ('[' :: (b ++ [']']))
  | values {b v s : List Char} {vs : List (List Char)} (blanks : AreBlanks b) (more : IsListTail vs s) :
    IsList (v :: vs) ('[' :: (b ++ (v ++ s)))

section Objects

variable {κ : Type} (key : κ → List Char → Prop)

/-- A member of an object with its key and its value; `key` says what may stand between the quotes of the key. -/
inductive IsMember : κ × List Char → List Char → Prop
  | mk {k : κ} {s b b' b'' v : List Char} (blanks : AreBlanks b) (spelled : key k s) (blanks' : AreBlanks b')
    (blanks'' : AreBlanks b'') : IsMember (k, v) (b ++ '"' :: (s ++ '"' :: (b' ++ ':' :: (b'' ++ v))))

/-- What follows a member in an object, with the members in it. -/
inductive IsObjectTail : (members : List (κ × List Char)) → List Char → Prop
  | close {b : List Char} (blanks : AreBlanks b) : IsObjectTail [] (b ++ ['}'])
  | comma {b t s : List Char} {m : κ × List Char} {ms : List (κ × List Char)} (blanks : AreBlanks b)
    (member : IsMember key m t) (more : IsObjectTail ms s) : IsObjectTail (m :: ms) (b ++ ',' :: (t ++ s))

inductive IsObject : (members : List (κ × List Char)) → List Char → Prop
  | empty {b : List Char} (blanks : AreBlanks b) : IsObject [] ('{' :: (b ++ ['}']))
  | members {t s : List Char} {m : κ × List Char} {ms : List (κ × List Char)} (member : IsMember key m t)
    (more : IsObjectTail key ms s) : IsObject (m :: ms) ('{' :: (t ++ s))

end Objects

/-- A value that is well formed, of whatever depth. -/
inductive IsValue : List Char → Prop
  | null : IsValue ['n', 'u', 'l', 'l']
  | yes : IsValue ['t', 'r', 'u', 'e']
  | no : IsValue ['f', 'a', 'l', 's', 'e']
  | string {s : List Char} (body : IsBody s) : IsValue ('"' :: (s ++ ['"']))
  | number {s : List Char} (number : IsNumber s) : IsValue s
  | negative {s : List Char} (number : IsNumber s) : IsValue ('-' :: s)
  | list {vs : List (List Char)} {s : List Char} (list : IsList vs s) (values : ∀ v ∈ vs, IsValue v) : IsValue s
  | object {ms : List (Unit × List Char)} {s : List Char} (object : IsObject (fun _ => IsBody) ms s)
    (values : ∀ m ∈ ms, IsValue m.2) : IsValue s

variable {cs s s' v rest : List Char} {c d w x y z : Char} {n : Nat}

theorem areBlanks_nil : AreBlanks [] := List.forall_mem_nil _

theorem isMember_unspaced {κ : Type} {key : κ → List Char → Prop} {k : κ} (spelled : key k s) (v : List Char) :
    IsMember key (k, v) ('"' :: (s ++ '"' :: ':' :: v)) :=
  .mk areBlanks_nil spelled areBlanks_nil areBlanks_nil

/-! ### Strings -/

/-- Characters that need no escape spell themselves. -/
theorem quotes_self (h : (s.all fun c => c ≠ '"' ∧ c ≠ '\\' ∧ ¬ c < ' ') = true) : Quotes s s := by
  induction s with
  | nil => exact .nil
  | cons c s ih =>
    rw [List.all_cons, Bool.and_eq_true, decide_eq_true_eq] at h
    obtain ⟨⟨quote, slash, visible⟩, hs⟩ := h
    exact .plain quote slash visible (ih hs)

theorem fourDigits_of_hexNumber? (h : hexNumber? [w, x, y, z] = some n) (rest : List Char) :
    fourDigits (w :: x :: y :: z :: rest) = .ok (n, rest) := by
  have hlong : ¬ byteCount (w :: x :: y :: z :: rest) < 4 := by
    have hsize := fun c : Char => c.utf8Size_pos
    have := hsize w
    have := hsize x
    have := hsize y
    have := hsize z
    simp only [byteCount_cons]
    omega
  rw [fourDigits, if_neg hlong]
  simp only [h]

theorem ne_u_of_shortEscape? (h : shortEscape? c = some d) : c ≠ 'u' := by
  rintro rfl
  cases h

/-- A string that spells characters is read with these. -/
theorem stringTail_quotes (h : Quotes cs s) (rest : List Char) : stringTail (s ++ '"' :: rest) = .ok (cs, rest) := by
  induction h with
  | nil => rw [List.nil_append, stringTail, if_pos rfl]
  | plain quote slash visible more ih =>
    rw [List.cons_append, stringTail_plain quote slash visible, ih]
    rfl
  | @short c d cs s short more ih =>
    have hescape : escape (c :: (s ++ '"' :: rest)) = .ok (d, s ++ '"' :: rest) := by
      rw [escape, if_neg (ne_u_of_shortEscape? short), short]
    rw [List.cons_append, List.cons_append, stringTail_escape hescape, ih]
    rfl
  | @code w x y z n cs s digits scalar more ih =>
    have hescape : escape ('u' :: w :: x :: y :: z :: (s ++ '"' :: rest)) = .ok (Char.ofNat n, s ++ '"' :: rest) := by
      rw [escape, if_pos rfl, fourDigits_of_hexNumber? digits]
      simp only
      rw [if_neg (by omega), if_neg (by omega)]
    simp only [List.cons_append]
    rw [stringTail_escape hescape, ih]
    rfl
  | @pair w x y z w' x' y' z' high low cs s digits digits' isHigh isLow more ih =>
    have hlow : lowSurrogate high ('\\' :: 'u' :: w' :: x' :: y' :: z' :: (s ++ '"' :: rest)) =
        .ok (Char.ofNat (0x10000 + 0x400 * (high - 0xd800) + (low - 0xdc00)), s ++ '"' :: rest) := by
      rw [lowSurrogate, fourDigits_of_hexNumber? digits']
      simp only
      rw [if_pos isLow]
    have hescape : escape ('u' :: w :: x :: y :: z :: '\\' :: 'u' :: w' :: x' :: y' :: z' :: (s ++ '"' :: rest)) =
        .ok (Char.ofNat (0x10000 + 0x400 * (high - 0xd800) + (low - 0xdc00)), s ++ '"' :: rest) := by
      rw [escape, if_pos rfl, fourDigits_of_hexNumber? digits]
      simp only
      rw [if_neg (by omega), if_pos isHigh, hlow]
    simp only [List.cons_append]
    rw [stringTail_escape hescape, ih]
    rfl

/-- What spells characters can stand between quotes. -/
theorem Quotes.isBody (h : Quotes cs s) : IsBody s := by
  induction h with
  | nil => exact .nil
  | plain quote slash visible more ih => exact .plain quote slash visible ih
  | short short more ih => exact .short short ih
  | code digits scalar more ih => exact .code digits ih
  | pair digits digits' isHigh isLow more ih => exact .code digits (.code digits' ih)

theorem skipString_escape (h : skipEscape s = .ok s') : skipString ('\\' :: s) = skipString s' := by
  rw [skipString, if_neg (by decide), if_pos rfl]
  split
  · rename_i h'
    rw [h] at h'
    cases h'
  · rename_i h'
    rw [h] at h'
    cases h'
    rfl

theorem skipString_plain (quote : c ≠ '"') (slash : c ≠ '\\') (visible : ¬ c < ' ') :
    skipString (c :: s) = skipString s := by
  rw [skipString, if_neg quote, if_neg slash, if_neg visible]

theorem skipEscape_code (h : hexNumber? [w, x, y, z] = some n) (s : List Char) :
    skipEscape ('u' :: w :: x :: y :: z :: s) = .ok s := by
  rw [skipEscape, if_pos rfl, fourDigits_of_hexNumber? h]

theorem skipEscape_short (h : shortEscape? c = some d) (s : List Char) : skipEscape (c :: s) = .ok s := by
  rw [skipEscape, if_neg (ne_u_of_shortEscape? h), h]

theorem skipString_body (h : IsBody s) (rest : List Char) : skipString (s ++ '"' :: rest) = .ok rest := by
  induction h with
  | nil => rw [List.nil_append, skipString, if_pos rfl]
  | plain quote slash visible more ih => rw [List.cons_append, skipString_plain quote slash visible, ih]
  | short short more ih => rw [List.cons_append, List.cons_append, skipString_escape (skipEscape_short short _), ih]
  | code digits more ih =>
    simp only [List.cons_append]
    rw [skipString_escape (skipEscape_code digits _), ih]

theorem skipEscape_of_fourDigits (h : fourDigits s = .ok (n, rest)) : skipEscape ('u' :: s) = .ok rest := by
  rw [skipEscape, if_pos rfl, h]

/-- The second half of a pair of surrogates is an escape. -/
theorem skipString_of_lowSurrogate (h : lowSurrogate n s = .ok (c, rest)) : skipString s = skipString rest := by
  unfold lowSurrogate at h
  split at h
  · cases h
  · cases h
  · split at h
    · cases h
    · rename_i hdigits
      split at h
      · simp only [Except.ok.injEq, Prod.mk.injEq] at h
        obtain ⟨-, rfl⟩ := h
        exact skipString_escape (skipEscape_of_fourDigits hdigits)
      · cases h
  · cases h
  · cases h

theorem skipString_of_escape (h : escape s = .ok (c, rest)) : skipString ('\\' :: s) = skipString rest := by
  unfold escape at h
  split at h
  · cases h
  · split at h
    · rename_i hu
      subst hu
      split at h
      · cases h
      · rename_i hdigits
        rw [skipString_escape (skipEscape_of_fourDigits hdigits)]
        split at h
        · cases h
        · split at h
          · exact skipString_of_lowSurrogate h
          · cases h
            rfl
    · split at h
      · rename_i hshort
        cases h
        exact skipString_escape (skipEscape_short hshort _)
      · cases h

/-- A string that can be read can be skipped, to the same end. -/
theorem skipString_of_stringTail (h : stringTail s = .ok (cs, rest)) : skipString s = .ok rest := by
  induction s using stringTail.induct generalizing cs with
  | case1 =>
    rw [stringTail] at h
    cases h
  | case2 =>
    rw [stringTail, if_pos rfl] at h
    cases h
    rw [skipString, if_pos rfl]
  | case3 s e hescape =>
    rw [stringTail, if_neg (by decide), if_pos rfl] at h
    split at h
    · cases h
    · rename_i hescaped
      rw [hescape] at hescaped
      cases hescaped
  | case4 s d s' hescape _ e htail =>
    rw [stringTail_escape hescape, htail] at h
    cases h
  | case5 s d s' hescape _ cs' s'' htail _ ih =>
    rw [stringTail_escape hescape, htail] at h
    cases h
    rw [skipString_of_escape hescape]
    exact ih htail
  | case6 c s quote slash control =>
    rw [stringTail, if_neg quote, if_neg slash, if_pos control] at h
    cases h
  | case7 c s quote slash visible e htail =>
    rw [stringTail_plain quote slash visible, htail] at h
    cases h
  | case8 c s quote slash visible cs' s' htail ih =>
    rw [stringTail_plain quote slash visible, htail] at h
    cases h
    rw [skipString_plain quote slash visible]
    exact ih htail

end SeriesRegion.Json
