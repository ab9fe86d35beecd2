import SeriesRegion.Json.Printer
import SeriesRegion.Json.Record

/-!
# JSON that is written is read

A string is read as it was written, whatever its characters (`Json.stringTail_string`), and so is a natural number
(`Json.number_toDigits`).  A reader that reads a value from a text does so after any blanks, and leaves what follows
(`Json.Spells`).  A record is read from its members, if each is written so that the reader of its field reads its value
(`Json.Record.read_block`).
-/

namespace SeriesRegion

namespace Json

variable {α β : Type} {s rest blanks text : List Char} {c : Char} {a b : α} {n : Nat}

/-! ### Strings -/

theorem stringTail_escape {s' : List Char} (h : escape s = .ok (c, s')) :
    stringTail ('\\' :: s) = (stringTail s').map fun p => (c :: p.1, p.2) := by
  rw [stringTail, if_neg (by decide), if_pos rfl]
  split
  · rename_i h'
    rw [h] at h'
    cases h'
  · rename_i h'
    rw [h] at h'
    cases h'
    cases stringTail s' <;> rfl

theorem stringTail_plain (quote : c ≠ '"') (slash : c ≠ '\\') (visible : ¬ c < ' ') :
    stringTail (c :: s) = (stringTail s).map fun p => (c :: p.1, p.2) := by
  rw [stringTail, if_neg quote, if_neg slash, if_neg visible]
  cases stringTail s <;> rfl

theorem byteCount_cons (c : Char) (s : List Char) : byteCount (c :: s) = c.utf8Size + byteCount s := rfl

/-- A control character is written by its number. -/
theorem escape_control (h : n < 32) (s : List Char) :
    escape ('u' :: '0' :: '0' :: hexDigit (n / 16) :: hexDigit (n % 16) :: s) = .ok (Char.ofNat n, s) := by
  have hhigh := hexValue?_hexDigit (n / 16) (by omega)
  have hlow := hexValue?_hexDigit (n % 16) (by omega)
  have hnumber : hexNumber? ['0', '0', hexDigit (n / 16), hexDigit (n % 16)] = some n := by
    have hzero : hexValue? '0' = some 0 := by decide
    simp only [hexNumber?, List.foldl_cons, List.foldl_nil, hzero, hhigh, hlow, Option.bind_eq_bind, Option.bind_some,
      Option.pure_def, Option.some.injEq]
    omega
  have hlong : ¬ byteCount ('0' :: '0' :: hexDigit (n / 16) :: hexDigit (n % 16) :: s) < 4 := by
    have hsize := fun c : Char => c.utf8Size_pos
    have h₁ := hsize '0'
    have h₂ := hsize (hexDigit (n / 16))
    have h₃ := hsize (hexDigit (n % 16))
    simp only [byteCount_cons]
    omega
  have hdigits : fourDigits ('0' :: '0' :: hexDigit (n / 16) :: hexDigit (n % 16) :: s) = .ok (n, s) := by
    rw [fourDigits, if_neg hlong]
    simp only [hnumber]
  rw [escape, if_pos rfl, hdigits]
  simp only
  rw [if_neg (by omega), if_neg (by omega)]

/-- Each character of a string is read as it was written. -/
theorem stringTail_stringChar (c : Char) (s : List Char) :
    stringTail ((stringChar c).toList ++ s) = (stringTail s).map fun p => (c :: p.1, p.2) := by
  unfold stringChar
  split
  · exact stringTail_escape rfl
  · exact stringTail_escape rfl
  · exact stringTail_escape rfl
  · exact stringTail_escape rfl
  · exact stringTail_escape rfl
  · exact stringTail_escape rfl
  · exact stringTail_escape rfl
  · rename_i hquote hslash _ _ _ _ _
    split
    · rename_i hcontrol
      have hn : c.toNat < 32 := hcontrol
      have hbyte : (UInt8.ofNat c.toNat).toNat = c.toNat := UInt8.toNat_ofNat_of_lt (Nat.lt_trans hn (by decide))
      have hescape := escape_control hn s
      rw [Char.ofNat_toNat] at hescape
      rw [← stringTail_escape hescape]
      simp only [String.toList_append, Bytes.hex, String.toList_ofList, List.flatMap_cons, List.flatMap_nil, hbyte]
      rfl
    · rename_i hvisible
      rw [String.toList_singleton]
      exact stringTail_plain hquote hslash hvisible

theorem toList_string (s : String) :
    (string s).toList = '"' :: (s.toList.flatMap (fun c => (stringChar c).toList) ++ ['"']) := by
  simp only [string, String.toList_append, String.toList_join, List.flatMap_map]
  rfl

/-- A string is read as it was written. -/
theorem stringTail_string (cs rest : List Char) :
    stringTail (cs.flatMap (fun c => (stringChar c).toList) ++ '"' :: rest) = .ok (cs, rest) := by
  induction cs with
  | nil => rw [List.flatMap_nil, List.nil_append, stringTail, if_pos rfl]
  | cons c cs ih =>
    rw [List.flatMap_cons, List.append_assoc, stringTail_stringChar, ih]
    rfl

/-! ### Numbers -/

/-- What may follow a number: nothing that it could go on with. -/
def Ends (rest : List Char) : Prop :=
  ∀ c tail, rest = c :: tail → c.isDigit = false ∧ c ≠ '.' ∧ c ≠ 'e' ∧ c ≠ 'E'

theorem digits_append {ds : List Char} (h : ∀ c ∈ ds, c.isDigit = true)
    (ends : ∀ c tail, rest = c :: tail → c.isDigit = false) : digits (ds ++ rest) = (ds, rest) := by
  induction ds with
  | nil =>
    cases rest with
    | nil => rfl
    | cons c tail => rw [List.nil_append, digits, if_neg (by simp [ends c tail rfl])]
  | cons c ds ih =>
    rw [List.cons_append, digits, if_pos (h c List.mem_cons_self), ih fun d hd => h d (List.mem_cons_of_mem _ hd)]
    rfl

theorem le_ofDigitChars (ds : List Char) (n : Nat) : n ≤ Nat.ofDigitChars 10 ds n := by
  induction ds generalizing n with
  | nil => exact Nat.le_refl n
  | cons c ds ih =>
    rw [Nat.ofDigitChars_cons]
    exact Nat.le_trans (by omega) (ih _)

theorem appendDigits_eq {limit : Nat} (ds : List Char) (h : Nat.ofDigitChars 10 ds n ≤ limit) :
    appendDigits limit n ds = (Nat.ofDigitChars 10 ds n, []) := by
  induction ds generalizing n with
  | nil => rfl
  | cons c ds ih =>
    rw [Nat.ofDigitChars_cons] at h ⊢
    have hle := Nat.le_trans (le_ofDigitChars ds _) h
    rw [appendDigits]
    exact (if_pos hle).trans (ih h)

theorem isDigit_toDigits (n : Nat) : ∀ c ∈ Nat.toDigits 10 n, c.isDigit = true :=
  fun _ => Nat.isDigit_of_mem_toDigits (by decide) (by decide)

/-- The digits of a number other than zero do not begin with a zero. -/
theorem toDigits_eq_cons (h : n ≠ 0) : ∃ c ds, Nat.toDigits 10 n = c :: ds ∧ c ≠ '0' := by
  induction n using Nat.strongRecOn with
  | _ n ih =>
    rw [Nat.toDigits_eq_if (by decide)]
    split
    · rename_i hlt
      have hchars : ∀ d < 10, d ≠ 0 → d.digitChar ≠ '0' := by decide
      exact ⟨_, [], rfl, hchars n hlt h⟩
    · rename_i hge
      obtain ⟨c, ds, hds, hne⟩ := ih (n / 10) (by omega) (by omega)
      exact ⟨c, ds ++ _, by rw [hds, List.cons_append], hne⟩

/-- A natural number that fits in a word is read by its digits. -/
theorem number_toDigits (h : n ≤ maxWord) (ends : Ends rest) :
    number false (Nat.toDigits 10 n ++ rest) = .ok (.natural n, rest) := by
  by_cases hn : n = 0
  · subst hn
    cases rest with
    | nil => rfl
    | cons c tail =>
      obtain ⟨hdigit, hpoint, he, hE⟩ := ends c tail rfl
      rw [Nat.toDigits_zero, List.cons_append, List.nil_append, number, if_pos rfl]
      simp [hdigit, hpoint, he, hE]
  · obtain ⟨c, ds, hds, hzero⟩ := toDigits_eq_cons hn
    have hdigits := isDigit_toDigits n
    have hvalue : Nat.ofDigitChars 10 (c :: ds) 0 = n := by rw [← hds, Nat.ofDigitChars_ten_toDigits]
    rw [hds] at hdigits ⊢
    have hall : digits (c :: (ds ++ rest)) = (c :: ds, rest) := digits_append hdigits fun d tail h => (ends d tail h).1
    have hsignificand : significand 0 (c :: ds) = (n, []) := by
      rw [significand, appendDigits_eq _ (by rw [hvalue]; exact h), hvalue]
    rw [List.cons_append]
    simp only [number, if_neg hzero, if_pos (hdigits c List.mem_cons_self), hall, hsignificand]
    split
    · exact absurd rfl (ends _ _ rfl).2.1
    · exact absurd rfl (ends _ _ rfl).2.2.1
    · exact absurd rfl (ends _ _ rfl).2.2.2
    · rfl

/-! ### Values after blanks -/

/-- A value is read from a text after any blanks, and what follows is left, unless a number could go on with it. -/
def Spells (r : Reader α) (text : List Char) (a : α) : Prop :=
  ∀ blanks rest, (∀ c ∈ blanks, isBlank c = true) → Ends rest → r (blanks ++ (text ++ rest)) = .ok (a, rest)

theorem skipBlanks_append (h : ∀ c ∈ blanks, isBlank c = true) (s : List Char) :
    skipBlanks (blanks ++ s) = skipBlanks s := by
  induction blanks with
  | nil => rfl
  | cons c blanks ih =>
    rw [List.cons_append, skipBlanks, if_pos (h c List.mem_cons_self), ih fun d hd => h d (List.mem_cons_of_mem _ hd)]

theorem skipBlanks_cons (h : isBlank c = false) (s : List Char) : skipBlanks (c :: s) = c :: s := by
  rw [skipBlanks, h]
  rfl

theorem isBlank_of_isDigit (h : c.isDigit = true) : isBlank c = false := by
  cases hblank : isBlank c with
  | false => rfl
  | true =>
    simp only [isBlank, Bool.or_eq_true, decide_eq_true_eq] at hblank
    obtain ((rfl | rfl) | rfl) | rfl := hblank <;> cases h

/-- A number is written with its digits, of which there is one at least. -/
theorem toList_toString (n : Nat) : ∃ c ds, Nat.toDigits 10 n = c :: ds ∧ (toString n).toList = c :: ds ∧ c.isDigit = true := by
  have htext : (toString n).toList = Nat.toDigits 10 n := Nat.toList_repr
  obtain ⟨c, ds, hds⟩ := List.exists_cons_of_ne_nil (Nat.toDigits_ne_nil (n := n) (b := 10))
  exact ⟨c, ds, hds, htext.trans hds, isDigit_toDigits n c (by rw [hds]; exact List.mem_cons_self)⟩

theorem readNat_spells {limit : Nat} (h : n ≤ limit) (word : n ≤ maxWord) (expected : String) :
    Spells (readNat limit expected) (toString n).toList n := by
  intro blanks rest hblanks ends
  obtain ⟨c, ds, hds, htext, hdigit⟩ := toList_toString n
  have hminus : c ≠ '-' := by
    rintro rfl
    cases hdigit
  have hnumber : number false (c :: (ds ++ rest)) = .ok (.natural n, rest) := by
    rw [← List.cons_append, ← hds]
    exact number_toDigits word ends
  rw [readNat, skipBlanks_append hblanks, htext, List.cons_append, skipBlanks_cons (isBlank_of_isDigit hdigit)]
  simp only [if_neg hminus, if_pos hdigit, hnumber, Except.bind, if_pos h]

theorem readString_spells {use : String → Except String α} {s : String} (h : use s = .ok a) (expected : String) :
    Spells (readString expected use) (string s).toList a := by
  intro blanks rest hblanks _
  have hquote : isBlank '"' = false := by decide
  rw [readString, skipBlanks_append hblanks, toList_string, List.cons_append, skipBlanks_cons hquote]
  simp only [List.append_assoc, List.singleton_append, stringTail_string, String.ofList_toList, h, if_true]

theorem readOptional_spells_none (r : Reader α) : Spells (readOptional r) "null".toList none := by
  intro blanks rest hblanks _
  rw [readOptional, skipBlanks_append hblanks]
  rfl

theorem readOptional_spells_some {r : Reader α} (h : Spells r (c :: text) a) (visible : isBlank c = false)
    (other : c ≠ 'n') : Spells (readOptional r) (c :: text) (some a) := by
  intro blanks rest hblanks ends
  have hread := h [] rest (List.forall_mem_nil _) ends
  rw [readOptional, skipBlanks_append hblanks, List.cons_append, skipBlanks_cons visible]
  rw [List.nil_append, List.cons_append] at hread
  simp only [if_neg other, hread, Except.map]

theorem Spells.store {r : Reader β} {b : β} (h : Spells r text b) (name : String) (required : Bool) (store : α → β → α)
    (a : α) : Spells ((Field.of name required r store).update a) text (store a b) := by
  intro blanks rest hblanks ends
  show (r (blanks ++ (text ++ rest))).map _ = _
  rw [h blanks rest hblanks ends]
  rfl

namespace Record

variable {r : Record α} {fuel : Nat} {first : Bool} {seen : List String} {s₁ s₂ s₃ s₄ key : List Char} {f : Field α}

/-- A member of a field that has not been given yet is read with its value. -/
theorem members_known (fuel : Nat) (next : nextKey first s = .ok (some s₁)) (name : stringTail s₁ = .ok (key, s₂))
    (known : r.fields.find? (·.name = String.ofList key) = some f) (unseen : String.ofList key ∉ seen)
    (colon : colon s₂ = .ok s₃) (value : f.update a s₃ = .ok (b, s₄)) :
    r.members (fuel + 1) first seen a s = r.members fuel false (String.ofList key :: seen) b s₄ := by
  rw [members, next]
  simp only [name, known, List.contains_iff_mem, unseen, if_false, colon, value]

/-- An object ends when all required fields have been given. -/
theorem members_end (next : nextKey first s = .ok none) (given : ∀ f ∈ r.fields, f.required = true → f.name ∈ seen) :
    r.members (fuel + 1) first seen a s = .ok (a, afterRefusal s) := by
  have hmissing : r.missing? seen = none := by
    rw [missing?, Option.map_eq_none_iff, List.find?_eq_none]
    intro f hf
    cases hrequired : f.required with
    | false => simp
    | true => simp [given f hf hrequired]
  rw [members, next]
  simp only [hmissing]

/-- The members of an object take a record to another, one field after the other. -/
def Fills (r : Record α) : List (String × String) → α → α → Prop
  | [], a, b => a = b
  | (name, text) :: ms, a, b =>
    ∃ f c, r.fields.find? (·.name = name) = some f ∧ Spells (f.update a) text.toList c ∧ Fills r ms c b

/-- A member of a field takes a record on if the reader of the field reads its value. -/
theorem Fills.cons {name value : String} {required : Bool} {reader : Reader β} {store : α → β → α} {v : β}
    {ms : List (String × String)} (known : r.fields.find? (·.name = name) = some (.of name required reader store))
    (spells : Spells reader value.toList v) (rest : Fills r ms (store a v) b) : Fills r ((name, value) :: ms) a b :=
  ⟨_, _, known, spells.store name required store a, rest⟩

/-- A member as it is written on a line of its own. -/
private def line (m : String × String) : List Char :=
  ' ' :: ' ' :: ((string m.1).toList ++ ':' :: ' ' :: m.2.toList)

/-- What is written after a member: the others, and the end of the object. -/
private def linesAfter (ms : List (String × String)) : List Char :=
  ms.flatMap (fun m => ',' :: '\n' :: line m) ++ ['\n', '}']

private theorem toList_block (m : String × String) (ms : List (String × String)) :
    (block (m :: ms)).toList = '{' :: '\n' :: (line m ++ linesAfter ms) := by
  have hintercalate : ∀ (l : List Char) (ls : List (List Char)),
      ",\n".toList.intercalate (l :: ls) = l ++ ls.flatMap (fun l => ',' :: '\n' :: l) := by
    intro l ls
    induction ls generalizing l with
    | nil => simp
    | cons l' ls ih =>
      rw [List.intercalate_cons_cons, ih]
      simp
  have hline : ∀ m : String × String, ("  " ++ string m.1 ++ ": " ++ m.2).toList = line m := by
    intro m
    simp [line]
  simp only [block, String.toList_append, String.toList_intercalate, List.map_map, List.map_cons, hintercalate,
    Function.comp_def, linesAfter, List.flatMap_map, hline, List.append_assoc]
  rfl

/-- What stands after the value of a member is not part of it. -/
private theorem ends_linesAfter (ms : List (String × String)) (rest : List Char) : Ends (linesAfter ms ++ rest) := by
  cases ms with
  | nil =>
    rintro c tail h
    cases h
    decide
  | cons m ms =>
    rintro c tail h
    cases h
    decide

/-- What stands on the line of a member after the quote of its name. -/
private def afterQuote (m : String × String) (rest : List Char) : List Char :=
  m.1.toList.flatMap (fun c => (stringChar c).toList) ++ '"' :: ':' :: ' ' :: (m.2.toList ++ rest)

private theorem line_append (m : String × String) (rest : List Char) : line m ++ rest = ' ' :: ' ' :: '"' :: afterQuote m rest := by
  simp [line, afterQuote, toList_string]

private theorem members_line {m : String × String} {rest : List Char} (next : nextKey first s = .ok (some (afterQuote m rest)))
    (known : r.fields.find? (·.name = m.1) = some f) (spells : Spells (f.update a) m.2.toList b) (unseen : m.1 ∉ seen)
    (ends : Ends rest) : r.members (fuel + 1) first seen a s = r.members fuel false (m.1 :: seen) b rest := by
  have hblank : ∀ c ∈ [' '], isBlank c = true := by
    intro c hc
    obtain rfl := List.mem_singleton.1 hc
    rfl
  have hmember := members_known fuel next (stringTail_string m.1.toList (':' :: ' ' :: (m.2.toList ++ rest)))
    (by rwa [String.ofList_toList]) (by rwa [String.ofList_toList]) rfl (spells [' '] rest hblank ends)
  rwa [String.ofList_toList] at hmember

/-- The members are read one after the other, and then the end of the object. -/
private theorem members_linesAfter {ms : List (String × String)} (fills : Fills r ms a b) (enough : ms.length < fuel)
    (nodup : (ms.map (·.1)).Nodup) (unseen : ∀ m ∈ ms, m.1 ∉ seen)
    (given : ∀ f ∈ r.fields, f.required = true → f.name ∈ seen ∨ f.name ∈ ms.map (·.1)) (rest : List Char) :
    r.members fuel false seen a (linesAfter ms ++ rest) = .ok (b, rest) := by
  induction ms generalizing fuel seen a with
  | nil =>
    obtain ⟨fuel, rfl⟩ := Nat.exists_eq_add_one_of_ne_zero (Nat.ne_zero_of_lt enough)
    cases fills
    rw [members_end rfl fun f hf hrequired => (given f hf hrequired).resolve_right List.not_mem_nil]
    rfl
  | cons m ms ih =>
    obtain ⟨fuel, rfl⟩ := Nat.exists_eq_add_one_of_ne_zero (Nat.ne_zero_of_lt enough)
    obtain ⟨f, c, hfind, hspells, hfills⟩ := fills
    obtain ⟨hname, hnodup⟩ := List.nodup_cons.1 nodup
    have hnext : nextKey false (linesAfter (m :: ms) ++ rest) = .ok (some (afterQuote m (linesAfter ms ++ rest))) := by
      have hlines : linesAfter (m :: ms) ++ rest = ',' :: '\n' :: (line m ++ (linesAfter ms ++ rest)) := by
        simp [linesAfter]
      rw [hlines, line_append]
      rfl
    rw [members_line hnext hfind hspells (unseen m List.mem_cons_self) (ends_linesAfter ms rest)]
    refine ih hfills (Nat.lt_of_succ_lt_succ enough) hnodup (fun m' hm' hseen => ?_) fun f' hf' hrequired => ?_
    · obtain hsame | hseen := List.mem_cons.1 hseen
      · exact hname (List.mem_map.2 ⟨m', hm', hsame⟩)
      · exact unseen m' (List.mem_cons_of_mem _ hm') hseen
    · obtain hseen | hlater := given f' hf' hrequired
      · exact .inl (List.mem_cons_of_mem _ hseen)
      · obtain hsame | hlater := List.mem_cons.1 hlater
        · exact .inl (List.mem_cons.2 (.inl hsame))
        · exact .inr hlater

private theorem length_le_linesAfter (ms : List (String × String)) : ms.length ≤ (linesAfter ms).length := by
  induction ms with
  | nil => exact Nat.zero_le _
  | cons m ms ih =>
    simp only [linesAfter, List.flatMap_cons, List.length_cons, List.length_append] at ih ⊢
    omega

/-- A record is read from its members, each on a line of its own. -/
theorem read_block {ms : List (String × String)} (fills : Fills r ms a b) (nodup : (ms.map (·.1)).Nodup)
    (given : ∀ f ∈ r.fields, f.required = true → f.name ∈ ms.map (·.1)) (nonempty : ms ≠ []) :
    readDocument (r.read a) (block ms) = .ok b := by
  obtain ⟨m, ms, rfl⟩ := List.exists_cons_of_ne_nil nonempty
  obtain ⟨f, c, hfind, hspells, hfills⟩ := fills
  obtain ⟨hname, hnodup⟩ := List.nodup_cons.1 nodup
  have hblock : (block (m :: ms)).toList = '{' :: '\n' :: ' ' :: ' ' :: '"' :: afterQuote m (linesAfter ms ++ []) := by
    rw [toList_block, ← line_append, List.append_nil]
  have hnext : nextKey true ('\n' :: ' ' :: ' ' :: '"' :: afterQuote m (linesAfter ms ++ [])) =
      .ok (some (afterQuote m (linesAfter ms ++ []))) := rfl
  have hread : r.read a (block (m :: ms)).toList = .ok (b, []) := by
    rw [hblock]
    refine (members_line hnext hfind hspells List.not_mem_nil (ends_linesAfter ms [])).trans
      (members_linesAfter hfills ?_ hnodup (fun m' hm' hsame => ?_) (fun f' hf' hrequired => ?_) [])
    · have hlength := length_le_linesAfter ms
      simp only [afterQuote, List.length_cons, List.length_append]
      omega
    · exact hname (List.mem_map.2 ⟨m', hm', List.mem_singleton.1 hsame⟩)
    · exact (List.mem_cons.1 (given f' hf' hrequired)).imp_left List.mem_singleton.2
  rw [readDocument]
  simp only [hread]
  rfl

end Record

end Json

end SeriesRegion
