import SeriesRegion.Proofs.Json.Grammar

/-!
# Values that are skipped

A value that is well formed is skipped, whatever its depth, and what follows is left (`Json.skipValue_append`).
-/

namespace SeriesRegion.Json

variable {b ds e r rest s t tail v : List Char} {c d : Char} {stack : List Frame} {place : Place}

/-! ### Numbers -/

/-- What does not begin like a number. -/
theorem ne_of_isDigit (h : c.isDigit = true) :
    (c ≠ '+' ∧ c ≠ '-') ∧ (c ≠ 'n' ∧ c ≠ 't' ∧ c ≠ 'f' ∧ c ≠ '"') ∧ c ≠ '[' ∧ c ≠ '{' ∧ c ≠ ']' ∧ c ≠ ',' := by
  refine ⟨⟨?_, ?_⟩, ⟨?_, ?_, ?_, ?_⟩, ?_, ?_, ?_, ?_⟩ <;> (rintro rfl; revert h; decide)

/-- A number does not go on with a digit. -/
def Stops (s : List Char) : Prop := ∀ c t, s = c :: t → c.isDigit = false

theorem Ends.stops (h : Ends rest) : Stops rest := fun c t hrest => (h c t hrest).1

theorem IsExponent.stops (exponent : IsExponent e) (ends : Ends rest) : Stops (e ++ rest) := by
  have hletter : ∀ {e : Char}, e = 'e' ∨ e = 'E' → e.isDigit = false := by
    rintro e (rfl | rfl) <;> rfl
  intro c t h
  cases exponent with
  | none => exact ends.stops c t h
  | plain letter => exact (List.cons.inj h).1 ▸ hletter letter
  | signed letter => exact (List.cons.inj h).1 ▸ hletter letter

theorem IsFraction.stops (fraction : IsFraction s) (stops : Stops tail) : Stops (s ++ tail) := by
  intro c t h
  cases fraction with
  | none => exact stops c t h
  | digits =>
    obtain ⟨rfl, -⟩ := List.cons.inj h
    rfl

/-- An exponent is skipped after its letter. -/
theorem skipExponent_append (exponent : IsExponent e) (ends : Ends rest) :
    e = [] ∨ ∃ s, (e = 'e' :: s ∨ e = 'E' :: s) ∧ skipExponent (s ++ rest) = .ok rest := by
  have hdigits : ∀ {c : Char} {ds : List Char}, (∀ d ∈ c :: ds, d.isDigit = true) →
      digits (c :: (ds ++ rest)) = (c :: ds, rest) := fun h => digits_append h ends.stops
  cases exponent with
  | none => exact .inl rfl
  | @plain _ c ds letter digits =>
    obtain ⟨⟨hplus, hminus⟩, -⟩ := ne_of_isDigit (digits c List.mem_cons_self)
    refine .inr ⟨c :: ds, letter.imp (congrArg (· :: _)) (congrArg (· :: _)), ?_⟩
    rw [List.cons_append, skipExponent]
    · simp only [hdigits digits]
    · exact fun t h => hplus (List.cons.inj h).1
    · exact fun t h => hminus (List.cons.inj h).1
  | @signed _ sign c ds letter signed digits =>
    refine .inr ⟨sign :: c :: ds, letter.imp (congrArg (· :: _)) (congrArg (· :: _)), ?_⟩
    obtain rfl | rfl := signed
    all_goals
      simp only [List.cons_append]
      rw [skipExponent]
      simp only [hdigits digits]

/-- A whole number is skipped up to a character that is not a digit. -/
theorem IsWhole.skip (whole : IsWhole ds) (stops : Stops tail) :
    ∃ c t, ds = c :: t ∧ c.isDigit = true ∧ (if c = '0' then t ++ tail else (Json.digits (t ++ tail)).2) = tail := by
  cases whole with
  | zero => exact ⟨'0', [], rfl, rfl, if_pos rfl⟩
  | @digits c t nonzero hdigits =>
    refine ⟨c, t, rfl, hdigits c List.mem_cons_self, ?_⟩
    rw [if_neg nonzero, digits_append (fun d hd => hdigits d (List.mem_cons_of_mem _ hd)) stops]

theorem skipNumber_append (h : IsNumber s) (ends : Ends rest) : skipNumber (s ++ rest) = .ok rest := by
  obtain @⟨ds, f, e, whole, fraction, exponent⟩ := h
  have hstops := exponent.stops ends
  obtain ⟨c, t, rfl, hdigit, hwhole⟩ := whole.skip (fraction.stops hstops)
  simp only [List.append_assoc, List.cons_append]
  rw [skipNumber]
  simp only [hdigit, hwhole]
  cases fraction with
  | none =>
    obtain rfl | ⟨s, rfl | rfl, hskip⟩ := skipExponent_append exponent ends
    · cases rest with
      | nil => rfl
      | cons d rest =>
        obtain ⟨hd, hpoint, he, hE⟩ := ends d rest rfl
        simp [hd, hpoint, he, hE]
    · simpa using hskip
    · simpa using hskip
  | @digits d ds hdigits =>
    have hfraction : digits (d :: (ds ++ (e ++ rest))) = (d :: ds, e ++ rest) := digits_append hdigits hstops
    simp only [List.cons_append, hfraction]
    obtain rfl | ⟨s, rfl | rfl, hskip⟩ := skipExponent_append exponent ends
    · cases rest with
      | nil => simp
      | cons d rest =>
        obtain ⟨hd, hpoint, he, hE⟩ := ends d rest rfl
        simp [he, hE]
    · simpa using hskip
    · simpa using hskip

/-! ### Places in open lists and objects -/

-- Each of the rounds below is one of these equations.
attribute [simp] skipFrom

/-- Skipping ends with this rest, if there are enough rounds for the text. -/
def Skips (stack : List Frame) (place : Place) (s r : List Char) : Prop :=
  ∀ fuel, 2 * s.length < fuel → skipFrom fuel stack place s = .ok r

/-- Skipping ends with this rest when a value is over. -/
def GoesOn : (stack : List Frame) → (s r : List Char) → Prop
  | [], s, r => s = r
  | frame :: stack, s, r => Skips (frame :: stack) .next s r

theorem Skips.of_succ (h : ∀ fuel, 2 * s.length ≤ fuel → skipFrom (fuel + 1) stack place s = .ok r) :
    Skips stack place s r := by
  intro fuel enough
  obtain ⟨fuel, rfl⟩ := Nat.exists_eq_add_one_of_ne_zero (Nat.ne_zero_of_lt enough)
  exact h fuel (Nat.le_of_lt_succ enough)

theorem Skips.blanks (h : Skips stack place s r) (blanks : AreBlanks b) : Skips stack place (b ++ s) r := by
  refine .of_succ fun fuel enough => ?_
  rw [List.length_append] at enough
  have hsame : skipFrom (fuel + 1) stack place (b ++ s) = skipFrom (fuel + 1) stack place s := by
    rw [skipFrom, skipFrom, skipBlanks_append blanks]
  rw [hsame]
  exact h _ (by omega)

theorem GoesOn.finish (h : GoesOn stack s r) {fuel : Nat} (enough : 2 * s.length < fuel) :
    (match stack with
      | [] => Except.ok s
      | stack => skipFrom fuel stack .next s) = .ok r := by
  cases stack with
  | nil => exact congrArg Except.ok h
  | cons frame stack => exact h fuel enough

/-- A value that takes one round. -/
theorem Skips.scalar (visible : isBlank c = false) (done : scalar c s = .done rest) (left : rest <:+ s)
    (goes : GoesOn stack rest r) : Skips stack .value (c :: s) r := by
  have hlength := left.length_le
  refine .of_succ fun fuel enough => ?_
  rw [List.length_cons] at enough
  rw [skipFrom, skipBlanks_cons visible]
  simp only [done]
  refine goes.finish ?_
  omega

theorem Skips.openList (first : Skips (.list :: stack) .first s r) : Skips stack .value ('[' :: s) r := by
  refine .of_succ fun fuel enough => ?_
  rw [List.length_cons] at enough
  rw [skipFrom, skipBlanks_cons rfl]
  exact first fuel (by omega)

theorem Skips.noItem (goes : GoesOn stack s r) : Skips (.list :: stack) .first (']' :: s) r := by
  refine .of_succ fun fuel enough => ?_
  rw [List.length_cons] at enough
  rw [skipFrom, skipBlanks_cons rfl]
  refine goes.finish ?_
  omega

theorem Skips.firstItem (visible : isBlank c = false) (other : c ≠ ']') (value : Skips (.list :: stack) .value (c :: s) r) :
    Skips (.list :: stack) .first (c :: s) r := by
  refine .of_succ fun fuel enough => ?_
  have hvalue := value (fuel + 1) (by omega)
  rw [skipFrom, skipBlanks_cons visible] at hvalue ⊢
  simpa only [if_neg other] using hvalue

theorem Skips.lastItem (goes : GoesOn stack s r) : Skips (.list :: stack) .next (']' :: s) r := by
  refine .of_succ fun fuel enough => ?_
  rw [List.length_cons] at enough
  rw [skipFrom, skipBlanks_cons rfl]
  refine goes.finish ?_
  omega

theorem Skips.nextItem (value : Skips (.list :: stack) .value s r) : Skips (.list :: stack) .next (',' :: s) r := by
  refine .of_succ fun fuel enough => ?_
  rw [List.length_cons] at enough
  rw [skipFrom, skipBlanks_cons rfl]
  exact value fuel (by omega)

theorem Skips.noMember (blanks : AreBlanks b) (goes : GoesOn stack s r) :
    Skips stack .value ('{' :: (b ++ '}' :: s)) r := by
  refine .of_succ fun fuel enough => ?_
  simp only [List.length_cons, List.length_append] at enough
  obtain ⟨fuel, rfl⟩ := Nat.exists_eq_add_one_of_ne_zero (n := fuel) (by omega)
  rw [skipFrom, skipBlanks_cons rfl]
  show skipFrom (fuel + 1) (.object :: stack) .first (b ++ '}' :: s) = _
  rw [skipFrom, skipBlanks_append blanks, skipBlanks_cons rfl]
  refine goes.finish ?_
  omega

/-- The first key takes a round more than the others. -/
theorem Skips.firstMember (blanks : AreBlanks b) (key : Skips (.object :: stack) .key ('"' :: s) r) :
    Skips stack .value ('{' :: (b ++ '"' :: s)) r := by
  refine .of_succ fun fuel enough => ?_
  simp only [List.length_cons, List.length_append] at enough
  obtain ⟨fuel, rfl⟩ := Nat.exists_eq_add_one_of_ne_zero (n := fuel) (by omega)
  rw [skipFrom, skipBlanks_cons rfl]
  show skipFrom (fuel + 1) (.object :: stack) .first (b ++ '"' :: s) = _
  rw [skipFrom, skipBlanks_append blanks, skipBlanks_cons rfl]
  exact key fuel (by rw [List.length_cons]; omega)

theorem Skips.lastMember (goes : GoesOn stack s r) : Skips (.object :: stack) .next ('}' :: s) r := by
  refine .of_succ fun fuel enough => ?_
  rw [List.length_cons] at enough
  rw [skipFrom, skipBlanks_cons rfl]
  refine goes.finish ?_
  omega

theorem Skips.nextMember (key : Skips (.object :: stack) .key s r) : Skips (.object :: stack) .next (',' :: s) r := by
  refine .of_succ fun fuel enough => ?_
  rw [List.length_cons] at enough
  rw [skipFrom, skipBlanks_cons rfl]
  exact key fuel (by omega)

theorem Skips.key (body : skipString s = .ok t) (left : t <:+ s) (colon : Skips stack .colon t r) :
    Skips stack .key ('"' :: s) r := by
  have hlength := left.length_le
  refine .of_succ fun fuel enough => ?_
  rw [List.length_cons] at enough
  rw [skipFrom, skipBlanks_cons rfl]
  simp only [if_true, body]
  exact colon fuel (by omega)

theorem Skips.colon (value : Skips stack .value s r) : Skips stack .colon (':' :: s) r := by
  refine .of_succ fun fuel enough => ?_
  rw [List.length_cons] at enough
  rw [skipFrom, skipBlanks_cons rfl]
  exact value fuel (by omega)

/-! ### Values -/

/-- A value is skipped, wherever it stands. -/
def IsSkipped (v : List Char) : Prop :=
  ∀ stack rest r, Ends rest → GoesOn stack rest r → Skips stack .value (v ++ rest) r

theorem IsNumber.head (h : IsNumber s) : ∃ c t, s = c :: t ∧ c.isDigit = true := by
  obtain ⟨whole, -, -⟩ := h
  cases whole with
  | zero => exact ⟨_, _, rfl, rfl⟩
  | digits nonzero digits => exact ⟨_, _, rfl, digits _ List.mem_cons_self⟩

/-- A value does not begin like a blank, or like what may follow an item. -/
theorem IsValue.head (h : IsValue v) : ∃ c t, v = c :: t ∧ isBlank c = false ∧ c ≠ ']' ∧ c ≠ ',' := by
  cases h with
  | number h =>
    obtain ⟨c, t, rfl, hdigit⟩ := h.head
    obtain ⟨-, -, -, -, hother⟩ := ne_of_isDigit hdigit
    exact ⟨c, t, rfl, isBlank_of_isDigit hdigit, hother⟩
  | list h => cases h <;> exact ⟨_, _, rfl, by decide⟩
  | object h => cases h <;> exact ⟨_, _, rfl, by decide⟩
  | _ => exact ⟨_, _, rfl, by decide⟩

theorem ends_blanks (blanks : AreBlanks b) (ends : Ends s) : Ends (b ++ s) := by
  cases b with
  | nil => exact ends
  | cons c b =>
    intro d t h
    obtain ⟨rfl, -⟩ := List.cons.inj h
    have hblank := blanks c List.mem_cons_self
    simp only [isBlank, Bool.or_eq_true, decide_eq_true_eq] at hblank
    obtain ((rfl | rfl) | rfl) | rfl := hblank <;> decide

/-- A value ends before any of what may follow an item or a member. -/
theorem ends_before (blanks : AreBlanks b) (close : c = ',' ∨ c = ']' ∨ c = '}') (s : List Char) : Ends (b ++ c :: s) := by
  refine ends_blanks blanks fun d t h => ?_
  obtain ⟨rfl, -⟩ := List.cons.inj h
  obtain rfl | rfl | rfl := close <;> decide

theorem IsListTail.ends {vs : List (List Char)} (h : IsListTail vs s) (rest : List Char) : Ends (s ++ rest) := by
  cases h with
  | close blanks =>
    rw [List.append_assoc]
    exact ends_before blanks (.inr (.inl rfl)) _
  | comma blanks blanks' more =>
    rw [List.append_assoc]
    exact ends_before blanks (.inl rfl) _

theorem IsObjectTail.ends {κ : Type} {key : κ → List Char → Prop} {ms : List (κ × List Char)} (h : IsObjectTail key ms s)
    (rest : List Char) : Ends (s ++ rest) := by
  cases h with
  | close blanks =>
    rw [List.append_assoc]
    exact ends_before blanks (.inr (.inr rfl)) _
  | comma blanks member more =>
    rw [List.append_assoc]
    exact ends_before blanks (.inl rfl) _

theorem IsListTail.skips {vs : List (List Char)} (h : IsListTail vs s) (values : ∀ v ∈ vs, IsSkipped v)
    (goes : GoesOn stack rest r) : Skips (.list :: stack) .next (s ++ rest) r := by
  induction h with
  | close blanks =>
    rw [List.append_assoc]
    exact (Skips.lastItem goes).blanks blanks
  | @comma b b' v s vs blanks blanks' more ih =>
    obtain ⟨hv, hvs⟩ := List.forall_mem_cons.1 values
    have htail := ih hvs
    simp only [List.append_assoc, List.cons_append]
    exact ((hv (.list :: stack) _ r (more.ends rest) htail).blanks blanks').nextItem.blanks blanks

theorem IsList.skips {vs : List (List Char)} (h : IsList vs s) (values : ∀ v ∈ vs, IsValue v)
    (skipped : ∀ v ∈ vs, IsSkipped v) (goes : GoesOn stack rest r) : Skips stack .value (s ++ rest) r := by
  cases h with
  | empty blanks =>
    simp only [List.cons_append, List.append_assoc]
    exact ((Skips.noItem goes).blanks blanks).openList
  | @values b v s vs blanks more =>
    obtain ⟨hv, hvs⟩ := List.forall_mem_cons.1 skipped
    obtain ⟨c, t, rfl, hvisible, hother, -⟩ := (values v List.mem_cons_self).head
    have hvalue := hv (.list :: stack) _ r (more.ends rest) (more.skips hvs goes)
    simp only [List.cons_append, List.append_assoc] at hvalue ⊢
    exact ((hvalue.firstItem hvisible hother).blanks blanks).openList

theorem IsMember.skips {m : Unit × List Char} (h : IsMember (fun _ => IsBody) m t) (skipped : IsSkipped m.2) (ends : Ends rest)
    (goes : GoesOn (.object :: stack) rest r) :
    ∃ b s, AreBlanks b ∧ t ++ rest = b ++ '"' :: s ∧ Skips (.object :: stack) .key ('"' :: s) r := by
  obtain @⟨_, s, b, b', b'', v, blanks, hbody, blanks', blanks''⟩ := h
  have hvalue := ((skipped (.object :: stack) rest r ends goes).blanks blanks'').colon.blanks blanks'
  refine ⟨b, s ++ '"' :: (b' ++ ':' :: (b'' ++ (v ++ rest))), blanks, by simp, ?_⟩
  exact .key (skipString_body hbody _) ⟨s ++ ['"'], by simp⟩ hvalue

theorem IsObjectTail.skips {ms : List (Unit × List Char)} (h : IsObjectTail (fun _ => IsBody) ms s)
    (skipped : ∀ m ∈ ms, IsSkipped m.2) (goes : GoesOn stack rest r) :
    Skips (.object :: stack) .next (s ++ rest) r := by
  induction h with
  | close blanks =>
    rw [List.append_assoc]
    exact (Skips.lastMember goes).blanks blanks
  | @comma b t s m ms blanks member more ih =>
    obtain ⟨hm, hms⟩ := List.forall_mem_cons.1 skipped
    obtain ⟨b', s', blanks', htext, hkey⟩ := member.skips hm (more.ends rest) (ih hms)
    rw [List.append_assoc, List.cons_append, List.append_assoc, htext]
    exact (hkey.blanks blanks').nextMember.blanks blanks

theorem IsObject.skips {ms : List (Unit × List Char)} (h : IsObject (fun _ => IsBody) ms s)
    (skipped : ∀ m ∈ ms, IsSkipped m.2) (goes : GoesOn stack rest r) : Skips stack .value (s ++ rest) r := by
  cases h with
  | empty blanks =>
    simp only [List.cons_append, List.append_assoc]
    exact .noMember blanks goes
  | @members t s m ms member more =>
    obtain ⟨hm, hms⟩ := List.forall_mem_cons.1 skipped
    obtain ⟨b, s', blanks, htext, hkey⟩ := member.skips hm (more.ends rest) (more.skips hms goes)
    rw [List.cons_append, List.append_assoc, htext]
    exact .firstMember blanks hkey

theorem scalar_of_isDigit (h : c.isDigit = true) (skip : skipNumber (c :: s) = .ok rest) : scalar c s = .done rest := by
  obtain ⟨⟨-, hminus⟩, ⟨hn, ht, hf, hquote⟩, hlist, hobject, -⟩ := ne_of_isDigit h
  simp only [scalar, if_neg hn, if_neg ht, if_neg hf, if_neg hquote, if_neg hlist, if_neg hobject, if_neg hminus, if_pos h, skip]

/-- Every value is skipped, by induction on its form. -/
theorem IsValue.isSkipped (h : IsValue v) : IsSkipped v := by
  induction h with
  | null => exact fun stack rest r _ goes => .scalar rfl rfl ⟨['u', 'l', 'l'], rfl⟩ goes
  | yes => exact fun stack rest r _ goes => .scalar rfl rfl ⟨['r', 'u', 'e'], rfl⟩ goes
  | no => exact fun stack rest r _ goes => .scalar rfl rfl ⟨['a', 'l', 's', 'e'], rfl⟩ goes
  | @string s body =>
    intro stack rest r _ goes
    have hbody : skipString (s ++ '"' :: rest) = .ok rest := skipString_body body rest
    have hscalar : scalar '"' (s ++ '"' :: rest) = .done rest := by
      simp only [scalar, hbody]
      rfl
    simp only [List.cons_append, List.append_assoc]
    exact .scalar rfl hscalar ⟨s ++ ['"'], by simp⟩ goes
  | @number s number =>
    intro stack rest r ends goes
    obtain ⟨c, t, rfl, hdigit⟩ := number.head
    exact .scalar (isBlank_of_isDigit hdigit) (scalar_of_isDigit hdigit (skipNumber_append number ends)) ⟨t, rfl⟩ goes
  | @negative s number =>
    intro stack rest r ends goes
    have hscalar : scalar '-' (s ++ rest) = .done rest := by
      simp only [scalar, skipNumber_append number ends]
      rfl
    exact .scalar rfl hscalar ⟨s, rfl⟩ goes
  | list list values ih => exact fun stack rest r _ goes => list.skips values ih goes
  | object object values ih => exact fun stack rest r _ goes => object.skips ih goes

/-- A value that is well formed is skipped, after any blanks. -/
theorem skipValue_append (h : IsValue v) (blanks : AreBlanks b) (ends : Ends rest) :
    skipValue (b ++ (v ++ rest)) = .ok rest :=
  (h.isSkipped [] rest rest ends rfl).blanks blanks _ (Nat.lt_succ_self _)

end SeriesRegion.Json
