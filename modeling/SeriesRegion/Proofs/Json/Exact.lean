import SeriesRegion.Proofs.Json.Skipped

/-!
# Readers that leave what follows

A reader of strings, of natural numbers or of booleans refuses a value of another kind.  If it does not refuse a value, it has
read all of it and nothing else (`Json.Exact`).
-/

namespace SeriesRegion.Json

variable {α β : Type} {ds f e r rest s s' t v : List Char} {c : Char} {n : Nat} {negative : Bool}

/-- What a value is by its first character. -/
theorem IsValue.forms (h : IsValue (c :: t)) :
    (c = '"' → ∃ s, IsBody s ∧ t = s ++ ['"']) ∧ (c = 't' → t = ['r', 'u', 'e']) ∧ (c = 'f' → t = ['a', 'l', 's', 'e']) ∧
    (c = '-' → IsNumber t) ∧ (c.isDigit = true → IsNumber (c :: t)) ∧
    (c = '[' → ∃ vs, IsList vs (c :: t) ∧ ∀ v ∈ vs, IsValue v) ∧
    (c = '{' → ∃ ms : List (Unit × List Char), IsObject (fun _ => IsBody) ms (c :: t) ∧ ∀ m ∈ ms, IsValue m.2) := by
  generalize hv : c :: t = v at h
  cases h with
  | string body =>
    cases hv
    simpa using body
  | number number =>
    obtain ⟨d, s, rfl, hdigit⟩ := number.head
    cases hv
    obtain ⟨⟨-, hminus⟩, ⟨-, ht, hf, hquote⟩, hlist, hobject, -⟩ := ne_of_isDigit hdigit
    simp [*]
  | negative number =>
    cases hv
    simpa using number
  | list list values =>
    have hlist := list
    cases list <;> cases hv <;> simpa using ⟨_, hlist, values⟩
  | object object values =>
    have hobject := object
    cases object <;> cases hv <;> simpa using ⟨_, hobject, fun u v hv => values (u, v) hv⟩
  | _ =>
    cases hv
    simp

/-! ### Natural numbers -/

theorem stops_digits (s : List Char) : Stops (digits s).2 := by
  induction s with
  | nil => exact fun c t h => by cases h
  | cons d s ih =>
    rw [digits]
    split
    · exact ih
    · rename_i hdigit
      intro c t h
      obtain ⟨rfl, -⟩ := List.cons.inj h
      exact Bool.eq_false_iff.2 hdigit

theorem float_ne_natural {sig : Nat} {exponent : Int} :
    float negative sig exponent rest ≠ .ok (.natural n, s) := by
  rw [float]
  split <;> simp

theorem exponentTail_ne_natural {sig : Nat} {start : Int} :
    exponentTail negative sig start rest ≠ .ok (.natural n, s) := by
  intro h
  unfold exponentTail at h
  split at h
  split at h
  · cases h
  · split at h
    · split at h
      split at h
      · exact float_ne_natural h
      · split at h
        · exact float_ne_natural h
        · cases h
    · cases h

theorem exponentOr_ne_natural {sig : Nat} {exponent : Int} :
    exponentOr negative sig exponent rest ≠ .ok (.natural n, s) := by
  intro h
  unfold exponentOr at h
  split at h
  · exact exponentTail_ne_natural h
  · exact exponentTail_ne_natural h
  · exact float_ne_natural h

theorem fractionTail_ne_natural {sig dropped : Nat} :
    fractionTail negative sig dropped rest ≠ .ok (.natural n, s) := by
  intro h
  unfold fractionTail at h
  split at h
  split at h
  · split at h <;> cases h
  · split at h
    exact exponentOr_ne_natural h

theorem natural_of_zero (ends : Ends s')
    (h : Except.ok (if negative then Number.fraction "-0.0" else .natural 0, s') = Except.ok (ε := Fault) (.natural n, rest)) :
    negative = false ∧ rest = (digits ('0' :: s')).2 ∧ Ends rest := by
  cases negative with
  | true => cases h
  | false =>
    cases h
    have hdigits : digits (['0'] ++ rest) = (['0'], rest) := digits_append (by simp) ends.stops
    exact ⟨rfl, (congrArg Prod.snd hdigits).symm, ends⟩

/-- Only digits with nothing after them are read as a natural number. -/
theorem natural_of_number (h : number negative s = .ok (.natural n, rest)) :
    negative = false ∧ rest = (digits s).2 ∧ Ends rest := by
  unfold number at h
  split at h
  · cases h
  · rename_i c s
    split at h
    · rename_i hzero
      subst hzero
      split at h
      · rename_i d s
        split at h
        · cases h
        · split at h
          · exact absurd h fractionTail_ne_natural
          · split at h
            · exact absurd h exponentTail_ne_natural
            · rename_i hdigit hpoint hletter
              refine natural_of_zero (fun c t hs => ?_) h
              obtain ⟨rfl, -⟩ := List.cons.inj hs
              exact ⟨Bool.eq_false_iff.2 hdigit, hpoint, not_or.1 hletter⟩
      · exact natural_of_zero (fun c t hs => by cases hs) h
    · split at h
      · split at h
        rename_i ds s' hdigits
        split at h
        split at h
        · exact absurd h fractionTail_ne_natural
        · exact absurd h exponentTail_ne_natural
        · exact absurd h exponentTail_ne_natural
        · rename_i hpoint he hE
          split at h
          · split at h
            · rename_i hpositive
              cases h
              have hstops := stops_digits (c :: s)
              rw [hdigits] at hstops ⊢
              refine ⟨by simpa using hpositive, rfl, fun d t hs => ⟨hstops d t hs, ?_, ?_, ?_⟩⟩
              · rintro rfl
                exact hpoint t hs
              · rintro rfl
                exact he t hs
              · rintro rfl
                exact hE t hs
            · split at h
              · cases h
              · exact absurd h float_ne_natural
          · exact absurd h float_ne_natural
      · cases h

/-! ### Readers -/

/-- Whatever a reader makes of a value, it leaves what follows the value. -/
def Exact (r : Reader α) : Prop :=
  ∀ v, IsValue v → ∀ b rest a s, AreBlanks b → Ends rest → r (b ++ (v ++ rest)) = .ok (a, s) → s = rest

theorem IsNumber.snd_digits (h : IsNumber s) (ends : Ends rest) (left : s' = (digits (s ++ rest)).2)
    (ends' : Ends s') : s' = rest := by
  obtain @⟨ds, f, e, whole, fraction, exponent⟩ := h
  have hdigits : ∀ d ∈ ds, d.isDigit = true := by
    cases whole with
    | zero => simp
    | digits nonzero digits => exact digits
  rw [List.append_assoc, List.append_assoc, digits_append hdigits (fraction.stops (exponent.stops ends))] at left
  subst left
  cases fraction with
  | digits => exact absurd rfl (ends' _ _ rfl).2.1
  | none =>
    obtain rfl | ⟨s, rfl | rfl, -⟩ := skipExponent_append exponent ends
    · rfl
    · exact absurd rfl (ends' _ _ rfl).2.2.1
    · exact absurd rfl (ends' _ _ rfl).2.2.2

private theorem exists_of_bind {ε : Type} {x : Except ε α} {k : α → Except ε β} {b : β} (h : x.bind k = .ok b) :
    ∃ a, x = .ok a ∧ k a = .ok b := by
  cases x with
  | error e => cases h
  | ok a => exact ⟨a, rfl, h⟩

theorem exact_readNat (limit : Nat) (expected : String) : Exact (readNat limit expected) := by
  intro v hv b rest a s blanks ends h
  obtain ⟨c, t, rfl, hvisible, -⟩ := hv.head
  obtain ⟨-, -, -, -, hdigit, -⟩ := hv.forms
  rw [readNat, skipBlanks_append blanks, List.cons_append, skipBlanks_cons hvisible] at h
  simp only at h
  split at h
  · obtain ⟨⟨n | n | n, s'⟩, hn, hcheck⟩ := exists_of_bind h
    · cases (natural_of_number hn).1
    · cases hcheck
    · cases hcheck
  · split at h
    · rename_i hc
      obtain ⟨⟨n | n | n, s'⟩, hn, hcheck⟩ := exists_of_bind h
      · obtain ⟨-, hleft, hends⟩ := natural_of_number hn
        simp only at hcheck
        split at hcheck
        · cases hcheck
          exact (hdigit hc).snd_digits ends hleft hends
        · cases hcheck
      · cases hcheck
      · cases hcheck
    · cases h

theorem exact_readBool : Exact readBool := by
  intro v hv b rest a s blanks ends h
  obtain ⟨c, t, rfl, hvisible, -⟩ := hv.head
  obtain ⟨-, ht, hf, -⟩ := hv.forms
  rw [readBool, skipBlanks_append blanks, List.cons_append, skipBlanks_cons hvisible] at h
  simp only at h
  split at h
  · rename_i hc
    rw [ht hc] at h
    cases h
    rfl
  · split at h
    · rename_i hc
      rw [hf hc] at h
      cases h
      rfl
    · cases h

theorem exact_readString (expected : String) (use : String → Except String α) : Exact (readString expected use) := by
  intro v hv b rest a s blanks ends h
  obtain ⟨c, t, rfl, hvisible, -⟩ := hv.head
  obtain ⟨hquote, -⟩ := hv.forms
  rw [readString, skipBlanks_append blanks, List.cons_append, skipBlanks_cons hvisible] at h
  simp only at h
  split at h
  · rename_i hc
    obtain ⟨body, hbody, rfl⟩ := hquote hc
    have hskip : skipString (body ++ ['"'] ++ rest) = .ok rest := by
      rw [List.append_assoc]
      exact skipString_body hbody rest
    split at h
    · cases h
    · rename_i hread
      rw [skipString_of_stringTail hread] at hskip
      split at h
      · cases h
        exact Except.ok.inj hskip
      · cases h
  · cases h

theorem Exact.store {r : Reader β} (h : Exact r) (name : String) (required : Bool) (store : α → β → α) (a : α) :
    Exact ((Field.of name required r store).update a) := by
  intro v hv b rest c s blanks ends hread
  change (r (b ++ (v ++ rest))).map _ = _ at hread
  cases hr : r (b ++ (v ++ rest)) with
  | error e =>
    rw [hr] at hread
    cases hread
  | ok p =>
    rw [hr] at hread
    cases hread
    exact h v hv b rest p.1 p.2 blanks ends hr

end SeriesRegion.Json
