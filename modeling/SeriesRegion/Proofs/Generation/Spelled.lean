import SeriesRegion.Proofs.Generation.Names

/-!
# Spellings of a generation

A generation is read from more names than the two that its files are given: before the digits there may be zeros and a plus
sign (`Generation.ofName?_eq_some_iff`).
-/

namespace SeriesRegion

/-! ### Numbers -/

private def digitStep (n : Option Nat) (c : Char) : Option Nat :=
  do if c.isDigit then return 10 * (← n) + (c.toNat - 48) else none

private theorem foldl_digitStep_none (cs : List Char) : cs.foldl digitStep none = none := by
  induction cs with
  | nil => rfl
  | cons c cs ih =>
    rw [List.foldl_cons]
    have hstep : digitStep none c = none := by
      rw [digitStep]
      split <;> rfl
    rw [hstep, ih]

private theorem digitStep_of_isDigit {c : Char} (hc : c.isDigit) (n : Nat) :
    digitStep (some n) c = some (10 * n + (c.toNat - 48)) := by
  rw [digitStep, if_pos hc]
  rfl

private theorem foldl_digitStep_cons {c : Char} {cs : List Char} {acc n : Nat}
    (h : (c :: cs).foldl digitStep (some acc) = some n) :
    c.isDigit ∧ cs.foldl digitStep (some (10 * acc + (c.toNat - 48))) = some n := by
  rw [List.foldl_cons] at h
  by_cases hc : c.isDigit
  · rw [digitStep_of_isDigit hc] at h
    exact ⟨hc, h⟩
  · have hstep : digitStep (some acc) c = none := by rw [digitStep, if_neg hc]
    rw [hstep, foldl_digitStep_none] at h
    cases h

private theorem bounds_of_isDigit {c : Char} (hc : c.isDigit) : 48 ≤ c.toNat ∧ c.toNat ≤ 57 := by
  rw [Char.isDigit, Bool.and_eq_true, decide_eq_true_eq, decide_eq_true_eq] at hc
  exact hc

private theorem toDigits_of_isDigit {c : Char} (hc : c.isDigit) : Nat.toDigits 10 (c.toNat - 48) = [c] := by
  obtain ⟨hlow, hhigh⟩ := bounds_of_isDigit hc
  have hchar : Nat.digitChar (c.toNat - 48) = c := by
    apply Char.toNat_inj.1
    rw [Nat.toNat_digitChar_of_lt_ten (by omega)]
    omega
  rw [Nat.toDigits_of_lt_base (by omega), hchar]

/-- Digits after a number that is not zero are its further digits. -/
private theorem toDigits_append_of_foldl {cs : List Char} {acc n : Nat} (pos : 0 < acc)
    (h : cs.foldl digitStep (some acc) = some n) : Nat.toDigits 10 acc ++ cs = Nat.toDigits 10 n := by
  induction cs generalizing acc with
  | nil =>
    cases h
    exact List.append_nil _
  | cons c cs ih =>
    obtain ⟨hc, hrest⟩ := foldl_digitStep_cons h
    obtain ⟨hlow, hhigh⟩ := bounds_of_isDigit hc
    have hnext := Nat.toDigits_append_toDigits (b := 10) (d := c.toNat - 48) (by decide) pos (by omega)
    rw [toDigits_of_isDigit hc] at hnext
    calc Nat.toDigits 10 acc ++ c :: cs = (Nat.toDigits 10 acc ++ [c]) ++ cs := by simp
      _ = Nat.toDigits 10 (10 * acc + (c.toNat - 48)) ++ cs := by rw [hnext]
      _ = Nat.toDigits 10 n := ih (by omega) hrest

private theorem zeros_of_foldl {cs : List Char} {n : Nat} (h : cs.foldl digitStep (some 0) = some n) :
    cs = [] ∨ ∃ zeros, cs = List.replicate zeros '0' ++ Nat.toDigits 10 n := by
  induction cs with
  | nil => exact .inl rfl
  | cons c cs ih =>
    right
    obtain ⟨hc, hrest⟩ := foldl_digitStep_cons h
    by_cases hzero : c = '0'
    · subst hzero
      obtain rfl | ⟨zeros, rfl⟩ := ih hrest
      · cases hrest
        exact ⟨0, rfl⟩
      · exact ⟨zeros + 1, rfl⟩
    · -- The first digit that is no zero begins the number.
      obtain ⟨hlow, hhigh⟩ := bounds_of_isDigit hc
      have hpos : 0 < c.toNat - 48 := by
        have hne : c.toNat ≠ 48 := fun heq => hzero (Char.toNat_inj.1 heq)
        omega
      rw [Nat.mul_zero, Nat.zero_add] at hrest
      refine ⟨0, ?_⟩
      rw [← toDigits_append_of_foldl hpos hrest, toDigits_of_isDigit hc]
      rfl

/-- A number is read from its decimal digits after any number of zeros, and from nothing else. -/
theorem decimalNumber?_eq_some_iff {cs : List Char} {n : Nat} : decimalNumber? cs = some n ↔
    ∃ zeros, cs = List.replicate zeros '0' ++ Nat.toDigits 10 n := by
  constructor
  · intro h
    cases cs with
    | nil => cases h
    | cons c cs => exact (zeros_of_foldl h).resolve_left (List.cons_ne_nil c cs)
  · rintro ⟨zeros, rfl⟩
    have hzeros : Nat.ofDigitChars 10 (List.replicate zeros '0') 0 = 0 := by
      induction zeros with
      | zero => rfl
      | succ zeros ih => rwa [List.replicate_succ, Nat.ofDigitChars_cons]
    rw [decimalNumber?_of_isDigit (by simp [Nat.toDigits_ne_nil]), Nat.ofDigitChars_append, hzeros,
      Nat.ofDigitChars_ten_toDigits]
    intro c hc
    obtain hc | hc := List.mem_append.1 hc
    · rw [List.eq_of_mem_replicate hc]
      decide
    · exact isDigit_of_mem_toDigits hc

private theorem ofNat_eq_some_iff {n : Nat} {g : UInt64} :
    (if n < UInt64.size then some (UInt64.ofNat n) else none) = some g ↔ n = g.toNat := by
  split
  · rename_i hlt
    rw [Option.some.injEq, ← UInt64.toNat_inj, UInt64.toNat_ofNat_of_lt' hlt]
  · rename_i hlt
    have hne : n ≠ g.toNat := fun h => hlt (h ▸ g.toNat_lt)
    simp [hne]

private theorem parseWord?_plus {rest : List Char} {g : UInt64} :
    parseWord? ('+' :: rest) = some g ↔ decimalNumber? rest = some g.toNat := by
  rw [parseWord?]
  cases decimalNumber? rest with
  | none => simp
  | some n => simp only [ofNat_eq_some_iff, Option.some.injEq]

private theorem parseWord?_unsigned {cs : List Char} (h : ∀ rest, cs ≠ '+' :: rest) {g : UInt64} :
    parseWord? cs = some g ↔ decimalNumber? cs = some g.toNat := by
  rw [parseWord?]
  · cases decimalNumber? cs with
    | none => simp
    | some n => simp only [ofNat_eq_some_iff, Option.some.injEq]
  · exact h

private theorem digits_ne_plus (zeros n : Nat) (rest : List Char) :
    List.replicate zeros '0' ++ Nat.toDigits 10 n ≠ '+' :: rest := by
  intro h
  have hmem : '+' ∈ List.replicate zeros '0' ++ Nat.toDigits 10 n := by rw [h]; exact List.mem_cons_self
  obtain hzero | hdigit := List.mem_append.1 hmem
  · exact absurd (List.eq_of_mem_replicate hzero) (by decide)
  · exact absurd (isDigit_of_mem_toDigits hdigit) (by decide)

/-- A word is read from its decimal digits, after zeros and a plus sign or none. -/
theorem parseWord?_eq_some_iff {cs : List Char} {g : UInt64} : parseWord? cs = some g ↔
    ∃ sign ∈ [[], ['+']], ∃ zeros, cs = sign ++ (List.replicate zeros '0' ++ Nat.toDigits 10 g.toNat) := by
  by_cases hplus : ∃ rest, cs = '+' :: rest
  · obtain ⟨rest, rfl⟩ := hplus
    rw [parseWord?_plus, decimalNumber?_eq_some_iff]
    constructor
    · rintro ⟨zeros, rfl⟩
      exact ⟨['+'], by simp, zeros, rfl⟩
    · rintro ⟨sign, hsign, zeros, hcs⟩
      obtain rfl | rfl : sign = [] ∨ sign = ['+'] := by simpa using hsign
      · exact absurd hcs.symm (digits_ne_plus zeros _ rest)
      · exact ⟨zeros, (List.cons.inj hcs).2⟩
  · have hne : ∀ rest, cs ≠ '+' :: rest := fun rest h => hplus ⟨rest, h⟩
    rw [parseWord?_unsigned hne, decimalNumber?_eq_some_iff]
    constructor
    · rintro ⟨zeros, rfl⟩
      exact ⟨[], by simp, zeros, rfl⟩
    · rintro ⟨sign, hsign, zeros, hcs⟩
      obtain rfl | rfl : sign = [] ∨ sign = ['+'] := by simpa using hsign
      · exact ⟨zeros, hcs⟩
      · exact absurd hcs (hne _)

theorem stripEnds?_eq_some_iff {first last s middle : List Char} : stripEnds? first last s = some middle ↔
    s = first ++ middle ++ last := by
  constructor
  · intro h
    rw [stripEnds?] at h
    split at h
    · rename_i hpre
      obtain ⟨rest, rfl⟩ := List.isPrefixOf_iff_prefix.1 hpre
      simp only [List.drop_left] at h
      split at h
      · rename_i hsuf
        obtain ⟨front, rfl⟩ := List.isSuffixOf_iff_suffix.1 hsuf
        rw [List.length_append, Nat.add_sub_cancel, List.take_left] at h
        rw [← Option.some.inj h, List.append_assoc]
      · cases h
    · cases h
  · rintro rfl
    exact stripEnds?_append first last middle

namespace Generation

/-- A name that spells a generation: that of a checkpoint or a log, but there may be zeros and a plus sign before the
digits. -/
def Spells (x : String) (g : UInt64) : Prop :=
  ∃ sign ∈ [[], ['+']], ∃ zeros,
    x.toList = "checkpoint-".toList ++ (sign ++ (List.replicate zeros '0' ++ Nat.toDigits 10 g.toNat)) ++ ".bin".toList ∨
      x.toList = "wal-".toList ++ (sign ++ (List.replicate zeros '0' ++ Nat.toDigits 10 g.toNat)) ++ ".log".toList

/-- A generation is read from the names that spell it. -/
theorem ofName?_eq_some_iff {x : String} {g : UInt64} : ofName? x = some g ↔ Spells x g := by
  rw [ofName?]
  cases hc : stripEnds? "checkpoint-".toList ".bin".toList x.toList with
  | some s =>
    rw [stripEnds?_eq_some_iff] at hc
    simp only [parseWord?_eq_some_iff, Spells]
    constructor
    · rintro ⟨sign, hsign, zeros, rfl⟩
      exact ⟨sign, hsign, zeros, .inl hc⟩
    · rintro ⟨sign, hsign, zeros, hx | hx⟩
      · refine ⟨sign, hsign, zeros, ?_⟩
        rw [hx] at hc
        exact (List.append_cancel_left (List.append_cancel_right hc)).symm
      · rw [hx] at hc
        simp at hc
  | none =>
    have hnot : ∀ s, x.toList ≠ "checkpoint-".toList ++ s ++ ".bin".toList := by
      intro s hx
      rw [hx, stripEnds?_append] at hc
      cases hc
    simp only [Option.bind_eq_some_iff, stripEnds?_eq_some_iff, parseWord?_eq_some_iff, Spells]
    constructor
    · rintro ⟨s, hx, sign, hsign, zeros, rfl⟩
      exact ⟨sign, hsign, zeros, .inr hx⟩
    · rintro ⟨sign, hsign, zeros, hx | hx⟩
      · exact absurd hx (hnot _)
      · exact ⟨_, hx, sign, hsign, zeros, rfl⟩

end Generation

end SeriesRegion
