import SeriesRegion.Proofs.Text.Calendar

/-!
# Points in time that are written are read

A point in time that can be counted is read from its text with the mark of the zero meridian (`Timestamp.parse_text`).
-/

namespace SeriesRegion.Timestamp

variable {ds rest : List Char} {limit low high n : Nat}

/-! ### Numbers -/

/-- A text does not go on with a digit. -/
def Stops (rest : List Char) : Prop := ∀ c tail, rest = c :: tail → c.isDigit = false

theorem stops_cons {c : Char} (h : c.isDigit = false) (s : List Char) : Stops (c :: s) := by
  rintro d tail heq
  cases heq
  exact h

theorem takeDigits_append (digits : ∀ c ∈ ds, c.isDigit = true) (fits : ds.length ≤ limit)
    (stops : ds.length = limit ∨ Stops rest) : takeDigits limit (ds ++ rest) = (ds, rest) := by
  induction ds generalizing limit with
  | nil =>
    cases limit with
    | zero => rfl
    | succ limit =>
      have hstops := stops.resolve_left (Nat.succ_ne_zero limit).symm
      cases rest with
      | nil => rfl
      | cons c tail =>
        rw [List.nil_append, takeDigits, if_neg]
        rw [hstops c tail rfl]
        decide
  | cons c ds ih =>
    cases limit with
    | zero => exact absurd fits (Nat.not_succ_le_zero _)
    | succ limit =>
      rw [List.cons_append, takeDigits, if_pos (digits c List.mem_cons_self),
        ih (fun d hd => digits d (List.mem_cons_of_mem _ hd)) (Nat.le_of_succ_le_succ fits)
          (stops.imp_left Nat.succ.inj)]
      rfl

/-- A number is written with digits, as many as are wanted at least. -/
theorem toList_padded (width n : Nat) : (padded width n).toList =
    List.replicate (width - (Nat.toDigits 10 n).length) '0' ++ Nat.toDigits 10 n := by
  have hdigits : (toString n).toList = Nat.toDigits 10 n := Nat.toList_repr
  rw [padded, String.toList_append, String.toList_ofList, hdigits, ← hdigits, String.length_toList]

theorem isDigit_of_mem_padded (width n : Nat) {c : Char} (h : c ∈ (padded width n).toList) : c.isDigit = true := by
  rw [toList_padded] at h
  obtain hzero | hdigit := List.mem_append.1 h
  · rw [List.eq_of_mem_replicate hzero]
    rfl
  · exact Nat.isDigit_of_mem_toDigits (by decide) (by decide) hdigit

theorem valueOf_padded (width n : Nat) : valueOf (padded width n).toList = n := by
  have hvalue : ∀ ds, valueOf ds = Nat.ofDigitChars 10 ds 0 := fun ds => rfl
  rw [hvalue, toList_padded, Nat.ofDigitChars_append, Nat.ofDigitChars_replicate_zero, Nat.mul_zero,
    Nat.ofDigitChars_ten_toDigits]

theorem length_padded (width : Nat) (pos : 0 < width) (h : n < Nat.pow 10 width) : (padded width n).toList.length = width := by
  have hle := (Nat.length_toDigits_le_iff (by decide) pos).2 h
  rw [toList_padded, List.length_append, List.length_replicate]
  omega

theorem padded_ne_nil (width n : Nat) : (padded width n).toList ≠ [] := by
  rw [toList_padded]
  exact List.append_ne_nil_of_right_ne_nil _ Nat.toDigits_ne_nil

theorem number_padded {width : Nat} (fits : (padded width n).toList.length ≤ limit)
    (stops : (padded width n).toList.length = limit ∨ Stops rest) :
    number limit ((padded width n).toList ++ rest) = .ok (n, rest) := by
  rw [number, takeDigits_append (fun c => isDigit_of_mem_padded width n) fits stops]
  simp only [List.isEmpty_eq_false_iff.2 (padded_ne_nil width n), Bool.false_eq_true, if_false, valueOf_padded]

theorem isDigit_of_head_padded {width : Nat} {c : Char} {tail : List Char}
    (h : (padded width n).toList ++ rest = c :: tail) : c.isDigit = true := by
  obtain ⟨d, ds, hds⟩ := List.exists_cons_of_ne_nil (padded_ne_nil width n)
  rw [hds] at h
  obtain rfl := (List.cons.inj h).1
  exact isDigit_of_mem_padded width n (by rw [hds]; exact List.mem_cons_self)

theorem isSpace_of_isDigit {c : Char} (h : c.isDigit = true) : isSpace c = false := by
  have hrange : 48 ≤ c.toNat ∧ c.toNat ≤ 57 := by
    simpa [Char.isDigit, UInt32.le_iff_toNat_le] using h
  simp only [isSpace, Bool.or_eq_false_iff, Bool.and_eq_false_iff, decide_eq_false_iff_not]
  omega

theorem dropWhile_padded (width n : Nat) (rest : List Char) :
    ((padded width n).toList ++ rest).dropWhile isSpace = (padded width n).toList ++ rest := by
  obtain ⟨c, ds, hds⟩ := List.exists_cons_of_ne_nil (padded_ne_nil width n)
  have hspace := isSpace_of_isDigit (isDigit_of_mem_padded width n (c := c) (by rw [hds]; exact List.mem_cons_self))
  rw [hds, List.cons_append, List.dropWhile_cons_of_neg (by rw [hspace]; decide)]

theorem bounded_padded (h : n < 100) (least : low ≤ n) (most : n ≤ high) (rest : List Char) :
    bounded 2 low high ((padded 2 n).toList ++ rest) = .ok (n, rest) := by
  have hlength := length_padded 2 (by decide) h
  rw [bounded, dropWhile_padded, number_padded (Nat.le_of_eq hlength) (.inl hlength)]
  exact if_pos ⟨least, most⟩

/-! ### The parts -/

theorem fraction_padded {width : Nat} (pos : 0 < width) (le : width ≤ 9) (h : n < Nat.pow 10 width) :
    fraction (("." ++ padded width n).toList ++ ['Z']) = .ok (n * Nat.pow 10 (9 - width), ['Z']) := by
  have hlength := length_padded width pos h
  have hpoint : ("." ++ padded width n).toList ++ ['Z'] = '.' :: ((padded width n).toList ++ ['Z']) := by
    rw [String.toList_append]
    rfl
  rw [hpoint, fraction, takeDigits_append (fun c => isDigit_of_mem_padded width n) (by omega) (.inr (stops_cons rfl _))]
  simp only [List.isEmpty_eq_false_iff.2 (padded_ne_nil width n), Bool.false_eq_true, if_false, valueOf_padded, hlength]
  rfl

/-- The fraction of a second is read, with the mark of the zero meridian behind it. -/
theorem fraction_fractionText (h : n < 1000000000) : fraction ((fractionText n).toList ++ ['Z']) = .ok (n, ['Z']) := by
  rw [fractionText]
  split
  · rename_i hzero
    subst hzero
    rfl
  · split
    · rw [fraction_padded (by decide) (by decide) (by show n / 1000000 < 1000; omega)]
      have hvalue : n / 1000000 * Nat.pow 10 (9 - 3) = n := by
        show n / 1000000 * 1000000 = n
        omega
      rw [hvalue]
    · split
      · rw [fraction_padded (by decide) (by decide) (by show n / 1000 < 1000000; omega)]
        have hvalue : n / 1000 * Nat.pow 10 (9 - 6) = n := by
          show n / 1000 * 1000 = n
          omega
        rw [hvalue]
      · rw [fraction_padded (by decide) (by decide) h]
        exact congrArg (fun k => Except.ok (k, ['Z'])) (Nat.mul_one n)

/-- A year as it is written. -/
def yearText (y : Int) : String :=
  if 0 ≤ y ∧ y ≤ 9999 then padded 4 y.toNat else (if y < 0 then "-" else "+") ++ padded 4 y.natAbs

theorem year_yearText {y : Int} (h : isCounted y = true) (stops : Stops rest) :
    year ((yearText y).toList ++ rest) = .ok (y, rest) := by
  simp only [isCounted, decide_eq_true_eq] at h
  have hword : -2147483648 ≤ y ∧ y < 2147483648 := by omega
  rw [yearText]
  split
  · obtain ⟨n, rfl⟩ : ∃ n : Nat, y = n := ⟨y.toNat, by omega⟩
    have hlength := length_padded (n := n) 4 (by decide) (by show _ < 10000; omega)
    rw [Int.toNat_natCast, year, dropWhile_padded]
    split
    · rename_i heq
      have hdigit := isDigit_of_head_padded heq
      exact absurd hdigit (by decide)
    · rename_i heq
      have hdigit := isDigit_of_head_padded heq
      exact absurd hdigit (by decide)
    · simp only [number_padded (Nat.le_of_eq hlength) (.inl hlength), Except.map, bind, Except.bind, if_pos hword]
      rfl
  · have hlimit : (padded 4 y.natAbs).toList.length ≤ ((padded 4 y.natAbs).toList ++ rest).length := by
      rw [List.length_append]
      exact Nat.le_add_right _ _
    have hnumber := number_padded hlimit (.inr stops)
    rw [String.toList_append, List.append_assoc]
    split
    · have hy : -(y.natAbs : Int) = y := by omega
      have hsign : "-".toList = ['-'] := rfl
      rw [hsign, List.singleton_append, year, List.dropWhile_cons_of_neg (by decide)]
      simp only [hnumber, Except.map, bind, Except.bind, hy]
      exact if_pos hword
    · have hy : (y.natAbs : Int) = y := by omega
      have hsign : "+".toList = ['+'] := rfl
      rw [hsign, List.singleton_append, year, List.dropWhile_cons_of_neg (by decide)]
      simp only [hnumber, Except.map, bind, Except.bind, hy]
      exact if_pos hword

/-! ### Points in time -/

/-- A point in time that can be counted.  Only the last second of a minute may be longer. -/
structure Valid (t : Timestamp) : Prop where
  possible : isPossible t.seconds = true
  nanos : t.nanos < 1000000000 ∨ t.nanos < 2000000000 ∧ t.seconds % 60 = 59

theorem daysIn_le (year : Int) (month : Nat) : daysIn year month ≤ 31 := by
  rw [daysIn]
  split
  · split <;> decide
  · split <;> decide

/-- A date and a time of day are read from the texts of their parts. -/
private theorem parse_parts {text : String} {y : Int} {month day hour minute second nanos : Nat}
    (written : text.toList = (yearText y).toList ++ '-' :: ((padded 2 month).toList ++ '-' :: ((padded 2 day).toList ++ 'T' ::
      ((padded 2 hour).toList ++ ':' :: ((padded 2 minute).toList ++ ':' :: ((padded 2 second).toList ++
        ((fractionText nanos).toList ++ ['Z'])))))))
    (counted : isCounted y = true) (january : 1 ≤ month) (december : month ≤ 12) (first : 1 ≤ day)
    (last : day ≤ daysIn y month) (hours : hour ≤ 23) (minutes : minute ≤ 59) (seconds : second ≤ 60)
    (part : nanos < 1000000000)
    (possible : isPossible (daysOf y month day * 86400 + hour * 3600 + minute * 60 + (if second = 60 then 59 else second)) =
      true) :
    parse text = .ok ⟨daysOf y month day * 86400 + hour * 3600 + minute * 60 + (if second = 60 then 59 else second),
      if second = 60 then nanos + 1000000000 else nanos⟩ := by
  have hday : day ≤ 31 := Nat.le_trans last (daysIn_le y month)
  have hhyphen : ∀ s, mark '-' ('-' :: s) = .ok s := fun s => rfl
  have hcolon : ∀ s, mark ':' (':' :: s) = .ok s := fun s => rfl
  have hseparator : ∀ s, separator ('T' :: s) = .ok s := fun s => rfl
  have hblank : ['Z'].dropWhile isSpace = ['Z'] := rfl
  have hoffset : offset ['Z'] = .ok (0, []) := rfl
  have hyear := fun s => year_yearText counted (stops_cons (c := '-') rfl s)
  have hmonth' := bounded_padded (n := month) (by omega) january december
  have hday' := bounded_padded (n := day) (by omega) first hday
  have hhour' := bounded_padded (n := hour) (by omega) (Nat.zero_le _) hours
  have hminute' := bounded_padded (n := minute) (by omega) (Nat.zero_le _) minutes
  have hsecond' := bounded_padded (n := second) (by omega) (Nat.zero_le _) seconds
  simp only [parse, written, bind, Except.bind, hyear, hhyphen, hmonth', hday', hseparator, hhour', hcolon, hminute',
    hsecond', fraction_fractionText part, hblank, hoffset, Int.sub_zero, counted, possible]
  rw [if_neg (by decide), if_neg, if_neg (by decide)]
  · rfl
  · rintro (hcounted | hlast | hshift)
    · cases hcounted
    · exact Nat.not_lt.2 last hlast
    · exact absurd hshift (by decide)

/-- A point in time is written by the texts of its parts. -/
private theorem toList_text {t : Timestamp} {y : Int} {month day s : Nat} (date : dayOf (t.seconds / 86400) = (y, month, day))
    (time : (t.seconds % 86400).toNat = s) :
    (t.text ++ "Z").toList = (yearText y).toList ++ '-' :: ((padded 2 month).toList ++ '-' :: ((padded 2 day).toList ++ 'T' ::
      ((padded 2 (s / 3600)).toList ++ ':' :: ((padded 2 (s / 60 % 60)).toList ++ ':' ::
        ((padded 2 (s % 60 + if 1000000000 ≤ t.nanos then 1 else 0)).toList ++
          ((fractionText (if 1000000000 ≤ t.nanos then t.nanos - 1000000000 else t.nanos)).toList ++ ['Z'])))))) := by
  have hdays : t.seconds.fdiv 86400 = t.seconds / 86400 := Int.fdiv_eq_ediv_of_nonneg _ (by decide)
  have hseconds : t.seconds.fmod 86400 = t.seconds % 86400 := Int.fmod_eq_emod_of_nonneg _ (by decide)
  have hyear : (if 0 ≤ y ∧ y ≤ 9999 then padded 4 y.toNat else (if y < 0 then "-" else "+") ++ padded 4 y.natAbs) =
      yearText y := rfl
  have hmarks : "-".toList = ['-'] ∧ ":".toList = [':'] ∧ "T".toList = ['T'] ∧ "Z".toList = ['Z'] := ⟨rfl, rfl, rfl, rfl⟩
  simp only [text, hdays, hseconds, date, time, hyear, String.toList_append, List.append_assoc, hmarks.1, hmarks.2.1,
    hmarks.2.2.1, hmarks.2.2.2, List.cons_append, List.nil_append]

/-- A point in time that can be counted is read from its text. -/
theorem parse_text {t : Timestamp} (h : t.Valid) : parse (t.text ++ "Z") = .ok t := by
  obtain ⟨hpossible, hnanos⟩ := h
  obtain ⟨y, month, day, hdate⟩ : ∃ y month day, dayOf (t.seconds / 86400) = (y, month, day) := ⟨_, _, _, rfl⟩
  obtain ⟨s, hs⟩ : ∃ s, (t.seconds % 86400).toNat = s := ⟨_, rfl⟩
  have hbounds := hpossible
  simp only [isPossible, decide_eq_true_eq] at hbounds
  have hcounted := isCounted_dayOf (t.seconds / 86400) (by omega) (by omega)
  have hdays := daysOf_dayOf (t.seconds / 86400)
  obtain ⟨hjanuary, hdecember, hfirst, hlast⟩ := dayOf_bounds (t.seconds / 86400)
  rw [hdate] at hcounted hdays hjanuary hdecember hfirst hlast
  have hparse := parse_parts (toList_text hdate hs) hcounted hjanuary hdecember hfirst hlast (by omega) (by omega)
    (by split <;> omega) (by split <;> omega)
  by_cases hleap : 1000000000 ≤ t.nanos
  · have hlong : s % 60 = 59 := by omega
    have hsum : daysOf y month day * 86400 + (s / 3600 : Nat) * 3600 + (s / 60 % 60 : Nat) * 60 + (59 : Nat) = t.seconds := by
      simp only at hdays
      omega
    simp only [if_pos hleap, hlong, Nat.reduceAdd, if_true, hsum, Nat.sub_add_cancel hleap] at hparse
    exact hparse hpossible
  · have hshort : ¬ s % 60 = 60 := by omega
    have hsum : daysOf y month day * 86400 + (s / 3600 : Nat) * 3600 + (s / 60 % 60 : Nat) * 60 + (s % 60 : Nat) =
        t.seconds := by
      simp only at hdays
      omega
    simp only [if_neg hleap, Nat.add_zero, if_neg hshort, hsum] at hparse
    exact hparse hpossible

end SeriesRegion.Timestamp
