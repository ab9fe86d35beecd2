import SeriesRegion.Text.Timestamp
import Mathlib.Tactic.IntervalCases

/-!
# Days of the calendar

The day of a number of days from the beginning of 1970 is a day of its month, and as many days from the beginning of 1970
(`Timestamp.daysOf_dayOf`).  Years are counted from March, and 400 of them are an era of 146097 days.
-/

namespace SeriesRegion.Timestamp

/-- Within a century: which year of it a day falls into, of the `q`-th four years. -/
private theorem year_of_century {b q t : Nat} (century : b ≤ 3) (days : 1461 * q + t < 36524) (short : t < 1461) :
    ∃ s ≤ 3, (36524 * b + 1461 * q + t - (36524 * b + 1461 * q + t) / 1460 + b) / 365 = 100 * b + 4 * q + s ∧
      365 * s ≤ t ∧ t < 365 * s + 365 + s / 3 := by
  obtain ⟨e, he, hle, hlast⟩ :
      ∃ e, (36524 * b + 1461 * q + t) / 1460 = 25 * b + q + e ∧ e ≤ 1 ∧ (e = 1 → 1364 ≤ t) :=
    ⟨(24 * b + q + t) / 1460, by omega, by omega, by omega⟩
  rw [he]
  exact ⟨(t - e) / 365, by omega, by omega, by omega, by omega⟩

/-- A day of an era falls into one of its years. -/
private theorem year_of_era (doe : Nat) (h : doe < 146097) :
    ∃ y ≤ 399, (doe - doe / 1460 + doe / 36524 - doe / 146096) / 365 = y ∧ 365 * y + y / 4 - y / 100 ≤ doe ∧
      doe < 365 * y + y / 4 - y / 100 +
        (if (y + 1) % 4 = 0 ∧ ((y + 1) % 100 ≠ 0 ∨ y = 399) then 366 else 365) := by
  obtain ⟨b, hb⟩ : ∃ b, doe / 36524 = b := ⟨_, rfl⟩
  by_cases hlast : b = 4
  · obtain rfl : doe = 146096 := by omega
    exact ⟨399, by omega, by omega, by omega, by decide⟩
  · obtain ⟨q, t, ht, rfl⟩ : ∃ q t, t < 1461 ∧ doe = 36524 * b + 1461 * q + t :=
      ⟨(doe - 36524 * b) / 1461, (doe - 36524 * b) % 1461, by omega, by omega⟩
    have hb' : b ≤ 3 := by omega
    have hdays : 1461 * q + t < 36524 := by omega
    obtain ⟨s, hs, hyear, hlow, hhigh⟩ := year_of_century hb' hdays ht
    have hera : (36524 * b + 1461 * q + t) / 146096 = 0 := by omega
    have hquarters : (100 * b + 4 * q + s) / 4 = 25 * b + q := by omega
    have hcenturies : (100 * b + 4 * q + s) / 100 = b := by omega
    have hfirst : 365 * (100 * b + 4 * q + s) + (25 * b + q) - b = 36524 * b + 1461 * q + 365 * s := by omega
    refine ⟨100 * b + 4 * q + s, by omega, ?_, ?_, ?_⟩
    · rw [hera, hb, Nat.sub_zero, hyear]
    · rw [hquarters, hcenturies, hfirst]
      omega
    · rw [hquarters, hcenturies, hfirst]
      -- The last of four years is longer, but not at the end of a century, except for the last of the era.
      by_cases hlong : t < 365 * s + 365
      · have hleast : ∀ p : Prop, [Decidable p] → 365 ≤ if p then 366 else 365 := by
          intro p _
          split <;> decide
        exact Nat.lt_of_lt_of_le (by omega) (Nat.add_le_add_left (hleast _) _)
      · obtain rfl : s = 3 := by omega
        have hfour : (100 * b + 4 * q + 3 + 1) % 4 = 0 := by omega
        rw [if_pos ⟨hfour, by omega⟩]
        omega

/-- A day of a year falls into one of its months, of which only the last one has a length that depends on the year. -/
private theorem day_of_year {doy : Nat} (year : Int) (h : doy ≤ 365) (last : doy ≤ 364 ∨ isLeap year = true) :
    ∃ m d, (5 * doy + 2) / 153 = m ∧ doy = (153 * m + 2) / 5 + d ∧ m ≤ 11 ∧ doy < (153 * m + 155) / 5 ∧
      d < daysIn year (if m < 10 then m + 3 else m - 9) := by
  obtain ⟨m, hm⟩ : ∃ m, (5 * doy + 2) / 153 = m := ⟨_, rfl⟩
  have hle : m ≤ 11 := by omega
  refine ⟨m, doy - (153 * m + 2) / 5, hm, by omega, hle, by omega, ?_⟩
  by_cases hfebruary : m = 11
  · subst hfebruary
    show doy - 337 < if isLeap year then 29 else 28
    obtain hlast | hlast := last
    · split <;> omega
    · rw [if_pos hlast]
      omega
  · have hlength : doy - (153 * m + 2) / 5 < if m = 1 ∨ m = 3 ∨ m = 6 ∨ m = 8 then 30 else 31 := by
      interval_cases m <;> simp at hfebruary ⊢ <;> omega
    interval_cases m <;> first | exact hlength | exact absurd rfl hfebruary

private theorem isLeap_era {y : Nat} (h : y ≤ 399) (era : Int) :
    isLeap (y + era * 400 + 1) = true ↔ (y + 1) % 4 = 0 ∧ ((y + 1) % 100 ≠ 0 ∨ y = 399) := by
  simp only [isLeap, decide_eq_true_eq]
  omega

/-- The length of a month does not depend on the year, except for February. -/
private theorem daysIn_congr {month : Nat} (h : month ≠ 2) (year year' : Int) : daysIn year month = daysIn year' month := by
  rw [daysIn, if_neg h, daysIn, if_neg h]

/-- The era, the year from March, the month from March and the day within it of a number of days. -/
private theorem dayOf_eq (days : Int) : ∃ (era : Int) (y m d : Nat), y ≤ 399 ∧ m ≤ 11 ∧
    days = 146097 * era + (365 * y + y / 4 - y / 100 : Nat) + ((153 * m + 2) / 5 : Nat) + d - 719468 ∧
    (153 * m + 2) / 5 + d < (153 * m + 155) / 5 ∧
    dayOf days = ((y : Int) + era * 400 + (if 10 ≤ m then 1 else 0), if m < 10 then m + 3 else m - 9, d + 1) ∧
    d < daysIn ((y : Int) + era * 400 + (if 10 ≤ m then 1 else 0)) (if m < 10 then m + 3 else m - 9) := by
  obtain ⟨era, hera⟩ : ∃ era, (days + 719468).fdiv 146097 = era := ⟨_, rfl⟩
  obtain ⟨doe, hdoe⟩ : ∃ doe, (days + 719468 - era * 146097).toNat = doe := ⟨_, rfl⟩
  have hera' := hera
  rw [Int.fdiv_eq_ediv_of_nonneg _ (by decide)] at hera'
  obtain ⟨y, hy, hyear, hlow, hhigh⟩ := year_of_era doe (by omega)
  obtain ⟨doy, hdoy⟩ : ∃ doy, doe - (365 * y + y / 4 - y / 100) = doy := ⟨_, rfl⟩
  have hlast : doy ≤ 364 ∨ isLeap (y + era * 400 + 1) = true := by
    rw [isLeap_era hy]
    split at hhigh
    · rename_i hleap
      exact .inr hleap
    · left
      omega
  obtain ⟨m, d, hmonth, hday, hm, hnext, hlength⟩ := day_of_year _ (by split at hhigh <;> omega) hlast
  refine ⟨era, y, m, d, hy, hm, by omega, by omega, ?_, ?_⟩
  · have hd : doy - (153 * m + 2) / 5 = d := by omega
    simp only [dayOf, hera, hdoe, hyear, hdoy, hmonth, hd]
    by_cases hten : 10 ≤ m
    · rw [if_pos hten, if_neg (Nat.not_lt.2 hten), if_pos (by omega)]
    · rw [if_neg hten, if_pos (Nat.lt_of_not_le hten), if_neg (by omega)]
  · by_cases hten : 10 ≤ m
    · rwa [if_pos hten]
    · rw [if_neg hten, if_pos (Nat.lt_of_not_le hten)]
      rw [if_pos (Nat.lt_of_not_le hten)] at hlength
      rwa [daysIn_congr (by omega) _ (y + era * 400 + 1)]

/-- The number of days of a day whose year and month are counted from March. -/
private theorem daysOf_march (year : Int) {m : Nat} (h : m ≤ 11) (day : Nat) :
    daysOf (year + (if 10 ≤ m then 1 else 0)) (if m < 10 then m + 3 else m - 9) day =
      365 * year + year / 4 - year / 100 + year / 400 + ((153 * m + 2) / 5 : Nat) + day - 719469 := by
  have hfour : year.fdiv 4 = year / 4 := Int.fdiv_eq_ediv_of_nonneg _ (by decide)
  have hcentury : year.fdiv 100 = year / 100 := Int.fdiv_eq_ediv_of_nonneg _ (by decide)
  have hera : year.fdiv 400 = year / 400 := Int.fdiv_eq_ediv_of_nonneg _ (by decide)
  rw [daysOf]
  by_cases hten : 10 ≤ m
  · have hmonth : m - 9 + 9 = m := by omega
    simp only [if_pos hten, if_neg (Nat.not_lt.2 hten), if_pos (show m - 9 ≤ 2 by omega), Int.add_sub_cancel, hfour, hcentury,
      hera, hmonth]
  · simp only [if_neg hten, if_pos (Nat.lt_of_not_le hten), if_neg (show ¬ m + 3 ≤ 2 by omega), Int.add_zero,
      Nat.add_sub_cancel, hfour, hcentury, hera]

/-- The day of a number of days is that many days from the beginning of 1970. -/
theorem daysOf_dayOf (days : Int) : daysOf (dayOf days).1 (dayOf days).2.1 (dayOf days).2.2 = days := by
  obtain ⟨era, y, m, d, hy, hm, hdays, -, heq, -⟩ := dayOf_eq days
  have hyear : (y + era * 400 : Int) / 4 = (y / 4 : Nat) + era * 100 ∧
      (y + era * 400 : Int) / 100 = (y / 100 : Nat) + era * 4 ∧ (y + era * 400 : Int) / 400 = era := by omega
  rw [heq]
  refine (daysOf_march _ hm (d + 1)).trans ?_
  rw [hyear.1, hyear.2.1, hyear.2.2, hdays]
  omega

/-- The day of a number of days is a day of its month. -/
theorem dayOf_bounds (days : Int) : 1 ≤ (dayOf days).2.1 ∧ (dayOf days).2.1 ≤ 12 ∧ 1 ≤ (dayOf days).2.2 ∧
    (dayOf days).2.2 ≤ daysIn (dayOf days).1 (dayOf days).2.1 := by
  obtain ⟨era, y, m, d, -, hm, -, -, heq, hlength⟩ := dayOf_eq days
  rw [heq]
  refine ⟨?_, ?_, Nat.succ_pos d, hlength⟩ <;> dsimp only <;> split <;> omega

/-- The days of a year that is counted are those between its bounds. -/
theorem isCounted_dayOf (days : Int) (low : daysOf (-262143) 1 1 ≤ days) (high : days < daysOf 262143 1 1) :
    isCounted (dayOf days).1 = true := by
  obtain ⟨era, y, m, d, hy, hm, hdays, hnext, heq, -⟩ := dayOf_eq days
  -- January is the tenth month from March.
  have hlow := daysOf_march (-262144) (m := 10) (by decide) 1
  have hhigh := daysOf_march 262142 (m := 10) (by decide) 1
  simp only [Nat.reduceLeDiff, if_true, Nat.lt_irrefl, if_false, Int.reduceAdd, Int.reduceNeg, Nat.reduceSub] at hlow hhigh
  rw [hlow] at low
  rw [hhigh] at high
  have hfirst : -262144 ≤ y + era * 400 ∧ (m < 10 → -262143 ≤ y + era * 400) := by
    have hera : -656 ≤ era := by omega
    obtain hera | hera := Int.lt_or_eq_of_le hera <;> omega
  have hlast : y + era * 400 ≤ 262142 ∧ (10 ≤ m → y + era * 400 ≤ 262141) := by
    have hera : era ≤ 655 := by omega
    obtain hera | hera := Int.lt_or_eq_of_le hera <;> omega
  rw [heq, isCounted, decide_eq_true_eq]
  by_cases hten : 10 ≤ m
  · simp only [if_pos hten]
    omega
  · simp only [if_neg hten]
    omega

end SeriesRegion.Timestamp
