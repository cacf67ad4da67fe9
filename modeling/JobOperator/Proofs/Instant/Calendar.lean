import JobOperator.Instant.Basic

/-!
Days and their dates. A day number is split into eras of 400 years, centuries, spans of four years,
years and days; from the parts follow that the date exists and that it has the day number.
-/

namespace JobOperator.Date

/-- The day that lies `day` days after the first of March of a year. -/
def ofYearDay (year day : Int) : Date :=
  let month := (5 * day + 2) / 153
  { year := if month < 10 then year else year + 1
    month := (if month < 10 then month + 3 else month - 9).toNat
    day := (day - (153 * month + 2) / 5 + 1).toNat }

theorem dayNumber_ofYearDay {year day : Int} (h0 : 0 ≤ day) (h1 : day ≤ 365) :
    (ofYearDay year day).dayNumber =
      year / 400 * 146097 + year % 400 * 365 + year % 400 / 4 - year % 400 / 100 + day - epoch := by
  obtain ⟨month, hmonth⟩ : ∃ month, month = (5 * day + 2) / 153 := ⟨_, rfl⟩
  have hm0 : 0 ≤ month := by omega
  have hm1 : month ≤ 11 := by omega
  have hd : 0 ≤ day - (153 * month + 2) / 5 := by omega
  simp only [ofYearDay, dayNumber, ← hmonth]
  by_cases hm : month < 10
  · have hn : ¬ (month + 3).toNat ≤ 2 := by omega
    have hmod : (((month + 3).toNat : Int) + 9) % 12 = month := by omega
    simp only [if_pos hm, if_neg hn, hmod]
    omega
  · have hn : (month - 9).toNat ≤ 2 := by omega
    have hmod : (((month - 9).toNat : Int) + 9) % 12 = month := by omega
    have hy : year + 1 - 1 = year := by omega
    simp only [if_neg hm, if_pos hn, hmod, hy]
    omega

theorem month_ofYearDay {year day : Int} (h0 : 0 ≤ day) (h1 : day ≤ 365) :
    1 ≤ (ofYearDay year day).month ∧ (ofYearDay year day).month ≤ 12 := by
  simp only [ofYearDay]
  split <;> omega

theorem day_ofYearDay (year day : Int) :
    1 ≤ (ofYearDay year day).day ∧ (ofYearDay year day).day ≤ 31 := by
  simp only [ofYearDay]
  omega

/-- The calendar has every day of a year, and day 365 if the year ends with a leap day. -/
theorem exists_ofYearDay {year day : Int} (h0 : 0 ≤ day) (h1 : day ≤ 365)
    (hleap : day = 365 → isLeapYear (year + 1) = true) : (ofYearDay year day).Exists := by
  obtain ⟨month, hmonth⟩ : ∃ month, month = (5 * day + 2) / 153 := ⟨_, rfl⟩
  have hm : month = 0 ∨ month = 1 ∨ month = 2 ∨ month = 3 ∨ month = 4 ∨ month = 5 ∨ month = 6 ∨
      month = 7 ∨ month = 8 ∨ month = 9 ∨ month = 10 ∨ month = 11 := by omega
  simp only [Exists, ofYearDay, ← hmonth]
  -- one case for each month, of which only February needs the leap day
  rcases hm with rfl | rfl | rfl | rfl | rfl | rfl | rfl | rfl | rfl | rfl | rfl | rfl
  case inr.inr.inr.inr.inr.inr.inr.inr.inr.inr.inr =>
    simp only [daysInMonth, Int.reduceLT, if_false, Int.reduceSub, Int.reduceToNat]
    by_cases hd : day = 365
    · simp only [hleap hd, if_true]
      omega
    · split <;> omega
  all_goals
    simp [daysInMonth]
    omega

/-- The parts of a day number, each but the era in its range. -/
theorem ofDayNumber_eq (n : Int) : ∃ era century quad year day : Int,
    ofDayNumber n = ofYearDay (era * 400 + century * 100 + quad * 4 + year) day ∧
    n + epoch = era * 146097 + century * 36524 + quad * 1461 + year * 365 + day ∧
    (0 ≤ century ∧ century ≤ 3) ∧ (0 ≤ quad ∧ quad ≤ 24) ∧ (0 ≤ year ∧ year ≤ 3) ∧
    (0 ≤ day ∧ day ≤ 365) ∧ (day = 365 → year = 3 ∧ (quad = 24 → century = 3)) := by
  refine ⟨_, _, _, _, _, rfl, ?_⟩
  omega

theorem month_ofDayNumber (n : Int) : 1 ≤ (ofDayNumber n).month ∧ (ofDayNumber n).month ≤ 12 := by
  obtain ⟨era, century, quad, year, day, h, -, -, -, -, hd, -⟩ := ofDayNumber_eq n
  rw [h]
  exact month_ofYearDay hd.1 hd.2

theorem day_ofDayNumber (n : Int) : 1 ≤ (ofDayNumber n).day ∧ (ofDayNumber n).day ≤ 31 := by
  obtain ⟨era, century, quad, year, day, h, -⟩ := ofDayNumber_eq n
  rw [h]
  exact day_ofYearDay _ _

/-- Every day number is that of a day of the calendar. -/
theorem exists_ofDayNumber (n : Int) : (ofDayNumber n).Exists := by
  obtain ⟨era, century, quad, year, day, h, -, hc, hq, hy, hd, hlast⟩ := ofDayNumber_eq n
  rw [h]
  refine exists_ofYearDay hd.1 hd.2 fun hday => ?_
  obtain ⟨rfl, hcentury⟩ := hlast hday
  simp only [isLeapYear, Bool.and_eq_true, Bool.or_eq_true, beq_iff_eq, bne_iff_ne]
  omega

/-- A day number is that of its date. -/
theorem dayNumber_ofDayNumber (n : Int) : (ofDayNumber n).dayNumber = n := by
  obtain ⟨era, century, quad, year, day, h, hn, hc, hq, hy, hd, -⟩ := ofDayNumber_eq n
  rw [h, dayNumber_ofYearDay hd.1 hd.2]
  omega

end JobOperator.Date
