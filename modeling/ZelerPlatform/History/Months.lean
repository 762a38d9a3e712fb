import ZelerPlatform.History.Onboarding
import ZelerPlatform.Recovery.Dates

/-!
# Months of the calendar

A civil date is the date of its day, and the first days of the months follow one another by
the lengths of the months.
-/

namespace ZelerPlatform.History.Pilot

open Onboarding (isLeap monthLength)
open Recovery (dayOf)

theorem isLeap_iff {year : Int} : isLeap year = true ↔
    year % 4 = 0 ∧ (year % 100 ≠ 0 ∨ year % 400 = 0) := by
  simp [isLeap]

theorem monthLength_mem (year month : Int) :
    28 ≤ monthLength year month ∧ monthLength year month ≤ 31 := by
  rw [monthLength]
  split
  · split <;> omega
  · split <;> omega

/-- The year of an era, from the day of the era that a day of that year is. -/
theorem year_of_doe {yoe doy doe : Int} (h₀ : 0 ≤ yoe) (h₁ : yoe ≤ 399) (hdoy : 0 ≤ doy)
    (hlast : doy ≤ 364 ∨ doy = 365 ∧ (yoe + 1) % 4 = 0 ∧ ((yoe + 1) % 100 ≠ 0 ∨ yoe = 399))
    (hdoe : doe = yoe * 365 + yoe / 4 - yoe / 100 + doy) :
    (doe - doe / 1460 + doe / 36524 - doe / 146096) / 365 = yoe ∧ 0 ≤ doe ∧ doe < 146097 := by
  obtain ⟨c, u, hc₀, hc₁, hu₀, hu₁, hyoe⟩ : ∃ c u : Int, 0 ≤ c ∧ c ≤ 3 ∧ 0 ≤ u ∧ u ≤ 99 ∧
      yoe = 100 * c + u := ⟨yoe / 100, yoe % 100, by omega, by omega, by omega, by omega, by omega⟩
  have hsum : doe = 36524 * c + (365 * u + u / 4 + doy) := by omega
  have hrest : 365 * u + u / 4 + doy ≤ 36523 ∨ c = 3 ∧ 365 * u + u / 4 + doy = 36524 := by omega
  have hcent : doe / 36524 - doe / 146096 = c := by omega
  refine ⟨?_, by omega, by omega⟩
  omega

/-- The month of a year that begins with March, from a day of that year. -/
theorem month_of_doy {mp day : Int} (hmp : 0 ≤ mp ∧ mp ≤ 11) (hday : 1 ≤ day ∧ day ≤ 31)
    (short : mp = 1 ∨ mp = 3 ∨ mp = 6 ∨ mp = 8 → day ≤ 30) (last : mp = 11 → day ≤ 29) :
    (5 * ((153 * mp + 2) / 5 + day - 1) + 2) / 153 = mp := by
  obtain ⟨hlow, hhigh⟩ := hmp
  interval_cases mp <;> omega

theorem civil_dayOf {year month day : Int} (hmonth : 1 ≤ month ∧ month ≤ 12)
    (hday : 1 ≤ day ∧ day ≤ monthLength year month) :
    Recovery.civil (Recovery.dayOf (year, month, day)) = (year, month, day) := by
  obtain ⟨y, hy⟩ : ∃ y, y = if month ≤ 2 then year - 1 else year := ⟨_, rfl⟩
  obtain ⟨mp, hmp⟩ : ∃ mp, mp = if month ≤ 2 then month + 9 else month - 3 := ⟨_, rfl⟩
  have hleap := @isLeap_iff year
  have hlength : day ≤ (if month = 2 then
      (if year % 4 = 0 ∧ (year % 100 ≠ 0 ∨ year % 400 = 0) then 29 else 28)
      else if month = 4 ∨ month = 6 ∨ month = 9 ∨ month = 11 then 30 else 31) := by
    have := hday.2
    rw [monthLength] at this
    simpa only [hleap] using this
  have hdoy : 0 ≤ (153 * mp + 2) / 5 + day - 1 := by split at hmp <;> omega
  have hlast : (153 * mp + 2) / 5 + day - 1 ≤ 364 ∨ (153 * mp + 2) / 5 + day - 1 = 365 ∧
      (y % 400 + 1) % 4 = 0 ∧ ((y % 400 + 1) % 100 ≠ 0 ∨ y % 400 = 399) := by
    split at hmp <;> split at hy <;> split_ifs at hlength <;> omega
  obtain ⟨hyear, hlow, hhigh⟩ := @year_of_doe (y % 400) _ _ (by omega) (by omega) hdoy hlast rfl
  have hz : Recovery.dayOf (year, month, day) + 719468 = y / 400 * 146097 +
      (y % 400 * 365 + y % 400 / 4 - y % 400 / 100 + ((153 * mp + 2) / 5 + day - 1)) := by
    rw [Recovery.dayOf, ← hy, ← hmp]
    omega
  have hera : (dayOf (year, month, day) + 719468) / 146097 = y / 400 := by omega
  have hdoe : (dayOf (year, month, day) + 719468) % 146097 =
      y % 400 * 365 + y % 400 / 4 - y % 400 / 100 + ((153 * mp + 2) / 5 + day - 1) := by omega
  have hday₁ : day ≤ 31 := by split_ifs at hlength <;> omega
  have hmonth' := @month_of_doy mp day (by split at hmp <;> omega) ⟨hday.1, hday₁⟩
    (by split at hmp <;> split_ifs at hlength <;> omega)
    (by split at hmp <;> split_ifs at hlength <;> omega)
  generalize hdoy' : (153 * mp + 2) / 5 + day - 1 = doy at *
  generalize hdoe' : y % 400 * 365 + y % 400 / 4 - y % 400 / 100 + doy = doe at *
  have hrest : doe - (365 * (y % 400) + y % 400 / 4 - y % 400 / 100) = doy := by omega
  rw [Recovery.civil]
  simp only [hera, hdoe, hyear, hrest, hmonth']
  refine Prod.ext ?_ (Prod.ext ?_ ?_)
  · split at hmp <;> split at hy <;> split_ifs <;> simp only <;> omega
  · split at hmp <;> split_ifs <;> simp only <;> omega
  · simp only
    omega

/-- The first day of a month, counted from the beginning of year 0. -/
def monthStart (k : Int) : Int := dayOf (k / 12, k % 12 + 1, 1)

theorem monthStart_succ (k : Int) :
    monthStart (k + 1) = monthStart k + monthLength (k / 12) (k % 12 + 1) := by
  obtain ⟨y, r, hr₀, hr₁, hy, hr⟩ : ∃ y r : Int, 0 ≤ r ∧ r < 12 ∧ k / 12 = y ∧ k % 12 = r :=
    ⟨_, _, by omega, by omega, rfl, rfl⟩
  obtain rfl : k = 12 * y + r := by omega
  have hleap := @isLeap_iff y
  rw [monthStart, monthStart, hy, hr]
  cases h : isLeap y with
  | true =>
      have hyear := hleap.mp h
      interval_cases r <;> simp only [monthLength, h] <;> simp [dayOf] <;> omega
  | false =>
      have hyear : ¬ (y % 4 = 0 ∧ (y % 100 ≠ 0 ∨ y % 400 = 0)) :=
        fun hcommon => Bool.false_ne_true (h.symm.trans (hleap.mpr hcommon))
      interval_cases r <;> simp only [monthLength, h] <;> simp [dayOf] <;> omega

theorem monthStart_strictMono : StrictMono monthStart := by
  refine strictMono_int_of_lt_succ fun k => ?_
  have := (monthLength_mem (k / 12) (k % 12 + 1)).1
  rw [monthStart_succ]
  omega

theorem dayOf_eq {year month day : Int} (h : 1 ≤ month ∧ month ≤ 12) :
    dayOf (year, month, day) = monthStart (12 * year + (month - 1)) + (day - 1) := by
  have hyear : (12 * year + (month - 1)) / 12 = year := by omega
  have hmonth : (12 * year + (month - 1)) % 12 + 1 = month := by omega
  rw [monthStart, hyear, hmonth]
  simp only [dayOf]
  omega

end ZelerPlatform.History.Pilot
