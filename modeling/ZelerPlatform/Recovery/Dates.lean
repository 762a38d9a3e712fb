import Mathlib.Tactic.IntervalCases
import ZelerPlatform.Recovery.Job

/-!
# Dates as texts

The civil date of a day determines the day, and a padded number the number, so that texts
composed of them name instants without ambiguity.
-/

namespace ZelerPlatform.Recovery

/-! ### Civil dates -/

/-- The day of a civil date. -/
def dayOf (date : Int × Int × Int) : Int :=
  let (year, month, day) := date
  let y := if month ≤ 2 then year - 1 else year
  let yoe := y % 400
  let mp := if month ≤ 2 then month + 9 else month - 3
  let doe := yoe * 365 + yoe / 4 - yoe / 100 + (153 * mp + 2) / 5 + day - 1
  y / 400 * 146097 + doe - 719468

/-- The year of an era of 400 years, and the day in that year, of a day of the era. -/
theorem year_of_era {doe yoe : Int} (h₀ : 0 ≤ doe) (h₁ : doe < 146097)
    (hyoe : yoe = (doe - doe / 1460 + doe / 36524 - doe / 146096) / 365) :
    0 ≤ yoe ∧ yoe ≤ 399 ∧ 0 ≤ doe - (365 * yoe + yoe / 4 - yoe / 100) ∧
      doe - (365 * yoe + yoe / 4 - yoe / 100) ≤ 365 := by
  have hyear : 0 ≤ yoe ∧ yoe ≤ 399 := by omega
  have hquads : yoe / 4 ≤ doe / 1460 ∧ doe / 1460 ≤ yoe / 4 + 1 := by omega
  have hcenturies : doe / 36524 - doe / 146096 = yoe / 100 := by
    obtain ⟨c, hc⟩ : ∃ c, c = doe / 36524 := ⟨_, rfl⟩
    have hlow : 0 ≤ c := by omega
    have hhigh : c ≤ 4 := by omega
    rw [← hc] at hyoe ⊢
    interval_cases c <;> omega
  omega

/-- The parts of the civil date of a day, with the month counted from March in a year that
begins with it. -/
theorem civil_parts (day : Int) : ∃ era yoe mp d : Int, 0 ≤ yoe ∧ yoe ≤ 399 ∧ 0 ≤ mp ∧ mp ≤ 11 ∧
    1 ≤ d ∧ d ≤ 31 ∧
    day = era * 146097 + (yoe * 365 + yoe / 4 - yoe / 100 + (153 * mp + 2) / 5 + d - 1) - 719468 ∧
    civil day =
      if mp < 10 then (yoe + era * 400, mp + 3, d) else (yoe + era * 400 + 1, mp - 9, d) := by
  let doe := (day + 719468) % 146097
  let yoe := (doe - doe / 1460 + doe / 36524 - doe / 146096) / 365
  let doy := doe - (365 * yoe + yoe / 4 - yoe / 100)
  let mp := (5 * doy + 2) / 153
  have hdoe : doe = (day + 719468) % 146097 := rfl
  have hdoy : doy = doe - (365 * yoe + yoe / 4 - yoe / 100) := rfl
  have hmp : mp = (5 * doy + 2) / 153 := rfl
  have hcivil : civil day =
      (yoe + (day + 719468) / 146097 * 400 +
          (if (if mp < 10 then mp + 3 else mp - 9) ≤ 2 then 1 else 0),
        if mp < 10 then mp + 3 else mp - 9, doy - (153 * mp + 2) / 5 + 1) := rfl
  have hyoe : yoe = (doe - doe / 1460 + doe / 36524 - doe / 146096) / 365 := rfl
  obtain ⟨hyoe₀, hyoe₁, hdoy₀, hdoy₁⟩ := year_of_era (by omega) (by omega) hyoe
  clear_value mp doy yoe doe
  refine ⟨(day + 719468) / 146097, yoe, mp, doy - (153 * mp + 2) / 5 + 1, hyoe₀, hyoe₁, ?_, ?_, ?_,
    ?_, ?_, ?_⟩
  · omega
  · omega
  · omega
  · omega
  · omega
  · rw [hcivil]
    by_cases h : mp < 10
    · have hmonth : ¬ mp + 3 ≤ 2 := by omega
      simp [h, hmonth]
    · have hmonth : mp - 9 ≤ 2 := by omega
      simp [h, hmonth]

theorem dayOf_civil (day : Int) : dayOf (civil day) = day := by
  obtain ⟨era, yoe, mp, d, hyoe₀, hyoe₁, hmp₀, hmp₁, -, -, hday, hcivil⟩ := civil_parts day
  rw [hcivil]
  by_cases h : mp < 10
  · have hmonth : ¬ mp + 3 ≤ 2 := by omega
    simp only [if_pos h, dayOf, if_neg hmonth]
    omega
  · have hmonth : mp - 9 ≤ 2 := by omega
    simp only [if_neg h, dayOf, if_pos hmonth]
    omega

theorem civil_inj {a b : Int} (h : civil a = civil b) : a = b := by
  rw [← dayOf_civil a, h, dayOf_civil]

/-- The parts of a date, in the years that have at most four digits. -/
theorem civil_bounds {day : Int} (low : -719162 ≤ day) (high : day ≤ 2932896) :
    (0 ≤ (civil day).1 ∧ (civil day).1 < 10000) ∧ (0 ≤ (civil day).2.1 ∧ (civil day).2.1 < 100) ∧
      0 ≤ (civil day).2.2 ∧ (civil day).2.2 < 100 := by
  obtain ⟨era, yoe, mp, d, hyoe₀, hyoe₁, hmp₀, hmp₁, hd₀, hd₁, hday, hcivil⟩ := civil_parts day
  rw [hcivil]
  by_cases h : mp < 10
  · simp only [if_pos h]
    omega
  · simp only [if_neg h]
    omega

/-! ### Padded numbers -/

/-- The digits of a padded number. -/
theorem padded_toList (width n : Nat) :
    (padded width n).toList =
      List.replicate (width - (Nat.toDigits 10 n).length) '0' ++ Nat.toDigits 10 n := by
  have hstring : toString (n : Int) = n.repr := rfl
  rw [padded, hstring, String.toList_append, String.toList_ofList, Nat.toList_repr,
    ← Nat.toList_repr, String.length_toList]

theorem padded_inj {width : Nat} {m n : Int} (hm : 0 ≤ m) (hn : 0 ≤ n)
    (h : padded width m = padded width n) : m = n := by
  obtain ⟨m, rfl⟩ := Int.eq_ofNat_of_zero_le hm
  obtain ⟨n, rfl⟩ := Int.eq_ofNat_of_zero_le hn
  have hvalue (k : Nat) : Nat.ofDigitChars 10 (padded width k).toList 0 = k := by
    rw [padded_toList, Nat.ofDigitChars_append, Nat.ofDigitChars_replicate_zero, Nat.mul_zero,
      Nat.ofDigitChars_ten_toDigits]
  have hnat : m = n := by
    rw [← hvalue m, ← hvalue n]
    exact congrArg (fun s : String => Nat.ofDigitChars 10 s.toList 0) h
  rw [hnat]

/-- A number of at most `width` digits is padded to just so many. -/
theorem padded_length {width : Nat} {n : Int} (positive : 0 < width) (hn : 0 ≤ n)
    (hlt : n < 10 ^ width) : (padded width n).toList.length = width := by
  obtain ⟨n, rfl⟩ := Int.eq_ofNat_of_zero_le hn
  have hdigits : (Nat.toDigits 10 n).length ≤ width :=
    (Nat.length_toDigits_le_iff (by decide) positive).mpr (by exact_mod_cast hlt)
  rw [padded_toList, List.length_append, List.length_replicate]
  omega

/-- A padded number has nothing but digits. -/
theorem isDigit_of_mem_padded {width : Nat} {n : Int} (hn : 0 ≤ n) {c : Char}
    (mem : c ∈ (padded width n).toList) : c.isDigit := by
  obtain ⟨n, rfl⟩ := Int.eq_ofNat_of_zero_le hn
  rw [padded_toList, List.mem_append] at mem
  obtain mem | mem := mem
  · rw [List.eq_of_mem_replicate mem]
    rfl
  · exact Nat.isDigit_of_mem_toDigits (by decide) (by decide) mem

end ZelerPlatform.Recovery
