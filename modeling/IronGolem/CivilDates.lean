import IronGolem.TimestampOrder

/-!
The date of a day number, and its way back. Days are counted from the start of year 0. The year is
estimated from the mean length of a year and is then off by at most one; the month is found by
walking through the months of the year.
-/
namespace IronGolem.CivilDates

open Rfc3339 TimestampOrder

structure Date where
  year : ℤ
  month : ℕ
  day : ℕ
  month_mem : 1 ≤ month ∧ month ≤ 12
  day_mem : 1 ≤ day ∧ day ≤ daysIn year month

def Date.days (d : Date) : ℤ := daysBeforeYear d.year + daysBeforeMonth d.year d.month + d.day - 1

def yearEstimate (n : ℤ) : ℤ := 400 * (n - 2) / 146097

def yearOf (n : ℤ) : ℤ :=
  if daysBeforeYear (yearEstimate n + 1) ≤ n then yearEstimate n + 1 else yearEstimate n

variable (n : ℤ)

theorem daysBeforeYear_estimate :
    daysBeforeYear (yearEstimate n) ≤ n ∧ n < daysBeforeYear (yearEstimate n + 1 + 1) := by
  have hestimate : yearEstimate n = 400 * (n - 2) / 146097 := rfl
  unfold daysBeforeYear
  constructor <;> omega

theorem daysBeforeYear_yearOf :
    daysBeforeYear (yearOf n) ≤ n ∧ n < daysBeforeYear (yearOf n + 1) := by
  obtain ⟨hlow, hhigh⟩ := daysBeforeYear_estimate n
  unfold yearOf
  split
  · exact ⟨by assumption, hhigh⟩
  · exact ⟨hlow, by omega⟩

/-- The month and the day of the month that come some days after the start of a month. -/
def monthDay (year : ℤ) : ℕ → ℕ → ℕ → ℕ × ℕ
  | 0, month, day => (month, day + 1)
  | left + 1, month, day =>
      if day < daysIn year month then (month, day + 1)
      else monthDay year left (month + 1) (day - daysIn year month)

theorem monthDay_spec {year : ℤ} (left month day : ℕ) (hmonth : 1 ≤ month)
    (hday : daysBeforeMonth year month + day < daysBeforeMonth year (month + left + 1)) :
    (month ≤ (monthDay year left month day).1 ∧ (monthDay year left month day).1 ≤ month + left) ∧
    (1 ≤ (monthDay year left month day).2 ∧
      (monthDay year left month day).2 ≤ daysIn year (monthDay year left month day).1) ∧
    daysBeforeMonth year (monthDay year left month day).1 + (monthDay year left month day).2 =
      daysBeforeMonth year month + day + 1 := by
  induction left generalizing month day with
  | zero =>
    rw [Nat.add_zero, daysBeforeMonth_succ year hmonth] at hday
    exact ⟨⟨le_rfl, le_rfl⟩, ⟨by simp [monthDay], by simp only [monthDay]; omega⟩,
      (Nat.add_assoc _ _ _).symm⟩
  | succ left ih =>
    simp only [monthDay]
    split
    · rename_i hlt
      exact ⟨⟨le_rfl, by omega⟩, ⟨by simp, hlt⟩, (Nat.add_assoc _ _ _).symm⟩
    · have hsucc := daysBeforeMonth_succ year hmonth
      have hnext : daysBeforeMonth year (month + 1) + (day - daysIn year month) <
          daysBeforeMonth year (month + 1 + left + 1) := by
        rw [show month + 1 + left + 1 = month + (left + 1) + 1 by omega]
        omega
      obtain ⟨hm, hd, hsum⟩ := ih (month + 1) (day - daysIn year month) (by omega) hnext
      exact ⟨⟨by omega, by omega⟩, hd, by omega⟩

def yearDay (n : ℤ) : ℕ := (n - daysBeforeYear (yearOf n)).toNat

theorem yearDay_eq : (yearDay n : ℤ) = n - daysBeforeYear (yearOf n) := by
  have h := (daysBeforeYear_yearOf n).1
  unfold yearDay
  omega

theorem yearDay_lt :
    daysBeforeMonth (yearOf n) 1 + yearDay n < daysBeforeMonth (yearOf n) (1 + 11 + 1) := by
  have hspan := daysBeforeYear_succ (yearOf n)
  have hlt := (daysBeforeYear_yearOf n).2
  have heq := yearDay_eq n
  have hfirst : daysBeforeMonth (yearOf n) 1 = 0 := rfl
  have hlast : daysBeforeMonth (yearOf n) (1 + 11 + 1) = daysBeforeMonth (yearOf n) 13 := rfl
  omega

def dateOf (n : ℤ) : Date where
  year := yearOf n
  month := (monthDay (yearOf n) 11 1 (yearDay n)).1
  day := (monthDay (yearOf n) 11 1 (yearDay n)).2
  month_mem := (monthDay_spec 11 1 (yearDay n) le_rfl (yearDay_lt n)).1
  day_mem := (monthDay_spec 11 1 (yearDay n) le_rfl (yearDay_lt n)).2.1

theorem days_dateOf : (dateOf n).days = n := by
  have hsum := (monthDay_spec 11 1 (yearDay n) le_rfl (yearDay_lt n)).2.2
  have hfirst : daysBeforeMonth (yearOf n) 1 = 0 := rfl
  have heq := yearDay_eq n
  unfold Date.days dateOf
  simp only
  omega

end IronGolem.CivilDates
