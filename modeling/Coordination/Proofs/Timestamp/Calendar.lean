import Coordination.Timestamp
import Mathlib.Data.List.Basic

/-!
# Days and dates

The date of a day tells which day it is (`CalendarDate.toDays_ofDays`). Years are counted
from March within cycles of 400, so a day of a cycle lies in the year that starts last
before it, and on at most its 366th day (`yearOfCycle_bounds`).
-/

namespace Coordination.CalendarDate

/-- The day of its cycle on which a year of it starts. -/
def yearStart (year : Int) : Int := 365 * year + year / 4 - year / 100

/-- The year in which a day of a cycle lies starts no later and at most 365 days before. -/
theorem yearOfCycle_bounds {day : Int} (hfirst : 0 ≤ day) (hlast : day < 146097) {year : Int}
    (hyear : year = (day - day / 1460 + day / 36524 - day / 146096) / 365) :
    0 ≤ year ∧ year < 400 ∧ yearStart year ≤ day ∧ day ≤ yearStart year + 365 := by
  obtain ⟨century, hcentury⟩ : ∃ century, century = day / 36524 := ⟨_, rfl⟩
  obtain ⟨leaps, hleaps⟩ : ∃ leaps, leaps = (day - 36524 * century) / 1461 := ⟨_, rfl⟩
  unfold yearStart
  -- The last day of a cycle is the only one behind its fourth century.
  rcases (by omega : century ≤ 3 ∨ day = 146096) with hbefore | rfl
  · have hquarter : day / 1460 = 25 * century + leaps ∨ day / 1460 = 25 * century + leaps + 1 := by
      omega
    have hlate : day / 146096 = 0 := by omega
    have hodd : year - 100 * century - 4 * leaps = 0 ∨ year - 100 * century - 4 * leaps = 1 ∨
        year - 100 * century - 4 * leaps = 2 ∨ year - 100 * century - 4 * leaps = 3 := by
      omega
    have hfour : year / 4 = 25 * century + leaps := by omega
    have hhundred : year / 100 = century := by omega
    rw [hfour, hhundred]
    omega
  · subst hyear
    decide

/-- The date of a day is that of this day alone. -/
theorem toDays_ofDays (days : Int) : (ofDays days).toDays = days := by
  obtain ⟨cycle, hcycle⟩ : ∃ cycle, cycle = (days + 719468) / 146097 := ⟨_, rfl⟩
  obtain ⟨day, hday⟩ : ∃ day, day = (days + 719468) % 146097 := ⟨_, rfl⟩
  obtain ⟨year, hyear⟩ : ∃ year, year =
    (day - day / 1460 + day / 36524 - day / 146096) / 365 := ⟨_, rfl⟩
  obtain ⟨dayOfYear, hdayOfYear⟩ : ∃ dayOfYear, dayOfYear = day - yearStart year := ⟨_, rfl⟩
  obtain ⟨month, hmonth⟩ : ∃ month, month = (5 * dayOfYear + 2) / 153 := ⟨_, rfl⟩
  obtain ⟨hleast, hmost, hstart, hend⟩ :=
    yearOfCycle_bounds (by omega) (by omega : day < 146097) hyear
  have hdate : ofDays days =
      if month < 10 then
        ⟨cycle * 400 + year, (month + 3).toNat, (dayOfYear - (153 * month + 2) / 5 + 1).toNat⟩
      else
        ⟨cycle * 400 + year + 1, (month - 9).toNat,
          (dayOfYear - (153 * month + 2) / 5 + 1).toNat⟩ := by
    rw [hmonth, hdayOfYear, yearStart, hyear, hday, hcycle]
    rfl
  have hdays : cycle * 146097 + (yearStart year + dayOfYear) - 719468 = days := by omega
  have hmonths : 0 ≤ month ∧ month ≤ 11 := by omega
  have hdayNat : ((dayOfYear - (153 * month + 2) / 5 + 1).toNat : Int) =
      dayOfYear - (153 * month + 2) / 5 + 1 := Int.toNat_of_nonneg (by omega)
  have hof : (cycle * 400 + year) / 400 = cycle ∧ (cycle * 400 + year) % 400 = year := by omega
  have hback : (153 * month + 2) / 5 + (dayOfYear - (153 * month + 2) / 5 + 1) - 1 = dayOfYear := by
    omega
  rw [hdate, ← hdays, yearStart]
  split
  next hspring =>
    have hmonthNat : ((month + 3).toNat : Int) - 3 = month := by omega
    have hlate : ¬ (month + 3).toNat ≤ 2 := by omega
    simp only [toDays, if_neg hlate, hof, hmonthNat, hdayNat, hback, Int.mul_comm year 365]
  next hwinter =>
    have hmonthNat : ((month - 9).toNat : Int) + 9 = month := by omega
    have hearly : (month - 9).toNat ≤ 2 := by omega
    simp only [toDays, if_pos hearly, Int.add_sub_cancel, hof, hmonthNat, hdayNat, hback,
      Int.mul_comm year 365]

end Coordination.CalendarDate
