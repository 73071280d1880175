import Mathlib.Algebra.Order.Ring.Int
import Mathlib.Tactic.IntervalCases

/-!
# The Gregorian calendar

Dates of the proleptic calendar, and the number of a day from the first of 1970. Dates and numbers
are in the same order, so that a number has one date.
-/

set_option autoImplicit false

namespace Calendar

def isLeap (year : ℤ) : Bool := year % 4 = 0 && (year % 100 ≠ 0 || year % 400 = 0)

def monthLength (year : ℤ) : ℕ → ℕ
  | 1 => 31
  | 2 => if isLeap year then 29 else 28
  | 3 => 31
  | 4 => 30
  | 5 => 31
  | 6 => 30
  | 7 => 31
  | 8 => 31
  | 9 => 30
  | 10 => 31
  | 11 => 30
  | 12 => 31
  | _ => 0

def daysBefore (year : ℤ) : ℕ → ℕ
  | 0 => 0
  | month + 1 => daysBefore year month + monthLength year month

def yearLength (year : ℤ) : ℕ := daysBefore year 13

/-- The leap years before a year, counted from the year 1. -/
def leapsBefore (year : ℤ) : ℤ := (year - 1) / 4 - (year - 1) / 100 + (year - 1) / 400

def yearStart (year : ℤ) : ℤ := 365 * (year - 1970) + (leapsBefore year - leapsBefore 1970)

structure Date where
  year : ℤ
  month : ℕ
  day : ℕ
  month_pos : 1 ≤ month
  month_le : month ≤ 12
  day_pos : 1 ≤ day
  day_le : day ≤ monthLength year month

def Date.number (d : Date) : ℤ := yearStart d.year + daysBefore d.year d.month + (d.day - 1)

theorem leap_iff (year : ℤ) :
    isLeap year = true ↔ year % 4 = 0 ∧ (year % 100 ≠ 0 ∨ year % 400 = 0) := by
  simp [isLeap]

theorem year_length (year : ℤ) : yearLength year = if isLeap year then 366 else 365 := by
  simp only [yearLength, daysBefore, monthLength]
  split <;> rfl

example : yearStart 1970 = 0 := by decide

theorem year_start_succ (year : ℤ) : yearStart (year + 1) = yearStart year + yearLength year := by
  rw [year_length]
  simp only [yearStart, leapsBefore]
  by_cases hleap : isLeap year = true
  · rw [if_pos hleap]
    rw [leap_iff] at hleap
    push_cast
    omega
  · rw [if_neg hleap]
    rw [leap_iff] at hleap
    push_cast
    omega

theorem year_start_le {first second : ℤ} (h : first ≤ second) : yearStart first ≤ yearStart second := by
  simp only [yearStart, leapsBefore]
  omega

theorem month_length_le (year : ℤ) (month : ℕ) : monthLength year month ≤ 31 := by
  unfold monthLength
  cases isLeap year
  all_goals
    split
    all_goals decide

theorem days_before_le (year : ℤ) {first second : ℕ} (h : first ≤ second) :
    daysBefore year first ≤ daysBefore year second := by
  induction h with
  | refl => exact le_rfl
  | step _ ih => exact ih.trans (Nat.le_add_right _ _)

section Order

variable {a b : Date}

theorem number_year (a : Date) :
    yearStart a.year ≤ a.number ∧ a.number < yearStart (a.year + 1) := by
  have hday := a.day_pos
  have hlength := a.day_le
  have hmonths : daysBefore a.year (a.month + 1) ≤ daysBefore a.year 13 :=
    days_before_le a.year (Nat.succ_le_succ a.month_le)
  rw [daysBefore] at hmonths
  rw [year_start_succ, yearLength, Date.number]
  omega

theorem number_month (a : Date) :
    yearStart a.year + daysBefore a.year a.month ≤ a.number ∧
      a.number < yearStart a.year + daysBefore a.year (a.month + 1) := by
  have hday := a.day_pos
  have hlength := a.day_le
  rw [daysBefore, Date.number]
  push_cast
  omega

theorem number_lt_of_year (h : a.year < b.year) : a.number < b.number := by
  have hstart := year_start_le (Int.add_one_le_iff.mpr h)
  have ha := number_year a
  have hb := number_year b
  omega

theorem number_lt_of_month (hyear : a.year = b.year) (h : a.month < b.month) :
    a.number < b.number := by
  have hmonths := days_before_le b.year (Nat.succ_le_of_lt h)
  have ha := number_month a
  have hb := number_month b
  rw [hyear] at ha
  rw [Nat.succ_eq_add_one] at hmonths
  omega

def Before (a b : Date) : Prop :=
  a.year < b.year ∨ a.year = b.year ∧ (a.month < b.month ∨ a.month = b.month ∧ a.day < b.day)

theorem date_trichotomy (a b : Date) : Before a b ∨ a = b ∨ Before b a := by
  rcases lt_trichotomy a.year b.year with hyear | hyear | hyear
  · exact .inl (.inl hyear)
  · rcases lt_trichotomy a.month b.month with hmonth | hmonth | hmonth
    · exact .inl (.inr ⟨hyear, .inl hmonth⟩)
    · rcases lt_trichotomy a.day b.day with hday | hday | hday
      · exact .inl (.inr ⟨hyear, .inr ⟨hmonth, hday⟩⟩)
      · cases a
        cases b
        cases hyear
        cases hmonth
        cases hday
        exact .inr (.inl rfl)
      · exact .inr (.inr (.inr ⟨hyear.symm, .inr ⟨hmonth.symm, hday⟩⟩))
    · exact .inr (.inr (.inr ⟨hyear.symm, .inl hmonth⟩))
  · exact .inr (.inr (.inl hyear))

theorem number_lt (h : Before a b) : a.number < b.number := by
  rcases h with hyear | ⟨hyear, hmonth | ⟨hmonth, hday⟩⟩
  · exact number_lt_of_year hyear
  · exact number_lt_of_month hyear hmonth
  · rw [Date.number, Date.number, hyear, hmonth]
    omega

theorem number_inj (h : a.number = b.number) : a = b := by
  rcases date_trichotomy a b with hbefore | hsame | hbefore
  · have := number_lt hbefore
    omega
  · exact hsame
  · have := number_lt hbefore
    omega

end Order

end Calendar
