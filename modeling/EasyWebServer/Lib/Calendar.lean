import Mathlib.Algebra.Order.Group.Int
import Mathlib.Tactic.Linarith
import Mathlib.Tactic.SplitIfs

/-!
# Calendars

Months follow one another, and `start m` is the number of days in front of month `m`.  When no
month is shorter than `k` days, then the day of the month tells the dates of less than `k` days
apart (`month_eq_of_close`).

The second half is the Gregorian calendar, extended to all years.  A `Date` exists in it by
construction, `dayNumber` counts the days, and `Date.eq_of_close` is the rule for `k = 28`.
-/

namespace EasyWebServer

namespace Calendar

/-! ## Months -/

section Months

variable {start : Int → Int} {k : Int}

/-- A month ends before each later month starts. -/
theorem start_add_le (hk : 0 ≤ k) (hlen : ∀ m, start m + k ≤ start (m + 1)) {m m' : Int}
    (h : m < m') : start (m + 1) ≤ start m' := by
  obtain ⟨n, rfl⟩ := Int.le.dest (Int.add_one_le_iff.mpr h)
  induction n with
  | zero => simp
  | succ n ih =>
      have hnext := hlen (m + 1 + n)
      have hsucc : m + 1 + (n + 1 : Nat) = m + 1 + n + 1 := by
        rw [Nat.cast_succ]
        omega
      rw [hsucc]
      have hn := ih (by omega)
      omega

/-- A day is in one month. -/
theorem month_eq_of_day (hk : 0 ≤ k) (hlen : ∀ m, start m + k ≤ start (m + 1)) {m m' d d' : Int}
    (hd : 1 ≤ d ∧ start m + d ≤ start (m + 1)) (hd' : 1 ≤ d' ∧ start m' + d' ≤ start (m' + 1))
    (h : start m + d = start m' + d') : m = m' := by
  rcases lt_trichotomy m m' with hlt | heq | hgt
  · have hle := start_add_le hk hlen hlt
    omega
  · exact heq
  · have hle := start_add_le hk hlen hgt
    omega

/-- Days with the same number in their months that are less than `k` days apart are in the same
month. -/
theorem month_eq_of_close (hk : 0 < k) (hlen : ∀ m, start m + k ≤ start (m + 1)) {m m' d : Int}
    (hle : start m + d ≤ start m' + d) (hlt : start m' + d < start m + d + k) : m = m' := by
  rcases lt_trichotomy m m' with hlt' | heq | hgt
  · have hstart := start_add_le (Int.le_of_lt hk) hlen hlt'
    have hfirst := hlen m
    omega
  · exact heq
  · have hstart := start_add_le (Int.le_of_lt hk) hlen hgt
    have hfirst := hlen m'
    omega

end Months

/-! ## The Gregorian calendar -/

/-- A leap year. -/
def isLeap (y : Int) : Bool := y % 4 = 0 && (y % 100 ≠ 0 || y % 400 = 0)

/-- The days of month `m` of year `y`, from 1 to 12. -/
def monthDays (y : Int) (m : Nat) : Nat :=
  if m = 2 then (if isLeap y then 29 else 28)
  else if m = 4 ∨ m = 6 ∨ m = 9 ∨ m = 11 then 30 else 31

/-- The days of year `y` behind its first `n` months. -/
def daysBefore (y : Int) : Nat → Nat
  | 0 => 0
  | n + 1 => daysBefore y n + monthDays y (n + 1)

/-- The days in front of year `y`. -/
def yearStart (y : Int) : Int := 365 * y + (y - 1) / 4 - (y - 1) / 100 + (y - 1) / 400

/-- The days in front of a month, when the months are counted from January of year 0. -/
def monthStart (i : Int) : Int := yearStart (i / 12) + daysBefore (i / 12) (i % 12).toNat

theorem monthDays_bounds (y : Int) (m : Nat) : 28 ≤ monthDays y m ∧ monthDays y m ≤ 31 := by
  unfold monthDays
  split_ifs <;> omega

theorem daysBefore_year (y : Int) : daysBefore y 12 = 365 + if isLeap y then 1 else 0 := by
  simp only [daysBefore, monthDays]
  cases isLeap y <;> rfl

theorem yearStart_succ (y : Int) : yearStart (y + 1) = yearStart y + daysBefore y 12 := by
  rw [daysBefore_year, yearStart, yearStart, Int.add_sub_cancel]
  by_cases hleap : isLeap y = true
  · rw [if_pos hleap]
    simp only [isLeap, Bool.and_eq_true, Bool.or_eq_true, decide_eq_true_eq] at hleap
    push_cast
    omega
  · rw [if_neg hleap]
    simp only [isLeap, Bool.and_eq_true, Bool.or_eq_true, decide_eq_true_eq] at hleap
    push_cast
    omega

/-- A month starts where the one before it ends. -/
theorem monthStart_succ (i : Int) :
    monthStart (i + 1) = monthStart i + monthDays (i / 12) ((i % 12).toNat + 1) := by
  rcases Nat.lt_or_ge (i % 12).toNat 11 with hlt | hge
  · have hyear : (i + 1) / 12 = i / 12 := by omega
    have hmonth : ((i + 1) % 12).toNat = (i % 12).toNat + 1 := by omega
    rw [monthStart, monthStart, hyear, hmonth, daysBefore]
    push_cast
    omega
  · have hyear : (i + 1) / 12 = i / 12 + 1 := by omega
    have hmonth : ((i + 1) % 12).toNat = 0 := by omega
    have hlast : (i % 12).toNat = 11 := by omega
    rw [monthStart, monthStart, hyear, hmonth, hlast, yearStart_succ]
    have hdecember : daysBefore (i / 12) 12 =
        daysBefore (i / 12) 11 + monthDays (i / 12) (11 + 1) := rfl
    rw [hdecember, daysBefore]
    push_cast
    omega

theorem monthStart_add_le (i : Int) : monthStart i + 28 ≤ monthStart (i + 1) := by
  have hdays := (monthDays_bounds (i / 12) ((i % 12).toNat + 1)).1
  rw [monthStart_succ]
  omega

/-- A date that exists. -/
structure Date where
  year : Int
  month : Nat
  day : Nat
  month_pos : 1 ≤ month
  month_le : month ≤ 12
  day_pos : 1 ≤ day
  day_le : day ≤ monthDays year month
  deriving DecidableEq

namespace Date

/-- The month, counted from January of year 0. -/
def monthIndex (d : Date) : Int := 12 * d.year + (d.month - 1 : Nat)

/-- The number of the day. -/
def dayNumber (d : Date) : Int := monthStart d.monthIndex + d.day

theorem ext_monthIndex {d d' : Date} (hmonth : d.monthIndex = d'.monthIndex)
    (hday : d.day = d'.day) : d = d' := by
  obtain ⟨y, m, n, hpos, hle, _, _⟩ := d
  obtain ⟨y', m', n', hpos', hle', _, _⟩ := d'
  simp only [monthIndex] at hmonth hday
  obtain rfl : y = y' := by omega
  obtain rfl : m = m' := by omega
  subst hday
  rfl

theorem day_le_monthStart (d : Date) :
    monthStart d.monthIndex + d.day ≤ monthStart (d.monthIndex + 1) := by
  have hle := d.day_le
  have hpos := d.month_pos
  have hyear : d.monthIndex / 12 = d.year := by
    have hmonth := d.month_le
    simp only [monthIndex]
    omega
  have hmonth : (d.monthIndex % 12).toNat + 1 = d.month := by
    have hmonth := d.month_le
    simp only [monthIndex]
    omega
  rw [monthStart_succ, hyear, hmonth]
  omega

/-- The number tells the date. -/
theorem dayNumber_injective {d d' : Date} (h : d.dayNumber = d'.dayNumber) : d = d' := by
  have hpos := d.day_pos
  have hpos' := d'.day_pos
  have hmonth : d.monthIndex = d'.monthIndex :=
    month_eq_of_day (k := 28) (by omega) monthStart_add_le ⟨by omega, d.day_le_monthStart⟩
      ⟨by omega, d'.day_le_monthStart⟩ h
  refine ext_monthIndex hmonth ?_
  rw [dayNumber, dayNumber, hmonth] at h
  omega

/-- Dates that are less than 28 days apart are told by the day of the month. -/
theorem eq_of_close {d d' : Date} (hday : d.day = d'.day) (hle : d.dayNumber ≤ d'.dayNumber)
    (hlt : d'.dayNumber < d.dayNumber + 28) : d = d' := by
  rw [dayNumber, dayNumber, hday] at hle hlt
  exact ext_monthIndex
    (month_eq_of_close (k := 28) (by omega) monthStart_add_le hle hlt) hday

end Date

/-- From the end of February to March in a leap year, and over the end of a year. -/
example : (Date.mk 2000 3 1 (by decide) (by decide) (by decide) (by decide)).dayNumber -
    (Date.mk 2000 2 28 (by decide) (by decide) (by decide) (by decide)).dayNumber = 2 ∧
  (Date.mk 2026 1 1 (by decide) (by decide) (by decide) (by decide)).dayNumber -
    (Date.mk 2025 12 31 (by decide) (by decide) (by decide) (by decide)).dayNumber = 1 := by
  decide

end Calendar

end EasyWebServer
