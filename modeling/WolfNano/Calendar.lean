/-
The proleptic Gregorian calendar: dates, the day after a date, and the number of days from
1970-01-01.
-/
import Mathlib.Tactic.IntervalCases

namespace Calendar

/-- A date by its year, which may be negative, its month and its day. -/
structure Date where
  year : Int
  month : Nat
  day : Nat
  deriving DecidableEq, Repr

/-- A leap year. -/
def Leap (y : Int) : Prop := y % 4 = 0 ∧ (y % 100 ≠ 0 ∨ y % 400 = 0)

instance (y : Int) : Decidable (Leap y) := inferInstanceAs (Decidable (_ ∧ _))

/-- The number of days of a month. -/
def monthLength (y : Int) (m : Nat) : Nat :=
  if m = 2 then if Leap y then 29 else 28
  else if m = 4 ∨ m = 6 ∨ m = 9 ∨ m = 11 then 30 else 31

/-- The date exists. -/
structure Date.Valid (d : Date) : Prop where
  month_pos : 1 ≤ d.month
  month_le : d.month ≤ 12
  day_pos : 1 ≤ d.day
  day_le : d.day ≤ monthLength d.year d.month

/-- The day after a date. -/
def Date.next (d : Date) : Date :=
  if d.day < monthLength d.year d.month then ⟨d.year, d.month, d.day + 1⟩
  else if d.month < 12 then ⟨d.year, d.month + 1, 1⟩
  else ⟨d.year + 1, 1, 1⟩

/-- The date comes before the other one. -/
def Date.Before (d e : Date) : Prop :=
  d.year < e.year ∨ d.year = e.year ∧
    (d.month < e.month ∨ d.month = e.month ∧ d.day < e.day)

/-- The days of the years before `y`, counted from the year 1. -/
def daysBeforeYear (y : Int) : Int :=
  365 * (y - 1) + (y - 1) / 4 - (y - 1) / 100 + (y - 1) / 400

/-- The days of the months before month `n + 1`. -/
def daysBeforeMonth (y : Int) : Nat → Nat
  | 0 => 0
  | n + 1 => daysBeforeMonth y n + monthLength y (n + 1)

/-- The number of days from 1970-01-01 to a date. -/
def Date.number (d : Date) : Int :=
  daysBeforeYear d.year + daysBeforeMonth d.year (d.month - 1) + (d.day - 1) -
    daysBeforeYear 1970

theorem monthLength_pos (y : Int) (m : Nat) : 28 ≤ monthLength y m := by
  unfold monthLength
  split_ifs <;> omega

theorem daysBeforeMonth_year (y : Int) :
    daysBeforeMonth y 12 = if Leap y then 366 else 365 := by
  by_cases hleap : Leap y
  · simp [daysBeforeMonth, monthLength, hleap]
  · simp [daysBeforeMonth, monthLength, hleap]

theorem daysBeforeYear_succ (y : Int) :
    daysBeforeYear (y + 1) = daysBeforeYear y + daysBeforeMonth y 12 := by
  rw [daysBeforeMonth_year]
  unfold daysBeforeYear
  by_cases hleap : Leap y
  · rw [if_pos hleap]
    unfold Leap at hleap
    push_cast
    omega
  · rw [if_neg hleap]
    unfold Leap at hleap
    push_cast
    omega

theorem daysBeforeMonth_mono {y : Int} {n k : Nat} (h : n ≤ k) :
    daysBeforeMonth y n ≤ daysBeforeMonth y k := by
  induction k, h using Nat.le_induction with
  | base => exact Nat.le_refl _
  | succ k _ ih => exact Nat.le_trans ih (Nat.le_add_right _ _)

theorem daysBeforeYear_mono {y z : Int} (h : y ≤ z) : daysBeforeYear y ≤ daysBeforeYear z := by
  unfold daysBeforeYear
  omega

theorem Date.Valid.next {d : Date} (h : d.Valid) : d.next.Valid := by
  obtain ⟨hpos, hle, hday, hlast⟩ := h
  unfold Date.next
  split
  · exact ⟨hpos, hle, by simp, by assumption⟩
  · have hone : ∀ y m, 1 ≤ monthLength y m := fun y m =>
      Nat.le_trans (by decide) (monthLength_pos y m)
    split
    · exact ⟨by simp, by assumption, Nat.le_refl 1, hone _ _⟩
    · exact ⟨Nat.le_refl 1, by simp, Nat.le_refl 1, hone _ _⟩

/-- The next date has the next number. -/
theorem Date.number_next {d : Date} (h : d.Valid) : d.next.number = d.number + 1 := by
  obtain ⟨y, m, k⟩ := d
  obtain ⟨hpos, hle, hday, hlast⟩ := h
  dsimp only at hpos hle hday hlast
  obtain ⟨n, rfl⟩ : ∃ n, m = n + 1 := ⟨m - 1, by omega⟩
  unfold next
  dsimp only
  by_cases hinside : k < monthLength y (n + 1)
  · rw [if_pos hinside]
    simp only [number]
    push_cast
    omega
  · rw [if_neg hinside]
    have hend : k = monthLength y (n + 1) := by omega
    have hmonth : daysBeforeMonth y (n + 1) = daysBeforeMonth y n + k := by
      rw [daysBeforeMonth, hend]
    by_cases hyear : n + 1 < 12
    · rw [if_pos hyear]
      simp only [number, Nat.add_sub_cancel, hmonth]
      push_cast
      omega
    · rw [if_neg hyear]
      have hn : n = 11 := by omega
      subst hn
      simp only [number, daysBeforeYear_succ, hmonth, Nat.add_sub_cancel]
      push_cast
      simp only [daysBeforeMonth]
      omega

/-- The dates of a year have numbers between those of the years around it. -/
theorem Date.number_in_year {d : Date} (h : d.Valid) :
    daysBeforeYear d.year - daysBeforeYear 1970 ≤ d.number ∧
      d.number < daysBeforeYear (d.year + 1) - daysBeforeYear 1970 := by
  obtain ⟨y, m, k⟩ := d
  obtain ⟨hpos, hle, hday, hlast⟩ := h
  dsimp only at hpos hle hday hlast ⊢
  obtain ⟨n, rfl⟩ : ∃ n, m = n + 1 := ⟨m - 1, by omega⟩
  have hmonth : daysBeforeMonth y n + monthLength y (n + 1) ≤ daysBeforeMonth y 12 :=
    daysBeforeMonth_mono hle
  simp only [number, daysBeforeYear_succ, Nat.add_sub_cancel]
  omega

/-- A later date has a greater number. -/
theorem Date.number_lt {d e : Date} (hd : d.Valid) (he : e.Valid) (h : d.Before e) :
    d.number < e.number := by
  rcases h with hyear | ⟨hyear, hrest⟩
  · have hlast := (number_in_year hd).2
    have hfirst := (number_in_year he).1
    have hmono := daysBeforeYear_mono (show d.year + 1 ≤ e.year from hyear)
    omega
  · obtain ⟨y, m, k⟩ := d
    obtain ⟨z, n, l⟩ := e
    obtain ⟨hmpos, -, -, hlast⟩ := hd
    obtain ⟨hnpos, -, hlpos, -⟩ := he
    dsimp only at hyear hrest hmpos hlast hnpos hlpos
    subst hyear
    rcases hrest with hmonth | ⟨rfl, hday⟩
    · obtain ⟨m, rfl⟩ : ∃ j, m = j + 1 := ⟨m - 1, by omega⟩
      have hmono : daysBeforeMonth y m + monthLength y (m + 1) ≤ daysBeforeMonth y (n - 1) :=
        @daysBeforeMonth_mono y (m + 1) (n - 1) (by omega)
      simp only [number, Nat.add_sub_cancel]
      omega
    · simp only [number]
      omega

end Calendar
