import Mathlib.Algebra.BigOperators.Intervals
import Mathlib.Tactic.IntervalCases

/-!
# The Gregorian calendar

Dates with a time of day, and the seconds that have passed since the start of a given year.
-/

namespace Pintos.Foundation

open Finset

def IsLeapYear (y : Nat) : Prop := y % 4 = 0 ∧ (y % 100 ≠ 0 ∨ y % 400 = 0)

instance (y : Nat) : Decidable (IsLeapYear y) := inferInstanceAs (Decidable (_ ∧ _))

/-- The length of a month in a common year; months are numbered from 1. -/
def commonLength : Nat → Nat
  | 2 => 28
  | 4 | 6 | 9 | 11 => 30
  | _ => 31

def monthLength (y m : Nat) : Nat :=
  if m = 2 ∧ IsLeapYear y then 29 else commonLength m

def daysBeforeMonth (y m : Nat) : Nat := ∑ i ∈ Finset.range (m - 1), monthLength y (i + 1)

def yearLength (y : Nat) : Nat := ∑ i ∈ Finset.range 12, monthLength y (i + 1)

def daysBeforeYear (start y : Nat) : Nat := ∑ i ∈ Finset.range (y - start), yearLength (start + i)

structure CalendarTime where
  year : Nat
  month : Nat
  day : Nat
  hour : Nat
  minute : Nat
  second : Nat
  month_pos : 1 ≤ month
  month_le : month ≤ 12
  day_pos : 1 ≤ day
  day_le : day ≤ monthLength year month
  hour_lt : hour < 24
  minute_lt : minute < 60
  second_lt : second < 60

namespace CalendarTime

/-- Days from the start of year `start` to the date. -/
def daysSince (start : Nat) (d : CalendarTime) : Nat :=
  daysBeforeYear start d.year + daysBeforeMonth d.year d.month + (d.day - 1)

def secondsSince (start : Nat) (d : CalendarTime) : Nat :=
  d.daysSince start * 86400 + d.hour * 3600 + d.minute * 60 + d.second

end CalendarTime

lemma commonLength_le (m : Nat) : commonLength m ≤ 31 := by
  unfold commonLength
  split <;> omega

lemma le_commonLength (m : Nat) : 28 ≤ commonLength m := by
  unfold commonLength
  split <;> omega

lemma monthLength_le (y m : Nat) : monthLength y m ≤ 31 := by
  unfold monthLength
  split
  · omega
  · exact commonLength_le m

lemma yearLength_eq (y : Nat) : yearLength y = if IsLeapYear y then 366 else 365 := by
  by_cases h : IsLeapYear y <;>
    simp [yearLength, sum_range_succ, monthLength, commonLength, h]

lemma daysBeforeMonth_eq (y : Nat) {m : Nat} (hm : m ≤ 12) :
    daysBeforeMonth y m =
      ∑ i ∈ range (m - 1), commonLength (i + 1) + if 2 < m ∧ IsLeapYear y then 1 else 0 := by
  by_cases h : IsLeapYear y <;> interval_cases m <;>
    simp [daysBeforeMonth, sum_range_succ, monthLength, commonLength, h]

lemma isLeapYear_iff {y : Nat} (hlow : 1970 ≤ y) (hhigh : y < 2100) : IsLeapYear y ↔ y % 4 = 0 := by
  unfold IsLeapYear
  omega

lemma daysBeforeYear_1970 {n : Nat} (hn : n ≤ 130) :
    daysBeforeYear 1970 (1970 + n) = n * 365 + (n + 1) / 4 := by
  rw [daysBeforeYear, Nat.add_sub_cancel_left]
  induction n with
  | zero => rfl
  | succ n ih =>
    have hleap : IsLeapYear (1970 + n) ↔ (1970 + n) % 4 = 0 :=
      isLeapYear_iff (by omega) (by omega)
    rw [sum_range_succ, ih (by omega), yearLength_eq, if_congr hleap rfl rfl]
    split <;> omega

end Pintos.Foundation
