import Mathlib.Data.Nat.Basic

/-!
The Gregorian calendar, continued back and forth without end. Days are numbered from the
first of January of an epoch year; months count from 0 and the days of a month from 1.
-/
namespace Gregorian

def Leap (y : Nat) : Prop := y % 4 = 0 ∧ (y % 100 ≠ 0 ∨ y % 400 = 0)

instance (y : Nat) : Decidable (Leap y) := inferInstanceAs (Decidable (_ ∧ _))

def yearLength (y : Nat) : Nat := if Leap y then 366 else 365

def monthLength (y month : Nat) : Nat :=
  match month with
  | 1 => if Leap y then 29 else 28
  | 3 | 5 | 8 | 10 => 30
  | _ => 31

def daysBeforeMonth (y : Nat) : Nat → Nat
  | 0 => 0
  | month + 1 => daysBeforeMonth y month + monthLength y month

def daysBeforeYear (epoch : Nat) : Nat → Nat
  | 0 => 0
  | n + 1 => daysBeforeYear epoch n + yearLength (epoch + n)

structure IsDate (epoch day year month mday : Nat) : Prop where
  late : epoch ≤ year
  named : month < 12
  first : 1 ≤ mday
  last : mday ≤ monthLength year month
  number : day = daysBeforeYear epoch (year - epoch) + daysBeforeMonth year month + (mday - 1)

theorem daysBeforeMonth_year (y : Nat) : daysBeforeMonth y 12 = yearLength y := by
  by_cases leap : Leap y
  · simp [daysBeforeMonth, monthLength, yearLength, leap]
  · simp [daysBeforeMonth, monthLength, yearLength, leap]

theorem daysBeforeMonth_mono (y : Nat) {a b : Nat} (order : a ≤ b) : daysBeforeMonth y a ≤ daysBeforeMonth y b := by
  induction order with
  | refl => exact Nat.le_refl _
  | step _ ih => exact Nat.le_trans ih (Nat.le_add_right _ _)

theorem daysBeforeYear_mono (epoch : Nat) {a b : Nat} (order : a ≤ b) :
    daysBeforeYear epoch a ≤ daysBeforeYear epoch b := by
  induction order with
  | refl => exact Nat.le_refl _
  | step _ ih => exact Nat.le_trans ih (Nat.le_add_right _ _)

variable {epoch day year month mday : Nat}

theorem IsDate.before_month (date : IsDate epoch day year month mday) :
    day < daysBeforeYear epoch (year - epoch) + daysBeforeMonth year (month + 1) := by
  have first := date.first
  have last := date.last
  rw [date.number, daysBeforeMonth]
  omega

theorem IsDate.before_year (date : IsDate epoch day year month mday) :
    day < daysBeforeYear epoch (year - epoch + 1) := by
  have inside := date.before_month
  have whole := daysBeforeMonth_mono year (show month + 1 ≤ 12 from date.named)
  rw [daysBeforeMonth_year] at whole
  have start : epoch + (year - epoch) = year := Nat.add_sub_of_le date.late
  rw [daysBeforeYear, start]
  omega

theorem IsDate.year_le {year' month' mday' : Nat} (one : IsDate epoch day year month mday)
    (two : IsDate epoch day year' month' mday') : year ≤ year' := by
  by_contra later
  have early := two.late
  have before := two.before_year
  have order := daysBeforeYear_mono epoch (by omega : year' - epoch + 1 ≤ year - epoch)
  have here := one.number
  omega

theorem IsDate.month_le {month' mday' : Nat} (one : IsDate epoch day year month mday)
    (two : IsDate epoch day year month' mday') : month ≤ month' := by
  by_contra later
  have before := two.before_month
  have order := daysBeforeMonth_mono year (by omega : month' + 1 ≤ month)
  have here := one.number
  omega

theorem IsDate.unique {year' month' mday' : Nat} (one : IsDate epoch day year month mday)
    (two : IsDate epoch day year' month' mday') : year = year' ∧ month = month' ∧ mday = mday' := by
  have sameYear := Nat.le_antisymm (one.year_le two) (two.year_le one)
  subst sameYear
  have sameMonth := Nat.le_antisymm (one.month_le two) (two.month_le one)
  subst sameMonth
  have here := one.number
  have there := two.number
  have first := one.first
  have first' := two.first
  exact ⟨rfl, rfl, by omega⟩

end Gregorian
