import Mathlib.Data.Nat.Digits.Lemmas

/-!
Positional numerals, the first digit the most significant.
-/
namespace Numerals

/-- Horner's rule, from the value of the digits in front. -/
def valueFrom (base : Nat) : Nat → List Nat → Nat
  | v, [] => v
  | v, d :: ds => valueFrom base (v * base + d) ds

def value (base : Nat) (ds : List Nat) : Nat := valueFrom base 0 ds

theorem valueFrom_ge {base : Nat} (positive : 0 < base) (v : Nat) (ds : List Nat) : v ≤ valueFrom base v ds := by
  induction ds generalizing v with
  | nil => exact Nat.le_refl v
  | cons d ds ih =>
    have here : v ≤ v * base + d := Nat.le_add_right_of_le (Nat.le_mul_of_pos_right v positive)
    exact Nat.le_trans here (ih (v * base + d))

theorem valueFrom_append (base v : Nat) (ds es : List Nat) :
    valueFrom base v (ds ++ es) = valueFrom base (valueFrom base v ds) es := by
  induction ds generalizing v with
  | nil => rfl
  | cons d ds ih => exact ih (v * base + d)

theorem value_zeros (base k : Nat) (ds : List Nat) : value base (List.replicate k 0 ++ ds) = value base ds := by
  induction k with
  | zero => rfl
  | succ k ih =>
    rw [List.replicate_succ, List.cons_append, value, valueFrom, Nat.zero_mul]
    exact ih

theorem value_digits {base : Nat} (valid : 2 ≤ base) (m : Nat) : value base (Nat.digits base m).reverse = m := by
  induction m using Nat.strongRecOn with
  | ind m ih =>
    by_cases zero : m = 0
    · subst zero
      simp [value, valueFrom]
    · have positive : 0 < m := Nat.pos_of_ne_zero zero
      rw [Nat.digits_def' (by omega) positive, List.reverse_cons, value, valueFrom_append]
      have front : valueFrom base 0 (Nat.digits base (m / base)).reverse = m / base :=
        ih _ (Nat.div_lt_self positive (by omega))
      rw [front, valueFrom, valueFrom, Nat.mul_comm]
      exact Nat.div_add_mod m base

section
variable {small large : Nat} (less : small < large)
include less

theorem valueFrom_small (w : Nat) (ds : List Nat) (below : valueFrom large w ds < small) :
    valueFrom small w (ds.takeWhile (· < small)) = valueFrom large w ds := by
  induction ds generalizing w with
  | nil => rfl
  | cons d ds ih =>
    have step : w * large + d < small := Nat.lt_of_le_of_lt (valueFrom_ge (by omega) _ ds) below
    have zero : w = 0 := by
      by_contra nonzero
      have := Nat.le_mul_of_pos_left large (Nat.pos_of_ne_zero nonzero)
      omega
    subst zero
    rw [Nat.zero_mul, Nat.zero_add] at step
    have next := ih (0 * large + d) below
    rw [List.takeWhile_cons_of_pos (by simpa using step), valueFrom, valueFrom]
    rw [Nat.zero_mul] at next ⊢
    rw [next, Nat.zero_mul]

theorem valueFrom_less {v w : Nat} (ds : List Nat) (le : v ≤ w)
    (differ : v < w ∨ w < small ∧ small ≤ valueFrom large w ds) :
    valueFrom small v (ds.takeWhile (· < small)) < valueFrom large w ds := by
  induction ds generalizing v w with
  | nil =>
    rcases differ with lt | ⟨below, above⟩
    · exact lt
    · exact absurd above (Nat.not_le.mpr below)
  | cons d ds ih =>
    by_cases inside : d < small
    · rw [List.takeWhile_cons_of_pos (by simpa using inside), valueFrom, valueFrom]
      have products : v * small ≤ w * large := Nat.mul_le_mul le (Nat.le_of_lt less)
      apply ih (by omega)
      by_cases zero : w = 0
      · -- nothing but zeros so far
        subst zero
        rcases differ with lt | ⟨_, above⟩
        · exact absurd lt (Nat.not_lt_zero v)
        · right
          refine ⟨by omega, above⟩
      · left
        have first : v * small ≤ w * small := Nat.mul_le_mul_right small le
        have second : w * small < w * large := Nat.mul_lt_mul_of_pos_left less (Nat.pos_of_ne_zero zero)
        omega
    · rw [List.takeWhile_cons_of_neg (by simpa using inside), valueFrom, valueFrom]
      have grows : w * large + d ≤ valueFrom large (w * large + d) ds := valueFrom_ge (by omega) _ ds
      have wide : w ≤ w * large := Nat.le_mul_of_pos_right w (by omega)
      by_cases zero : d = 0
      · omega
      · omega

end

end Numerals
