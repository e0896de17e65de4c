import Mathlib.Order.MinMax

/-!
Immediate priority ceilings. Every task has a base level and runs at a level that
is never less urgent; less is more urgent. A task is busy while it holds something.
The levels of two busy tasks never cross, as long as only a task raises its own
level that no busy task is more urgent than.
-/
namespace Ceilings

variable {T P : Type} [LinearOrder P]

/-- Busy tasks are above their base, and of two of them the one is at or below
    the base of the other. -/
structure Nested (base level : T → P) (busy : T → Prop) : Prop where
  above : ∀ t, busy t → level t < base t
  apart : ∀ t u, busy t → busy u → t ≠ u → base t ≤ level u ∨ base u ≤ level t

variable {base level : T → P} {busy : T → Prop} {r : T}

theorem Nested.below (nested : Nested base level busy) (front : ∀ u, busy u → level r ≤ level u)
    (idle : ¬busy r → level r = base r) {u : T} (holds : busy u) (other : u ≠ r) :
    base r ≤ level u := by
  by_cases mine : busy r
  · rcases nested.apart r u mine holds (Ne.symm other) with below | crossed
    · exact below
    · have order := front u holds
      have high := nested.above u holds
      exact absurd (lt_of_le_of_lt order high) (not_lt.mpr crossed)
  · rw [← idle mine]
    exact front u holds

/-- What a busy task holds is out of reach: its level is not under a ceiling that
    is above the base of the task in front. -/
theorem Nested.reach (nested : Nested base level busy) (front : ∀ u, busy u → level r ≤ level u)
    (idle : ¬busy r → level r = base r) {u : T} (holds : busy u) (other : u ≠ r) {ceiling : P}
    (high : ceiling < base r) : ceiling < level u :=
  lt_of_lt_of_le high (nested.below front idle holds other)

variable {level' : T → P} {busy' : T → Prop}

theorem Nested.raise (nested : Nested base level busy) (front : ∀ u, busy u → level r ≤ level u)
    (idle : ¬busy r → level r = base r)
    (others : ∀ u, u ≠ r → busy' u → busy u ∧ level' u = level u) (mine : level' r < base r) :
    Nested base level' busy' := by
  have below : ∀ u, u ≠ r → busy' u → base r ≤ level' u := by
    intro u other holds
    obtain ⟨before, same⟩ := others u other holds
    rw [same]
    exact nested.below front idle before other
  constructor
  · intro t holds
    by_cases self : t = r
    · rw [self]
      exact mine
    · obtain ⟨before, same⟩ := others t self holds
      rw [same]
      exact nested.above t before
  · intro t u one two different
    by_cases self : t = r
    · subst self
      exact Or.inl (below u (Ne.symm different) two)
    · by_cases self' : u = r
      · subst self'
        exact Or.inr (below t self one)
      · obtain ⟨before, same⟩ := others t self one
        obtain ⟨before', same'⟩ := others u self' two
        rw [same, same']
        exact nested.apart t u before before' different

theorem Nested.lower (nested : Nested base level busy)
    (others : ∀ u, u ≠ r → busy' u → busy u ∧ level' u = level u)
    (mine : busy' r → busy r ∧ level r ≤ level' r ∧ level' r < base r) :
    Nested base level' busy' := by
  have kept : ∀ u, busy' u → busy u ∧ level u ≤ level' u ∧ level' u < base u := by
    intro u holds
    by_cases self : u = r
    · subst self
      exact mine holds
    · obtain ⟨before, same⟩ := others u self holds
      rw [same]
      exact ⟨before, le_refl _, nested.above u before⟩
  constructor
  · intro t holds
    exact (kept t holds).2.2
  · intro t u one two different
    obtain ⟨before, back, _⟩ := kept t one
    obtain ⟨before', back', _⟩ := kept u two
    rcases nested.apart t u before before' different with below | above
    · exact Or.inl (le_trans below back')
    · exact Or.inr (le_trans above back)

end Ceilings
