import Mathlib.Data.Fintype.Card

/-!
Waiting in an order. A task may want one resource that another task owns, and one
that does owns only resources of lower ranks. With finitely many tasks somebody at
the end of such a chain wants nothing.
-/
namespace LockOrder

variable {T R : Type} (wants : T → R → Prop) (owner : R → Option T) (rank : R → Nat)

/-- Nobody wants two things, and what one owns comes before what one wants. -/
structure Ranked : Prop where
  single : ∀ t m n, wants t m → wants t n → m = n
  below : ∀ t m n, wants t m → owner n = some t → rank n < rank m

variable {wants owner rank}

theorem Ranked.wellFounded [Finite T] (ranked : Ranked wants owner rank) :
    WellFounded fun u t => ∃ m n, wants t m ∧ wants u n ∧ rank m < rank n := by
  have trans : IsTrans T fun u t => ∃ m n, wants t m ∧ wants u n ∧ rank m < rank n := by
    constructor
    intro u v t first second
    obtain ⟨m, n, wantsV, wantsU, less⟩ := first
    obtain ⟨a, b, wantsT, wantsV', less'⟩ := second
    rw [ranked.single v m b wantsV wantsV'] at less
    exact ⟨a, n, wantsT, wantsU, less'.trans less⟩
  have irrefl : Std.Irrefl fun u t => ∃ m n, wants t m ∧ wants u n ∧ rank m < rank n := by
    constructor
    intro t self
    obtain ⟨m, n, one, two, less⟩ := self
    rw [ranked.single t m n one two] at less
    exact absurd less (lt_irrefl _)
  exact Finite.wellFounded_of_trans_of_irrefl _

/-- The chain of owners from a task that waits ends at one that does not. -/
theorem Ranked.progress [Finite T] (ranked : Ranked wants owner rank)
    (owned : ∀ t m, wants t m → owner m ≠ none) {t : T} {m : R} (start : wants t m) :
    ∃ u n, owner n = some u ∧ rank m ≤ rank n ∧ ∀ k, ¬wants u k := by
  induction t using ranked.wellFounded.induction generalizing m with
  | _ t ih =>
    obtain ⟨u, mine⟩ := Option.ne_none_iff_exists'.mp (owned t m start)
    by_cases waits : ∃ k, wants u k
    · obtain ⟨k, next⟩ := waits
      have less := ranked.below u k m next mine
      obtain ⟨v, n, owns, order, free⟩ := ih u ⟨m, k, start, next, less⟩ next
      exact ⟨v, n, owns, le_trans (le_of_lt less) order, free⟩
    · exact ⟨u, m, mine, le_refl _, fun k next => waits ⟨k, next⟩⟩

end LockOrder
