import Mathlib.Algebra.GroupWithZero.Nat
import Mathlib.Data.List.Basic

/-!
Reading a sequence piece by piece: each read takes as much of what is left as it
asks for.
-/
namespace StreamReads

variable {α : Type}

def pieces : List α → List Nat → List (List α)
  | _, [] => []
  | left, n :: ns => left.take n :: pieces (left.drop n) ns

theorem pieces_flatten (left : List α) (ns : List Nat) : (pieces left ns).flatten = left.take ns.sum := by
  induction ns generalizing left with
  | nil => simp [pieces]
  | cons n ns ih =>
    rw [pieces, List.flatten_cons, ih, List.sum_cons, List.take_add]

theorem pieces_append (left : List α) (ns : List Nat) (n : Nat) (more : List Nat) :
    pieces left (ns ++ n :: more) =
      pieces left ns ++ (left.drop ns.sum).take n :: pieces (left.drop (ns.sum + n)) more := by
  induction ns generalizing left with
  | nil => simp [pieces]
  | cons m ns ih =>
    simp only [List.cons_append, pieces, ih, List.sum_cons, List.drop_drop, Nat.add_assoc]

theorem pieces_length (left : List α) (ns : List Nat) : (pieces left ns).length = ns.length := by
  induction ns generalizing left with
  | nil => rfl
  | cons n ns ih => simp [pieces, ih]

theorem drop_returned (left : List α) (p n : Nat) :
    left.drop (p + ((left.drop p).take n).length) = (left.drop p).drop n := by
  rw [List.drop_drop, List.length_take, List.length_drop]
  by_cases whole : n ≤ left.length - p
  · rw [Nat.min_eq_left whole]
  · rw [List.drop_of_length_le (by omega), List.drop_of_length_le (by omega)]

end StreamReads
