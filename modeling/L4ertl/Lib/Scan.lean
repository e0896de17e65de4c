import Mathlib.Data.List.Range
import Mathlib.Data.Nat.Find

/-!
Searches upwards through the numbers. A while loop has its rounds counted, so
that one which does not end has no result for any number of them; a variant says
when it has one. What a search is to go through is listed by `membersFrom`.
-/
namespace Scan

section
variable {S : Type} {cond : S → Bool} {body : S → S}

def whileLoop (cond : S → Bool) (body : S → S) : Nat → S → Option S
  | 0, _ => none
  | rounds + 1, s => if cond s then whileLoop cond body rounds (body s) else some s

theorem whileLoop_stop {rounds : Nat} {s : S} (stop : cond s = false) :
    whileLoop cond body (rounds + 1) s = some s := by
  simp only [whileLoop, stop, Bool.false_eq_true, ↓reduceIte]

theorem whileLoop_next {rounds : Nat} {s : S} (goes : cond s = true) :
    whileLoop cond body (rounds + 1) s = whileLoop cond body rounds (body s) := by
  simp only [whileLoop, goes, ↓reduceIte]

theorem whileLoop_keeps (Inv : S → Prop) (keeps : ∀ s, Inv s → cond s = true → Inv (body s))
    {rounds : Nat} {s t : S} (start : Inv s) (ended : whileLoop cond body rounds s = some t) :
    Inv t ∧ cond t = false := by
  induction rounds generalizing s with
  | zero => cases ended
  | succ rounds ih =>
    by_cases goes : cond s = true
    · rw [whileLoop_next goes] at ended
      exact ih (keeps s start goes) ended
    · rw [Bool.not_eq_true] at goes
      rw [whileLoop_stop goes] at ended
      cases ended
      exact ⟨start, goes⟩

theorem whileLoop_ends (Inv : Nat → S → Prop)
    (keeps : ∀ m s, Inv m s → cond s = true → ∃ less, less < m ∧ Inv less (body s))
    {m rounds : Nat} {s : S} (start : Inv m s) (enough : m < rounds) :
    ∃ t, whileLoop cond body rounds s = some t := by
  induction rounds generalizing m s with
  | zero => omega
  | succ rounds ih =>
    by_cases goes : cond s = true
    · obtain ⟨less, below, inv⟩ := keeps m s start goes
      rw [whileLoop_next goes]
      exact ih inv (by omega)
    · rw [Bool.not_eq_true] at goes
      exact ⟨s, whileLoop_stop goes⟩

end

section
variable {p : Nat → Bool} {n start : Nat}

def membersFrom (p : Nat → Bool) (n start : Nat) : List Nat :=
  (List.range' start (n - start)).filter p

theorem membersFrom_nil_iff : membersFrom p n start = [] ↔ ∀ x, start ≤ x → x < n → p x = false := by
  simp only [membersFrom, List.filter_eq_nil_iff, List.mem_range'_1, Bool.not_eq_true]
  constructor
  · intro none x after below
    exact none x ⟨after, by omega⟩
  · intro none x inside
    exact none x inside.1 (by omega)

theorem membersFrom_cons {x : Nat} (after : start ≤ x) (below : x < n) (here : p x = true)
    (gap : ∀ y, start ≤ y → y < x → p y = false) :
    membersFrom p n start = x :: membersFrom p n (x + 1) := by
  have split : List.range' start (n - start) =
      List.range' start (x - start) ++ x :: List.range' (x + 1) (n - (x + 1)) := by
    have tail : x :: List.range' (x + 1) (n - (x + 1)) = List.range' x (n - x) := by
      rw [← List.range'_succ]
      congr 1
      omega
    have first : x = start + 1 * (x - start) := by omega
    rw [tail]
    conv_rhs => rw [first]
    rw [Nat.add_sub_cancel_left, Nat.one_mul, List.range'_append_1]
    congr 1
    omega
  have empty : (List.range' start (x - start)).filter p = [] := by
    rw [List.filter_eq_nil_iff]
    intro y inside
    rw [List.mem_range'_1] at inside
    rw [gap y inside.1 (by omega)]
    exact Bool.false_ne_true
  rw [membersFrom, split, List.filter_append, empty, List.nil_append, List.filter_cons_of_pos here]
  rfl

theorem membersFrom_head {x : Nat} {rest : List Nat} (first : membersFrom p n start = x :: rest) :
    start ≤ x ∧ x < n ∧ p x = true ∧ (∀ y, start ≤ y → y < x → p y = false) ∧
      rest = membersFrom p n (x + 1) := by
  have some : ∃ y, start ≤ y ∧ y < n ∧ p y = true := by
    by_contra none
    push Not at none
    have empty : membersFrom p n start = [] := by
      rw [membersFrom_nil_iff]
      intro y after below
      simpa using none y after below
    rw [empty] at first
    cases first
  have least := Nat.find_spec some
  have gap : ∀ y, start ≤ y → y < Nat.find some → p y = false := by
    intro y after below
    by_contra here
    exact Nat.find_min some below ⟨after, by omega, by simpa using here⟩
  have cons := membersFrom_cons least.1 least.2.1 least.2.2 gap
  rw [first] at cons
  obtain ⟨same, tail⟩ := List.cons.inj cons
  rw [← same] at least gap tail
  exact ⟨least.1, least.2.1, least.2.2, gap, tail⟩

end
end Scan
