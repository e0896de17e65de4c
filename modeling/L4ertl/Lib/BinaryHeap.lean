import Mathlib.Order.Basic
import Mathlib.Logic.Function.Basic
import Mathlib.Data.Multiset.Range
import Mathlib.Data.Multiset.MapFold

/-!
Binary heaps in an array, the root at index 1 and the parent of `i` at `i / 2`,
ordered by a key. Sifting is a run of exchanges between a position and its
parent; it keeps what the array holds and moves the one place where the order
may fail down or up until there is none.
-/
namespace BinaryHeap

variable {α K : Type}

def swap (a : Nat → α) (i j : Nat) : Nat → α :=
  Function.update (Function.update a i (a j)) j (a i)

theorem swap_apply (a : Nat → α) (i j k : Nat) :
    swap a i j k = if k = j then a i else if k = i then a j else a k := by
  simp only [swap, Function.update_apply]

def Holds (a : Nat → α) (n : Nat) (x : α) : Prop := ∃ i, 1 ≤ i ∧ i ≤ n ∧ a i = x

def Once (a : Nat → α) (n : Nat) : Prop :=
  ∀ i j, 1 ≤ i → i ≤ n → 1 ≤ j → j ≤ n → a i = a j → i = j

inductive Swaps (n : Nat) : (Nat → α) → (Nat → α) → Prop where
  | refl (a : Nat → α) : Swaps n a a
  | step {a b : Nat → α} (i j : Nat) (inside : (1 ≤ i ∧ i ≤ n) ∧ (1 ≤ j ∧ j ≤ n))
      (rest : Swaps n (swap a i j) b) : Swaps n a b

theorem holds_swap {a : Nat → α} {n i j : Nat} {x : α} (first : 1 ≤ i ∧ i ≤ n) (second : 1 ≤ j ∧ j ≤ n)
    (held : Holds (swap a i j) n x) : Holds a n x := by
  obtain ⟨k, low, high, here⟩ := held
  rw [swap_apply] at here
  split at here
  · exact ⟨i, first.1, first.2, here⟩
  · split at here
    · exact ⟨j, second.1, second.2, here⟩
    · exact ⟨k, low, high, here⟩

theorem swap_swap (a : Nat → α) (i j : Nat) : swap (swap a i j) i j = a := by
  funext k
  simp only [swap_apply]
  split
  · rename_i here
    split
    · rename_i same
      rw [here, same]
    · rw [if_pos trivial, here]
  · split
    · rename_i here
      rw [if_pos trivial, here]
    · rfl

theorem Swaps.holds {n : Nat} {a b : Nat → α} (swaps : Swaps n a b) (x : α) :
    Holds b n x ↔ Holds a n x := by
  induction swaps with
  | refl a => exact Iff.rfl
  | @step a b i j inside rest ih =>
    rw [ih]
    constructor
    · exact holds_swap inside.1 inside.2
    · intro held
      rw [← swap_swap a i j] at held
      exact holds_swap inside.1 inside.2 held

theorem once_swap {a : Nat → α} {n i j : Nat} (once : Once a n) (first : 1 ≤ i ∧ i ≤ n)
    (second : 1 ≤ j ∧ j ≤ n) : Once (swap a i j) n := by
  intro k l lowK highK lowL highL same
  -- the exchange moves the two places, and the array is injective before it
  have place : ∀ m, 1 ≤ m → m ≤ n → ∃ p, 1 ≤ p ∧ p ≤ n ∧ swap a i j m = a p ∧
      (p = if m = j then i else if m = i then j else m) := by
    intro m low high
    refine ⟨if m = j then i else if m = i then j else m, ?_, ?_, ?_, rfl⟩
    · split
      · exact first.1
      · split
        · exact second.1
        · exact low
    · split
      · exact first.2
      · split
        · exact second.2
        · exact high
    · rw [swap_apply]
      split
      · rfl
      · split <;> rfl
  obtain ⟨p, lowP, highP, atP, eqP⟩ := place k lowK highK
  obtain ⟨q, lowQ, highQ, atQ, eqQ⟩ := place l lowL highL
  have meet : p = q := once p q lowP highP lowQ highQ (by rw [← atP, ← atQ, same])
  rw [eqP, eqQ] at meet
  split at meet <;> split at meet <;>
    first | omega | (split at meet <;> first | omega | (split at meet <;> omega))

theorem Swaps.once {n : Nat} {a b : Nat → α} (swaps : Swaps n a b) (once : Once a n) : Once b n := by
  induction swaps with
  | refl a => exact once
  | step i j inside rest ih => exact ih (once_swap once inside.1 inside.2)

theorem holds_shrink {a b : Nat → α} {n i : Nat} {x : α}
    (swaps : n = 0 ∨ Swaps n (Function.update a i (a (n + 1))) b) (held : Holds b n x) :
    Holds a (n + 1) x := by
  rcases swaps with empty | swaps
  · obtain ⟨j, lowJ, highJ, _⟩ := held
    omega
  · obtain ⟨j, lowJ, highJ, here⟩ := (swaps.holds x).mp held
    rw [Function.update_apply] at here
    split at here
    · exact ⟨n + 1, by omega, Nat.le_refl _, here⟩
    · exact ⟨j, lowJ, by omega, here⟩

theorem holds_replace {a b : Nat → α} {n i : Nat} (once : Once a (n + 1)) (low : 1 ≤ i)
    (high : i ≤ n + 1) (swaps : n = 0 ∨ Swaps n (Function.update a i (a (n + 1))) b)
    (x : α) : Holds b n x ↔ Holds a (n + 1) x ∧ x ≠ a i := by
  have shrunk : Holds (Function.update a i (a (n + 1))) n x ↔ Holds a (n + 1) x ∧ x ≠ a i := by
    constructor
    · intro held
      obtain ⟨j, lowJ, highJ, here⟩ := held
      rw [Function.update_apply] at here
      split at here
      · rename_i same
        refine ⟨⟨n + 1, by omega, Nat.le_refl _, here⟩, fun eq => ?_⟩
        have meet := once (n + 1) i (by omega) (Nat.le_refl _) low high (by rw [here, eq])
        omega
      · rename_i other
        refine ⟨⟨j, lowJ, by omega, here⟩, fun eq => ?_⟩
        exact other (once j i lowJ (by omega) low high (by rw [here, eq]))
    · intro held
      obtain ⟨⟨j, lowJ, highJ, here⟩, other⟩ := held
      have apart : j ≠ i := fun same => other (by rw [← here, same])
      by_cases last : j = n + 1
      · refine ⟨i, low, by omega, ?_⟩
        rw [Function.update_self, ← last]
        exact here
      · refine ⟨j, lowJ, by omega, ?_⟩
        rw [Function.update_of_ne apart]
        exact here
  rcases swaps with empty | swaps
  · subst empty
    rw [← shrunk]
    constructor
    · intro held
      obtain ⟨j, lowJ, highJ, _⟩ := held
      omega
    · intro held
      obtain ⟨j, lowJ, highJ, _⟩ := held
      omega
  · rw [swaps.holds, shrunk]

theorem once_replace {a b : Nat → α} {n i : Nat} (once : Once a (n + 1))
    (swaps : n = 0 ∨ Swaps n (Function.update a i (a (n + 1))) b) :
    Once b n := by
  rcases swaps with empty | swaps
  · intro j l lowJ highJ
    omega
  · apply swaps.once
    intro j l lowJ highJ lowL highL same
    simp only [Function.update_apply] at same
    split at same
    · split at same
      · omega
      · have meet := once (n + 1) l (by omega) (Nat.le_refl _) lowL (by omega) same
        omega
    · split at same
      · have meet := once j (n + 1) lowJ (by omega) (by omega) (Nat.le_refl _) same
        omega
      · exact once j l lowJ (by omega) lowL (by omega) same

theorem holds_push {a b : Nat → α} {n : Nat} {x : α}
    (swaps : Swaps (n + 1) (Function.update a (n + 1) x) b) (y : α) :
    Holds b (n + 1) y ↔ Holds a n y ∨ y = x := by
  rw [swaps.holds]
  constructor
  · intro held
    obtain ⟨i, low, high, here⟩ := held
    rw [Function.update_apply] at here
    split at here
    · exact Or.inr here.symm
    · exact Or.inl ⟨i, low, by omega, here⟩
  · intro held
    rcases held with ⟨i, low, high, here⟩ | same
    · refine ⟨i, low, by omega, ?_⟩
      rw [Function.update_of_ne (by omega)]
      exact here
    · refine ⟨n + 1, by omega, Nat.le_refl _, ?_⟩
      rw [Function.update_self, same]

theorem once_push {a b : Nat → α} {n : Nat} {x : α} (once : Once a n) (fresh : ¬Holds a n x)
    (swaps : Swaps (n + 1) (Function.update a (n + 1) x) b) : Once b (n + 1) := by
  apply swaps.once
  intro i j lowI highI lowJ highJ same
  simp only [Function.update_apply] at same
  split at same
  · split at same
    · omega
    · exact absurd ⟨j, lowJ, by omega, same.symm⟩ fresh
  · split at same
    · exact absurd ⟨i, lowI, by omega, same⟩ fresh
    · exact once i j lowI (by omega) lowJ (by omega) same

def elems (a : Nat → α) (n : Nat) : Multiset α := (Multiset.range n).map fun i => a (i + 1)

theorem elems_succ (a : Nat → α) (n : Nat) : elems a (n + 1) = a (n + 1) ::ₘ elems a n := by
  simp [elems, Multiset.range_succ]

theorem card_elems (a : Nat → α) (n : Nat) : (elems a n).card = n := by
  simp [elems]

theorem mem_elems {a : Nat → α} {n : Nat} {x : α} : x ∈ elems a n ↔ Holds a n x := by
  simp only [elems, Multiset.mem_map, Multiset.mem_range, Holds]
  constructor
  · intro found
    obtain ⟨i, below, here⟩ := found
    exact ⟨i + 1, by omega, by omega, here⟩
  · intro held
    obtain ⟨i, low, high, here⟩ := held
    refine ⟨i - 1, by omega, ?_⟩
    rw [Nat.sub_add_cancel low]
    exact here

theorem elems_update_outside (a : Nat → α) {n i : Nat} (x : α) (outside : n < i) :
    elems (Function.update a i x) n = elems a n := by
  apply Multiset.map_congr rfl
  intro j member
  have below := Multiset.mem_range.mp member
  exact Function.update_of_ne (by omega) _ _

theorem elems_update (a : Nat → α) {n i : Nat} (x : α) (low : 1 ≤ i) (high : i ≤ n) :
    a i ::ₘ elems (Function.update a i x) n = x ::ₘ elems a n := by
  induction n with
  | zero => omega
  | succ n ih =>
    rw [elems_succ, elems_succ]
    by_cases last : i = n + 1
    · rw [last, Function.update_self, elems_update_outside a x (Nat.lt_succ_self n), Multiset.cons_swap]
    · rw [Function.update_of_ne (Ne.symm last), Multiset.cons_swap, ih (by omega), Multiset.cons_swap]

theorem elems_swap (a : Nat → α) {n i j : Nat} (first : 1 ≤ i ∧ i ≤ n) (second : 1 ≤ j ∧ j ≤ n) :
    elems (swap a i j) n = elems a n := by
  by_cases same : i = j
  · rw [swap, same, Function.update_eq_self, Function.update_eq_self]
  · have one := elems_update a (a j) first.1 first.2
    have two := elems_update (Function.update a i (a j)) (a i) second.1 second.2
    rw [Function.update_of_ne (Ne.symm same), one] at two
    exact (Multiset.cons_inj_right _).mp two

theorem Swaps.elems {n : Nat} {a b : Nat → α} (swaps : Swaps n a b) : elems b n = elems a n := by
  induction swaps with
  | refl a => rfl
  | step i j inside rest ih => rw [ih, elems_swap _ inside.1 inside.2]

theorem elems_replace {a b : Nat → α} {n i : Nat} (low : 1 ≤ i) (high : i ≤ n + 1)
    (swaps : n = 0 ∨ Swaps n (Function.update a i (a (n + 1))) b) :
    a i ::ₘ elems b n = elems a (n + 1) := by
  have taken : a i ::ₘ elems (Function.update a i (a (n + 1))) n = elems a (n + 1) := by
    rw [elems_succ]
    by_cases last : i = n + 1
    · rw [last, elems_update_outside a _ (Nat.lt_succ_self n)]
    · exact elems_update a _ low (by omega)
  rcases swaps with empty | swaps
  · subst empty
    exact taken
  · rw [swaps.elems, taken]

theorem elems_push {a b : Nat → α} {n : Nat} {x : α}
    (swaps : Swaps (n + 1) (Function.update a (n + 1) x) b) : elems b (n + 1) = x ::ₘ elems a n := by
  rw [swaps.elems, elems_succ, Function.update_self, elems_update_outside a x (Nat.lt_succ_self n)]

variable [LinearOrder K] (key : α → K)

def Ordered (a : Nat → α) (n : Nat) : Prop :=
  ∀ i, 2 ≤ i → i ≤ n → key (a (i / 2)) ≤ key (a i)

/-- In order but perhaps between `top` and its children, which are in order with
    the parent of `top`. -/
structure DownFrom (a : Nat → α) (n top : Nat) : Prop where
  order : ∀ i, 2 ≤ i → i ≤ n → i / 2 ≠ top → key (a (i / 2)) ≤ key (a i)
  bypass : ∀ i, 2 ≤ i → i ≤ n → i / 2 = top → 2 ≤ top → key (a (top / 2)) ≤ key (a i)

/-- In order but perhaps between `i` and its parent, which is in order with the
    children of `i`. -/
structure UpFrom (a : Nat → α) (n i : Nat) : Prop where
  order : ∀ j, 2 ≤ j → j ≤ n → j ≠ i → key (a (j / 2)) ≤ key (a j)
  bypass : ∀ j, 2 ≤ j → j ≤ n → j / 2 = i → 2 ≤ i → key (a (i / 2)) ≤ key (a j)

variable {key}

theorem DownFrom.done {a : Nat → α} {n top : Nat} (down : DownFrom key a n top)
    (below : ∀ i, 2 ≤ i → i ≤ n → i / 2 = top → key (a top) ≤ key (a i)) : Ordered key a n := by
  intro i low high
  by_cases child : i / 2 = top
  · rw [child]
    exact below i low high child
  · exact down.order i low high child

theorem DownFrom.swap {a : Nat → α} {n top c : Nat} (down : DownFrom key a n top)
    (child : c / 2 = top) (low : 2 ≤ c) (high : c ≤ n) (less : key (a c) ≤ key (a top))
    (least : ∀ i, 2 ≤ i → i ≤ n → i / 2 = top → key (a c) ≤ key (a i)) :
    DownFrom key (BinaryHeap.swap a top c) n c where
  order i lowI highI apart := by
    simp only [swap_apply]
    by_cases isC : i = c
    · have parent : i / 2 ≠ c := by omega
      rw [if_neg parent, if_pos (by omega), if_pos isC]
      exact less
    · rw [if_neg apart, if_neg isC]
      by_cases above : i / 2 = top
      · -- the other child of `top`
        rw [if_pos above, if_neg (by omega)]
        exact least i lowI highI above
      · rw [if_neg above]
        by_cases isTop : i = top
        · rw [if_pos isTop, isTop]
          exact down.bypass c low high child (by omega)
        · rw [if_neg isTop]
          exact down.order i lowI highI above
  bypass i lowI highI below _ := by
    simp only [swap_apply]
    rw [if_neg (by omega), if_pos child, if_neg (by omega), if_neg (by omega)]
    have inOrder := down.order i lowI highI (by omega)
    rw [below] at inOrder
    exact inOrder

theorem UpFrom.done {a : Nat → α} {n i : Nat} (up : UpFrom key a n i)
    (above : 2 ≤ i → i ≤ n → key (a (i / 2)) ≤ key (a i)) : Ordered key a n := by
  intro j low high
  by_cases same : j = i
  · rw [same] at low high ⊢
    exact above low high
  · exact up.order j low high same

theorem UpFrom.swap {a : Nat → α} {n i : Nat} (up : UpFrom key a n i) (low : 2 ≤ i) (high : i ≤ n)
    (less : key (a i) ≤ key (a (i / 2))) :
    UpFrom key (BinaryHeap.swap a i (i / 2)) n (i / 2) where
  order j lowJ highJ apart := by
    simp only [swap_apply]
    by_cases isI : j = i
    · subst isI
      rw [if_pos rfl, if_neg apart, if_pos rfl]
      exact less
    · rw [if_neg apart, if_neg isI]
      by_cases sibling : j / 2 = i / 2
      · rw [if_pos sibling]
        have inOrder := up.order j lowJ highJ isI
        rw [sibling] at inOrder
        exact le_trans less inOrder
      · rw [if_neg sibling]
        by_cases child : j / 2 = i
        · rw [if_pos child]
          exact up.bypass j lowJ highJ child low
        · rw [if_neg child]
          exact up.order j lowJ highJ isI
  bypass j lowJ highJ below lowP := by
    simp only [swap_apply]
    have grand : key (a (i / 2 / 2)) ≤ key (a (i / 2)) := up.order (i / 2) lowP (by omega) (by omega)
    rw [if_neg (by omega), if_neg (by omega)]
    by_cases isI : j = i
    · rw [if_neg (by omega), if_pos isI]
      exact grand
    · rw [if_neg (by omega), if_neg isI]
      have inOrder := up.order j lowJ highJ isI
      rw [below] at inOrder
      exact le_trans grand inOrder

theorem Ordered.push {a : Nat → α} {n : Nat} (ordered : Ordered key a n) (x : α) :
    UpFrom key (Function.update a (n + 1) x) (n + 1) (n + 1) where
  order j low high apart := by
    rw [Function.update_of_ne (by omega), Function.update_of_ne apart]
    exact ordered j low (by omega)
  bypass j low high below _ := by omega

/-- The last element in the place of another one is in order above when it is not
    less than the parent there. -/
theorem Ordered.replace {a : Nat → α} {n i : Nat} (ordered : Ordered key a (n + 1)) (low : 1 ≤ i)
    (fits : 2 ≤ i → i ≤ n → key (a (i / 2)) ≤ key (a (n + 1))) :
    DownFrom key (Function.update a i (a (n + 1))) n i where
  order j lowJ highJ apart := by
    rw [Function.update_of_ne apart]
    by_cases same : j = i
    · subst same
      rw [Function.update_self]
      exact fits lowJ highJ
    · rw [Function.update_of_ne same]
      exact ordered j lowJ (by omega)
  bypass j lowJ highJ below lowI := by
    rw [Function.update_of_ne (by omega), Function.update_of_ne (by omega)]
    have first := ordered i lowI (by omega)
    have second := ordered j lowJ (by omega)
    rw [below] at second
    exact le_trans first second

theorem Ordered.root {a : Nat → α} {n : Nat} (ordered : Ordered key a n) {i : Nat} (low : 1 ≤ i)
    (high : i ≤ n) : key (a 1) ≤ key (a i) := by
  induction i using Nat.strongRecOn with
  | _ i ih =>
    by_cases isRoot : i = 1
    · rw [isRoot]
    · have parent := ih (i / 2) (by omega) (by omega) (by omega)
      exact le_trans parent (ordered i (by omega) high)

end BinaryHeap
