import Mathlib.Data.List.Basic
import Mathlib.Data.List.Induction
import Mathlib.Data.List.Nodup
import Mathlib.Logic.Function.Basic

/-!
Intrusive doubly linked lists. Every object carries one link cell; a list is
a head pointer and the objects reached from it. `Chain` ties a head pointer to
the mathematical list it stands for, and each pointer update below is related
to the list operation it performs.
-/
namespace Intrusive

structure Node (α : Type) where
  prev : Option α
  next : Option α
  deriving DecidableEq, Repr

abbrev Links (α : Type) := α → Node α

def detached {α : Type} : Node α := ⟨none, none⟩

section
variable {α : Type}

/-- The objects `xs` in order from pointer `h`, the first one pointing back at
    `p` and the last one forward at `n`. -/
def Segment (m : Links α) (p h : Option α) (n : Option α) : List α → Prop
  | [] => h = n
  | x :: xs => h = some x ∧ (m x).prev = p ∧ Segment m (some x) (m x).next n xs

abbrev Chain (m : Links α) (h : Option α) (xs : List α) : Prop :=
  Segment m none h none xs

theorem segment_congr {m m' : Links α} {p h n : Option α} {xs : List α}
    (same : ∀ x ∈ xs, m' x = m x) (seg : Segment m p h n xs) : Segment m' p h n xs := by
  induction xs generalizing p h with
  | nil => exact seg
  | cons x xs ih =>
    obtain ⟨head, back, tail⟩ := seg
    have here := same x (by simp)
    refine ⟨head, by rw [here]; exact back, ?_⟩
    rw [here]
    exact ih (fun y member => same y (by simp [member])) tail

theorem segment_append {m : Links α} {p h n : Option α} {xs : List α} {y : α} {ys : List α} :
    Segment m p h n (xs ++ y :: ys) ↔
      Segment m p h (some y) xs ∧ (m y).prev = (xs.getLast?.or p) ∧
        Segment m (some y) (m y).next n ys := by
  induction xs generalizing p h with
  | nil => simp [Segment]
  | cons x xs ih =>
    simp only [List.cons_append, Segment, ih, and_assoc]
    cases xs with
    | nil => simp
    | cons z zs => simp [List.getLast?_cons]

theorem segment_head {m : Links α} {p h : Option α} {xs : List α}
    (seg : Segment m p h none xs) : h = xs.head? := by
  cases xs with
  | nil => exact seg
  | cons x xs => exact seg.1

theorem segment_empty_iff {m : Links α} {p h : Option α} {xs : List α}
    (seg : Segment m p h none xs) : h = none ↔ xs = [] := by
  rw [segment_head seg, List.head?_eq_none_iff]

def walk (m : Links α) : Nat → α → α
  | 0, x => x
  | k + 1, x => match (m x).next with
    | some y => walk m k y
    | none => x

theorem walk_last {m : Links α} {k : Nat} {p : Option α} {x : α} {xs : List α}
    (seg : Segment m p (some x) none (x :: xs)) (enough : xs.length ≤ k) :
    walk m k x = (x :: xs).getLast (by simp) := by
  induction k generalizing p x xs with
  | zero =>
    have empty : xs = [] := List.length_eq_zero_iff.mp (by omega)
    subst empty
    rfl
  | succ k ih =>
    obtain ⟨_, _, tail⟩ := seg
    cases xs with
    | nil =>
      have stop : (m x).next = none := tail
      simp [walk, stop]
    | cons y ys =>
      have step : (m x).next = some y := tail.1
      rw [walk, step]
      simp only
      rw [ih (by rw [step] at tail; exact tail) (by simp at enough; omega)]
      simp

def collect (m : Links α) : Nat → Option α → List α
  | 0, _ => []
  | _ + 1, none => []
  | k + 1, some x => x :: collect m k (m x).next

inductive Linked (m : Links α) : Option α → α → Prop where
  | here (x : α) : Linked m (some x) x
  | next {x y : α} (later : Linked m (m x).next y) : Linked m (some x) y

theorem Linked.successor {m : Links α} {h : Option α} {x y : α} (linked : Linked m h x)
    (next : (m x).next = some y) : Linked m h y := by
  induction linked with
  | here x => exact .next (next ▸ .here y)
  | next _ ih => exact .next (ih next)

theorem collect_segment {m : Links α} {k : Nat} {p h : Option α} {xs : List α}
    (seg : Segment m p h none xs) (enough : xs.length ≤ k) : collect m k h = xs := by
  induction k generalizing p h xs with
  | zero => simp [collect, List.length_eq_zero_iff.mp (by omega : xs.length = 0)]
  | succ k ih =>
    cases xs with
    | nil =>
      have stop : h = none := seg
      simp [collect, stop]
    | cons x xs =>
      obtain ⟨head, _, tail⟩ := seg
      simp only [List.length_cons] at enough
      simp only [head, collect]
      rw [ih tail (by omega)]

theorem Linked.mem {m : Links α} {p h : Option α} {xs : List α} {y : α} (linked : Linked m h y)
    (seg : Segment m p h none xs) : y ∈ xs := by
  induction linked generalizing p xs with
  | here x =>
    cases xs with
    | nil => cases seg
    | cons z zs =>
      cases seg.1
      exact List.mem_cons_self
  | next later ih =>
    cases xs with
    | nil => cases seg
    | cons z zs =>
      obtain ⟨head, _, tail⟩ := seg
      cases head
      exact List.mem_cons_of_mem _ (ih tail)

theorem Linked.of_mem {m : Links α} {p h : Option α} {xs : List α} {y : α} (member : y ∈ xs)
    (seg : Segment m p h none xs) : Linked m h y := by
  induction xs generalizing p h with
  | nil => cases member
  | cons x xs ih =>
    obtain ⟨head, _, tail⟩ := seg
    subst head
    rcases List.mem_cons.mp member with same | later
    · rw [same]
      exact .here x
    · exact .next (ih later tail)

theorem chain_split {m : Links α} {h : Option α} {as bs : List α} {x : α}
    (chain : Chain m h (as ++ x :: bs)) :
    (m x).prev = as.getLast? ∧ (m x).next = bs.head? ∧
      (h = some x ↔ as = [] ∨ as.head? = some x) := by
  have parts := segment_append.mp chain
  refine ⟨by simpa using parts.2.1, segment_head parts.2.2, ?_⟩
  rw [segment_head chain]
  cases as <;> simp

/-- The back links alone tell the objects of a list apart. -/
theorem segment_nodup {m : Links α} {h n : Option α} (xs : List α) (seg : Segment m none h n xs) :
    xs.Nodup := by
  induction xs using List.reverseRecOn generalizing n with
  | nil => exact List.nodup_nil
  | append_singleton ys a ih =>
    obtain ⟨front, back, _⟩ := segment_append.mp seg
    have nodup := ih front
    refine List.nodup_append.mpr ⟨nodup, List.nodup_singleton a, ?_⟩
    intro y member b last same
    rw [List.mem_singleton.mp last] at same
    subst same
    -- `y` would point back both at its predecessor among `ys` and at the last of them
    obtain ⟨as, bs, rfl⟩ := List.append_of_mem member
    have early := (segment_append.mp front).2.1
    rw [back, Option.or_none, Option.or_none, List.getLast?_append, List.getLast?_cons] at early
    have inside : (bs.getLast?.getD y) ∈ as := List.mem_of_getLast? early.symm
    have later : (bs.getLast?.getD y) ∈ y :: bs := by
      rw [← Option.some_inj.mp (List.getLast?_cons ..)]
      exact List.mem_of_getLast? rfl
    exact (List.nodup_append.mp nodup).2.2 _ inside _ later rfl

inductive Ends (m : Links α) : Option α → Prop where
  | null : Ends m none
  | next {x : α} (later : Ends m (m x).next) : Ends m (some x)

/-- The list is finite and ends at NULL, nothing lies before its head, and the
    two pointers of its objects are inverse to each other. -/
structure WellLinked (m : Links α) (h : Option α) : Prop where
  ends : Ends m h
  head : ∀ x, h = some x → (m x).prev = none
  inverse : ∀ x y, Linked m h x → Linked m h y → ((m x).next = some y ↔ (m y).prev = some x)

theorem Ends.segment {m : Links α} {p h : Option α} (ends : Ends m h)
    (head : ∀ x, h = some x → (m x).prev = p)
    (back : ∀ x y, Linked m h x → (m x).next = some y → (m y).prev = some x) :
    ∃ xs, Segment m p h none xs := by
  induction ends generalizing p with
  | null => exact ⟨[], rfl⟩
  | next later ih =>
    rename_i x
    obtain ⟨xs, tail⟩ := ih (back x · (.here x)) fun y z linked => back y z (.next linked)
    exact ⟨x :: xs, rfl, head x rfl, tail⟩

theorem Segment.ends {m : Links α} {p h : Option α} {xs : List α} (seg : Segment m p h none xs) :
    Ends m h := by
  induction xs generalizing p h with
  | nil =>
    rw [show h = none from seg]
    exact .null
  | cons x xs ih =>
    obtain ⟨head, _, tail⟩ := seg
    rw [head]
    exact .next (ih tail)

theorem wellLinked_iff (m : Links α) (h : Option α) : WellLinked m h ↔ ∃ xs, Chain m h xs := by
  constructor
  · intro ok
    apply ok.ends.segment ok.head
    intro x y linked next
    exact (ok.inverse x y linked (linked.successor next)).mp next
  · rintro ⟨xs, chain⟩
    refine ⟨chain.ends, ?_, ?_⟩
    · rintro x rfl
      cases xs with
      | nil => cases chain
      | cons y ys =>
        cases chain.1
        exact chain.2.1
    · intro x y here there
      constructor
      · intro next
        obtain ⟨as, bs, rfl⟩ := List.append_of_mem (here.mem chain)
        have head := (chain_split chain).2.1
        rw [next] at head
        obtain ⟨cs, rfl⟩ := List.head?_eq_some_iff.mp head.symm
        rw [← List.singleton_append, ← List.append_assoc] at chain
        rw [(chain_split chain).1]
        simp
      · intro prev
        obtain ⟨as, bs, rfl⟩ := List.append_of_mem (there.mem chain)
        have last := (chain_split chain).1
        rw [prev] at last
        obtain ⟨cs, rfl⟩ := List.getLast?_eq_some_iff.mp last.symm
        rw [List.append_assoc, List.singleton_append] at chain
        rw [(chain_split chain).2.1]
        simp

end

section
variable {α : Type} [DecidableEq α]

def setPrev (m : Links α) (x : α) (p : Option α) : Links α :=
  Function.update m x { m x with prev := p }

def setNext (m : Links α) (x : α) (n : Option α) : Links α :=
  Function.update m x { m x with next := n }

/-- `setPrev` through a pointer that may be NULL, as `if (q) q->prev = p`. -/
def patchPrev (m : Links α) (q p : Option α) : Links α :=
  match q with
  | some x => setPrev m x p
  | none => m

def patchNext (m : Links α) (q n : Option α) : Links α :=
  match q with
  | some x => setNext m x n
  | none => m

theorem setPrev_apply (m : Links α) (x y : α) (p : Option α) :
    setPrev m x p y = if y = x then ⟨p, (m x).next⟩ else m y := by
  simp only [setPrev, Function.update_apply]

theorem setNext_apply (m : Links α) (x y : α) (n : Option α) :
    setNext m x n y = if y = x then ⟨(m x).prev, n⟩ else m y := by
  simp only [setNext, Function.update_apply]

theorem patchPrev_apply (m : Links α) (q p : Option α) (y : α) :
    patchPrev m q p y = if q = some y then ⟨p, (m y).next⟩ else m y := by
  cases q with
  | none => simp [patchPrev]
  | some x =>
    simp only [patchPrev, setPrev_apply, Option.some.injEq]
    by_cases same : y = x
    · subst same; simp
    · simp [same, Ne.symm same]

theorem patchPrev_next (m : Links α) (q p : Option α) (y : α) :
    (patchPrev m q p y).next = (m y).next := by
  rw [patchPrev_apply]
  split
  · rfl
  · rfl

theorem patchNext_apply (m : Links α) (q n : Option α) (y : α) :
    patchNext m q n y = if q = some y then ⟨(m y).prev, n⟩ else m y := by
  cases q with
  | none => simp [patchNext]
  | some x =>
    simp only [patchNext, setNext_apply, Option.some.injEq]
    by_cases same : y = x
    · subst same; simp
    · simp [same, Ne.symm same]

theorem segment_repoint {m : Links α} {p q h : Option α} {xs : List α}
    (seg : Segment m p h none xs) (nodup : xs.Nodup) :
    Segment (patchPrev m h q) q h none xs := by
  cases xs with
  | nil => exact seg
  | cons x xs =>
    obtain ⟨head, _, tail⟩ := seg
    subst head
    have fresh := (List.nodup_cons.mp nodup).1
    refine ⟨rfl, by simp [patchPrev_apply], ?_⟩
    have next : (patchPrev m (some x) q x).next = (m x).next := by simp [patchPrev_apply]
    rw [next]
    refine segment_congr ?_ tail
    intro y member
    have other : x ≠ y := fun e => fresh (e ▸ member)
    simp [patchPrev_apply, other]

theorem segment_retarget {m : Links α} {p h : Option α} {xs : List α} {a : α} {n : Option α}
    (seg : Segment m p h n (xs ++ [a])) (nodup : (xs ++ [a]).Nodup) (target : Option α) :
    Segment (setNext m a target) p h target (xs ++ [a]) := by
  have parts := segment_append.mp seg
  have fresh : ∀ y ∈ xs, y ≠ a := by
    intro y member same
    subst same
    exact (List.nodup_append.mp nodup).2.2 y member y (by simp) rfl
  refine segment_append.mpr ⟨segment_congr ?_ parts.1, ?_, ?_⟩
  · intro y member
    simp [setNext_apply, fresh y member]
  · simpa [setNext_apply] using parts.2.1
  · simp [setNext_apply, Segment]

theorem chain_cons {m w : Links α} {h : Option α} {xs : List α} {x : α}
    (chain : Chain m h xs) (nodup : xs.Nodup) (cell : w x = ⟨none, h⟩)
    (rest : ∀ y ∈ xs, w y = patchPrev m h (some x) y) : Chain w (some x) (x :: xs) := by
  refine ⟨rfl, by rw [cell], ?_⟩
  rw [cell]
  exact segment_congr rest (segment_repoint chain nodup)

theorem chain_snoc {m w : Links α} {h : Option α} {xs : List α} {a x : α}
    (chain : Chain m h (xs ++ [a])) (nodup : (xs ++ [a]).Nodup) (cell : w x = ⟨some a, none⟩)
    (rest : ∀ y ∈ xs ++ [a], w y = setNext m a (some x) y) : Chain w h (xs ++ [a] ++ [x]) := by
  have grown := segment_retarget chain nodup (some x)
  refine segment_append.mpr ⟨segment_congr rest grown, ?_, ?_⟩
  · simp [cell]
  · simp [cell, Segment]

/-- Both neighbours of `x` bypass it; the cell of `x` itself is left alone. -/
def bypass (m : Links α) (x : α) : Links α :=
  patchNext (patchPrev m (m x).next (m x).prev) (m x).prev (m x).next

theorem bypass_apply (m : Links α) (x y : α) :
    bypass m x y =
      ⟨if (m x).next = some y then (m x).prev else (m y).prev,
       if (m x).prev = some y then (m x).next else (m y).next⟩ := by
  simp only [bypass, patchNext_apply, patchPrev_apply]
  split <;> split <;> rfl

theorem bypass_self (m : Links α) (x : α) : bypass m x x = m x := by
  rw [bypass_apply]
  have left : (if (m x).next = some x then (m x).prev else (m x).prev) = (m x).prev := ite_self _
  have right : (if (m x).prev = some x then (m x).next else (m x).next) = (m x).next := ite_self _
  rw [left, right]

theorem chain_bypass {m : Links α} {h : Option α} {as bs : List α} {x : α}
    (chain : Chain m h (as ++ x :: bs)) (nodup : (as ++ x :: bs).Nodup) :
    Chain (bypass m x) (if h = some x then (m x).next else h) (as ++ bs) := by
  obtain ⟨back, forth, _⟩ := chain_split chain
  have parts := segment_append.mp chain
  have apart := List.nodup_append.mp nodup
  have tailNodup := (List.nodup_cons.mp apart.2.1).2
  -- the tail after `x`, with its back link already pointing at the predecessor of `x`
  have tail : Segment (patchPrev m (m x).next (m x).prev) (m x).prev (m x).next none bs :=
    segment_repoint parts.2.2 tailNodup
  rcases List.eq_nil_or_concat' as with rfl | ⟨front, a, rfl⟩
  · have first : h = some x := by simpa using segment_head chain
    have noPrev : (m x).prev = none := by simpa using back
    simp only [first, ↓reduceIte, List.nil_append, Chain]
    rw [noPrev] at tail
    simpa [bypass, noPrev, patchNext] using tail
  · have prevIs : (m x).prev = some a := by simpa using back
    have xFresh : x ∉ front ++ [a] := fun member => apart.2.2 x member x (by simp) rfl
    have keep : h ≠ some x := by
      rw [segment_head chain]
      intro eq
      apply xFresh
      cases front with
      | nil => simp only [List.nil_append, List.cons_append, List.head?_cons, Option.some.injEq] at eq
               simp [eq]
      | cons f fs => simp only [List.cons_append, List.head?_cons, Option.some.injEq] at eq
                     simp [eq]
    simp only [keep, ↓reduceIte]
    have bsFresh : ∀ y ∈ front ++ [a], y ∉ bs := by
      intro y member inTail
      exact apart.2.2 y member y (by simp [inTail]) rfl
    have frontSeg : Segment m none h (some x) (front ++ [a]) := parts.1
    have patched : Segment (setNext m a (m x).next) none h (m x).next (front ++ [a]) :=
      segment_retarget frontSeg apart.1 _
    have agree : ∀ y ∈ front ++ [a], bypass m x y = setNext m a (m x).next y := by
      intro y member
      have notHead : (m x).next ≠ some y := by
        rw [forth]
        intro eq
        exact bsFresh y member (List.mem_of_head? eq)
      rw [bypass_apply, setNext_apply, prevIs]
      simp only [notHead, ↓reduceIte, Option.some.injEq]
      by_cases same : y = a
      · subst same; simp
      · simp [same, Ne.symm same]
    have front' := segment_congr agree patched
    cases bs with
    | nil =>
      have stop : (m x).next = none := by simpa using forth
      rw [stop] at front'
      simpa [Chain] using front'
    | cons b rest =>
      have nextIs : (m x).next = some b := by simpa using forth
      rw [nextIs] at front'
      have tail' : Segment (bypass m x) (some a) (some b) none (b :: rest) := by
        rw [prevIs, nextIs] at tail
        refine segment_congr ?_ tail
        intro y member
        have notPrev : a ≠ y := fun e => bsFresh a (by simp) (e ▸ member)
        simp only [bypass, prevIs, nextIs, patchNext_apply, Option.some.injEq, notPrev, ↓reduceIte]
      refine segment_append.mpr ⟨front', ?_, tail'.2.2⟩
      simpa using tail'.2.1

end
end Intrusive
