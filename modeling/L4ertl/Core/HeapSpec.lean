import L4ertl.Core.Frame
import L4ertl.Lib.BinaryHeap

/-!
The heap of timers (heap.c) as a binary heap: what each operation does to the
elements, when it leaves them in order, and that it stays inside the array.
-/
namespace L4ertl
open BinaryHeap

section
variable {T : Type}

/-- The order of the heap: the timer value, unsigned. -/
def keyOf (timers : Nat → Ktimer T) : Option Nat → Nat
  | some i => (timers i).timerValue.toNat
  | none => 0

theorem get_ok {h : TimerHeap} {i : Nat} {p : Option Nat} (ok : h.get i = .ok p) :
    i < heapMaxNelem ∧ h.array i = p := by
  unfold TimerHeap.get at ok
  split at ok
  · rename_i inside
    exact ⟨inside, Except.ok.inj ok⟩
  · cases ok

theorem set_ok {h h' : TimerHeap} {i : Nat} {p : Option Nat} (ok : h.set i p = .ok h') :
    i < heapMaxNelem ∧ h' = { h with array := Function.update h.array i p } := by
  unfold TimerHeap.set at ok
  split at ok
  · rename_i inside
    exact ⟨inside, (Except.ok.inj ok).symm⟩
  · cases ok

theorem isMin_ok {timers : Nat → Ktimer T} {p q : Option Nat} {less : Bool}
    (ok : isMin timers p q = .ok less) : less = decide (keyOf timers p < keyOf timers q) := by
  cases p with
  | none => cases ok
  | some i =>
    cases q with
    | none => cases ok
    | some j =>
      simp only [isMin, deref, bind, Except.bind, pure, Except.pure, Except.ok.injEq] at ok
      rw [← ok]
      exact decide_eq_decide.mpr BitVec.lt_def

theorem lesserChild_ok {timers : Nat → Ktimer T} {h : TimerHeap} {top child : Nat}
    (inside : 2 * top ≤ h.nelem) (ok : lesserChild timers h (2 * top) = .ok child) :
    child / 2 = top ∧ 2 * top ≤ child ∧ child ≤ h.nelem ∧
      ∀ i, i ≤ h.nelem → i / 2 = top →
        keyOf timers (h.array child) ≤ keyOf timers (h.array i) := by
  have cases_ : ∀ i, i / 2 = top → i = 2 * top ∨ i = 2 * top + 1 := by
    intro i half
    omega
  simp only [lesserChild, bind, pure, Except.pure] at ok
  split at ok
  · rename_i both
    simp only [bind_ok, Except.ok.injEq] at ok
    obtain ⟨right, getRight, left, getLeft, less, compared, ok⟩ := ok
    obtain ⟨_, rfl⟩ := get_ok getRight
    obtain ⟨_, rfl⟩ := get_ok getLeft
    have meaning := isMin_ok compared
    subst meaning
    by_cases smaller : keyOf timers (h.array (2 * top + 1)) < keyOf timers (h.array (2 * top))
    · simp only [smaller, decide_true, if_true] at ok
      subst ok
      refine ⟨by omega, by omega, both, fun i _ half => ?_⟩
      rcases cases_ i half with same | same
      · rw [same]
        omega
      · rw [same]
    · simp only [smaller, decide_false, Bool.false_eq_true, if_false] at ok
      subst ok
      refine ⟨by omega, by omega, by omega, fun i _ half => ?_⟩
      rcases cases_ i half with same | same
      · rw [same]
      · rw [same]
        omega
  · rename_i single
    have same := Except.ok.inj ok
    subst same
    refine ⟨by omega, by omega, inside, fun i high half => ?_⟩
    rcases cases_ i half with same | same
    · rw [same]
    · omega

/-- Sifting down exchanges elements, and ends in order if only the place it
    starts from was out of order. -/
theorem heapifyLoop_swaps (fuel : Nat) {timers : Nat → Ktimer T} {tempvalue : Option Nat} {top : Nat}
    {h h' : TimerHeap} (here : h.array top = tempvalue) (low : 1 ≤ top)
    (ran : heapifyLoop timers tempvalue fuel top h = .ok h') :
    h'.nelem = h.nelem ∧ Swaps h.nelem h.array h'.array ∧
      (DownFrom (keyOf timers) h.array h.nelem top → Ordered (keyOf timers) h'.array h.nelem) := by
  induction fuel generalizing top h with
  | zero => cases ran
  | succ fuel ih =>
    simp only [heapifyLoop, bind, pure, Except.pure] at ran
    split at ran
    · rename_i inside
      simp only [bind_ok] at ran
      obtain ⟨child, chosen, below, gotBelow, stop, compared, ran⟩ := ran
      obtain ⟨half, doubled, high, least⟩ := lesserChild_ok inside chosen
      obtain ⟨_, rfl⟩ := get_ok gotBelow
      have meaning := isMin_ok compared
      subst meaning
      split at ran
      · rename_i less
        cases ran
        refine ⟨rfl, .refl _, fun down => down.done ?_⟩
        intro i _ highI halfI
        have smaller := least i highI halfI
        rw [decide_eq_true_eq] at less
        rw [here]
        omega
      · rename_i more
        rw [decide_eq_true_eq] at more
        simp only [bind_ok] at ran
        obtain ⟨first, setTop, second, setChild, ran⟩ := ran
        obtain ⟨_, rfl⟩ := set_ok setTop
        obtain ⟨_, rfl⟩ := set_ok setChild
        have swapped : Function.update (Function.update h.array top (h.array child)) child tempvalue =
            BinaryHeap.swap h.array top child := by
          rw [← here]
          rfl
        obtain ⟨size, swaps, order⟩ := ih (by simp) (by omega) ran
        simp only [swapped] at size swaps order
        refine ⟨size, .step top child (by omega) swaps, fun down => order ?_⟩
        refine down.swap half (by omega) high ?_ ?_
        · rw [here]
          omega
        · intro i _ highI halfI
          exact least i highI halfI
    · rename_i outside
      cases ran
      refine ⟨rfl, .refl _, fun down => down.done ?_⟩
      intro i _ highI halfI
      omega

def Filled (h : TimerHeap) : Prop := ∀ i, 1 ≤ i → i ≤ h.nelem → ∃ j, j < maxTimers ∧ h.array i = some j

theorem get_inside {h : TimerHeap} {i : Nat} (inside : i < heapMaxNelem) : h.get i = .ok (h.array i) :=
  if_pos inside

theorem set_inside {h : TimerHeap} {i : Nat} {p : Option Nat} (inside : i < heapMaxNelem) :
    h.set i p = .ok { h with array := Function.update h.array i p } :=
  if_pos inside

theorem isMin_some (timers : Nat → Ktimer T) (i j : Nat) :
    isMin timers (some i) (some j) =
      .ok (decide (keyOf timers (some i) < keyOf timers (some j))) := by
  simp only [isMin, deref, bind, Except.bind, pure, Except.pure]
  exact congrArg Except.ok (decide_eq_decide.mpr BitVec.lt_def)

theorem lesserChild_returns (timers : Nat → Ktimer T) {h : TimerHeap} {top : Nat} (filled : Filled h)
    (room : h.nelem < heapMaxNelem) (low : 1 ≤ top) (inside : 2 * top ≤ h.nelem) :
    ∃ child, lesserChild timers h (2 * top) = .ok child := by
  obtain ⟨i, _, left⟩ := filled (2 * top) (by omega) inside
  simp only [lesserChild, bind, pure, Except.pure]
  split
  · rename_i both
    obtain ⟨j, _, right⟩ := filled (2 * top + 1) (by omega) both
    rw [get_inside (i := 2 * top + 1) (by omega), get_inside (i := 2 * top) (by omega), left, right]
    simp only [Except.bind, isMin_some]
    exact ⟨_, rfl⟩
  · exact ⟨_, rfl⟩

theorem Filled.swap {h : TimerHeap} (filled : Filled h) {i j : Nat} (first : 1 ≤ i ∧ i ≤ h.nelem)
    (second : 1 ≤ j ∧ j ≤ h.nelem) : Filled { h with array := BinaryHeap.swap h.array i j } := by
  intro k low high
  simp only [swap_apply]
  split
  · exact filled i first.1 first.2
  · split
    · exact filled j second.1 second.2
    · exact filled k low high

/-- `top` grows in each round, and past the last element there is nothing to do. -/
theorem heapifyLoop_returns (fuel : Nat) (timers : Nat → Ktimer T) {t top : Nat} {h : TimerHeap}
    (filled : Filled h) (room : h.nelem < heapMaxNelem) (here : h.array top = some t) (low : 1 ≤ top)
    (positive : 0 < fuel) (enough : h.nelem < top + fuel) :
    ∃ h', heapifyLoop timers (some t) fuel top h = .ok h' := by
  induction fuel generalizing top h with
  | zero => omega
  | succ fuel ih =>
    simp only [heapifyLoop, bind, pure, Except.pure]
    split
    · rename_i inside
      obtain ⟨child, chosen⟩ := lesserChild_returns timers filled room low inside
      obtain ⟨_, doubled, high, _⟩ := lesserChild_ok inside chosen
      obtain ⟨j, _, below⟩ := filled child (by omega) high
      rw [chosen]
      simp only [Except.bind]
      rw [get_inside (i := child) (by omega), below]
      simp only [isMin_some]
      split
      · exact ⟨_, rfl⟩
      · rw [set_inside (i := top) (by omega)]
        simp only
        rw [set_inside (i := child) (by omega)]
        have swapped : Function.update (Function.update h.array top (some j)) child (some t) =
            BinaryHeap.swap h.array top child := by
          rw [← here, ← below]
          rfl
        simp only [swapped]
        have next := filled.swap (i := top) (j := child) (by omega) (by omega)
        refine ih next room ?_ (by omega) (by omega) (by simp only; omega)
        simp only [swap_apply, if_pos]
        exact here
    · exact ⟨_, rfl⟩

theorem heapInsertLoop_swaps (fuel : Nat) {timers : Nat → Ktimer T} {k i : Nat} {h h' : TimerHeap}
    (low : 1 ≤ i) (high : i ≤ h.nelem) (ran : heapInsertLoop timers k fuel i h = .ok h') :
    h'.nelem = h.nelem ∧ Swaps h.nelem (Function.update h.array i (some k)) h'.array ∧
      (UpFrom (keyOf timers) (Function.update h.array i (some k)) h.nelem i →
        Ordered (keyOf timers) h'.array h.nelem) := by
  induction fuel generalizing i h with
  | zero => cases ran
  | succ fuel ih =>
    simp only [heapInsertLoop, bind] at ran
    split at ran
    · rename_i more
      simp only [bind_ok] at ran
      obtain ⟨above, gotAbove, less, compared, ran⟩ := ran
      obtain ⟨_, rfl⟩ := get_ok gotAbove
      have meaning := isMin_ok compared
      subst meaning
      have parent : Function.update h.array i (some k) (i / 2) = h.array (i / 2) :=
        Function.update_of_ne (by omega) _ _
      split at ran
      · rename_i less
        rw [decide_eq_true_eq] at less
        rw [bind_ok] at ran
        obtain ⟨moved, setHere, ran⟩ := ran
        obtain ⟨_, rfl⟩ := set_ok setHere
        have swapped : Function.update (Function.update h.array i (h.array (i / 2))) (i / 2) (some k) =
            BinaryHeap.swap (Function.update h.array i (some k)) i (i / 2) := by
          simp only [BinaryHeap.swap, parent, Function.update_self, Function.update_idem]
        obtain ⟨size, swaps, order⟩ := ih (by omega) (by simp only; omega) ran
        simp only [swapped] at size swaps order
        refine ⟨size, .step i (i / 2) (by omega) swaps, fun up => order (up.swap (by omega) high ?_)⟩
        rw [parent, Function.update_self]
        omega
      · rename_i notLess
        rw [decide_eq_true_eq] at notLess
        obtain ⟨_, rfl⟩ := set_ok ran
        refine ⟨rfl, .refl _, fun up => up.done fun _ _ => ?_⟩
        rw [parent, Function.update_self]
        omega
    · rename_i root
      obtain ⟨_, rfl⟩ := set_ok ran
      refine ⟨rfl, .refl _, fun up => up.done fun two _ => ?_⟩
      omega

theorem heapInsertLoop_returns (fuel : Nat) (timers : Nat → Ktimer T) {k i : Nat} {h : TimerHeap}
    (filled : ∀ j, 1 ≤ j → j < i → ∃ t, h.array j = some t) (room : h.nelem < heapMaxNelem)
    (high : i ≤ h.nelem) (enough : i < fuel) : ∃ h', heapInsertLoop timers k fuel i h = .ok h' := by
  induction fuel generalizing i h with
  | zero => omega
  | succ fuel ih =>
    simp only [heapInsertLoop, bind]
    split
    · rename_i more
      obtain ⟨t, above⟩ := filled (i / 2) (by omega) (by omega)
      rw [get_inside (i := i / 2) (by omega), above]
      simp only [Except.bind, isMin_some]
      split
      · rw [set_inside (i := i) (by omega)]
        simp only
        refine ih ?_ room (by simp only; omega) (by omega)
        intro j low below
        obtain ⟨u, here⟩ := filled j low (by omega)
        have apart : j ≠ i := by omega
        exact ⟨u, by simp only [Function.update_of_ne apart, here]⟩
      · exact ⟨_, set_inside (by omega)⟩
    · exact ⟨_, set_inside (by omega)⟩

theorem heapInsert_ok {timers : Nat → Ktimer T} {k : Nat} {h h' : TimerHeap} {v : Int}
    (ran : heapInsert timers h k = .ok (h', v)) :
    (heapMaxNelem < h.nelem + 1 ∧ h' = h) ∨
    (h'.nelem = h.nelem + 1 ∧
      Swaps (h.nelem + 1) (Function.update h.array (h.nelem + 1) (some k)) h'.array ∧
      (Ordered (keyOf timers) h.array h.nelem → Ordered (keyOf timers) h'.array (h.nelem + 1))) := by
  simp only [heapInsert, bind, pure, Except.pure] at ran
  split at ran
  · rename_i full
    cases ran
    exact Or.inl ⟨full, rfl⟩
  · right
    simp only [bind_ok, Except.ok.injEq, Prod.mk.injEq] at ran
    obtain ⟨x, loop, rfl, _⟩ := ran
    obtain ⟨size, swaps, order⟩ := heapInsertLoop_swaps _ (Nat.le_add_left 1 h.nelem) (le_refl _) loop
    exact ⟨size, swaps, fun ordered => order (ordered.push _)⟩

theorem heapInsert_returns (timers : Nat → Ktimer T) {h : TimerHeap} (k : Nat) (filled : Filled h)
    (room : h.nelem + 1 < heapMaxNelem) : ∃ r, heapInsert timers h k = .ok r := by
  simp only [heapInsert, bind, pure, Except.pure]
  rw [if_neg (by omega)]
  obtain ⟨h', loop⟩ := heapInsertLoop_returns (h.nelem + 1 + 1) timers (k := k)
    (h := { h with nelem := h.nelem + 1 }) (i := h.nelem + 1) (by
      intro j low below
      obtain ⟨t, _, here⟩ := filled j low (by omega)
      exact ⟨t, here⟩) room (le_refl _) (by omega)
  rw [loop]
  exact ⟨_, rfl⟩

theorem heapify_ok {timers : Nat → Ktimer T} {h h' : TimerHeap} {n i : Nat} (size : h.nelem = n + 1)
    (low : 1 ≤ i)
    (ran : heapify timers ⟨Function.update h.array i (h.array (n + 1)), n⟩ i = .ok h') :
    h'.nelem = n ∧ Swaps n (Function.update h.array i (h.array (n + 1))) h'.array ∧
      (Ordered (keyOf timers) h.array h.nelem →
        (2 ≤ i → i ≤ n → keyOf timers (h.array (i / 2)) ≤ keyOf timers (h.array (n + 1))) →
        Ordered (keyOf timers) h'.array n) := by
  simp only [heapify, bind, bind_ok] at ran
  obtain ⟨tempvalue, gotTop, loop⟩ := ran
  obtain ⟨_, here⟩ := get_ok gotTop
  obtain ⟨same, swaps, order⟩ := heapifyLoop_swaps _ here low loop
  refine ⟨same, swaps, fun ordered fits => order ?_⟩
  rw [size] at ordered
  exact ordered.replace low fits

theorem Filled.replace {h : TimerHeap} {n i : Nat} (filled : Filled h) (size : h.nelem = n + 1) :
    Filled ⟨Function.update h.array i (h.array (n + 1)), n⟩ := by
  intro j low high
  simp only [Function.update_apply]
  split
  · exact filled (n + 1) (by omega) (by omega)
  · exact filled j low (by simp only at high; omega)

theorem heapify_returns (timers : Nat → Ktimer T) {h : TimerHeap} {n i : Nat} (filled : Filled h)
    (size : h.nelem = n + 1) (room : h.nelem < heapMaxNelem) (low : 1 ≤ i) (high : i ≤ h.nelem) :
    ∃ h', heapify timers ⟨Function.update h.array i (h.array (n + 1)), n⟩ i = .ok h' := by
  obtain ⟨t, _, last⟩ := filled (n + 1) (by omega) (by omega)
  simp only [heapify, bind]
  rw [get_inside (i := i) (by omega)]
  simp only [Except.bind, Function.update_self]
  have here : (⟨Function.update h.array i (h.array (n + 1)), n⟩ : TimerHeap).array i = some t := by
    simp only [Function.update_self, last]
  rw [last] at here ⊢
  have filled' := filled.replace (i := i) size
  rw [last] at filled'
  exact heapifyLoop_returns (n + 1) timers filled' (by simp only; omega) here low (by omega)
    (by simp only; omega)

theorem heapRemoveMin_ok {timers : Nat → Ktimer T} {h h' : TimerHeap} {min : Option Nat} {n : Nat}
    (size : h.nelem = n + 1) (ran : heapRemoveMin timers h = .ok (h', min)) :
    min = h.array 1 ∧ h'.nelem = n ∧
      Swaps n (Function.update h.array 1 (h.array (n + 1))) h'.array ∧
      (Ordered (keyOf timers) h.array h.nelem → Ordered (keyOf timers) h'.array n) := by
  simp only [heapRemoveMin, bind, pure, Except.pure] at ran
  rw [if_pos (by omega)] at ran
  simp only [bind_ok, Except.ok.injEq, Prod.mk.injEq] at ran
  obtain ⟨first, gotFirst, last, gotLast, x, setFirst, y, sift, rfl, rfl⟩ := ran
  obtain ⟨_, rfl⟩ := get_ok gotFirst
  obtain ⟨_, rfl⟩ := get_ok gotLast
  obtain ⟨_, rfl⟩ := set_ok setFirst
  simp only [size, Nat.add_sub_cancel] at sift
  obtain ⟨same, swaps, order⟩ := heapify_ok size (le_refl 1) sift
  exact ⟨rfl, same, swaps, fun ordered => order ordered (by omega)⟩

theorem heapRemoveMin_returns (timers : Nat → Ktimer T) {h : TimerHeap} (filled : Filled h)
    (room : h.nelem < heapMaxNelem) (busy : 0 < h.nelem) : ∃ r, heapRemoveMin timers h = .ok r := by
  obtain ⟨n, size⟩ := Nat.exists_eq_succ_of_ne_zero (Nat.pos_iff_ne_zero.mp busy)
  obtain ⟨h', sift⟩ := heapify_returns timers filled size room (le_refl 1) busy
  simp only [heapRemoveMin, bind, pure, Except.pure]
  rw [if_pos busy, get_inside (i := 1) (by omega), get_inside (i := h.nelem) room]
  simp only [Except.bind]
  rw [set_inside (i := 1) (by omega)]
  simp only [size, Nat.succ_eq_add_one, Nat.add_sub_cancel] at sift ⊢
  rw [sift]
  exact ⟨_, rfl⟩

theorem heapLookup_ok (n : Nat) {h : TimerHeap} {k i : Nat} {r : Option Nat}
    (ran : heapLookup h k n i = .ok r) :
    (∃ j, r = some j ∧ i ≤ j ∧ j < i + n ∧ h.array j = some k) ∨
      (r = none ∧ ∀ j, i ≤ j → j < i + n → h.array j ≠ some k) := by
  induction n generalizing i with
  | zero =>
    cases ran
    right
    exact ⟨rfl, fun j low high => by omega⟩
  | succ n ih =>
    simp only [heapLookup, bind, bind_ok, pure, Except.pure] at ran
    obtain ⟨here, got, ran⟩ := ran
    obtain ⟨_, rfl⟩ := get_ok got
    split at ran
    · rename_i found
      cases ran
      exact Or.inl ⟨i, rfl, le_refl i, by omega, found⟩
    · rename_i other
      rcases ih ran with ⟨j, found, low, high, same⟩ | ⟨nothing, all⟩
      · exact Or.inl ⟨j, found, by omega, by omega, same⟩
      · refine Or.inr ⟨nothing, fun j low high => ?_⟩
        by_cases first : j = i
        · rw [first]
          exact other
        · exact all j (by omega) (by omega)

theorem heapLookup_returns (n : Nat) {h : TimerHeap} (k : Nat) {i : Nat}
    (room : i + n ≤ heapMaxNelem) : ∃ r, heapLookup h k n i = .ok r := by
  induction n generalizing i with
  | zero => exact ⟨_, rfl⟩
  | succ n ih =>
    simp only [heapLookup, bind, pure, Except.pure]
    rw [get_inside (i := i) (by omega)]
    simp only [Except.bind]
    split
    · exact ⟨_, rfl⟩
    · exact ih (by omega)

theorem heapRemoveElement_ok {timers : Nat → Ktimer T} {k : Nat} {h h' : TimerHeap} {v : Int}
    (ran : heapRemoveElement timers h k = .ok (h', v)) :
    (h' = h ∧ ¬Holds h.array h.nelem (some k)) ∨
    ∃ n i, h.nelem = n + 1 ∧ 1 ≤ i ∧ i ≤ n + 1 ∧ h.array i = some k ∧ h'.nelem = n ∧
      (n = 0 ∨ Swaps n (Function.update h.array i (h.array (n + 1))) h'.array) ∧
      (Ordered (keyOf timers) h.array h.nelem →
        (2 ≤ i → i ≤ n → keyOf timers (h.array (i / 2)) ≤ keyOf timers (h.array (n + 1))) →
        Ordered (keyOf timers) h'.array n) := by
  simp only [heapRemoveElement, bind, bind_ok, pure, Except.pure] at ran
  obtain ⟨r, search, ran⟩ := ran
  rcases heapLookup_ok h.nelem search with ⟨i, rfl, low, high, found⟩ | ⟨rfl, all⟩
  · right
    simp only at ran
    obtain ⟨n, size⟩ := Nat.exists_eq_succ_of_ne_zero (n := h.nelem) (by omega)
    refine ⟨n, i, size, low, by omega, found, ?_⟩
    split at ran
    · simp only [bind_ok, Except.ok.injEq, Prod.mk.injEq] at ran
      obtain ⟨last, gotLast, x, setHere, y, sift, rfl, _⟩ := ran
      obtain ⟨_, rfl⟩ := get_ok gotLast
      obtain ⟨_, rfl⟩ := set_ok setHere
      simp only [size, Nat.succ_eq_add_one, Nat.add_sub_cancel] at sift
      obtain ⟨same, swaps, order⟩ := heapify_ok size low sift
      exact ⟨same, Or.inr swaps, order⟩
    · rename_i single
      simp only [bind_ok, Except.ok.injEq, Prod.mk.injEq] at ran
      obtain ⟨x, setHere, rfl, _⟩ := ran
      obtain ⟨_, rfl⟩ := set_ok setHere
      have empty : n = 0 := by omega
      refine ⟨empty.symm, Or.inl empty, fun _ _ j two high => ?_⟩
      omega
  · left
    cases ran
    refine ⟨rfl, fun held => ?_⟩
    obtain ⟨j, low, high, here⟩ := held
    exact all j low (by omega) here

theorem heapRemoveElement_returns (timers : Nat → Ktimer T) {h : TimerHeap} (k : Nat)
    (filled : Filled h) (room : h.nelem < heapMaxNelem) :
    ∃ r, heapRemoveElement timers h k = .ok r := by
  obtain ⟨r, search⟩ := heapLookup_returns h.nelem (h := h) k (i := 1) (by omega)
  simp only [heapRemoveElement, bind, pure, Except.pure]
  rw [search]
  simp only [Except.bind]
  rcases heapLookup_ok h.nelem search with ⟨i, rfl, low, high, _⟩ | ⟨rfl, _⟩
  · simp only
    split
    · obtain ⟨n, size⟩ := Nat.exists_eq_succ_of_ne_zero (n := h.nelem) (by omega)
      obtain ⟨h', sift⟩ := heapify_returns timers filled size room low (by omega)
      rw [get_inside (i := h.nelem) room]
      simp only
      rw [set_inside (i := i) (by omega)]
      simp only [size, Nat.succ_eq_add_one, Nat.add_sub_cancel] at sift ⊢
      rw [sift]
      exact ⟨_, rfl⟩
    · rw [set_inside (i := i) (by omega)]
      exact ⟨_, rfl⟩
  · exact ⟨_, rfl⟩

theorem heapRemoveMin_holds {timers : Nat → Ktimer T} {h h' : TimerHeap} {min : Option Nat}
    {j : Nat} (ran : heapRemoveMin timers h = .ok (h', min)) (there : Holds h'.array h'.nelem (some j)) :
    Holds h.array h.nelem (some j) := by
  cases size : h.nelem with
  | zero =>
    simp only [heapRemoveMin, size, bind, pure, Except.pure] at ran
    cases ran
    rw [size] at there
    exact there
  | succ n =>
    obtain ⟨_, size', swaps, _⟩ := heapRemoveMin_ok size ran
    rw [size'] at there
    exact holds_shrink (Or.inr swaps) there

theorem heapRemoveElement_holds {timers : Nat → Ktimer T} {h h' : TimerHeap} {i j : Nat} {v : Int}
    (ran : heapRemoveElement timers h i = .ok (h', v)) (there : Holds h'.array h'.nelem (some j)) :
    Holds h.array h.nelem (some j) := by
  rcases heapRemoveElement_ok ran with ⟨same, _⟩ | ⟨n, p, size, _, _, _, size', swaps, _⟩
  · rw [same] at there
    exact there
  · rw [size'] at there
    rw [size]
    exact holds_shrink swaps there

theorem heapInsert_holds {timers : Nat → Ktimer T} {h h' : TimerHeap} {i j : Nat} {v : Int}
    (ran : heapInsert timers h i = .ok (h', v)) (there : Holds h'.array h'.nelem (some j)) :
    Holds h.array h.nelem (some j) ∨ j = i := by
  rcases heapInsert_ok ran with ⟨_, same⟩ | ⟨size, swaps, _⟩
  · rw [same] at there
    exact Or.inl there
  · rw [size] at there
    rcases (holds_push swaps (some j)).mp there with before | new
    · exact Or.inl before
    · exact Or.inr (Option.some.inj new)

end

end L4ertl
