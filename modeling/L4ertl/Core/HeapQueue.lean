import L4ertl.Core.TimerOk

/-!
The heap of timers as a priority queue: what it holds is a multiset of timers,
an insertion adds one, taking the minimum off takes a least one, and taking all
off lists them by their values. Taking a timer out of the middle keeps the order
only where the last element fits under the parent.
-/
namespace L4ertl
open BinaryHeap
variable {T : Type}

def TimerHeap.elements (h : TimerHeap) : Multiset (Option Nat) := elems h.array h.nelem

structure TimerQueue (timers : Nat → Ktimer T) (h : TimerHeap) : Prop where
  filled : Filled h
  room : h.nelem ≤ maxTimers
  ordered : Ordered (keyOf timers) h.array h.nelem

theorem filled_iff {h : TimerHeap} : Filled h ↔ ∀ x ∈ h.elements, ∃ j, j < maxTimers ∧ x = some j := by
  constructor
  · intro filled x member
    obtain ⟨i, low, high, here⟩ := mem_elems.mp member
    obtain ⟨j, below, at_⟩ := filled i low high
    exact ⟨j, below, by rw [← here, at_]⟩
  · intro all i low high
    exact all _ (mem_elems.mpr ⟨i, low, high, rfl⟩)

section
variable {timers : Nat → Ktimer T} {h h' : TimerHeap} {k : Nat} {v : Int}

theorem Filled.fewer (filled : Filled h) (less : h'.elements ≤ h.elements) : Filled h' :=
  filled_iff.mpr fun x member => filled_iff.mp filled x (Multiset.mem_of_le less member)

theorem Filled.added (filled : Filled h) (timer : k < maxTimers)
    (added : h'.elements = some k ::ₘ h.elements) : Filled h' := by
  rw [filled_iff]
  intro x member
  rw [added, Multiset.mem_cons] at member
  rcases member with new | old
  · exact ⟨k, timer, new⟩
  · exact filled_iff.mp filled x old

theorem heapInsert_elements (space : h.nelem + 1 < heapMaxNelem)
    (ran : heapInsert timers h k = .ok (h', v)) : h'.elements = some k ::ₘ h.elements := by
  rcases heapInsert_ok ran with ⟨full, _⟩ | ⟨size, swaps, _⟩
  · omega
  · rw [TimerHeap.elements, size]
    exact elems_push swaps

theorem heapRemoveMin_elements {min : Option Nat} (busy : 0 < h.nelem)
    (ran : heapRemoveMin timers h = .ok (h', min)) : h.array 1 ::ₘ h'.elements = h.elements := by
  obtain ⟨n, size⟩ := Nat.exists_eq_succ_of_ne_zero (Nat.pos_iff_ne_zero.mp busy)
  obtain ⟨_, size', swaps, _⟩ := heapRemoveMin_ok size ran
  rw [TimerHeap.elements, TimerHeap.elements, size', size]
  exact elems_replace (le_refl 1) (by omega) (Or.inr swaps)

theorem heapRemoveElement_elements (ran : heapRemoveElement timers h k = .ok (h', v)) :
    h'.elements = h.elements.erase (some k) := by
  rcases heapRemoveElement_ok ran with ⟨rfl, gone⟩ | ⟨n, p, size, low, high, here, size', swaps, _⟩
  · exact (Multiset.erase_of_notMem fun member => gone (mem_elems.mp member)).symm
  · have taken := elems_replace low high swaps
    unfold TimerHeap.elements
    rw [size, size', ← taken, here, Multiset.erase_cons_head]

end

theorem heapMin_empty {h : TimerHeap} (empty : h.nelem = 0) : heapMin h = .ok none := by
  simp [heapMin, empty]

theorem TimerQueue.min {timers : Nat → Ktimer T} {h : TimerHeap} (queue : TimerQueue timers h)
    (busy : 0 < h.nelem) :
    ∃ m, h.array 1 = some m ∧ heapMin h = .ok (some m) ∧ some m ∈ h.elements ∧
      ∀ x ∈ h.elements, keyOf timers (some m) ≤ keyOf timers x := by
  obtain ⟨m, _, root⟩ := queue.filled 1 (le_refl 1) busy
  refine ⟨m, root, ?_, mem_elems.mpr ⟨1, le_refl 1, busy, root⟩, ?_⟩
  · rw [heapMin, if_pos busy, get_inside (by decide), root]
  · intro x member
    obtain ⟨i, low, high, here⟩ := mem_elems.mp member
    rw [← root, ← here]
    exact queue.ordered.root low high

theorem heapRemoveMin_empty (timers : Nat → Ktimer T) {h : TimerHeap} (empty : h.nelem = 0) :
    heapRemoveMin timers h = .ok (h, none) := by
  simp [heapRemoveMin, empty, pure, Except.pure]

theorem TimerQueue.removeMin {timers : Nat → Ktimer T} {h : TimerHeap} (queue : TimerQueue timers h)
    (busy : 0 < h.nelem) :
    ∃ h', heapRemoveMin timers h = .ok (h', h.array 1) ∧ TimerQueue timers h' ∧
      h.array 1 ::ₘ h'.elements = h.elements ∧ h'.nelem + 1 = h.nelem := by
  obtain ⟨n, size⟩ := Nat.exists_eq_succ_of_ne_zero (Nat.pos_iff_ne_zero.mp busy)
  have room := queue.room
  obtain ⟨⟨h', min⟩, ran⟩ := heapRemoveMin_returns timers queue.filled
    (by unfold heapMaxNelem; omega) busy
  obtain ⟨first, size', _, order⟩ := heapRemoveMin_ok size ran
  have taken := heapRemoveMin_elements busy ran
  refine ⟨h', by rw [ran, first], ⟨?_, by omega, ?_⟩, taken, by omega⟩
  · exact queue.filled.fewer (taken ▸ Multiset.le_cons_self _ _)
  · rw [size']
    exact order queue.ordered

theorem heapInsert_code {timers : Nat → Ktimer T} {h h' : TimerHeap} {k : Nat} {v : Int}
    (room : h.nelem < heapMaxNelem) (ran : heapInsert timers h k = .ok (h', v)) : v = 0 := by
  simp only [heapInsert, bind, pure, Except.pure] at ran
  rw [if_neg (by omega)] at ran
  simp only [bind_ok, Except.ok.injEq, Prod.mk.injEq] at ran
  obtain ⟨_, _, _, zero⟩ := ran
  exact zero.symm

theorem TimerQueue.insert {timers : Nat → Ktimer T} {h : TimerHeap} (queue : TimerQueue timers h)
    {k : Nat} (timer : k < maxTimers) (space : h.nelem < maxTimers) :
    ∃ h', heapInsert timers h k = .ok (h', 0) ∧ TimerQueue timers h' ∧
      h'.elements = some k ::ₘ h.elements := by
  obtain ⟨⟨h', v⟩, ran⟩ := heapInsert_returns timers k queue.filled (by unfold heapMaxNelem; omega)
  have code := heapInsert_code (by unfold heapMaxNelem; omega) ran
  subst code
  have added := heapInsert_elements (by unfold heapMaxNelem; omega) ran
  rcases heapInsert_ok ran with ⟨full, _⟩ | ⟨size, _, order⟩
  · unfold heapMaxNelem at full
    omega
  · refine ⟨h', ran, ⟨queue.filled.added timer added, by omega, ?_⟩, added⟩
    rw [size]
    exact order queue.ordered

def heapDrain (timers : Nat → Ktimer T) : Nat → TimerHeap → Except Fault (TimerHeap × List (Option Nat))
  | 0, h => .ok (h, [])
  | n + 1, h => do
    let (h, min) ← heapRemoveMin timers h
    let (h, rest) ← heapDrain timers n h
    return (h, min :: rest)

theorem TimerQueue.drain (n : Nat) {timers : Nat → Ktimer T} {h : TimerHeap} (queue : TimerQueue timers h)
    (size : h.nelem = n) :
    ∃ h' out, heapDrain timers n h = .ok (h', out) ∧ h'.nelem = 0 ∧
      (out : Multiset (Option Nat)) = h.elements ∧
      out.Pairwise fun x y => keyOf timers x ≤ keyOf timers y := by
  induction n generalizing h with
  | zero =>
    refine ⟨h, [], rfl, size, ?_, List.Pairwise.nil⟩
    rw [TimerHeap.elements, size]
    rfl
  | succ n ih =>
    have busy : 0 < h.nelem := by omega
    obtain ⟨m, root, _, _, least⟩ := queue.min busy
    obtain ⟨w, ran, next, taken, fewer⟩ := queue.removeMin busy
    obtain ⟨h', out, rest, empty, all, sorted⟩ := ih next (by omega)
    have held : ((h.array 1 :: out : List (Option Nat)) : Multiset (Option Nat)) = h.elements := by
      rw [← Multiset.cons_coe, all, taken]
    refine ⟨h', h.array 1 :: out, ?_, empty, held, List.pairwise_cons.mpr ⟨?_, sorted⟩⟩
    · simp only [heapDrain, ran, rest, bind, Except.bind, pure, Except.pure]
    · intro x later
      rw [root]
      apply least x
      rw [← held]
      exact List.mem_cons_of_mem _ later

theorem heap_is_queue {timers : Nat → Ktimer T} {h : TimerHeap} (queue : TimerQueue timers h) :
    (∀ k, k < maxTimers → h.nelem < maxTimers → ∃ h', heapInsert timers h k = .ok (h', 0) ∧
      TimerQueue timers h' ∧ h'.elements = some k ::ₘ h.elements) ∧
    (h.nelem = 0 → heapMin h = .ok none ∧ heapRemoveMin timers h = .ok (h, none)) ∧
    (0 < h.nelem → ∃ m h', heapMin h = .ok (some m) ∧ some m ∈ h.elements ∧
      (∀ x ∈ h.elements, keyOf timers (some m) ≤ keyOf timers x) ∧
      heapRemoveMin timers h = .ok (h', some m) ∧ TimerQueue timers h' ∧
      some m ::ₘ h'.elements = h.elements) ∧
    ∃ h' out, heapDrain timers h.nelem h = .ok (h', out) ∧ h'.nelem = 0 ∧
      (out : Multiset (Option Nat)) = h.elements ∧
      out.Pairwise fun x y => keyOf timers x ≤ keyOf timers y := by
  refine ⟨fun k timer space => queue.insert timer space, ?_, ?_, queue.drain h.nelem rfl⟩
  · intro empty
    exact ⟨heapMin_empty empty, heapRemoveMin_empty timers empty⟩
  · intro busy
    obtain ⟨m, root, found, member, least⟩ := queue.min busy
    obtain ⟨h', ran, next, taken, _⟩ := queue.removeMin busy
    rw [root] at ran taken
    exact ⟨m, h', found, member, least, ran, next, taken⟩

def rowHeap (n : Nat) : TimerHeap := ⟨fun i => some (i - 1), n⟩

def rowTimers (vs : List Duration) (i : Nat) : Ktimer (Fin 1) :=
  { Ktimer.zero with timerValue := vs.getD i 0 }

theorem rowHeap_queue {n : Nat} {vs : List Duration} (room : n ≤ maxTimers)
    (ordered : ∀ i ≤ n, 2 ≤ i → vs.getD (i / 2 - 1) 0 ≤ vs.getD (i - 1) 0) :
    TimerQueue (rowTimers vs) (rowHeap n) := by
  refine ⟨?_, room, ?_⟩
  · intro i low high
    exact ⟨i - 1, by simp only [rowHeap] at high; omega, rfl⟩
  · intro i low high
    exact BitVec.le_def.mp (ordered i high low)

theorem rowHeap_once (n : Nat) : Once (rowHeap n).array n := by
  intro i j lowI _ lowJ _ same
  have eq : i - 1 = j - 1 := Option.some.inj same
  omega

theorem heap_is_queue_three :
    ∃ h' out, heapDrain (rowTimers [5, 7, 5]) 3 (rowHeap 3) = .ok (h', out) ∧ h'.nelem = 0 ∧
      (out : Multiset (Option Nat)) = (rowHeap 3).elements ∧
      out.Pairwise fun x y => keyOf (rowTimers [5, 7, 5]) x ≤ keyOf (rowTimers [5, 7, 5]) y :=
  (heap_is_queue (rowHeap_queue (by decide) (by decide))).2.2.2

theorem heapifyLoop_stays (fuel : Nat) {timers : Nat → Ktimer T} {tempvalue : Option Nat} {top : Nat}
    {h h' : TimerHeap} (less : ∀ i, 2 ≤ i → i ≤ h.nelem → i / 2 = top →
      keyOf timers tempvalue < keyOf timers (h.array i)) (low : 1 ≤ top)
    (ran : heapifyLoop timers tempvalue fuel top h = .ok h') : h' = h := by
  cases fuel with
  | zero => cases ran
  | succ fuel =>
    simp only [heapifyLoop, bind, pure, Except.pure] at ran
    split at ran
    · rename_i inside
      simp only [bind_ok] at ran
      obtain ⟨child, chosen, below, gotBelow, stop, compared, ran⟩ := ran
      obtain ⟨half, doubled, high, _⟩ := lesserChild_ok inside chosen
      obtain ⟨_, rfl⟩ := get_ok gotBelow
      have meaning := isMin_ok compared
      rw [decide_eq_true (less child (by omega) high half)] at meaning
      subst meaning
      cases ran
      rfl
    · cases ran
      rfl

/-- HEAP_remove_element answers 0, takes exactly the timer out and leaves a heap in
    order; a timer that is not there changes nothing and is answered by -1. -/
def RemovesExactly (timers : Nat → Ktimer T) (h : TimerHeap) (k : Nat) : Prop :=
  (some k ∈ h.elements → ∃ h', heapRemoveElement timers h k = .ok (h', 0) ∧
    some k ::ₘ h'.elements = h.elements ∧ Ordered (keyOf timers) h'.array h'.nelem) ∧
  (some k ∉ h.elements → heapRemoveElement timers h k = .ok (h, -1))

theorem heapRemoveElement_code {timers : Nat → Ktimer T} {k : Nat} {h h' : TimerHeap} {v : Int}
    (ran : heapRemoveElement timers h k = .ok (h', v)) :
    (some k ∈ h.elements → v = 0) ∧ (some k ∉ h.elements → v = -1) := by
  simp only [heapRemoveElement, bind, bind_ok, pure, Except.pure] at ran
  obtain ⟨r, search, ran⟩ := ran
  rcases heapLookup_ok h.nelem search with ⟨i, rfl, low, high, found⟩ | ⟨rfl, all⟩
  · have there : some k ∈ h.elements := mem_elems.mpr ⟨i, low, by omega, found⟩
    refine ⟨fun _ => ?_, fun missing => absurd there missing⟩
    simp only at ran
    split at ran
    · simp only [bind_ok, Except.ok.injEq, Prod.mk.injEq] at ran
      obtain ⟨_, _, _, _, _, _, _, zero⟩ := ran
      exact zero.symm
    · simp only [bind_ok, Except.ok.injEq, Prod.mk.injEq] at ran
      obtain ⟨_, _, _, zero⟩ := ran
      exact zero.symm
  · cases ran
    refine ⟨fun there => ?_, fun _ => rfl⟩
    obtain ⟨j, low, high, here⟩ := mem_elems.mp there
    exact absurd here (all j low (by omega))

theorem heapRemoveElement_disorders {timers : Nat → Ktimer T} {k p : Nat} {h h' : TimerHeap} {v : Int}
    (ordered : Ordered (keyOf timers) h.array h.nelem) (once : Once h.array h.nelem)
    (here : h.array p = some k) (low : 2 ≤ p) (high : p < h.nelem)
    (less : keyOf timers (h.array h.nelem) < keyOf timers (h.array (p / 2)))
    (ran : heapRemoveElement timers h k = .ok (h', v)) :
    ¬Ordered (keyOf timers) h'.array h'.nelem := by
  simp only [heapRemoveElement, bind, bind_ok, pure, Except.pure] at ran
  obtain ⟨r, search, ran⟩ := ran
  rcases heapLookup_ok h.nelem search with ⟨i, rfl, lowI, highI, found⟩ | ⟨_, all⟩
  · have place : i = p := once i p lowI (by omega) (by omega) (by omega) (by rw [found, here])
    subst place
    simp only at ran
    rw [if_pos (by omega)] at ran
    simp only [heapify, bind, bind_ok, Except.ok.injEq, Prod.mk.injEq] at ran
    obtain ⟨last, gotLast, x, setHere, y, ⟨temp, gotTemp, loop⟩, rfl, _⟩ := ran
    obtain ⟨_, rfl⟩ := get_ok gotLast
    obtain ⟨_, rfl⟩ := set_ok setHere
    obtain ⟨_, rfl⟩ := get_ok gotTemp
    simp only [Function.update_self] at loop
    have stays := heapifyLoop_stays _ ?_ (by omega) loop
    · intro inOrder
      subst stays
      have parent := inOrder i low (by simp only; omega)
      simp only [Function.update_self] at parent
      rw [Function.update_of_ne (by omega)] at parent
      omega
    · intro j two below half
      simp only at below
      simp only
      rw [Function.update_of_ne (by omega)]
      have child := ordered j two (by omega)
      have above := ordered i low (by omega)
      rw [half] at child
      omega
  · exact absurd here (all p (by omega) (by omega))

/-- A timer can be taken out of the heap exactly if the last element is not less
    than the parent of its place. -/
theorem removes_exactly_iff {timers : Nat → Ktimer T} {h : TimerHeap} (queue : TimerQueue timers h)
    (once : Once h.array h.nelem) (k : Nat) : RemovesExactly timers h k ↔ RemovalOk timers h k := by
  have room := queue.room
  obtain ⟨⟨h', v⟩, ran⟩ := heapRemoveElement_returns timers k queue.filled
    (by unfold heapMaxNelem; omega)
  obtain ⟨zero, minus⟩ := heapRemoveElement_code ran
  constructor
  · intro exactly p here low high
    by_contra more
    obtain ⟨w, ran', _, ordered⟩ := exactly.1 (mem_elems.mpr ⟨p, by omega, by omega, here⟩)
    exact heapRemoveElement_disorders queue.ordered once here low high (by omega) ran' ordered
  · intro fits
    rcases heapRemoveElement_ok ran with ⟨rfl, gone⟩ | ⟨n, p, size, low, high, here, size', _, order⟩
    · refine ⟨fun there => absurd (mem_elems.mp there) gone, fun missing => ?_⟩
      rw [ran, minus missing]
    · have there : some k ∈ h.elements := mem_elems.mpr ⟨p, low, by omega, here⟩
      refine ⟨fun _ => ⟨h', by rw [ran, zero there], ?_, ?_⟩, fun missing => absurd there missing⟩
      · rw [heapRemoveElement_elements ran, Multiset.cons_erase there]
      · rw [size']
        apply order queue.ordered
        intro two below
        have last := fits p here two (by omega)
        rw [size] at last
        exact last

theorem removes_exactly_iff_six : RemovesExactly (rowTimers [1, 10, 2, 11, 12, 30]) (rowHeap 6) 3 := by
  apply (removes_exactly_iff (rowHeap_queue (by decide) (by decide)) (rowHeap_once 6) 3).mpr
  intro p here low high
  have eq : p - 1 = 3 := Option.some.inj here
  rw [show p = 4 by omega]
  decide

theorem removes_exactly_fails :
    TimerQueue (rowTimers [1, 10, 2, 11, 12, 3]) (rowHeap 6) ∧ Once (rowHeap 6).array 6 ∧
      some 3 ∈ (rowHeap 6).elements ∧
      ¬RemovesExactly (rowTimers [1, 10, 2, 11, 12, 3]) (rowHeap 6) 3 := by
  have queue : TimerQueue (rowTimers [1, 10, 2, 11, 12, 3]) (rowHeap 6) :=
    rowHeap_queue (by decide) (by decide)
  have there : some 3 ∈ (rowHeap 6).elements := mem_elems.mpr ⟨4, by decide, by decide, rfl⟩
  refine ⟨queue, rowHeap_once 6, there, fun exactly => ?_⟩
  obtain ⟨h', ran, _, ordered⟩ := exactly.1 there
  exact heapRemoveElement_disorders (p := 4) queue.ordered (rowHeap_once 6) rfl (by decide) (by decide)
    (by decide) ran ordered

end L4ertl
