import Mathlib.Data.Finset.Card
import L4ertl.Core.HeapSpec

/-!
The invariant of the timer table: the heap holds the timers that are in use and
armed, each once, in order of their values. `OffHeap` is the state in between,
while one timer is off the heap whatever its flags say.
-/
namespace L4ertl
open BinaryHeap

section
variable {T : Type}

structure TimersOk (timers : Nat → Ktimer T) (h : TimerHeap) : Prop where
  filled : Filled h
  once : Once h.array h.nelem
  members : ∀ j, j < maxTimers →
    (Holds h.array h.nelem (some j) ↔ (timers j).inUse = true ∧ (timers j).armed = true)
  ordered : Ordered (keyOf timers) h.array h.nelem

structure OffHeap (i : Nat) (timers : Nat → Ktimer T) (h : TimerHeap) : Prop where
  filled : Filled h
  once : Once h.array h.nelem
  members : ∀ j, j < maxTimers → j ≠ i →
    (Holds h.array h.nelem (some j) ↔ (timers j).inUse = true ∧ (timers j).armed = true)
  absent : ¬Holds h.array h.nelem (some i)
  ordered : Ordered (keyOf timers) h.array h.nelem

theorem nelem_le {h : TimerHeap} (once : Once h.array h.nelem) {s : Finset Nat}
    (inside : ∀ i, 1 ≤ i → i ≤ h.nelem → ∃ j ∈ s, h.array i = some j) : h.nelem ≤ s.card := by
  have injected := Finset.card_le_card_of_injOn (s := Finset.range h.nelem) (t := s)
    (fun i => (h.array (i + 1)).getD 0) ?_ ?_
  · simpa using injected
  · intro i member
    have bound : i < h.nelem := by simpa using member
    obtain ⟨j, there, here⟩ := inside (i + 1) (by omega) (by omega)
    simpa [here] using there
  · intro i memberI j memberJ same
    have boundI : i < h.nelem := by simpa using memberI
    have boundJ : j < h.nelem := by simpa using memberJ
    obtain ⟨a, _, hereI⟩ := inside (i + 1) (by omega) (by omega)
    obtain ⟨b, _, hereJ⟩ := inside (j + 1) (by omega) (by omega)
    simp only [hereI, hereJ, Option.getD_some] at same
    have meet := once (i + 1) (j + 1) (by omega) (by omega) (by omega) (by omega)
      (by rw [hereI, hereJ, same])
    omega

theorem TimersOk.room {timers : Nat → Ktimer T} {h : TimerHeap} (ok : TimersOk timers h) :
    h.nelem ≤ maxTimers := by
  have bound := nelem_le ok.once (s := Finset.range maxTimers) ?_
  · simpa using bound
  · intro i low high
    obtain ⟨j, inside, here⟩ := ok.filled i low high
    exact ⟨j, by simpa using inside, here⟩

theorem OffHeap.room {timers : Nat → Ktimer T} {h : TimerHeap} {i : Nat} (off : OffHeap i timers h)
    (inside : i < maxTimers) : h.nelem < maxTimers := by
  have bound := nelem_le off.once (s := (Finset.range maxTimers).erase i) ?_
  · rw [Finset.card_erase_of_mem (by simpa using inside), Finset.card_range] at bound
    omega
  · intro p low high
    obtain ⟨j, below, here⟩ := off.filled p low high
    refine ⟨j, ?_, here⟩
    have other : j ≠ i := fun same => off.absent ⟨p, low, high, same ▸ here⟩
    simp [other, below]

theorem ordered_congr {timers timers' : Nat → Ktimer T} {h : TimerHeap}
    (ordered : Ordered (keyOf timers) h.array h.nelem)
    (same : ∀ i, 1 ≤ i → i ≤ h.nelem → keyOf timers' (h.array i) = keyOf timers (h.array i)) :
    Ordered (keyOf timers') h.array h.nelem := by
  intro i low high
  rw [same i (by omega) high, same (i / 2) (by omega) (by omega)]
  exact ordered i low high

theorem OffHeap.set {timers : Nat → Ktimer T} {h : TimerHeap} {i : Nat} (off : OffHeap i timers h)
    (x : Ktimer T) : OffHeap i (Function.update timers i x) h where
  filled := off.filled
  once := off.once
  members j below other := by
    rw [Function.update_of_ne other]
    exact off.members j below other
  absent := off.absent
  ordered := by
    apply ordered_congr off.ordered
    intro p low high
    obtain ⟨j, _, here⟩ := off.filled p low high
    have other : j ≠ i := fun same => off.absent ⟨p, low, high, same ▸ here⟩
    simp only [here, keyOf, Function.update_of_ne other]

theorem OffHeap.close {timers : Nat → Ktimer T} {h : TimerHeap} {i : Nat} (off : OffHeap i timers h)
    (idle : ¬((timers i).inUse = true ∧ (timers i).armed = true)) : TimersOk timers h where
  filled := off.filled
  once := off.once
  members j below := by
    by_cases same : j = i
    · rw [same]
      exact ⟨fun held => absurd held off.absent, fun both => absurd both idle⟩
    · exact off.members j below same
  ordered := off.ordered

theorem TimersOk.open {timers : Nat → Ktimer T} {h : TimerHeap} {i : Nat} (ok : TimersOk timers h)
    (inside : i < maxTimers) (idle : ¬((timers i).inUse = true ∧ (timers i).armed = true)) :
    OffHeap i timers h where
  filled := ok.filled
  once := ok.once
  members j below _ := ok.members j below
  absent held := idle ((ok.members i inside).mp held)
  ordered := ok.ordered

theorem OffHeap.insert {timers : Nat → Ktimer T} {h h' : TimerHeap} {i : Nat} {v : Int}
    (off : OffHeap i timers h) (inside : i < maxTimers)
    (live : (timers i).inUse = true ∧ (timers i).armed = true)
    (ran : heapInsert timers h i = .ok (h', v)) : TimersOk timers h' := by
  have space := off.room inside
  rcases heapInsert_ok ran with ⟨full, _⟩ | ⟨size, swaps, order⟩
  · unfold heapMaxNelem at full
    omega
  · have held := holds_push swaps
    refine ⟨?_, ?_, ?_, ?_⟩
    · intro p low high
      rw [size] at high
      rcases (held (h'.array p)).mp ⟨p, low, high, rfl⟩ with ⟨q, lowQ, highQ, here⟩ | same
      · obtain ⟨j, below, at_⟩ := off.filled q lowQ highQ
        exact ⟨j, below, by rw [← here, at_]⟩
      · exact ⟨i, inside, same⟩
    · rw [size]
      exact once_push off.once off.absent swaps
    · intro j below
      rw [size, held]
      by_cases same : j = i
      · rw [same]
        exact ⟨fun _ => live, fun _ => Or.inr rfl⟩
      · rw [← off.members j below same]
        constructor
        · intro either
          rcases either with old | new
          · exact old
          · exact absurd (Option.some.inj new) same
        · exact Or.inl
    · rw [size]
      exact order off.ordered

/-- The place of a timer can take the last element without looking up: it is the
    root, or the last place, or the element there is not less than the parent. -/
def RemovalOk (timers : Nat → Ktimer T) (h : TimerHeap) (i : Nat) : Prop :=
  ∀ p, h.array p = some i → 2 ≤ p → p < h.nelem →
    keyOf timers (h.array (p / 2)) ≤ keyOf timers (h.array h.nelem)

theorem TimersOk.take {timers : Nat → Ktimer T} {h h' : TimerHeap} {n i p : Nat}
    (ok : TimersOk timers h) (size : h.nelem = n + 1) (low : 1 ≤ p) (high : p ≤ n + 1)
    (here : h.array p = some i) (size' : h'.nelem = n)
    (swaps : n = 0 ∨ Swaps n (Function.update h.array p (h.array (n + 1))) h'.array)
    (ordered : Ordered (keyOf timers) h'.array n) : OffHeap i timers h' := by
  have once := ok.once
  rw [size] at once
  have held := holds_replace once low high swaps
  rw [here] at held
  refine ⟨?_, ?_, ?_, ?_, ?_⟩
  · intro q lowQ highQ
    rw [size'] at highQ
    obtain ⟨⟨r, lowR, highR, same⟩, _⟩ := (held (h'.array q)).mp ⟨q, lowQ, highQ, rfl⟩
    obtain ⟨j, below, at_⟩ := ok.filled r lowR (by omega)
    exact ⟨j, below, by rw [← same, at_]⟩
  · rw [size']
    exact once_replace once swaps
  · intro j below other
    rw [size', held, ← ok.members j below, size]
    constructor
    · exact fun both => both.1
    · exact fun old => ⟨old, fun same => other (Option.some.inj same)⟩
  · rw [size', held]
    exact fun both => both.2 rfl
  · rw [size']
    exact ordered

theorem TimersOk.remove {timers : Nat → Ktimer T} {h h' : TimerHeap} {i : Nat} {v : Int}
    (ok : TimersOk timers h) (fits : RemovalOk timers h i)
    (ran : heapRemoveElement timers h i = .ok (h', v)) : OffHeap i timers h' := by
  rcases heapRemoveElement_ok ran with ⟨rfl, gone⟩ | ⟨n, p, size, low, high, here, size', swaps, order⟩
  · exact ⟨ok.filled, ok.once, fun j below _ => ok.members j below, gone, ok.ordered⟩
  · apply ok.take size low high here size' swaps
    apply order ok.ordered
    intro two below
    have last := fits p here two (by omega)
    rw [size] at last
    exact last

theorem TimersOk.removeMin {timers : Nat → Ktimer T} {h h' : TimerHeap} {i : Nat} {min : Option Nat}
    (ok : TimersOk timers h) (busy : 0 < h.nelem) (root : h.array 1 = some i)
    (ran : heapRemoveMin timers h = .ok (h', min)) : OffHeap i timers h' := by
  obtain ⟨n, size⟩ := Nat.exists_eq_succ_of_ne_zero (Nat.pos_iff_ne_zero.mp busy)
  obtain ⟨_, size', swaps, order⟩ := heapRemoveMin_ok size ran
  exact ok.take size (le_refl 1) (by omega) root size' (Or.inr swaps) (order ok.ordered)

end
end L4ertl
