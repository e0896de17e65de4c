import L4ertl.Core.Tlsf

/-!
Copies that overlap (string.c): memmove chooses its direction, memcpy does not.
-/
namespace L4ertl

def memmove (dst src count : Nat) (m : Bytes.Memory) : Bytes.Memory :=
  if src ≠ dst then
    if dst < src then Bytes.copy dst src count m else Bytes.copyDown dst src count m
  else m

def Moved (dst src count : Nat) (m w : Bytes.Memory) : Prop :=
  ∀ x, Bytes.byteAt w x =
    if dst ≤ x ∧ x < dst + count then Bytes.byteAt m (src + (x - dst)) else Bytes.byteAt m x

variable {dst src count : Nat} {m : Bytes.Memory}

theorem memmove_moves (dst src count : Nat) (m : Bytes.Memory) : Moved dst src count m (memmove dst src count m) := by
  unfold memmove
  by_cases other : src ≠ dst
  · rw [if_pos other]
    by_cases up : dst < src
    · rw [if_pos up]
      exact Bytes.byteAt_copy_up m (Nat.le_of_lt up)
    · rw [if_neg up]
      exact Bytes.byteAt_copyDown m (Nat.le_of_not_lt up)
  · rw [if_neg other]
    intro x
    have same : src = dst := not_not.mp other
    by_cases inside : dst ≤ x ∧ x < dst + count
    · have place : src + (x - dst) = x := by omega
      rw [if_pos inside, place]
    · rw [if_neg inside]

/-- The source repeats its first bytes, as many as the destination is ahead. -/
def Repeats (dst src count : Nat) (m : Bytes.Memory) : Prop :=
  ∀ i < count, Bytes.byteAt m (src + i) = Bytes.byteAt m (src + i % (dst - src))

theorem memcpy_moves_iff : Moved dst src count m (Tlsf.memcpy dst src count m) ↔
    dst ≤ src ∨ Repeats dst src count m := by
  unfold Tlsf.memcpy
  by_cases up : dst ≤ src
  · exact ⟨fun _ => Or.inl up, fun _ => Bytes.byteAt_copy_up m up⟩
  · have down : src < dst := Nat.lt_of_not_le up
    constructor
    · intro moved
      refine Or.inr fun i inside => ?_
      have place : dst + i - dst = i := Nat.add_sub_cancel_left ..
      have copied := moved (dst + i)
      rw [Bytes.byteAt_copy_down m down, if_pos (by omega), if_pos (by omega), place] at copied
      exact copied.symm
    · rintro (low | repeats)
      · exact absurd low up
      · intro x
        rw [Bytes.byteAt_copy_down m down]
        by_cases inside : dst ≤ x ∧ x < dst + count
        · rw [if_pos inside, if_pos inside, repeats (x - dst) (by omega)]
        · rw [if_neg inside, if_neg inside]

/-- memmove moves the bytes however the areas lie. memcpy does the same to a lower place,
    to one behind the source, and else only where the source repeats its first bytes. -/
theorem moves_overlapping (dst src count : Nat) (m : Bytes.Memory) :
    Moved dst src count m (memmove dst src count m) ∧
      ((∀ x, Bytes.byteAt (Tlsf.memcpy dst src count m) x = Bytes.byteAt (memmove dst src count m) x) ↔
        dst ≤ src ∨ src + count ≤ dst ∨ Repeats dst src count m) := by
  have right := memmove_moves dst src count m
  refine ⟨right, ?_⟩
  have same : (∀ x, Bytes.byteAt (Tlsf.memcpy dst src count m) x = Bytes.byteAt (memmove dst src count m) x) ↔
      Moved dst src count m (Tlsf.memcpy dst src count m) :=
    ⟨fun equal x => (equal x).trans (right x), fun moved x => (moved x).trans (right x).symm⟩
  have apart : src + count ≤ dst → Repeats dst src count m := by
    intro behind i inside
    rw [Nat.mod_eq_of_lt (by omega)]
  rw [same, memcpy_moves_iff]
  constructor
  · rintro (low | repeats)
    · exact Or.inl low
    · exact Or.inr (Or.inr repeats)
  · rintro (low | behind | repeats)
    · exact Or.inl low
    · exact Or.inr (apart behind)
    · exact Or.inr repeats

end L4ertl
