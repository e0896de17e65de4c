import L4ertl.Lib.Bytes

/-!
Strings in a memory: bytes other than zero, and a zero behind them.
-/
namespace Bytes

def Holds (m : Memory) : Nat → List (BitVec 8) → Prop
  | p, [] => byteAt m p = 0#8
  | p, c :: rest => c ≠ 0#8 ∧ byteAt m p = c ∧ Holds m (p + 1) rest

instance Holds.decide (m : Memory) : ∀ p text, Decidable (Holds m p text)
  | _, [] => inferInstanceAs (Decidable (_ = _))
  | p, _ :: rest =>
    have := Holds.decide m (p + 1) rest
    inferInstanceAs (Decidable (_ ∧ _ ∧ _))

def memoryOf (bytes : List (BitVec 8)) : Memory := fun a => wordOf fun i => bytes.getD (a + i) 0#8

variable {m w : Memory} {p : Nat} {text one two : List (BitVec 8)}

theorem Holds.back (holds : Holds m p (one ++ two)) : Holds m (p + one.length) two := by
  induction one generalizing p with
  | nil => exact holds
  | cons c one ih =>
    have later := ih holds.2.2
    rwa [Nat.add_right_comm] at later

theorem Holds.last (holds : Holds m p text) : byteAt m (p + text.length) = 0#8 := by
  have whole : Holds m p (text ++ []) := by rwa [List.append_nil]
  exact whole.back

theorem Holds.byte (holds : Holds m p text) {i : Nat} (inside : i < text.length) :
    byteAt m (p + i) = text[i] ∧ text[i] ≠ 0#8 := by
  induction text generalizing p i with
  | nil => cases inside
  | cons c text ih =>
    cases i with
    | zero => exact ⟨holds.2.1, holds.1⟩
    | succ i =>
      have later := ih holds.2.2 (Nat.lt_of_succ_lt_succ inside)
      rwa [Nat.add_right_comm] at later

theorem Holds.clean (holds : Holds m p text) : ∀ c ∈ text, c ≠ 0#8 := by
  intro c member
  obtain ⟨i, inside, rfl⟩ := List.getElem_of_mem member
  exact (holds.byte inside).2

theorem Holds.congr (holds : Holds m p text) (same : ∀ i ≤ text.length, byteAt w (p + i) = byteAt m (p + i)) :
    Holds w p text := by
  induction text generalizing p with
  | nil => exact (same 0 (Nat.le_refl 0)).trans holds
  | cons c text ih =>
    have first := same 0 (Nat.zero_le _)
    refine ⟨holds.1, first.trans holds.2.1, ih holds.2.2 fun i inside => ?_⟩
    have later := same (i + 1) (Nat.succ_le_succ inside)
    rwa [Nat.add_assoc, Nat.add_comm 1 i]

theorem holds_append     (bytes : ∀ i (inside : i < one.length), byteAt w (p + i) = one[i] ∧ one[i] ≠ 0#8)
    (back : Holds w (p + one.length) two) : Holds w p (one ++ two) := by
  induction one generalizing p with
  | nil => exact back
  | cons c one ih =>
    obtain ⟨here, nonzero⟩ := bytes 0 (Nat.succ_pos _)
    rw [List.length_cons] at back
    refine ⟨nonzero, here, ih (fun i inside => ?_) ?_⟩
    · have later := bytes (i + 1) (Nat.succ_lt_succ inside)
      rwa [← Nat.add_assoc, Nat.add_right_comm] at later
    · rwa [Nat.add_right_comm]

theorem Holds.unique (holds : Holds m p one) (also : Holds m p two) : one = two := by
  induction one generalizing p two with
  | nil =>
    cases two with
    | nil => rfl
    | cons c two => exact absurd (also.2.1.symm.trans holds) also.1
  | cons c one ih =>
    cases two with
    | nil => exact absurd (holds.2.1.symm.trans also) holds.1
    | cons d two =>
      have first : c = d := holds.2.1.symm.trans also.2.1
      rw [first, ih holds.2.2 also.2.2]

theorem Holds.cut (holds : Holds m p (one ++ two)) : Holds (storeByte m (p + one.length) 0#8) p one := by
  induction one generalizing p with
  | nil => simp [Holds, byteAt_storeByte]
  | cons c one ih =>
    have later := ih holds.2.2
    rw [Nat.add_right_comm] at later
    refine ⟨holds.1, ?_, later⟩
    rw [byteAt_storeByte, if_neg (by rw [List.length_cons]; omega)]
    exact holds.2.1

theorem Holds.store_outside (holds : Holds m p text) {a : Nat} (v : BitVec 8) (outside : a < p ∨ p + text.length < a) :
    Holds (storeByte m a v) p text := by
  apply holds.congr
  intro i inside
  rw [byteAt_storeByte, if_neg (by omega)]

end Bytes
