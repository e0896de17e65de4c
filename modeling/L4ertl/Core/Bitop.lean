import Mathlib.Data.Nat.Bitwise
import Mathlib.Data.BitVec

/-!
The bit primitives of bitop.h and bitmap.h on 32-bit words. `ffs` and `fls`
follow the source's halving search step by step; `LowestBit` says what `ffs`
must find, and `fls` is the binary logarithm.
-/
namespace L4ertl

abbrev Word := BitVec 32

def setbit (bitmap : Word) (bit : Nat) : Word := bitmap ||| (1#32 <<< bit)

def clearbit (bitmap : Word) (bit : Nat) : Word := bitmap &&& ~~~(1#32 <<< bit)

/-- The source's result is used as a truth value only. -/
def isbitset (bitmap : Word) (bit : Nat) : Bool := (bitmap &&& (1#32 <<< bit)) != 0#32

theorem toInt_low {n : Nat} (low : n < 2 ^ 31) : (BitVec.ofNat 32 n).toInt = n := by
  rw [BitVec.toInt_ofNat', Int.bmod_def]
  split
  · omega
  · omega

theorem word_zero_iff (b : Word) : b = 0#32 ↔ ∀ j, j < 32 → b.getLsbD j = false := by
  constructor
  · intro zero j _; simp [zero]
  · intro clear
    apply BitVec.eq_of_getLsbD_eq
    intro j inside
    simp [clear j inside]

theorem isbitset_eq (b : Word) {j : Nat} (inside : j < 32) : isbitset b j = b.getLsbD j := by
  cases bit : b.getLsbD j with
  | true =>
    have nonzero : b &&& (1#32 <<< j) ≠ 0#32 := by
      intro zero
      have clear := (word_zero_iff _).mp zero j inside
      simp only [BitVec.getLsbD_and, bit, BitVec.getLsbD_shiftLeft, BitVec.getLsbD_one] at clear
      simp [inside] at clear
    simp [isbitset, nonzero]
  | false =>
    have zero : b &&& (1#32 <<< j) = 0#32 := by
      rw [word_zero_iff]
      intro i below
      by_cases same : i = j
      · subst same; simp [bit]
      · simp only [BitVec.getLsbD_and, BitVec.getLsbD_shiftLeft, BitVec.getLsbD_one]
        simp
        omega
    simp [isbitset, zero]

theorem word_ext {a b : Word} (same : ∀ j, j < 32 → (isbitset a j = true ↔ isbitset b j = true)) :
    a = b := by
  apply BitVec.eq_of_getLsbD_eq
  intro j inside
  rw [← isbitset_eq a inside, ← isbitset_eq b inside]
  exact Bool.eq_iff_iff.mpr (same j inside)

theorem isbitset_zero (j : Nat) : isbitset 0#32 j = false := by simp [isbitset]

theorem isbitset_setbit (b : Word) {i j : Nat} (inside : j < 32) :
    isbitset (setbit b i) j = (isbitset b j || decide (j = i)) := by
  rw [isbitset_eq _ inside, isbitset_eq _ inside]
  by_cases same : j = i
  · subst same; simp [setbit, inside]
  · simp only [setbit, BitVec.getLsbD_or, BitVec.getLsbD_shiftLeft, BitVec.getLsbD_one]
    simp [same]
    omega

theorem isbitset_clearbit (b : Word) {i j : Nat} (inside : j < 32) :
    isbitset (clearbit b i) j = (isbitset b j && !decide (j = i)) := by
  rw [isbitset_eq _ inside, isbitset_eq _ inside]
  by_cases same : j = i
  · subst same; simp [clearbit, inside]
  · simp only [clearbit, BitVec.getLsbD_and, BitVec.getLsbD_not, BitVec.getLsbD_shiftLeft,
      BitVec.getLsbD_one]
    simp [same, inside]
    omega

theorem word_ne_zero_iff (b : Word) : b ≠ 0#32 ↔ ∃ j, j < 32 ∧ isbitset b j = true := by
  rw [ne_eq, word_zero_iff]
  push Not
  constructor
  · rintro ⟨j, inside, bit⟩
    exact ⟨j, inside, by simpa [isbitset_eq _ inside] using bit⟩
  · rintro ⟨j, inside, bit⟩
    exact ⟨j, inside, by simpa [isbitset_eq _ inside] using bit⟩

/-- The test `!(x & (2^w - 1))`. -/
def lowClear (x : Word) (w : Nat) : Bool := (x &&& BitVec.ofNat 32 (2 ^ w - 1)) == 0#32

theorem lowClear_iff (x : Word) (w : Nat) :
    lowClear x w = true ↔ ∀ j, j < 32 → j < w → x.getLsbD j = false := by
  simp only [lowClear, beq_iff_eq, word_zero_iff, BitVec.getLsbD_and, BitVec.getLsbD_ofNat,
    Nat.testBit_two_pow_sub_one, Bool.and_eq_false_iff, decide_eq_false_iff_not]
  constructor
  · intro clear j inside low
    rcases clear j inside with bit | out | high
    · exact bit
    · exact absurd inside out
    · exact absurd low high
  · intro clear j inside
    by_cases low : j < w
    · exact Or.inl (clear j inside low)
    · exact Or.inr (Or.inr low)

/-- One halving step of the search from below: the pair is the shifted word and
    the number of low bits already known to be clear. -/
def ffsStep (w : Nat) (s : Word × Nat) : Word × Nat :=
  if lowClear s.1 w then (s.1.sshiftRight w, s.2 + w) else s

def ffs (x : Word) : Int :=
  if x = 0#32 then -1
  else (ffsStep 1 (ffsStep 2 (ffsStep 4 (ffsStep 8 (ffsStep 16 (x, 0)))))).2

def LowestBit (x : Word) (k : Nat) : Prop :=
  k < 32 ∧ x.getLsbD k = true ∧ ∀ j, j < k → x.getLsbD j = false

theorem lowestBit_exists {x : Word} (nonzero : x ≠ 0#32) : ∃ k, LowestBit x k := by
  obtain ⟨j, inside, bit⟩ := (word_ne_zero_iff x).mp nonzero
  rw [isbitset_eq _ inside] at bit
  have some : ∃ k, x.getLsbD k = true := ⟨j, bit⟩
  classical
  refine ⟨Nat.find some, ?_, Nat.find_spec some, ?_⟩
  · exact lt_of_le_of_lt (Nat.find_min' some bit) inside
  · intro i below
    simpa using Nat.find_min some below

theorem ffsStep_lowest {x : Word} {w r k : Nat}
    (seen : r ≤ k) (low : LowestBit x (k - r)) (range : k - r < 2 * w) :
    (ffsStep w (x, r)).2 ≤ k ∧ k - (ffsStep w (x, r)).2 < w ∧
      LowestBit (ffsStep w (x, r)).1 (k - (ffsStep w (x, r)).2) := by
  unfold ffsStep
  split
  · rename_i clear
    have zero := (lowClear_iff x w).mp clear
    have above : w ≤ k - r := by
      by_contra less
      have bit := zero (k - r) low.1 (by omega)
      rw [low.2.1] at bit
      cases bit
    have inside := low.1
    refine ⟨by simp only; omega, by simp only; omega, by simp only; omega, ?_, ?_⟩
    · simp only [BitVec.getLsbD_sshiftRight]
      have back : w + (k - (r + w)) = k - r := by omega
      rw [back]
      simp [low.2.1, inside]
      omega
    · intro j below
      simp only at below
      simp only [BitVec.getLsbD_sshiftRight]
      have bit := low.2.2 (w + j) (by omega)
      simp [bit]
      omega
  · rename_i busy
    have hit : ¬ ∀ j, j < 32 → j < w → x.getLsbD j = false := fun all =>
      busy ((lowClear_iff x w).mpr all)
    push Not at hit
    obtain ⟨j, inside, below, bit⟩ := hit
    have bound : k - r ≤ j := by
      by_contra less
      have clear := low.2.2 j (by omega)
      exact bit clear
    exact ⟨seen, by simp only; omega, low⟩

theorem ffs_zero : ffs 0#32 = -1 := rfl

theorem ffs_lowest {x : Word} {k : Nat} (low : LowestBit x k) : ffs x = k := by
  have nonzero : x ≠ 0#32 := by
    rw [word_ne_zero_iff]
    exact ⟨k, low.1, by rw [isbitset_eq _ low.1]; exact low.2.1⟩
  have s16 := ffsStep_lowest (x := x) (w := 16) (r := 0) (by omega) (by simpa using low)
    (by have := low.1; omega)
  have s8 := ffsStep_lowest (w := 8) s16.1 s16.2.2 (by omega)
  have s4 := ffsStep_lowest (w := 4) s8.1 s8.2.2 (by omega)
  have s2 := ffsStep_lowest (w := 2) s4.1 s4.2.2 (by omega)
  have s1 := ffsStep_lowest (w := 1) s2.1 s2.2.2 (by omega)
  simp only [ffs, nonzero, ↓reduceIte]
  have eq := s1.1
  have gap := s1.2.1
  simp only [Prod.mk.eta] at eq gap ⊢
  omega

def highClear (x : Word) (w : Nat) : Bool := (x &&& BitVec.ofNat 32 (2 ^ 32 - 2 ^ (32 - w))) == 0#32

theorem testBit_highMask {w : Nat} (inside : w ≤ 32) (j : Nat) :
    (2 ^ 32 - 2 ^ (32 - w)).testBit j = (decide (32 - w ≤ j) && decide (j < 32)) := by
  have split : 2 ^ 32 - 2 ^ (32 - w) = (2 ^ w - 1) <<< (32 - w) := by
    rw [Nat.shiftLeft_eq, Nat.sub_mul, ← Nat.pow_add, Nat.one_mul]
    congr 2
    omega
  rw [split, Nat.testBit_shiftLeft, Nat.testBit_two_pow_sub_one]
  by_cases above : 32 - w ≤ j
  · simp only [ge_iff_le, above, decide_true, Bool.true_and]
    congr 1
    apply propext
    omega
  · simp [above]

theorem highClear_iff (x : Word) {w : Nat} (inside : w ≤ 32) :
    highClear x w = true ↔ x.toNat < 2 ^ (32 - w) := by
  simp only [highClear, beq_iff_eq, word_zero_iff, BitVec.getLsbD_and, BitVec.getLsbD_ofNat,
    testBit_highMask inside, Bool.and_eq_false_iff, decide_eq_false_iff_not]
  constructor
  · intro clear
    apply Nat.lt_pow_two_of_testBit
    intro j above
    by_cases low : j < 32
    · rcases clear j low with bit | out | under | beyond
      · exact bit
      · exact absurd low out
      · exact absurd above under
      · exact absurd low beyond
    · exact Nat.testBit_lt_two_pow (lt_of_lt_of_le x.isLt (Nat.pow_le_pow_right (by omega) (by omega)))
  · intro small j _
    by_cases above : 32 - w ≤ j
    · left
      exact Nat.testBit_lt_two_pow (lt_of_lt_of_le small (Nat.pow_le_pow_right (by omega) above))
    · exact Or.inr (Or.inr (Or.inl above))

def flsStep (w : Nat) (s : Word × Nat) : Word × Nat :=
  if highClear s.1 w then (s.1 <<< w, s.2 - w) else s

def fls (x : Word) : Int :=
  if x = 0#32 then -1
  else (flsStep 1 (flsStep 2 (flsStep 4 (flsStep 8 (flsStep 16 (x, 31)))))).2

structure ShiftedUp (x w : Nat) (s : Word × Nat) : Prop where
  shifted : s.1.toNat = x * 2 ^ (31 - s.2)
  high : 2 ^ (32 - w) ≤ s.1.toNat
  room : w ≤ s.2 + 1
  top : s.2 ≤ 31

theorem flsStep_shifted {x w : Nat} {s : Word × Nat} (small : w ≤ 16)
    (before : ShiftedUp x (2 * w) s) : ShiftedUp x w (flsStep w s) := by
  obtain ⟨shifted, high, room, top⟩ := before
  have bound := s.1.isLt
  unfold flsStep
  split
  · rename_i clear
    have less := (highClear_iff s.1 (by omega)).mp clear
    have fits : s.1.toNat * 2 ^ w < 2 ^ 32 := by
      have split : 2 ^ 32 = 2 ^ (32 - w) * 2 ^ w := by rw [← Nat.pow_add]; congr 1; omega
      rw [split]
      exact Nat.mul_lt_mul_of_pos_right less (Nat.two_pow_pos w)
    have value : (s.1 <<< w).toNat = s.1.toNat * 2 ^ w := by
      rw [BitVec.toNat_shiftLeft, Nat.shiftLeft_eq, Nat.mod_eq_of_lt fits]
    constructor
    · rw [value, shifted, Nat.mul_assoc, ← Nat.pow_add]
      congr 2
      simp only
      omega
    · rw [value]
      have split : 2 ^ (32 - w) = 2 ^ (32 - 2 * w) * 2 ^ w := by rw [← Nat.pow_add]; congr 1; omega
      rw [split]
      exact Nat.mul_le_mul_right _ high
    · simp only
      omega
    · simp only
      omega
  · rename_i busy
    have more : 2 ^ (32 - w) ≤ s.1.toNat := by
      by_contra less
      exact busy ((highClear_iff s.1 (by omega)).mpr (by omega))
    exact ⟨shifted, more, by omega, top⟩

theorem fls_log2 {x : Word} (nonzero : x ≠ 0#32) : fls x = Nat.log2 x.toNat := by
  have positive : x.toNat ≠ 0 := by
    intro zero
    exact nonzero (BitVec.eq_of_toNat_eq (by simpa using zero))
  have start : ShiftedUp x.toNat 32 (x, 31) := ⟨by simp, by simp; omega, by simp, by simp⟩
  have s16 := flsStep_shifted (w := 16) (by omega) start
  have s8 := flsStep_shifted (w := 8) (by omega) s16
  have s4 := flsStep_shifted (w := 4) (by omega) s8
  have s2 := flsStep_shifted (w := 2) (by omega) s4
  have s1 := flsStep_shifted (w := 1) (by omega) s2
  simp only [fls, nonzero, ↓reduceIte]
  generalize flsStep 1 (flsStep 2 (flsStep 4 (flsStep 8 (flsStep 16 (x, 31))))) = s at s1
  obtain ⟨shifted, high, _, top⟩ := s1
  have bound := s.1.isLt
  rw [shifted] at high bound
  have whole : 2 ^ 31 = 2 ^ s.2 * 2 ^ (31 - s.2) := by rw [← Nat.pow_add]; congr 1; omega
  have lower : 2 ^ s.2 ≤ x.toNat := by
    simp only [show 32 - 1 = 31 by rfl] at high
    rw [whole] at high
    exact Nat.le_of_mul_le_mul_right high (Nat.two_pow_pos _)
  have upper : x.toNat < 2 ^ (s.2 + 1) := by
    have doubled : 2 ^ 32 = 2 ^ (s.2 + 1) * 2 ^ (31 - s.2) := by
      rw [← Nat.pow_add]
      congr 1
      omega
    rw [doubled] at bound
    exact Nat.lt_of_mul_lt_mul_right bound
  have found := (Nat.log2_eq_iff positive).mpr ⟨lower, upper⟩
  rw [found]

end L4ertl
