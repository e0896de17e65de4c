import L4ertl.Core.Tlsf

/-!
The arithmetic of the allocator. A header word keeps the size of its block in
the upper bits and two flags in the lower ones; each masking of the source is
one change of `hdrWord`. A free block is kept in the cell of its size, and a
search starts at the first cell whose blocks are all large enough.
-/
namespace L4ertl.Tlsf

/-- The header word of a block: its size, bit 0 for a free block and bit 1 for
    a free predecessor. -/
def hdrWord (size : Nat) (free prev : Bool) : Word :=
  BitVec.ofNat 32 (size + free.toNat + 2 * prev.toNat)

theorem testBit_multiple {s : Nat} (whole : s % 4 = 0) (r : Nat) (small : r < 4) (j : Nat) :
    (s + r).testBit j = if j < 2 then r.testBit j else s.testBit j := by
  obtain ⟨q, rfl⟩ : ∃ q, s = 2 ^ 2 * q := ⟨s / 4, by omega⟩
  rw [Nat.testBit_two_pow_mul_add q (by omega) j]
  have plain := Nat.testBit_two_pow_mul_add q (b := 0) (i := 2) (by omega) j
  split
  · rfl
  · rename_i high
    simpa [high] using plain.symm

theorem getLsbD_multiple {s : Nat} (whole : s % 4 = 0) {j : Nat} (low : j < 2) :
    (BitVec.ofNat 32 s).getLsbD j = false := by
  have bit := testBit_multiple whole 0 (by omega) j
  simp only [Nat.add_zero, low, ↓reduceIte, Nat.zero_testBit] at bit
  simp [BitVec.getLsbD_ofNat, bit]

theorem getLsbD_hdrWord {s : Nat} (whole : s % 4 = 0) (f g : Bool) (j : Nat) :
    (hdrWord s f g).getLsbD j =
      if j = 0 then f else if j = 1 then g else (BitVec.ofNat 32 s).getLsbD j := by
  have bit := testBit_multiple whole (f.toNat + 2 * g.toNat) (by cases f <;> cases g <;> decide) j
  rw [hdrWord, Nat.add_assoc, BitVec.getLsbD_ofNat, bit]
  rcases j with _ | _ | j
  · cases f <;> cases g <;> rfl
  · cases f <;> cases g <;> rfl
  · have high : ¬ j + 1 + 1 < 2 := by omega
    simp [BitVec.getLsbD_ofNat, high]

theorem getLsbD_flags (f g : Bool) (j : Nat) :
    (hdrWord 0 f g).getLsbD j = if j = 0 then f else if j = 1 then g else false := by
  simpa using getLsbD_hdrWord (s := 0) rfl f g j

theorem freeBlock_flags : freeBlock = hdrWord 0 true false := rfl

theorem prevFree_flags : prevFree = hdrWord 0 false true := rfl

theorem blockMask_flags : blockMask = ~~~ hdrWord 0 true true := rfl

section
variable {s : Nat} (whole : s % 4 = 0) (f g : Bool)
include whole

theorem hdrWord_or_free : hdrWord s f g ||| freeBlock = hdrWord s true g := by
  apply BitVec.eq_of_getLsbD_eq
  intro j _
  simp only [freeBlock_flags, BitVec.getLsbD_or, getLsbD_hdrWord whole, getLsbD_flags]
  rcases j with _ | _ | j <;> simp

theorem hdrWord_or_prev : hdrWord s f g ||| prevFree = hdrWord s f true := by
  apply BitVec.eq_of_getLsbD_eq
  intro j _
  simp only [prevFree_flags, BitVec.getLsbD_or, getLsbD_hdrWord whole, getLsbD_flags]
  rcases j with _ | _ | j <;> simp

theorem hdrWord_and_not_free : hdrWord s f g &&& ~~~ freeBlock = hdrWord s false g := by
  apply BitVec.eq_of_getLsbD_eq
  intro j inside
  simp only [freeBlock_flags, BitVec.getLsbD_and, BitVec.getLsbD_not, getLsbD_hdrWord whole,
    getLsbD_flags, inside]
  rcases j with _ | _ | j <;> simp

theorem hdrWord_and_not_prev : hdrWord s f g &&& ~~~ prevFree = hdrWord s f false := by
  apply BitVec.eq_of_getLsbD_eq
  intro j inside
  simp only [prevFree_flags, BitVec.getLsbD_and, BitVec.getLsbD_not, getLsbD_hdrWord whole,
    getLsbD_flags, inside]
  rcases j with _ | _ | j <;> simp

theorem hdrWord_and_free : hdrWord s f g &&& freeBlock = hdrWord 0 f false := by
  apply BitVec.eq_of_getLsbD_eq
  intro j _
  simp only [freeBlock_flags, BitVec.getLsbD_and, getLsbD_hdrWord whole, getLsbD_flags]
  rcases j with _ | _ | j <;> simp

theorem hdrWord_and_prev : hdrWord s f g &&& prevFree = hdrWord 0 false g := by
  apply BitVec.eq_of_getLsbD_eq
  intro j _
  simp only [prevFree_flags, BitVec.getLsbD_and, getLsbD_hdrWord whole, getLsbD_flags]
  rcases j with _ | _ | j <;> simp

theorem hdrWord_and_mask : hdrWord s f g &&& blockMask = ofPtr s := by
  apply BitVec.eq_of_getLsbD_eq
  intro j inside
  simp only [blockMask_flags, BitVec.getLsbD_and, BitVec.getLsbD_not, getLsbD_hdrWord whole,
    getLsbD_flags, inside]
  rcases j with _ | _ | j
  · simp only [getLsbD_multiple whole (j := 0) (by omega)]
    simp
  · simp only [getLsbD_multiple whole (j := 0 + 1) (by omega)]
    simp
  · simp

theorem hdrWord_or_flags : ofPtr s ||| hdrWord 0 f g = hdrWord s f g := by
  apply BitVec.eq_of_getLsbD_eq
  intro j _
  simp only [BitVec.getLsbD_or, getLsbD_hdrWord whole, getLsbD_flags]
  rcases j with _ | _ | j
  · simp only [getLsbD_multiple whole (j := 0) (by omega)]
    simp
  · simp only [getLsbD_multiple whole (j := 0 + 1) (by omega)]
    simp
  · simp

omit whole in
theorem hdrWord_add (k : Nat) : hdrWord s f g + ofPtr k = hdrWord (s + k) f g := by
  rw [hdrWord, hdrWord, ofPtr, ← BitVec.ofNat_add]
  congr 1
  omega

end

theorem flags_ne_zero (f g : Bool) : hdrWord 0 f g ≠ 0#32 ↔ f = true ∨ g = true := by
  cases f <;> cases g <;> decide

theorem and_not_low {x i : Nat} (small : x < 2 ^ 32) :
    (BitVec.ofNat 32 x &&& ~~~ BitVec.ofNat 32 (2 ^ i - 1)).toNat = x / 2 ^ i * 2 ^ i := by
  have same : BitVec.ofNat 32 x &&& ~~~ BitVec.ofNat 32 (2 ^ i - 1) =
      (BitVec.ofNat 32 x >>> i) <<< i := by
    apply BitVec.eq_of_getLsbD_eq
    intro j inside
    simp only [BitVec.getLsbD_and, BitVec.getLsbD_not, BitVec.getLsbD_ofNat,
      BitVec.getLsbD_shiftLeft, BitVec.getLsbD_ushiftRight, Nat.testBit_two_pow_sub_one, inside,
      decide_true, Bool.true_and]
    by_cases low : j < i
    · simp [low]
    · have back : i + (j - i) = j := by omega
      simp [low, back, inside]
  have low : x / 2 ^ i * 2 ^ i < 2 ^ 32 := lt_of_le_of_lt (Nat.div_mul_le_self x (2 ^ i)) small
  rw [same, BitVec.toNat_shiftLeft, BitVec.toNat_ushiftRight, BitVec.toNat_ofNat,
    Nat.mod_eq_of_lt small, Nat.shiftLeft_eq, Nat.shiftRight_eq_div_pow, Nat.mod_eq_of_lt low]

theorem rounddownSize_eq {r : Nat} (small : r < 2 ^ 32) : rounddownSize r = r / 4 * 4 :=
  and_not_low (i := 2) small

theorem roundupSize_eq {r : Nat} (small : r ≤ 2 ^ 32 - 4) : roundupSize r = (r + 3) / 4 * 4 := by
  have sum : BitVec.ofNat 32 r + 3#32 = BitVec.ofNat 32 (r + 3) := by rw [BitVec.ofNat_add]
  rw [roundupSize, sum]
  exact and_not_low (i := 2) (by omega)

theorem fls_ofNat {r : Nat} (positive : r ≠ 0) (small : r < 2 ^ 32) :
    fls (BitVec.ofNat 32 r) = Nat.log2 r := by
  have value : (BitVec.ofNat 32 r).toNat = r := by rw [BitVec.toNat_ofNat, Nat.mod_eq_of_lt small]
  have nonzero : BitVec.ofNat 32 r ≠ 0#32 := by
    intro zero
    rw [zero] at value
    exact positive value.symm
  rw [fls_log2 nonzero, value]

/-- The lists of free blocks: one for each small size, and the matrix. -/
inductive Cell where
  | small (fl : Nat)
  | large (fl sl : Nat)
  deriving DecidableEq, Repr

def Cell.Inside : Cell → Prop
  | .small fl => fl < 32
  | .large fl sl => fl < realFli ∧ sl < maxSli

def Cell.head (pool : Nat) : Cell → Nat
  | .small fl => sbArray pool fl
  | .large fl sl => matrix pool fl sl

/-- Where the code keeps a free block of this size. -/
def cellOf (size : Nat) : Cell :=
  if size < smallBlock then .small (fliSb size)
  else .large (mappingInsert size).1 (mappingInsert size).2

theorem mappingInsert_eq {r : Nat} (big : 128 ≤ r) (small : r < 2 ^ 32) :
    mappingInsert r = (r.log2 - 7, r / 2 ^ (r.log2 - 5) - 32) := by
  have order : 7 ≤ r.log2 := (Nat.le_log2 (by omega)).mpr (by omega)
  have column : ((r.log2 : Int) - (5 : Nat)).toNat = r.log2 - 5 := by omega
  have row : ((r.log2 : Int) - (7 : Nat)).toNat = r.log2 - 7 := by omega
  simp only [mappingInsert, fls_ofNat (by omega : r ≠ 0) small, fliOffset, maxLog2Sli, maxSli,
    column, row, Nat.shiftRight_eq_div_pow]

theorem column_lt {r : Nat} (big : 32 ≤ r) : r / 2 ^ (r.log2 - 5) - 32 < 32 := by
  have order : 5 ≤ r.log2 := (Nat.le_log2 (by omega)).mpr (by omega)
  have upper : r < 2 ^ (r.log2 + 1) := Nat.lt_log2_self
  have split : 2 ^ (r.log2 + 1) = 64 * 2 ^ (r.log2 - 5) := by
    rw [show (64 : Nat) = 2 ^ 6 by rfl, ← Nat.pow_add]
    congr 1
    omega
  rw [split] at upper
  have below : r / 2 ^ (r.log2 - 5) < 64 := (Nat.div_lt_iff_lt_mul (Nat.two_pow_pos _)).mpr upper
  omega

theorem column_ge {r : Nat} (big : 32 ≤ r) : 32 ≤ r / 2 ^ (r.log2 - 5) := by
  have order : 5 ≤ r.log2 := (Nat.le_log2 (by omega)).mpr (by omega)
  have lower : 2 ^ r.log2 ≤ r := Nat.log2_self_le (by omega)
  rw [Nat.le_div_iff_mul_le (Nat.two_pow_pos _), show (32 : Nat) = 2 ^ 5 by rfl, ← Nat.pow_add]
  calc 2 ^ (5 + (r.log2 - 5)) = 2 ^ r.log2 := by congr 1; omega
    _ ≤ r := lower

theorem cellOf_inside {s : Nat} (small : s < 2 ^ 30) : (cellOf s).Inside := by
  unfold cellOf
  split
  · rename_i low
    simp only [smallBlock] at low
    simp only [Cell.Inside, fliSb, Nat.shiftRight_eq_div_pow]
    omega
  · rename_i high
    simp only [smallBlock] at high
    rw [mappingInsert_eq (by omega) (by omega)]
    have order : s.log2 < 30 := (Nat.log2_lt (by omega)).mpr small
    have column := column_lt (r := s) (by omega)
    simp only [Cell.Inside, realFli, maxFli, fliOffset, maxSli]
    omega

/-- A block of size `s` serves a search for `r` bytes that starts at this cell. -/
def Serves (r fl sl : Nat) : Prop :=
  ∀ s fl' sl', s < 2 ^ 30 → cellOf s = .large fl' sl' → (fl < fl' ∨ fl = fl' ∧ sl ≤ sl') → r ≤ s

theorem cellOf_large {s fl sl : Nat} (small : s < 2 ^ 30) (cell : cellOf s = .large fl sl) :
    128 ≤ s ∧ fl = s.log2 - 7 ∧ sl = s / 2 ^ (s.log2 - 5) - 32 ∧ 7 ≤ s.log2 := by
  unfold cellOf at cell
  split at cell
  · cases cell
  · rename_i high
    simp only [smallBlock] at high
    rw [mappingInsert_eq (by omega) (by omega)] at cell
    cases cell
    exact ⟨by omega, rfl, rfl, (Nat.le_log2 (by omega)).mpr (by omega)⟩

theorem cellOf_small {s fl : Nat} (cell : cellOf s = .small fl) : fl = s / 4 := by
  unfold cellOf at cell
  split at cell
  · cases cell
    simp [fliSb, Nat.shiftRight_eq_div_pow]
  · cases cell

theorem serves_first {r : Nat} (small : r ≤ 128) : Serves r 0 0 := by
  intro s fl sl inside cell _
  have big := (cellOf_large inside cell).1
  omega

/-- The search size with the rounding of `MAPPING_SEARCH` added, one less than
    the width of a column. -/
def grown (n : Nat) : Nat := n + (2 ^ (n.log2 - 5) - 1)

def searchSize (n : Nat) : Nat := grown n / 2 ^ (n.log2 - 5) * 2 ^ (n.log2 - 5)

theorem grown_lt {n : Nat} (big : 32 ≤ n) (small : n ≤ 2 ^ 30 - 2 ^ 24) : grown n < 2 ^ 30 := by
  have strict := (Nat.log2_lt (n := n) (k := 30) (by omega)).mpr (by omega)
  have wide : 2 ^ (n.log2 - 5) ≤ 2 ^ 24 := Nat.pow_le_pow_right (by omega) (by omega)
  unfold grown
  omega

theorem searchSize_between (n : Nat) : n ≤ searchSize n ∧ searchSize n ≤ grown n := by
  have width : 0 < 2 ^ (n.log2 - 5) := Nat.two_pow_pos _
  have parts := Nat.div_add_mod' (grown n) (2 ^ (n.log2 - 5))
  have rest := Nat.mod_lt (grown n) width
  unfold searchSize
  unfold grown at *
  omega

theorem searchSize_whole {n : Nat} (big : 32 ≤ n) (whole : n % 4 = 0) : searchSize n % 4 = 0 := by
  have order : 5 ≤ n.log2 := (Nat.le_log2 (by omega)).mpr (by omega)
  unfold searchSize grown
  by_cases wide : 7 ≤ n.log2
  · have four : 2 ^ (n.log2 - 5) = 4 * 2 ^ (n.log2 - 7) := by
      rw [show (4 : Nat) = 2 ^ 2 by rfl, ← Nat.pow_add]
      congr 1
      omega
    rw [four, Nat.mul_left_comm]
    exact Nat.mul_mod_right 4 _
  · obtain five | six : n.log2 = 5 ∨ n.log2 = 6 := by omega
    · simp [five, whole]
    · simp only [six]
      omega

theorem log2_grown {n : Nat} (big : 32 ≤ n) :
    (grown n).log2 = n.log2 ∨ ((grown n).log2 = n.log2 + 1 ∧ searchSize n = 2 ^ (n.log2 + 1)) := by
  have order : 5 ≤ n.log2 := (Nat.le_log2 (by omega)).mpr (by omega)
  have width : 0 < 2 ^ (n.log2 - 5) := Nat.two_pow_pos _
  have lower : 2 ^ n.log2 ≤ n := Nat.log2_self_le (by omega)
  have upper : n < 2 ^ (n.log2 + 1) := Nat.lt_log2_self
  have columns : 2 ^ (n.log2 + 1) = 64 * 2 ^ (n.log2 - 5) := by
    rw [show (64 : Nat) = 2 ^ 6 by rfl, ← Nat.pow_add]
    congr 1
    omega
  have next : 2 ^ (n.log2 + 1 + 1) = 2 ^ (n.log2 + 1) * 2 := Nat.pow_succ 2 _
  unfold searchSize grown
  by_cases stays : n + (2 ^ (n.log2 - 5) - 1) < 2 ^ (n.log2 + 1)
  · left
    exact (Nat.log2_eq_iff (by omega)).mpr ⟨by omega, stays⟩
  · right
    constructor
    · exact (Nat.log2_eq_iff (by omega)).mpr ⟨by omega, by omega⟩
    · -- the sum lies in the first column of the next row
      have column : (n + (2 ^ (n.log2 - 5) - 1)) / 2 ^ (n.log2 - 5) = 64 := by
        apply Nat.div_eq_of_lt_le
        · omega
        · rw [Nat.add_mul]
          omega
      rw [column, columns]

theorem mappingSearch_eq {n : Nat} (big : 32 ≤ n) (small : n ≤ 2 ^ 30 - 2 ^ 24) :
    mappingSearch n =
      if (grown n).log2 < 7 then (searchSize n, 0, 0)
      else (searchSize n, (grown n).log2 - 7, grown n / 2 ^ ((grown n).log2 - 5) - 32) := by
  have order : 5 ≤ n.log2 := (Nat.le_log2 (by omega)).mpr (by omega)
  have bound := grown_lt big small
  have least := searchSize_between n
  have width : ((n.log2 : Int) - (5 : Nat)).toNat = n.log2 - 5 := by omega
  have column : (((grown n).log2 : Int) - (5 : Nat)).toNat = (grown n).log2 - 5 := by omega
  have row : (((grown n).log2 : Int) - (7 : Nat)).toNat = (grown n).log2 - 7 := by omega
  have sum : (n + (2 ^ (n.log2 - 5) - 1)) % 2 ^ 32 = grown n :=
    Nat.mod_eq_of_lt (lt_trans bound (by omega))
  simp only [mappingSearch, fls_ofNat (by omega : n ≠ 0) (by omega : n < 2 ^ 32), fliOffset,
    maxLog2Sli, maxSli, width, sum]
  rw [fls_ofNat (by omega) (by omega), and_not_low (by omega)]
  simp only [column, row, Nat.shiftRight_eq_div_pow]
  by_cases low : (grown n).log2 < 7
  · rw [if_pos low, if_pos (by omega)]
    rfl
  · rw [if_neg low, if_neg (by omega)]
    rfl

theorem serves_search {n : Nat} (big : 32 ≤ n) :
    Serves (searchSize n) ((grown n).log2 - 7) (grown n / 2 ^ ((grown n).log2 - 5) - 32) := by
  intro s fl sl inside cell after
  obtain ⟨_, row, column, high⟩ := cellOf_large inside cell
  have least := searchSize_between n
  have lower : 2 ^ s.log2 ≤ s := Nat.log2_self_le (by omega)
  have upper : grown n < 2 ^ ((grown n).log2 + 1) := Nat.lt_log2_self
  by_cases later : (grown n).log2 < s.log2
  · have power : 2 ^ ((grown n).log2 + 1) ≤ 2 ^ s.log2 := Nat.pow_le_pow_right (by omega) later
    omega
  · have same : s.log2 = (grown n).log2 := by omega
    rcases log2_grown big with stays | ⟨moved, rounded⟩
    · have columns : s.log2 = n.log2 := by omega
      have reached : grown n / 2 ^ (n.log2 - 5) ≤ s / 2 ^ (n.log2 - 5) := by
        have floor := column_ge (r := s) (by omega)
        rw [columns] at column floor
        rw [stays] at after
        omega
      calc searchSize n ≤ s / 2 ^ (n.log2 - 5) * 2 ^ (n.log2 - 5) := Nat.mul_le_mul_right _ reached
        _ ≤ s := Nat.div_mul_le_self s _
    · rw [rounded, ← moved, ← same]
      exact lower

theorem mappingSearch_spec {n : Nat} (big : 32 ≤ n) (small : n ≤ 2 ^ 30 - 2 ^ 24) (whole : n % 4 = 0) :
    ∃ fl sl, mappingSearch n = (searchSize n, fl, sl) ∧ n ≤ searchSize n ∧ searchSize n % 4 = 0 ∧
      fl < realFli ∧ sl < maxSli ∧ Serves (searchSize n) fl sl := by
  have least := searchSize_between n
  rw [mappingSearch_eq big small]
  split
  · rename_i low
    have fits : grown n < 2 ^ 7 := (Nat.log2_lt (by omega)).mp low
    exact ⟨0, 0, rfl, least.1, searchSize_whole big whole, by decide, by decide, serves_first (by omega)⟩
  · have order : (grown n).log2 < 30 := (Nat.log2_lt (by omega)).mpr (grown_lt big small)
    refine ⟨_, _, rfl, least.1, searchSize_whole big whole, ?_, ?_, serves_search big⟩
    · simp only [realFli, maxFli, fliOffset]
      omega
    · exact column_lt (by omega)

end L4ertl.Tlsf
