import L4ertl.Core.TlsfPool
import L4ertl.Core.TlsfSearch
import Mathlib.Data.Prod.Lex

/-!
The size classes as the source computes them, with indices that are `int`s. A
search rounds its size up to the first class all of whose blocks are large
enough, and the rounded size is the smallest one of that class.
-/
namespace L4ertl.Tlsf

/-- `mappingSearch` with the `int`s that the source computes. -/
def mappingSearchIndex (r : Nat) : Nat × Int × Int :=
  let t := 2 ^ (fls (BitVec.ofNat 32 r) - maxLog2Sli).toNat - 1
  let grown := (r + t) % 2 ^ 32
  let fl := fls (BitVec.ofNat 32 grown)
  let sl := ((grown >>> (fl - maxLog2Sli).toNat : Nat) : Int) - maxSli
  let rounded := (BitVec.ofNat 32 grown &&& ~~~ BitVec.ofNat 32 t).toNat
  if fl - fliOffset < 0 then (rounded, 0, 0) else (rounded, fl - fliOffset, sl)

section
variable {n r s : Nat}

theorem mappingSearch_fst (n : Nat) : (mappingSearchIndex n).1 = (mappingSearch n).1 := by
  simp only [mappingSearchIndex, mappingSearch]
  split
  · rfl
  · rfl

theorem mappingSearchIndex_eq (big : 128 ≤ n) (small : n ≤ 2 ^ 30 - 2 ^ 24) :
    mappingSearchIndex n = (searchSize n, mappingIndex (grown n)) := by
  have order : 7 ≤ n.log2 := (Nat.le_log2 (by omega)).mpr (by omega)
  have bound := grown_lt (by omega) small
  have least : n ≤ grown n := Nat.le_add_right _ _
  have high : 7 ≤ (grown n).log2 := (Nat.le_log2 (by omega)).mpr (by omega)
  have width : ((n.log2 : Int) - maxLog2Sli).toNat = n.log2 - 5 := by
    simp only [maxLog2Sli]
    omega
  have sum : (n + (2 ^ (n.log2 - 5) - 1)) % 2 ^ 32 = grown n :=
    Nat.mod_eq_of_lt (lt_trans bound (by omega))
  have first := congrArg Prod.fst (mappingSearch_eq (n := n) (by omega) small)
  rw [if_neg (by omega), ← mappingSearch_fst] at first
  apply Prod.ext
  · exact first
  · simp only [mappingSearchIndex, mappingIndex, fls_ofNat (by omega : n ≠ 0) (by omega : n < 2 ^ 32),
      width, sum, fls_ofNat (by omega : grown n ≠ 0) (by omega : grown n < 2 ^ 32)]
    rw [if_neg (by simp only [fliOffset]; omega)]

theorem mappingInsert_searchSize (big : 128 ≤ n) (small : n ≤ 2 ^ 30 - 2 ^ 24) :
    mappingInsert (searchSize n) = mappingInsert (grown n) := by
  have least := searchSize_between n
  have bound := grown_lt (by omega) small
  have lower : 2 ^ n.log2 ≤ n := Nat.log2_self_le (by omega)
  have order : 7 ≤ n.log2 := (Nat.le_log2 (by omega)).mpr (by omega)
  have width : 0 < 2 ^ (n.log2 - 5) := Nat.two_pow_pos _
  rw [mappingInsert_eq (by omega) (by omega), mappingInsert_eq (by omega) (by omega)]
  rcases log2_grown (by omega : 32 ≤ n) with stays | ⟨moved, rounded⟩
  · have upper : grown n < 2 ^ (n.log2 + 1) := by
      rw [← stays]
      exact Nat.lt_log2_self
    have same : (searchSize n).log2 = n.log2 := (Nat.log2_eq_iff (by omega)).mpr ⟨by omega, by omega⟩
    have column : searchSize n / 2 ^ (n.log2 - 5) = grown n / 2 ^ (n.log2 - 5) :=
      Nat.mul_div_cancel _ width
    rw [same, stays, column]
  · -- both are in the first column of the next row
    have same : (searchSize n).log2 = n.log2 + 1 := by rw [rounded, Nat.log2_two_pow]
    have wide : 2 ^ (n.log2 + 1 - 5) = 2 * 2 ^ (n.log2 - 5) := by
      rw [← Nat.pow_succ']
      congr 1
      omega
    have columns : 2 ^ (n.log2 + 1) = 64 * 2 ^ (n.log2 - 5) := by
      rw [show (64 : Nat) = 2 ^ 6 by rfl, ← Nat.pow_add]
      congr 1
      omega
    have upper : n < 2 ^ (n.log2 + 1) := Nat.lt_log2_self
    have here : searchSize n / 2 ^ (n.log2 + 1 - 5) = 32 := by
      rw [rounded, columns, wide]
      apply Nat.div_eq_of_lt_le
      · omega
      · omega
    have there : grown n / 2 ^ (n.log2 + 1 - 5) = 32 := by
      rw [wide]
      apply Nat.div_eq_of_lt_le
      · omega
      · unfold grown
        omega
    rw [same, moved, here, there]

theorem mappingIndex_range (big : 128 ≤ s) (small : s < 2 ^ 30) :
    0 ≤ (mappingIndex s).1 ∧ (mappingIndex s).1 < realFli ∧
      0 ≤ (mappingIndex s).2 ∧ (mappingIndex s).2 < maxSli := by
  have order : s.log2 < 30 := (Nat.log2_lt (by omega)).mpr small
  have column := column_lt (r := s) (by omega)
  rw [mappingIndex_eq big (by omega), mappingInsert_eq big (by omega)]
  simp only [realFli, maxFli, fliOffset, maxSli]
  omega

/-- The order of the classes is the one in which a search reaches their lists. -/
theorem mappingIndex_le_iff (big : 128 ≤ r) (small : r < 2 ^ 32) (large : 128 ≤ s) (inside : s < 2 ^ 32) :
    toLex (mappingIndex r) ≤ toLex (mappingIndex s) ↔ Reaches (mappingInsert r) (mappingInsert s) := by
  rw [mappingIndex_eq big small, mappingIndex_eq large inside, Prod.Lex.toLex_le_toLex]
  simp only [Reaches, Int.ofNat_lt, Int.ofNat_le, Nat.cast_inj]

theorem searchSize_serves (big : 128 ≤ n) (small : n ≤ 2 ^ 30 - 2 ^ 24) (large : 128 ≤ s) (inside : s < 2 ^ 30)
    (reached : toLex (mappingIndex (grown n)) ≤ toLex (mappingIndex s)) : searchSize n ≤ s := by
  have bound := grown_lt (by omega) small
  have least := searchSize_between n
  have reach := (mappingIndex_le_iff (by omega) (by omega) large (by omega)).mp reached
  rw [mappingInsert_eq (by omega : 128 ≤ grown n) (by omega)] at reach
  have cell : cellOf s = .large (mappingInsert s).1 (mappingInsert s).2 := cellOf_large_iff.mpr ⟨large, rfl⟩
  exact serves_search (by omega) s _ _ inside cell reach

end

theorem lowestBit_ctz {x : Word} (nonzero : x ≠ 0#32) : LowestBit x x.ctz.toNat :=
  ⟨BitVec.ctz_lt_iff_ne_zero.mpr nonzero, BitVec.getLsbD_true_ctz_of_ne_zero nonzero,
    fun _ below => BitVec.getLsbD_false_of_lt_ctz below⟩

/-- The good fit: every block of the class a search starts at, or of a later
    one, holds the rounded size. -/
theorem size_classes :
    (∀ r, 128 ≤ r → r ≤ 2 ^ 29 → r % 4 = 0 → ∃ r' fl sl, mappingSearchIndex r = (r', fl, sl) ∧ r ≤ r' ∧
      r' % 4 = 0 ∧ (0 ≤ fl ∧ fl < realFli ∧ 0 ≤ sl ∧ sl < maxSli) ∧ mappingIndex r' = (fl, sl) ∧
      ∀ s, 128 ≤ s → s < 2 ^ 30 → toLex (fl, sl) ≤ toLex (mappingIndex s) → r' ≤ s) ∧
    (∀ r s, 128 ≤ r → r ≤ s → s < 2 ^ 30 → toLex (mappingIndex r) ≤ toLex (mappingIndex s)) ∧
    (∀ s, 128 ≤ s → s < 2 ^ 30 → 0 ≤ (mappingIndex s).1 ∧ (mappingIndex s).1 < realFli ∧
      0 ≤ (mappingIndex s).2 ∧ (mappingIndex s).2 < maxSli) ∧
    ∀ x : Word, x ≠ 0#32 → fls x = x.toNat.log2 ∧ ffs x = x.ctz.toNat := by
  refine ⟨?_, ?_, fun s => mappingIndex_range, fun x nonzero => ⟨fls_log2 nonzero, ffs_lowest (lowestBit_ctz nonzero)⟩⟩
  · intro r big limit whole
    have small : r ≤ 2 ^ 30 - 2 ^ 24 := by omega
    have least := searchSize_between r
    have bound := grown_lt (by omega) small
    refine ⟨searchSize r, (mappingIndex (grown r)).1, (mappingIndex (grown r)).2, mappingSearchIndex_eq big small,
      least.1, searchSize_whole (by omega) whole, mappingIndex_range (by omega) bound, ?_, ?_⟩
    · rw [mappingIndex_eq (by omega) (by omega), mappingInsert_searchSize big small,
        ← mappingIndex_eq (by omega) (by omega)]
    · intro s large inside reached
      exact searchSize_serves big small large inside reached
  · intro r s big order small
    rw [mappingIndex_le_iff big (by omega) (by omega) (by omega)]
    exact mappingInsert_mono big order (by omega)

theorem size_classes_carry :
    mappingSearchIndex 1012 = (1024, 3, 0) ∧ mappingIndex 1024 = (3, 0) ∧
      ∀ s, 128 ≤ s → s < 2 ^ 30 → toLex ((3, 0) : Int × Int) ≤ toLex (mappingIndex s) → 1024 ≤ s := by
  have value : mappingSearchIndex 1012 = (1024, 3, 0) := by decide +kernel
  obtain ⟨r', fl, sl, found, _, _, _, cell, fits⟩ :=
    size_classes.1 1012 (by decide) (by decide) (by decide)
  rw [value] at found
  cases found
  exact ⟨value, cell, fits⟩

end L4ertl.Tlsf
