import L4ertl.Core.TlsfPool

/-!
When the search of malloc_ex finds nothing. The bitmaps are exact, so a search
that starts at a cell sees every list from there on; a block that is at least as
large as the grown request lies in one of them.
-/
namespace L4ertl.Tlsf
open Intrusive

def request (size : Nat) : Nat := if size < minBlockSize then minBlockSize else roundupSize size

def searchStart (n : Nat) : Nat × Nat := if n < 32 then (0, 0) else (mappingSearch n).2

def Reaches (start cell : Nat × Nat) : Prop := start.1 < cell.1 ∨ start.1 = cell.1 ∧ start.2 ≤ cell.2

instance (start cell : Nat × Nat) : Decidable (Reaches start cell) :=
  inferInstanceAs (Decidable (_ ∨ _ ∧ _))

/-- A free block of `s` bytes is one that the search for `n` bytes can find. -/
def Suits (n s : Nat) : Prop :=
  (n < smallBlock ∧ s < smallBlock ∧ n / 4 ≤ s / 4) ∨
    (smallBlock ≤ s ∧ Reaches (searchStart n) (mappingInsert s))

instance (n s : Nat) : Decidable (Suits n s) := inferInstanceAs (Decidable (_ ∨ _))

theorem isbitset_above (x : Word) (k : Nat) {i : Nat} (inside : i < 32) :
    isbitset (x &&& above k) i = true ↔ k ≤ i ∧ isbitset x i = true := by
  rw [isbitset_eq _ inside, isbitset_eq _ inside, BitVec.getLsbD_and, Bool.and_eq_true, above,
    BitVec.getLsbD_shiftLeft, BitVec.getLsbD_allOnes]
  by_cases reach : k ≤ i
  · have low : i - k < 32 := by omega
    simp [inside, reach, low]
  · have below : i < k := by omega
    simp [reach, below]

section
variable {pool : Nat} {m : Mem} {L : Lists}

theorem Listed.head_ne (listed : Listed pool m L) {c : Cell} (inside : c.Inside) (nonempty : L c ≠ []) :
    (m (c.head pool)).toNat ≠ 0 := by
  have head := segment_head (listed.chain c inside)
  cases there : L c with
  | nil => exact absurd there nonempty
  | cons x rest =>
    rw [there, List.head?_cons] at head
    have some := (ptrOf_eq_some.mp head).1
    intro zero
    exact some (BitVec.eq_of_toNat_eq (by simpa using zero))

theorem findSmallSuitableBlock_none (idx : Indexed pool m L) {r : Nat} (small : r < smallBlock) :
    (findSmallSuitableBlock r m pool).1 = 0 ↔ ∀ fl, r / 4 ≤ fl → fl < 32 → L (.small fl) = [] := by
  constructor
  · intro none fl reach inside
    by_contra some
    have bit : isbitset (m (sbBitmap pool) &&& above (fliSb r)) fl = true := by
      rw [isbitset_above _ _ inside, fliSb, Nat.shiftRight_eq_div_pow]
      exact ⟨reach, (idx.marked.small fl inside).mpr some⟩
    obtain ⟨i, low⟩ := lowestBit_exists ((word_ne_zero_iff _).mpr ⟨fl, inside, bit⟩)
    obtain ⟨row, _, found⟩ := lowestBit_above low
    have head := idx.listed.head_ne (c := .small i) row ((idx.marked.small i row).mp found)
    have large : ¬ r ≥ smallBlock := by omega
    have positive : (i : Int) > -1 := by omega
    simp only [findSmallSuitableBlock, large, ↓reduceIte, ffs_lowest low, positive, Int.toNat_natCast] at none
    exact head none
  · intro empty
    by_contra found
    obtain ⟨fl, rest, _, inside, reach, first⟩ := findSmallSuitableBlock_spec idx found
    rw [empty fl reach inside] at first
    cases first

theorem findSuitableBlock_none (idx : Indexed pool m L) {fl sl : Nat} (hfl : fl < realFli) :
    (findSuitableBlock m pool fl sl).1 = 0 ↔
      ∀ fl' sl', fl' < realFli → sl' < maxSli → Reaches (fl, sl) (fl', sl') → L (.large fl' sl') = [] := by
  constructor
  · intro none fl' sl' row column reach
    by_contra some
    have mark := (idx.marked.column fl' sl' row column).mpr some
    by_cases here : m (slBitmap pool fl) &&& above sl = 0#32
    · -- nothing is left in this row, so the list is in a later one
      have later : fl < fl' := by
        rcases reach with later | ⟨same, behind⟩
        · exact later
        · simp only at same behind
          subst same
          have bit := (isbitset_above (m (slBitmap pool fl)) sl column).mpr ⟨behind, mark⟩
          rw [here, isbitset_zero] at bit
          cases bit
      have rowLow : fl' < 32 := by
        simp only [realFli, maxFli, fliOffset] at row
        omega
      have bit : isbitset (m (flBitmap pool) &&& above (fl + 1)) fl' = true := by
        rw [isbitset_above _ _ rowLow]
        exact ⟨by omega, (idx.marked.row fl' rowLow).mpr ⟨row, sl', column, some⟩⟩
      obtain ⟨i, low⟩ := lowestBit_exists ((word_ne_zero_iff _).mpr ⟨fl', rowLow, bit⟩)
      obtain ⟨inside, above, found⟩ := lowestBit_above low
      obtain ⟨rowI, j, hj, busy⟩ := (idx.marked.row i inside).mp found
      have columns : m (slBitmap pool i) ≠ 0#32 :=
        (word_ne_zero_iff _).mpr ⟨j, hj, (idx.marked.column i j rowI hj).mpr busy⟩
      obtain ⟨k, lowest⟩ := lowestBit_exists columns
      have kbit : isbitset (m (slBitmap pool i)) k = true := (isbitset_eq _ lowest.1).trans lowest.2.1
      have head := idx.listed.head_ne (c := .large i k) ⟨rowI, lowest.1⟩
        ((idx.marked.column i k rowI lowest.1).mp kbit)
      have positive : (i : Int) > 0 := by omega
      simp only [findSuitableBlock, here, ne_eq, not_true_eq_false, ↓reduceIte, ffs_lowest low, positive,
        Int.toNat_natCast, ffs_lowest lowest] at none
      exact head none
    · obtain ⟨i, low⟩ := lowestBit_exists here
      obtain ⟨inside, _, found⟩ := lowestBit_above low
      have head := idx.listed.head_ne (c := .large fl i) ⟨hfl, inside⟩
        ((idx.marked.column fl i hfl inside).mp found)
      simp only [findSuitableBlock, here, ne_eq, not_false_eq_true, ↓reduceIte, ffs_lowest low,
        Int.toNat_natCast] at none
      exact head none
  · intro empty
    by_contra found
    obtain ⟨fl', sl', rest, _, row, column, after, first⟩ := findSuitableBlock_spec idx hfl found
    rw [empty fl' sl' row column after] at first
    cases first

end

theorem cellOf_small_iff {s fl : Nat} : cellOf s = .small fl ↔ s < smallBlock ∧ fl = s / 4 := by
  unfold cellOf
  split
  · rename_i low
    simp [low, fliSb, Nat.shiftRight_eq_div_pow, eq_comm]
  · rename_i high
    simp [high]

theorem cellOf_large_iff {s fl sl : Nat} :
    cellOf s = .large fl sl ↔ smallBlock ≤ s ∧ mappingInsert s = (fl, sl) := by
  unfold cellOf
  split
  · rename_i low
    simp [low]
  · rename_i high
    simp [Nat.le_of_not_lt high, Prod.ext_iff]

section
variable {pool e : Nat} {m : Mem} {bs : List Blk} {L : Lists}

theorem HeapAt.free_lt (bounded : Bounded pool e) (heap : HeapAt pool e m bs L) {x : Blk} (member : x ∈ bs) :
    x.size < 2 ^ 30 := by
  have block := heap.tiled.bounds.2 x member
  have large := bounded.large
  simp only [firstBlock_eq, Blk.next] at block
  rw [sizeofTlsf_eq] at large
  omega

theorem HeapAt.list_empty (heap : HeapAt pool e m bs L) (c : Cell) :
    L c = [] ↔ ∀ x ∈ bs, x.free = true → cellOf x.size ≠ c := by
  rw [List.eq_nil_iff_forall_not_mem]
  constructor
  · intro none x member free is
    refine none x.addr ((heap.filed c x.addr).mpr ⟨x.size, ?_, is⟩)
    rw [← free]
    exact member
  · intro none x inList
    obtain ⟨s, member, is⟩ := (heap.filed c x).mp inList
    exact none _ member rfl is

theorem HeapAt.none_suits (bounded : Bounded pool e) (heap : HeapAt pool e m bs L) {n : Nat}
    (row : (searchStart n).1 < realFli) :
    (findSmallSuitableBlock n m pool).1 = 0 ∧
        (findSuitableBlock m pool (searchStart n).1 (searchStart n).2).1 = 0 ↔
      ∀ x ∈ bs, x.free = true → ¬ Suits n x.size := by
  rw [findSuitableBlock_none heap.indexed row]
  constructor
  · rintro ⟨small, large⟩ x member free (⟨low, tiny, order⟩ | ⟨big, reach⟩)
    · simp only [smallBlock] at tiny
      have empty := (findSmallSuitableBlock_none heap.indexed low).mp small (x.size / 4) order (by omega)
      exact (heap.list_empty _).mp empty x member free (cellOf_small_iff.mpr ⟨tiny, rfl⟩)
    · have inside := cellOf_inside (heap.free_lt bounded member)
      have cell : cellOf x.size = .large (mappingInsert x.size).1 (mappingInsert x.size).2 :=
        cellOf_large_iff.mpr ⟨big, rfl⟩
      rw [cell] at inside
      have empty := large _ _ inside.1 inside.2 reach
      exact (heap.list_empty _).mp empty x member free cell
  · intro none
    constructor
    · by_cases low : n < smallBlock
      · rw [findSmallSuitableBlock_none heap.indexed low]
        intro fl reach inside
        rw [heap.list_empty]
        intro x member free is
        obtain ⟨tiny, rfl⟩ := cellOf_small_iff.mp is
        exact none x member free (Or.inl ⟨low, tiny, reach⟩)
      · simp [findSmallSuitableBlock, Nat.le_of_not_lt low]
    · intro fl sl _ _ reach
      rw [heap.list_empty]
      intro x member free is
      obtain ⟨big, cell⟩ := cellOf_large_iff.mp is
      exact none x member free (Or.inr ⟨big, by rw [cell]; exact reach⟩)

theorem mallocFound_ne (m : Mem) (size b pool : Nat) : (mallocFound m size b pool).1 ≠ 0 := by
  show buffer b ≠ 0
  simp only [buffer]
  omega

theorem mallocEx_null (size pool : Nat) (m : Mem) :
    ((mallocEx size pool m).1 = 0 ↔ (findSmallSuitableBlock (request size) m pool).1 = 0 ∧
      (findSuitableBlock m pool (searchStart (request size)).1 (searchStart (request size)).2).1 = 0) ∧
    ((mallocEx size pool m).1 = 0 → mallocEx size pool m = (0, m)) := by
  have start : ∀ n, (if n < 32 then (n, 0, 0) else mappingSearch n).2 = searchStart n := by
    intro n
    unfold searchStart
    split <;> rfl
  have request : (if size < minBlockSize then minBlockSize else roundupSize size) = request size := rfl
  simp only [mallocEx, request, start]
  by_cases small : (findSmallSuitableBlock (Tlsf.request size) m pool).1 = 0
  · by_cases large : (findSuitableBlock m pool (searchStart (Tlsf.request size)).1
        (searchStart (Tlsf.request size)).2).1 = 0
    · simp [small, large]
    · simp [small, large, mallocFound_ne]
  · simp [small, mallocFound_ne]

theorem mallocEx_null_iff (bounded : Bounded pool e) (heap : HeapAt pool e m bs L) {size : Nat}
    (row : (searchStart (request size)).1 < realFli) :
    (mallocEx size pool m).1 = 0 ↔ ∀ x ∈ bs, x.free = true → ¬ Suits (request size) x.size := by
  rw [(mallocEx_null size pool m).1]
  exact heap.none_suits bounded row

end

theorem searchStart_low {n : Nat} (small : n < 128) (whole : n % 4 = 0) : searchStart n = (0, 0) := by
  unfold searchStart
  split
  · rfl
  · rename_i big
    have order : n.log2 < 7 := (Nat.log2_lt (by omega)).mpr small
    have width : 2 ^ (n.log2 - 5) ≤ 2 ^ 1 := Nat.pow_le_pow_right (by omega) (by omega)
    have fits : grown n < 2 ^ 7 := by
      unfold grown
      omega
    rw [mappingSearch_eq (by omega) (by omega), if_pos ((Nat.log2_lt (by unfold grown; omega)).mpr fits)]

theorem searchStart_high {n : Nat} (big : 128 ≤ n) (small : n ≤ 2 ^ 30 - 2 ^ 24) :
    searchStart n = mappingInsert (grown n) := by
  have least : n ≤ grown n := Nat.le_add_right _ _
  have bound := grown_lt (by omega) small
  have order : 7 ≤ (grown n).log2 := (Nat.le_log2 (by omega)).mpr (by omega)
  rw [searchStart, if_neg (by omega), mappingSearch_eq (by omega) small, if_neg (by omega),
    mappingInsert_eq (by omega) (by omega)]

theorem searchStart_row {n : Nat} (whole : n % 4 = 0) (small : n ≤ 2 ^ 30 - 2 ^ 24) :
    (searchStart n).1 < realFli := by
  by_cases low : n < 128
  · rw [searchStart_low low whole]
    decide
  · have least : n ≤ grown n := Nat.le_add_right _ _
    have bound := grown_lt (by omega) small
    rw [searchStart_high (by omega) small, mappingInsert_eq (by omega) (by omega)]
    have order : (grown n).log2 < 30 := (Nat.log2_lt (by omega)).mpr bound
    simp only [realFli, maxFli, fliOffset]
    omega

theorem mappingInsert_mono {r s : Nat} (big : 128 ≤ r) (order : r ≤ s) (small : s < 2 ^ 32) :
    Reaches (mappingInsert r) (mappingInsert s) := by
  rw [mappingInsert_eq big (by omega), mappingInsert_eq (by omega) small]
  have rows : r.log2 ≤ s.log2 := (Nat.le_log2 (by omega)).mpr (le_trans (Nat.log2_self_le (by omega)) order)
  have low : 7 ≤ r.log2 := (Nat.le_log2 (by omega)).mpr (by omega)
  by_cases same : r.log2 = s.log2
  · right
    refine ⟨by simp only [same], ?_⟩
    simp only [same]
    exact Nat.sub_le_sub_right (Nat.div_le_div_right order) 32
  · left
    simp only
    omega

theorem suits_low {n s : Nat} (small : n < 128) (whole : n % 4 = 0) (enough : n ≤ s) : Suits n s := by
  by_cases tiny : s < smallBlock
  · exact Or.inl ⟨small, tiny, Nat.div_le_div_right enough⟩
  · right
    refine ⟨by omega, ?_⟩
    rw [searchStart_low small whole]
    unfold Reaches
    simp only
    omega

theorem suits_high {n s : Nat} (big : 128 ≤ n) (small : n ≤ 2 ^ 30 - 2 ^ 24) (inside : s < 2 ^ 30)
    (enough : grown n ≤ s) : Suits n s := by
  have least : n ≤ grown n := Nat.le_add_right _ _
  right
  refine ⟨by simp only [smallBlock]; omega, ?_⟩
  rw [searchStart_high big small]
  exact mappingInsert_mono (by omega) enough (by omega)

theorem request_eq {size : Nat} (small : size ≤ 2 ^ 32 - 4) : request size = max 12 ((size + 3) / 4 * 4) := by
  unfold request
  split
  · rename_i tiny
    simp only [minBlockSize] at *
    omega
  · rename_i least
    rw [roundupSize_eq small]
    simp only [minBlockSize] at least
    omega

/-- malloc_ex fails only when the free blocks are all below the request: below the
    request itself when that is small, and else below what it grows to when it is
    rounded up to the width of a column. -/
theorem malloc_complete {pool e : Nat} {m : Mem} {bs : List Blk} {L : Lists} (bounded : Bounded pool e)
    (heap : HeapAt pool e m bs L) {size : Nat} (small : size ≤ 2 ^ 29)
    (null : (mallocEx size pool m).1 = 0) :
    let R := max 12 ((size + 3) / 4 * 4)
    (R < 128 → ∀ x ∈ bs, x.free = true → x.size < R) ∧
      (128 ≤ R → ∀ x ∈ bs, x.free = true → x.size < R + 2 ^ (R.log2 - 5) - 1) := by
  intro R
  have asked : request size = R := request_eq (by omega)
  have whole : R % 4 = 0 := by omega
  have top : R ≤ 2 ^ 30 - 2 ^ 24 := by omega
  have row : (searchStart (request size)).1 < realFli := by
    rw [asked]
    exact searchStart_row whole top
  have none := (mallocEx_null_iff bounded heap row).mp null
  rw [asked] at none
  constructor
  · intro low x member free
    by_contra enough
    exact none x member free (suits_low low whole (by omega))
  · intro high x member free
    by_contra enough
    have width : 0 < 2 ^ (R.log2 - 5) := Nat.two_pow_pos _
    refine none x member free (suits_high high top (heap.free_lt bounded member) ?_)
    unfold grown
    omega

theorem malloc_complete_full : let m := readyPool 4176 4096 fun _ => 0#32
    (mallocEx 2000 4096 m).1 = 0 ∧ ∀ x ∈ [(⟨firstBlock 4096, poolBytes 4176, true⟩ : Blk)],
      x.size < 2000 + 2 ^ (Nat.log2 2000 - 5) - 1 := by
  intro m
  have null : (mallocEx 2000 4096 m).1 = 0 := by decide +kernel
  obtain ⟨bounded, heap⟩ := smallPool_heap
  have below := (malloc_complete bounded heap (by decide) null).2 (by decide)
  refine ⟨null, fun x member => ?_⟩
  have free : x.free = true := by
    rw [List.mem_singleton.mp member]
  exact below x member free

end L4ertl.Tlsf
