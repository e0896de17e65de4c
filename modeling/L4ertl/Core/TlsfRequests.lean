import L4ertl.Core.TlsfRuns
import L4ertl.Core.TlsfSearch

/-!
Requests of any size. The rounding of malloc_ex and of MAPPING_SEARCH is that of
32-bit words, and nothing compares a request with the largest class: above
2^30 - 2^24 bytes the search leaves the tables or, once the sums have wrapped,
looks for far less than was asked for. `Use` names what an index or a shift count
is computed for, so that the ranges can be stated.
-/
namespace L4ertl.Tlsf

/-- An index of a table of `tlsf_t`, or a shift count. -/
inductive Use where
  | sbArray (i : Int)
  | slBitmap (i : Int)
  | matrix (i j : Int)
  | shift (count : Int)
  deriving DecidableEq, Repr

def Use.Ok : Use → Prop
  | .sbArray i => 0 ≤ i ∧ i < 32
  | .slBitmap i => 0 ≤ i ∧ i < realFli
  | .matrix i j => (0 ≤ i ∧ i < realFli) ∧ 0 ≤ j ∧ j < maxSli
  | .shift count => 0 ≤ count ∧ count < 32

/- What the macros use, each in the memory it is expanded in. -/
def mappingSearchUses (r : Nat) : List Use :=
  let t := 2 ^ (fls (BitVec.ofNat 32 r) - maxLog2Sli).toNat - 1
  [.shift (fls (BitVec.ofNat 32 r) - maxLog2Sli),
    .shift (fls (BitVec.ofNat 32 ((r + t) % 2 ^ 32)) - maxLog2Sli)]

def mappingInsertUses (r : Nat) : List Use := [.shift (fls (BitVec.ofNat 32 r) - maxLog2Sli)]

def findSuitableUses (m : Mem) (pool fl sl : Nat) : List Use :=
  let tmp := m (slBitmap pool fl) &&& above sl
  [.slBitmap fl, .shift sl] ++
    if tmp ≠ 0#32 then [.matrix fl (ffs tmp)]
    else
      let up := ffs (m (flBitmap pool) &&& above (fl + 1))
      .shift (fl + 1) ::
        if up > 0 then [.slBitmap up, .matrix up (ffs (m (slBitmap pool up.toNat)))] else []

def findSmallUses (r : Nat) (m : Mem) (pool : Nat) : List Use :=
  if r ≥ smallBlock then []
  else
    let fl := ffs (m (sbBitmap pool) &&& above (fliSb r))
    .shift (fliSb r) :: if fl > -1 then [.sbArray fl] else []

def extractBlockHdrUses (m : Mem) (b pool fl sl : Nat) : List Use :=
  let m := store m (matrix pool fl sl) (m (freeNext b))
  .matrix fl sl :: ((if m (matrix pool fl sl) ≠ 0#32 then [] else [.shift sl, .slBitmap fl]) ++
    [.slBitmap fl, .shift fl])

def extractSmallBlockHdrUses (m : Mem) (b pool fl : Nat) : List Use :=
  let m := store m (sbArray pool fl) (m (freeNext b))
  .sbArray fl :: if m (sbArray pool fl) ≠ 0#32 then [] else [.shift fl]

def insertBlockUses (fl sl : Nat) : List Use := [.matrix fl sl, .shift sl, .slBitmap fl, .shift fl]

def insertSmallBlockUses (fl : Nat) : List Use := [.sbArray fl, .shift fl]

def mallocFoundUses (m : Mem) (size b : Nat) : List Use :=
  let nextB := getNextBlock (buffer b) (blockSize m b)
  let tmpSize := ((m (sizeField b) &&& blockMask) - ofPtr size - 4#32).toInt
  if tmpSize ≥ minBlockSize then
    let b2 := getNextBlock (buffer b) size
    let m := store m (sizeField b2) (BitVec.ofInt 32 tmpSize ||| freeBlock)
    let m := store m nextB (ofPtr b2)
    if tmpSize < smallBlock then insertSmallBlockUses (fliSb (blockSize m b2))
    else mappingInsertUses tmpSize.toNat ++
      insertBlockUses (mappingInsert tmpSize.toNat).1 (mappingInsert tmpSize.toNat).2
  else []

def mallocUses (size pool : Nat) (m : Mem) : List Use :=
  let size := if size < minBlockSize then minBlockSize else roundupSize size
  let small := findSmallSuitableBlock size m pool
  findSmallUses size m pool ++
    if small.1 ≠ 0 then
      extractSmallBlockHdrUses m small.1 pool small.2 ++
        mallocFoundUses (extractSmallBlockHdr m small.1 pool small.2) size small.1
    else
      let search := if size < 32 then (size, 0, 0) else mappingSearch size
      let large := findSuitableBlock m pool search.2.1 search.2.2
      (if size < 32 then [] else mappingSearchUses size) ++
        findSuitableUses m pool search.2.1 search.2.2 ++
        if large.1 = 0 then []
        else extractBlockHdrUses m large.1 pool large.2.1 large.2.2 ++
          mallocFoundUses (extractBlockHdr m large.1 pool large.2.1 large.2.2) search.1 large.1

def InRange (us : List Use) : Prop := ∀ u ∈ us, u.Ok

theorem inRange_append {us vs : List Use} : InRange (us ++ vs) ↔ InRange us ∧ InRange vs := by
  simp only [InRange, List.mem_append]
  constructor
  · intro all
    exact ⟨fun u here => all u (Or.inl here), fun u there => all u (Or.inr there)⟩
  · rintro ⟨first, second⟩ u (here | there)
    · exact first u here
    · exact second u there

theorem inRange_cons {u : Use} {us : List Use} : InRange (u :: us) ↔ u.Ok ∧ InRange us := by
  simp [InRange]

theorem inRange_nil : InRange [] := by simp [InRange]

section
variable {pool e : Nat} {m w : Mem} {bs : List Blk} {L : Lists} {b s : Nat}

theorem ffs_inside {x : Word} (some : x ≠ 0#32) : 0 ≤ ffs x ∧ ffs x < 32 := by
  obtain ⟨i, low⟩ := lowestBit_exists some
  rw [ffs_lowest low]
  have inside := low.1
  omega

theorem findSmallUses_ok (r : Nat) (m : Mem) (pool : Nat) : InRange (findSmallUses r m pool) := by
  unfold findSmallUses
  split
  · exact inRange_nil
  · rename_i small
    simp only [smallBlock] at small
    simp only [inRange_cons, Use.Ok, fliSb, Nat.shiftRight_eq_div_pow]
    refine ⟨by omega, ?_⟩
    split
    · rename_i hit
      refine inRange_cons.mpr ⟨?_, inRange_nil⟩
      apply ffs_inside
      intro zero
      rw [zero, ffs_zero] at hit
      omega
    · exact inRange_nil

theorem findSuitableUses_ok (idx : Indexed pool m L) {fl sl : Nat} (row : fl < realFli) (column : sl < maxSli) :
    InRange (findSuitableUses m pool fl sl) := by
  simp only [realFli, maxFli, fliOffset] at row
  simp only [maxSli] at column
  rw [findSuitableUses, inRange_append]
  constructor
  · simp only [inRange_cons, Use.Ok, inRange_nil, and_true, realFli, maxFli, fliOffset]
    omega
  · split
    · rename_i some
      have inside := ffs_inside some
      simp only [inRange_cons, Use.Ok, inRange_nil, and_true, realFli, maxFli, fliOffset, maxSli]
      omega
    · refine inRange_cons.mpr ⟨by simp only [Use.Ok]; omega, ?_⟩
      split
      · rename_i hit
        have nonzero : m (flBitmap pool) &&& above (fl + 1) ≠ 0#32 := by
          intro zero
          rw [zero, ffs_zero] at hit
          omega
        obtain ⟨i, low⟩ := lowestBit_exists nonzero
        obtain ⟨inside, _, bit⟩ := lowestBit_above low
        obtain ⟨rowI, j, hj, busy⟩ := (idx.marked.row i inside).mp bit
        have columns : m (slBitmap pool i) ≠ 0#32 :=
          (word_ne_zero_iff _).mpr ⟨j, hj, (idx.marked.column i j rowI hj).mpr busy⟩
        have second := ffs_inside columns
        rw [ffs_lowest low]
        simp only [realFli, maxFli, fliOffset] at rowI
        simp only [inRange_cons, Use.Ok, inRange_nil, and_true, realFli, maxFli, fliOffset, maxSli, Int.toNat_natCast]
        omega
      · exact inRange_nil

theorem extractBlockHdrUses_ok (m : Mem) (b pool : Nat) {fl sl : Nat} (row : fl < realFli)
    (column : sl < maxSli) : InRange (extractBlockHdrUses m b pool fl sl) := by
  simp only [realFli, maxFli, fliOffset] at row
  simp only [maxSli] at column
  simp only [extractBlockHdrUses, inRange_cons, inRange_append, Use.Ok, inRange_nil, and_true, realFli, maxFli, fliOffset,
    maxSli]
  refine ⟨by omega, ?_, by omega⟩
  split
  · exact inRange_nil
  · simp only [inRange_cons, Use.Ok, inRange_nil, and_true, realFli, maxFli, fliOffset]
    omega

theorem extractSmallBlockHdrUses_ok (m : Mem) (b pool : Nat) {fl : Nat} (inside : fl < 32) :
    InRange (extractSmallBlockHdrUses m b pool fl) := by
  simp only [extractSmallBlockHdrUses, inRange_cons, Use.Ok]
  refine ⟨by omega, ?_⟩
  split
  · exact inRange_nil
  · simp only [inRange_cons, Use.Ok, inRange_nil, and_true]
    omega

theorem mallocFoundUses_ok (header : m (sizeField b) = hdrWord s true false) (small : s < 2 ^ 30)
    (wholes : s % 4 = 0) {size : Nat} (whole : size % 4 = 0) (fits : size ≤ s) :
    InRange (mallocFoundUses m size b) := by
  simp only [mallocFoundUses, blockSize_header header wholes small, getNextBlock_eq, header,
    hdrWord_and_mask wholes, toInt_rest small fits]
  by_cases room : size + 16 ≤ s
  · have restWhole : (s - size - 4) % 4 = 0 := by omega
    have cut : (s : Int) - size - 4 = ((s - size - 4 : Nat) : Int) := by omega
    have word : BitVec.ofInt 32 ((s - size - 4 : Nat) : Int) ||| freeBlock =
        hdrWord (s - size - 4) true false := by
      rw [BitVec.ofInt_natCast, freeBlock_flags]
      exact hdrWord_or_flags restWhole true false
    have opened : store (store m (sizeField (b + 4 + size)) (hdrWord (s - size - 4) true false))
      (b + 4 + s) (ofPtr (b + 4 + size)) = cutMem m b size s := rfl
    have split : ((s - size - 4 : Nat) : Int) ≥ minBlockSize := by simp only [minBlockSize]; omega
    simp only [cut, split, ↓reduceIte, word, opened, Int.toNat_natCast, Int.ofNat_lt,
      blockSize_header (cutMem_header m room) restWhole (by omega)]
    have inside := cellOf_inside (s := s - size - 4) (by omega)
    simp only [cellOf] at inside
    split
    · rename_i tiny
      rw [if_pos tiny] at inside
      simp only [Cell.Inside] at inside
      simp only [insertSmallBlockUses, inRange_cons, Use.Ok, inRange_nil, and_true]
      omega
    · rename_i large
      rw [if_neg large] at inside
      simp only [Cell.Inside] at inside
      simp only [smallBlock] at large
      obtain ⟨row, column⟩ := inside
      have width : 5 ≤ (s - size - 4).log2 := (Nat.le_log2 (by omega)).mpr (by omega)
      have bound : (s - size - 4).log2 < 30 := (Nat.log2_lt (by omega)).mpr (by omega)
      rw [inRange_append]
      simp only [mappingInsertUses, insertBlockUses, inRange_cons, Use.Ok, inRange_nil, and_true,
        fls_ofNat (by omega : s - size - 4 ≠ 0) (by omega : s - size - 4 < 2 ^ 32), maxLog2Sli]
      simp only [realFli, maxFli, fliOffset, maxSli] at *
      omega
  · have none : ¬ ((s : Int) - size - 4 ≥ minBlockSize) := by
      simp only [minBlockSize]
      omega
    rw [if_neg none]
    exact inRange_nil

theorem HeapAt.hand_uses (bounded : Bounded pool e) (heap : HeapAt pool e m bs L) {c : Cell}
    {rest : List Nat} (first : L c = b :: rest) {size : Nat} (whole : size % 4 = 0)
    (fits : ∀ s, s < 2 ^ 30 → s % 4 = 0 → cellOf s = c → size ≤ s)
    (extracted : Spread pool (FreeAt bs) → Untouched pool (FreeAt bs) m w) :
    InRange (mallocFoundUses w size b) := by
  obtain ⟨s, member, cell⟩ := (heap.filed c b).mp (by simp [first])
  obtain ⟨pre, post, shape⟩ := List.append_of_mem member
  subst shape
  obtain ⟨gap, header, _⟩ := heap.take (extracted (heap.spread bounded))
  have small := (gap.small bounded).1
  exact mallocFoundUses_ok header small gap.fits.whole whole (fits s small gap.fits.whole cell)

end

theorem mappingSearch_wrapped {n r : Nat} (big : 32 ≤ n) (small : n < 2 ^ 32)
    (sum : grown n % 2 ^ 32 = r) (fits : 32 ≤ r) :
    InRange (mappingSearchUses n) ∧
      searchStart n = if r.log2 < 7 then (0, 0) else (r.log2 - 7, r / 2 ^ (r.log2 - 5) - 32) := by
  have bound : r < 2 ^ 32 := by omega
  have order : 5 ≤ n.log2 := (Nat.le_log2 (by omega)).mpr (by omega)
  have top : n.log2 < 32 := (Nat.log2_lt (by omega)).mpr small
  have orderR : 5 ≤ r.log2 := (Nat.le_log2 (by omega)).mpr (by omega)
  have topR : r.log2 < 32 := (Nat.log2_lt (by omega)).mpr bound
  have width : ((n.log2 : Int) - (5 : Nat)).toNat = n.log2 - 5 := by omega
  have column : ((r.log2 : Int) - (5 : Nat)).toNat = r.log2 - 5 := by omega
  have row : ((r.log2 : Int) - (7 : Nat)).toNat = r.log2 - 7 := by omega
  have first := fls_ofNat (by omega : n ≠ 0) small
  have second := fls_ofNat (by omega : r ≠ 0) bound
  have step : (n + (2 ^ (n.log2 - 5) - 1)) % 2 ^ 32 = r := sum
  constructor
  · simp only [mappingSearchUses, first, maxLog2Sli, width, step, second, inRange_cons, Use.Ok, inRange_nil,
      and_true]
    omega
  · rw [searchStart, if_neg (by omega)]
    simp only [mappingSearch, first, fliOffset, maxLog2Sli, maxSli, width, step, second, column, row,
      Nat.shiftRight_eq_div_pow]
    by_cases low : r.log2 < 7
    · rw [if_pos low, if_pos (by omega)]
    · rw [if_neg low, if_neg (by omega)]

section
variable {pool e : Nat} {m : Mem} {bs : List Blk} {L : Lists}

def searchUses (n : Nat) (m : Mem) (pool : Nat) : List Use :=
  findSmallUses n m pool ++ (if n < 32 then [] else mappingSearchUses n) ++
    findSuitableUses m pool (searchStart n).1 (searchStart n).2

theorem searchUses_ok (idx : Indexed pool m L) {n r : Nat} (small : n < 2 ^ 32)
    (sum : n < 32 ∨ grown n % 2 ^ 32 = r ∧ 32 ≤ r ∧ r < 2 ^ 30) :
    InRange (searchUses n m pool) ∧ (searchStart n).1 < realFli ∧ (searchStart n).2 < maxSli := by
  have cell : InRange (if n < 32 then [] else mappingSearchUses n) ∧
      (searchStart n).1 < realFli ∧ (searchStart n).2 < maxSli := by
    by_cases tiny : n < 32
    · rw [if_pos tiny, searchStart, if_pos tiny]
      exact ⟨inRange_nil, by decide, by decide⟩
    · obtain ⟨sum, fits, top⟩ := sum.resolve_left tiny
      obtain ⟨uses, start⟩ := mappingSearch_wrapped (by omega) small sum fits
      have order : r.log2 < 30 := (Nat.log2_lt (by omega)).mpr top
      have column := column_lt (r := r) fits
      rw [if_neg tiny, start]
      refine ⟨uses, ?_⟩
      split
      · decide
      · simp only [realFli, maxFli, fliOffset, maxSli]
        omega
  obtain ⟨uses, row, column⟩ := cell
  refine ⟨?_, row, column⟩
  rw [searchUses, inRange_append, inRange_append]
  exact ⟨⟨findSmallUses_ok n m pool, uses⟩, findSuitableUses_ok idx row column⟩

theorem search_eq (n : Nat) : (if n < 32 then (n, 0, 0) else mappingSearch n).2 = searchStart n := by
  unfold searchStart
  split <;> rfl

theorem mallocUses_small {size : Nat} (found : (findSmallSuitableBlock (request size) m pool).1 ≠ 0) :
    mallocUses size pool m = findSmallUses (request size) m pool ++
      (extractSmallBlockHdrUses m (findSmallSuitableBlock (request size) m pool).1 pool
          (findSmallSuitableBlock (request size) m pool).2 ++
        mallocFoundUses (extractSmallBlockHdr m (findSmallSuitableBlock (request size) m pool).1 pool
          (findSmallSuitableBlock (request size) m pool).2) (request size)
          (findSmallSuitableBlock (request size) m pool).1) := by
  have asked : (if size < minBlockSize then minBlockSize else roundupSize size) = request size := rfl
  simp only [mallocUses, asked, found, ne_eq, not_false_eq_true, ↓reduceIte]

theorem mallocUses_large {size : Nat} (none : (findSmallSuitableBlock (request size) m pool).1 = 0)
    {large : Nat × Nat × Nat}
    (searched : findSuitableBlock m pool (searchStart (request size)).1 (searchStart (request size)).2 = large) :
    mallocUses size pool m = searchUses (request size) m pool ++
      if large.1 = 0 then []
      else extractBlockHdrUses m large.1 pool large.2.1 large.2.2 ++
        mallocFoundUses (extractBlockHdr m large.1 pool large.2.1 large.2.2)
          (if request size < 32 then (request size, 0, 0) else mappingSearch (request size)).1 large.1 := by
  have asked : (if size < minBlockSize then minBlockSize else roundupSize size) = request size := rfl
  simp only [mallocUses, asked, search_eq, none, ne_eq, not_true_eq_false, ↓reduceIte, searchUses,
    List.append_assoc, searched]

theorem request_whole {size : Nat} (small : size ≤ 2 ^ 30 - 2 ^ 24) :
    request size % 4 = 0 ∧ minBlockSize ≤ request size ∧ request size ≤ 2 ^ 30 - 2 ^ 24 := by
  obtain ⟨n, is, whole, least, _, top⟩ := request_spec small
  have asked : request size = n := is
  rw [asked]
  exact ⟨whole, least, top⟩

theorem mallocUses_ok (bounded : Bounded pool e) (heap : HeapAt pool e m bs L) {size : Nat}
    (small : size ≤ 2 ^ 30 - 2 ^ 24) : InRange (mallocUses size pool m) := by
  obtain ⟨whole, least, top⟩ := request_whole small
  have members := fun d (_ : Cell.Inside d) x => heap.filed.members d x
  have sum : request size < 32 ∨ grown (request size) % 2 ^ 32 = grown (request size) ∧
      32 ≤ grown (request size) ∧ grown (request size) < 2 ^ 30 := by
    by_cases tiny : request size < 32
    · exact Or.inl tiny
    · have bound := grown_lt (by omega) top
      have larger : request size ≤ grown (request size) := Nat.le_add_right _ _
      exact Or.inr ⟨Nat.mod_eq_of_lt (by omega), by omega, bound⟩
  obtain ⟨searched, row, column⟩ := searchUses_ok heap.indexed (by omega) sum
  by_cases found : (findSmallSuitableBlock (request size) m pool).1 = 0
  · cases large : findSuitableBlock m pool (searchStart (request size)).1 (searchStart (request size)).2 with
    | mk b cell =>
      obtain ⟨fl, sl⟩ := cell
      rw [mallocUses_large found large, inRange_append]
      refine ⟨searched, ?_⟩
      split
      · exact inRange_nil
      · rename_i some
        obtain ⟨r, _, _, shape, up, multiple, _, serves⟩ := search_spec whole top
        have start := search_eq (request size)
        rw [shape] at start ⊢
        obtain ⟨fl', sl', rest, triple, row', column', after, first⟩ :=
          findSuitableBlock_spec heap.indexed row (by rw [large]; exact some)
        rw [large] at triple first
        cases triple
        rw [← start] at after
        rw [inRange_append]
        refine ⟨extractBlockHdrUses_ok m b pool row' column', ?_⟩
        exact heap.hand_uses bounded (c := .large fl sl) first multiple
          (fun s inside _ cell => serves s fl sl inside cell after)
          (fun spread => (extractBlockHdr_indexed spread members heap.indexed row' column' first).2)
  · obtain ⟨fl, rest, pair, inside, reach, first⟩ := findSmallSuitableBlock_spec heap.indexed found
    rw [mallocUses_small found, inRange_append, inRange_append, pair]
    refine ⟨findSmallUses_ok _ _ _, extractSmallBlockHdrUses_ok _ _ _ inside, ?_⟩
    exact heap.hand_uses bounded (c := .small fl) first whole
      (fun s _ four cell => by have := cellOf_small cell; omega)
      (fun spread => (extractSmallBlockHdr_indexed spread members heap.indexed inside first).2)

end

theorem log2_eq {n k : Nat} (low : 2 ^ k ≤ n) (high : n < 2 ^ (k + 1)) : n.log2 = k := by
  have positive : 0 < 2 ^ k := Nat.two_pow_pos k
  have least : k ≤ n.log2 := (Nat.le_log2 (by omega)).mpr low
  have most : n.log2 < k + 1 := (Nat.log2_lt (by omega)).mpr high
  omega

theorem grown_large {n : Nat} (low : 2 ^ 29 ≤ n) (high : n < 2 ^ 32) :
    grown n = n + (if n < 2 ^ 30 then 2 ^ 24 else if n < 2 ^ 31 then 2 ^ 25 else 2 ^ 26) - 1 := by
  unfold grown
  split
  · rw [log2_eq (k := 29) low (by omega)]
    omega
  · split
    · rw [log2_eq (k := 30) (by omega) (by omega)]
      omega
    · rw [log2_eq (k := 31) (by omega) (by omega)]
      omega

section
variable {pool e : Nat} {m : Mem} {bs : List Blk} {L : Lists} {n : Nat}

theorem mallocUses_outside (low : 2 ^ 30 - 2 ^ 24 < n) (high : n ≤ 2 ^ 32 - 2 ^ 26 + 32) :
    ¬ InRange (mallocUses n pool m) := by
  have asked : request n = (n + 3) / 4 * 4 := by
    rw [request_eq (by omega)]
    omega
  have big : 128 ≤ request n := by omega
  have none : (findSmallSuitableBlock (request n) m pool).1 = 0 := by
    have large : request n ≥ smallBlock := by simp only [smallBlock]; omega
    simp [findSmallSuitableBlock, large]
  have sum := grown_large (n := request n) (by omega) (by omega)
  intro all
  rw [mallocUses_large none rfl, inRange_append, searchUses, inRange_append, inRange_append,
    if_neg (by omega)] at all
  obtain ⟨⟨⟨_, search⟩, rows⟩, _⟩ := all
  by_cases wraps : grown (request n) % 2 ^ 32 < 32
  · -- the second shift count is negative
    have order : 5 ≤ (request n).log2 := (Nat.le_log2 (by omega)).mpr (by omega)
    have width : (((request n).log2 : Int) - (5 : Nat)).toNat = (request n).log2 - 5 := by omega
    have step : (request n + (2 ^ ((request n).log2 - 5) - 1)) % 2 ^ 32 = grown (request n) % 2 ^ 32 := rfl
    simp only [mappingSearchUses, fls_ofNat (by omega : request n ≠ 0) (by omega : request n < 2 ^ 32),
      maxLog2Sli, width, step, inRange_cons, Use.Ok] at search
    have count := search.2.1.1
    by_cases zero : grown (request n) % 2 ^ 32 = 0
    · rw [zero] at count
      exact absurd count (by decide)
    · rw [fls_ofNat zero (by omega)] at count
      have order : (grown (request n) % 2 ^ 32).log2 < 5 := (Nat.log2_lt zero).mpr (by omega)
      omega
  · have above : 2 ^ 30 ≤ grown (request n) % 2 ^ 32 := by
      split at sum
      · omega
      · split at sum <;> omega
    have order : 30 ≤ (grown (request n) % 2 ^ 32).log2 := (Nat.le_log2 (by omega)).mpr above
    obtain ⟨_, start⟩ := mappingSearch_wrapped (by omega) (by omega : request n < 2 ^ 32) rfl
      (by omega : 32 ≤ grown (request n) % 2 ^ 32)
    rw [start, if_neg (by omega), findSuitableUses, inRange_append] at rows
    have row := (inRange_cons.mp rows.1).1
    simp only [Use.Ok, realFli, maxFli, fliOffset] at row
    omega

/-- malloc_ex refuses these: above the largest class it looks for what is left of the
    request after the sums have wrapped around, and has to find nothing. -/
def Refused (bs : List Blk) (n : Nat) : Prop :=
  (n ≤ 2 ^ 30 - 2 ^ 24 ∨ 2 ^ 32 - 2 ^ 26 + 32 < n) ∧
    ∀ x ∈ bs, x.free = true → ¬ Suits (request n) x.size

theorem request_wrapped (low : 2 ^ 32 - 2 ^ 26 + 32 < n) (high : n < 2 ^ 32) :
    request n < 2 ^ 32 ∧ (request n < 32 ∨ grown (request n) % 2 ^ 32 = grown (request n) - 2 ^ 32 ∧
      32 ≤ grown (request n) - 2 ^ 32 ∧ grown (request n) - 2 ^ 32 < 2 ^ 30) := by
  have least : ¬ n < minBlockSize := by simp only [minBlockSize]; omega
  by_cases top : n ≤ 2 ^ 32 - 4
  · have asked : request n = (n + 3) / 4 * 4 := by
      rw [request_eq top]
      omega
    have sum := grown_large (n := request n) (by omega) (by omega)
    rw [if_neg (by omega), if_neg (by omega)] at sum
    omega
  · have asked : request n = 0 := by
      have which : n = 2 ^ 32 - 3 ∨ n = 2 ^ 32 - 2 ∨ n = 2 ^ 32 - 1 := by omega
      rcases which with rfl | rfl | rfl <;> rfl
    rw [asked]
    decide

theorem refused_iff (bounded : Bounded pool e) (heap : HeapAt pool e m bs L) (word : n < 2 ^ 32) :
    (mallocEx n pool m).1 = 0 ∧ InRange (mallocUses n pool m) ↔ Refused bs n := by
  by_cases small : n ≤ 2 ^ 30 - 2 ^ 24
  · have row := searchStart_row (request_whole small).1 (request_whole small).2.2
    rw [mallocEx_null_iff bounded heap row]
    constructor
    · rintro ⟨none, _⟩
      exact ⟨Or.inl small, none⟩
    · rintro ⟨_, none⟩
      exact ⟨none, mallocUses_ok bounded heap small⟩
  · by_cases outside : n ≤ 2 ^ 32 - 2 ^ 26 + 32
    · constructor
      · rintro ⟨_, all⟩
        exact absurd all (mallocUses_outside (by omega) outside)
      · rintro ⟨either, _⟩
        omega
    · obtain ⟨fits, sum⟩ := request_wrapped (by omega) word
      obtain ⟨searched, row, _⟩ := searchUses_ok heap.indexed fits sum
      rw [mallocEx_null_iff bounded heap row]
      constructor
      · rintro ⟨none, _⟩
        exact ⟨Or.inr (by omega), none⟩
      · rintro ⟨_, none⟩
        refine ⟨none, ?_⟩
        have null := (mallocEx_null_iff bounded heap row).mpr none
        obtain ⟨small, large⟩ := (mallocEx_null n pool m).1.mp null
        rw [mallocUses_large small rfl, if_pos large, List.append_nil]
        exact searched

def callocUses (nelem elemSize pool : Nat) (m : Mem) : List Use :=
  if nelem = 0 ∨ elemSize = 0 then [] else mallocUses (nelem * elemSize % 2 ^ 32) pool m

/-- NULL and an unchanged pool, or a block of `size` bytes, with every index in its
    table and every shift count below 32. -/
structure MallocRight (pool e : Nat) (m : Mem) (bs : List Blk) (size : Nat) : Prop where
  result : mallocEx size pool m = (0, m) ∨ ∃ b cs, (mallocEx size pool m).1 = buffer b ∧
    Handed pool e m (mallocEx size pool m).2 bs size b cs
  inRange : InRange (mallocUses size pool m)

structure CallocRight (pool e : Nat) (m : Mem) (bs : List Blk) (nelem elemSize : Nat) : Prop where
  result : callocEx nelem elemSize pool m = (0, m) ∨
    ∃ b cs, (callocEx nelem elemSize pool m).1 = buffer b ∧
      Handed pool e m (callocEx nelem elemSize pool m).2 bs (nelem * elemSize) b cs ∧
      ∀ i < nelem * elemSize, Bytes.byteAt (callocEx nelem elemSize pool m).2 (buffer b + i) = 0#8
  inRange : InRange (callocUses nelem elemSize pool m)

theorem Handed.bound (bounded : Bounded pool e) {w : Mem} {b : Nat} {cs : List Blk}
    (handed : Handed pool e m w bs n b cs) : n < 2 ^ 30 := by
  obtain ⟨⟨_, _, _, r, _, _, after, _, fits, _⟩, K, heap⟩ := handed
  have block := heap.tiled.bounds.2 ⟨b, r, false⟩ (by simp [after])
  have large := bounded.large
  simp only [firstBlock_eq, Blk.next] at block
  rw [sizeofTlsf_eq] at large
  omega

theorem mallocRight_iff (bounded : Bounded pool e) (heap : HeapAt pool e m bs L) (word : n < 2 ^ 32) :
    MallocRight pool e m bs n ↔ n ≤ 2 ^ 30 - 2 ^ 24 ∨ Refused bs n := by
  constructor
  · rintro ⟨null | ⟨b, cs, _, handed⟩, uses⟩
    · exact Or.inr ((refused_iff bounded heap word).mp ⟨by rw [null], uses⟩)
    · left
      by_contra low
      have high := handed.bound bounded
      exact mallocUses_outside (by omega) (by omega) uses
  · rintro (small | refused)
    · exact ⟨mallocEx_spec bounded heap small, mallocUses_ok bounded heap small⟩
    · obtain ⟨null, uses⟩ := (refused_iff bounded heap word).mpr refused
      exact ⟨Or.inl ((mallocEx_null n pool m).2 null), uses⟩

theorem memset_outside {dst count a : Nat} (v : BitVec 8) (whole : dst % 4 = 0)
    (outside : a < dst ∨ dst + count ≤ a) : memset dst v count m a = m a := by
  apply Bytes.fill_other
  unfold Bytes.Off
  omega

theorem Handed.clear (aligned : pool % 4 = 0) (heap : HeapAt pool e m bs L) {w : Mem} {b : Nat}
    {cs : List Blk} (handed : Handed pool e m w bs n b cs) :
    Handed pool e m (memset (buffer b) 0#8 n w) bs n b cs ∧
      ∀ i < n, Bytes.byteAt (memset (buffer b) 0#8 n w) (buffer b + i) = 0#8 := by
  have whole : buffer b % 4 = 0 := by
    obtain ⟨⟨_, _, _, r, _, _, after, _⟩, K, now⟩ := handed
    exact now.buffer_whole aligned (x := ⟨b, r, false⟩) (by simp [after])
  refine ⟨handed.scribble heap fun a outside => memset_outside _ whole outside, ?_⟩
  intro i inside
  rw [memset, Bytes.byteAt_fill, if_pos (by omega)]

theorem callocEx_null {nelem elemSize : Nat} (positive : ¬ (nelem = 0 ∨ elemSize = 0))
    (null : (mallocEx (nelem * elemSize % 2 ^ 32) pool m).1 = 0) : callocEx nelem elemSize pool m = (0, m) := by
  rw [callocEx, if_neg positive]
  simp only [null, ↓reduceIte]
  exact (mallocEx_null _ pool m).2 null

theorem callocEx_found {nelem elemSize : Nat} (positive : ¬ (nelem = 0 ∨ elemSize = 0))
    (found : (mallocEx (nelem * elemSize % 2 ^ 32) pool m).1 ≠ 0) :
    callocEx nelem elemSize pool m = ((mallocEx (nelem * elemSize % 2 ^ 32) pool m).1,
      memset (mallocEx (nelem * elemSize % 2 ^ 32) pool m).1 0#8 (nelem * elemSize % 2 ^ 32)
        (mallocEx (nelem * elemSize % 2 ^ 32) pool m).2) := by
  rw [callocEx, if_neg positive]
  simp only [found, ↓reduceIte]

theorem callocRight_null_iff (bounded : Bounded pool e) (heap : HeapAt pool e m bs L) {nelem elemSize : Nat}
    (positive : ¬ (nelem = 0 ∨ elemSize = 0)) (null : (mallocEx (nelem * elemSize % 2 ^ 32) pool m).1 = 0) :
    CallocRight pool e m bs nelem elemSize ↔
      nelem * elemSize ≤ 2 ^ 30 - 2 ^ 24 ∨ Refused bs (nelem * elemSize % 2 ^ 32) := by
  have word : nelem * elemSize % 2 ^ 32 < 2 ^ 32 := Nat.mod_lt _ (by omega)
  have uses : callocUses nelem elemSize pool m = mallocUses (nelem * elemSize % 2 ^ 32) pool m :=
    if_neg positive
  constructor
  · rintro ⟨_, inRange⟩
    rw [uses] at inRange
    exact Or.inr ((refused_iff bounded heap word).mp ⟨null, inRange⟩)
  · intro condition
    refine ⟨Or.inl (callocEx_null positive null), ?_⟩
    rw [uses]
    rcases condition with small | refused
    · exact mallocUses_ok bounded heap (by omega)
    · exact ((refused_iff bounded heap word).mpr refused).2

theorem callocRight_found_iff (bounded : Bounded pool e) (aligned : pool % 4 = 0) (heap : HeapAt pool e m bs L)
    {nelem elemSize : Nat} (positive : ¬ (nelem = 0 ∨ elemSize = 0))
    (found : (mallocEx (nelem * elemSize % 2 ^ 32) pool m).1 ≠ 0) :
    CallocRight pool e m bs nelem elemSize ↔ nelem * elemSize ≤ 2 ^ 30 - 2 ^ 24 := by
  have uses : callocUses nelem elemSize pool m = mallocUses (nelem * elemSize % 2 ^ 32) pool m :=
    if_neg positive
  have shape := callocEx_found positive found
  constructor
  · rintro ⟨failed | ⟨b, cs, _, handed, _⟩, inRange⟩
    · rw [shape] at failed
      exact absurd (congrArg Prod.fst failed) found
    · have high := handed.bound bounded
      have product : nelem * elemSize % 2 ^ 32 = nelem * elemSize := Nat.mod_eq_of_lt (by omega)
      rw [uses, product] at inRange
      by_contra low
      exact mallocUses_outside (by omega) (by omega) inRange
  · intro small
    have product : nelem * elemSize % 2 ^ 32 = nelem * elemSize := Nat.mod_eq_of_lt (by omega)
    rw [product] at shape uses found
    rcases mallocEx_spec bounded heap small with failed | ⟨b, cs, result, handed⟩
    · exact absurd (congrArg Prod.fst failed) found
    · obtain ⟨cleared, zeros⟩ := handed.clear aligned heap
      rw [← result] at cleared zeros
      refine ⟨Or.inr ⟨b, cs, ?_, ?_, ?_⟩, ?_⟩
      · rw [shape, result]
      · rw [shape]
        exact cleared
      · rw [shape, ← result]
        exact zeros
      · rw [uses]
        exact mallocUses_ok bounded heap small

theorem callocRight_iff (bounded : Bounded pool e) (aligned : pool % 4 = 0) (heap : HeapAt pool e m bs L)
    (nelem elemSize : Nat) :
    CallocRight pool e m bs nelem elemSize ↔ nelem = 0 ∨ elemSize = 0 ∨
      nelem * elemSize ≤ 2 ^ 30 - 2 ^ 24 ∨ Refused bs (nelem * elemSize % 2 ^ 32) := by
  have word : nelem * elemSize % 2 ^ 32 < 2 ^ 32 := Nat.mod_lt _ (by omega)
  rw [← or_assoc]
  by_cases none : nelem = 0 ∨ elemSize = 0
  · have null : callocEx nelem elemSize pool m = (0, m) := if_pos none
    have uses : callocUses nelem elemSize pool m = [] := if_pos none
    refine iff_of_true ⟨Or.inl null, ?_⟩ (Or.inl none)
    rw [uses]
    exact inRange_nil
  · rw [or_iff_right none]
    by_cases null : (mallocEx (nelem * elemSize % 2 ^ 32) pool m).1 = 0
    · exact callocRight_null_iff bounded heap none null
    · have found : ¬ Refused bs (nelem * elemSize % 2 ^ 32) :=
        fun refused => null ((refused_iff bounded heap word).mpr refused).1
      rw [or_iff_left found]
      exact callocRight_found_iff bounded aligned heap none null

/-- A request is answered rightly when the bytes it stands for are within the largest
    class, and otherwise only when it happens to be refused. -/
theorem requests_right_iff {pool e : Nat} {m : Mem} {bs : List Blk} {L : Lists} (bounded : Bounded pool e)
    (aligned : pool % 4 = 0) (heap : HeapAt pool e m bs L) {size : Nat} (word : size < 2 ^ 32)
    (nelem elemSize : Nat) :
    (MallocRight pool e m bs size ↔ size ≤ 2 ^ 30 - 2 ^ 24 ∨ Refused bs size) ∧
      (CallocRight pool e m bs nelem elemSize ↔ nelem = 0 ∨ elemSize = 0 ∨
        nelem * elemSize ≤ 2 ^ 30 - 2 ^ 24 ∨ Refused bs (nelem * elemSize % 2 ^ 32)) :=
  ⟨mallocRight_iff bounded heap word, callocRight_iff bounded aligned heap nelem elemSize⟩

end

theorem requests_right_iff_small : let m := readyPool 4176 4096 fun _ => 0#32
    MallocRight 4096 (sentinel 4096 4176) m [⟨firstBlock 4096, poolBytes 4176, true⟩] 100 ∧
      CallocRight 4096 (sentinel 4096 4176) m [⟨firstBlock 4096, poolBytes 4176, true⟩] 10 20 := by
  intro m
  obtain ⟨bounded, heap⟩ := smallPool_heap
  have word : 100 < 2 ^ 32 := by decide
  obtain ⟨malloc, calloc⟩ := requests_right_iff bounded (by decide) heap word 10 20
  exact ⟨malloc.mpr (Or.inl (by decide)), calloc.mpr (Or.inr (Or.inr (Or.inl (by decide))))⟩

/-- The same pool gives a block of no bytes for 0xFFFFFFFE and one of 12 for 65536
    times 65536. -/
theorem requests_wrap : let m := readyPool 4176 4096 fun _ => 0#32
    ((mallocEx 0xFFFFFFFE 4096 m).1 = 7276 ∧ blockSize (mallocEx 0xFFFFFFFE 4096 m).2 7268 = 0 ∧
      (callocEx 65536 65536 4096 m).1 = 7276 ∧ blockSize (callocEx 65536 65536 4096 m).2 7268 = 12) ∧
    ¬ MallocRight 4096 (sentinel 4096 4176) m [⟨firstBlock 4096, poolBytes 4176, true⟩] 0xFFFFFFFE ∧
    ¬ CallocRight 4096 (sentinel 4096 4176) m [⟨firstBlock 4096, poolBytes 4176, true⟩] 65536 65536 := by
  intro m
  have bounded := smallPool_heap.1
  have block : (mallocEx 0xFFFFFFFE 4096 m).1 ≠ 0 := by decide +kernel
  have product : (callocEx 65536 65536 4096 m).1 ≠ 0 := by decide +kernel
  refine ⟨by decide +kernel, ?_, ?_⟩
  · rintro ⟨null | ⟨b, cs, _, handed⟩, _⟩
    · exact block (congrArg Prod.fst null)
    · exact absurd (handed.bound bounded) (by decide)
  · rintro ⟨null | ⟨b, cs, _, handed, _⟩, _⟩
    · exact product (congrArg Prod.fst null)
    · exact absurd (handed.bound bounded) (by decide)

end L4ertl.Tlsf
