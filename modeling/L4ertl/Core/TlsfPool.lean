import L4ertl.Core.TlsfHeap

/-!
How a pool begins. init_memory_pool clears the memory, makes one free block of
what is behind the control structure, and closes it with the sentinel. It takes
any size from 128 bytes above the control structure on; the block is 8 bytes
smaller than that, and a block below 128 bytes has no cell in the matrix.
-/
namespace L4ertl.Tlsf

def poolBytes (size : Nat) : Nat := rounddownSize (size - sizeofTlsf - 2 * bhdrOverhead)

def sentinel (pool size : Nat) : Nat := firstBlock pool + 4 + poolBytes size

section
variable {pool size : Nat} {before : Mem}

theorem poolBytes_eq (high : size < 2 ^ 30 + 3184) : poolBytes size = (size - 3184) / 4 * 4 := by
  have less : size - sizeofTlsf - 2 * bhdrOverhead = size - 3184 := by
    simp only [sizeofTlsf_eq, bhdrOverhead]
    omega
  rw [poolBytes, less, rounddownSize_eq (by omega)]

theorem poolBytes_bounds (low : sizeofTlsf + 136 ≤ size) (high : size < 2 ^ 30 + 3184) :
    128 ≤ poolBytes size ∧ poolBytes size % 4 = 0 ∧ poolBytes size + 3184 ≤ size := by
  rw [sizeofTlsf_eq] at low
  rw [poolBytes_eq high]
  omega

theorem sentinel_bounded (low : sizeofTlsf + 136 ≤ size) (high : size < 2 ^ 30 + 3184)
    (space : pool + size ≤ 2 ^ 32) :
    Bounded pool (sentinel pool size) ∧ sentinel pool size + 8 ≤ pool + size := by
  have bytes := poolBytes_bounds low high
  simp only [sentinel, firstBlock_eq]
  refine ⟨⟨by omega, by rw [sizeofTlsf_eq]; omega⟩, by omega⟩

theorem mappingIndex_eq {r : Nat} (big : 128 ≤ r) (small : r < 2 ^ 32) :
    mappingIndex r = (((mappingInsert r).1 : Int), ((mappingInsert r).2 : Int)) := by
  have order : 7 ≤ r.log2 := (Nat.le_log2 (by omega)).mpr (by omega)
  have column := column_ge (r := r) (by omega)
  have width : ((r.log2 : Int) - (5 : Nat)).toNat = r.log2 - 5 := by omega
  rw [mappingInsert_eq big small]
  simp only [mappingIndex, fls_ofNat (by omega : r ≠ 0) small, fliOffset, maxLog2Sli, maxSli, width,
    Nat.shiftRight_eq_div_pow]
  apply Prod.ext
  · simp only
    omega
  · simp only
    omega

theorem insertBlockAt_eq (m : Mem) (b pool fl sl : Nat) :
    insertBlockAt m b pool fl sl = insertBlock m b pool fl sl := by
  have head : matrixAt pool fl sl = matrix pool fl sl := by
    simp only [matrixAt, matrix, maxSli]
    omega
  have row : slBitmapAt pool fl = slBitmap pool fl := by
    simp only [slBitmapAt, slBitmap]
    omega
  have positive : ∀ k : Nat, ¬ (k : Int) < 0 := by omega
  simp only [insertBlockAt, insertBlock, head, row, setBitInt, positive, ↓reduceIte, Int.toNat_natCast]

/-- The flag that `init_memory_pool` leaves in the size does not change the cell. -/
theorem mappingInsert_flag {r : Nat} (big : 128 ≤ r) (small : r < 2 ^ 30) (whole : r % 4 = 0) :
    mappingInsert (r + 1) = mappingInsert r := by
  have order : 7 ≤ r.log2 := (Nat.le_log2 (by omega)).mpr (by omega)
  have lower : 2 ^ r.log2 ≤ r := Nat.log2_self_le (by omega)
  have upper : r < 2 ^ (r.log2 + 1) := Nat.lt_log2_self
  have even : 2 ^ (r.log2 + 1) = 2 ^ r.log2 * 2 := Nat.pow_succ 2 _
  have same : (r + 1).log2 = r.log2 := (Nat.log2_eq_iff (by omega)).mpr ⟨by omega, by omega⟩
  have four : 2 ^ (r.log2 - 5) = 4 * 2 ^ (r.log2 - 7) := by
    rw [show (4 : Nat) = 2 ^ 2 by rfl, ← Nat.pow_add]
    congr 1
    omega
  have column : (r + 1) / 2 ^ (r.log2 - 5) = r / 2 ^ (r.log2 - 5) := by
    rw [four, ← Nat.div_div_eq_div_mul, ← Nat.div_div_eq_div_mul]
    congr 1
    omega
  rw [mappingInsert_eq (by omega) (by omega), mappingInsert_eq big (by omega), same, column]

theorem Cell.head_whole (c : Cell) (aligned : pool % 4 = 0) : c.head pool % 4 = 0 := by
  cases c with
  | small fl =>
    simp only [Cell.head, sbArray]
    omega
  | large fl sl =>
    simp only [Cell.head, matrix]
    omega

theorem Bitmap.whole {a : Nat} (bitmap : Bitmap pool a) (aligned : pool % 4 = 0) : a % 4 = 0 := by
  rcases bitmap with rfl | rfl | ⟨fl, _, rfl⟩
  · simp only [sbBitmap]
    omega
  · simp only [flBitmap]
    omega
  · simp only [slBitmap]
    omega

theorem indexed_empty {m : Mem} (aligned : pool % 4 = 0)
    (clear : ∀ a, a % 4 = 0 → pool + 4 ≤ a → a < pool + sizeofTlsf → m a = 0#32) :
    Indexed pool m (fun _ => []) := by
  have zero : ∀ a, Bitmap pool a → m a = 0#32 := by
    intro a bitmap
    have low := bitmap.low
    apply clear a (bitmap.whole aligned) _ (by omega)
    rcases bitmap with rfl | rfl | ⟨fl, _, rfl⟩
    · simp only [sbBitmap]
      omega
    · simp only [flBitmap]
      omega
    · simp only [slBitmap]
      omega
  constructor
  · refine ⟨?_, by simp, by simp⟩
    intro c inside
    have bound := Cell.head_bounds inside pool
    rw [clear _ (c.head_whole aligned) (by omega) (by omega)]
    rfl
  · constructor
    · intro fl _
      rw [zero _ (Or.inl rfl), isbitset_zero]
      simp
    · intro fl sl row _
      rw [zero _ (Or.inr (Or.inr ⟨fl, row, rfl⟩)), isbitset_zero]
      simp
    · intro fl _
      rw [zero _ (Or.inr (Or.inl rfl)), isbitset_zero]
      simp

def startLists (pool size : Nat) : Lists :=
  Function.update (fun _ => []) (cellOf (poolBytes size)) [firstBlock pool]

def clearedPool (size pool : Nat) (before : Mem) : Mem :=
  clearFreePtr (store (store (memset pool 0#8 size before)
    pool tlsfSignature) (sizeField (firstBlock pool)) (hdrWord (poolBytes size) true false))
    (firstBlock pool)

theorem clearedPool_header : clearedPool size pool before (sizeField (firstBlock pool)) =
    hdrWord (poolBytes size) true false := by
  rw [clearedPool, clearFreePtr_header]

theorem clearedPool_indexed (before : Mem) (low : sizeofTlsf + 136 ≤ size) (aligned : pool % 4 = 0) :
    Indexed pool (clearedPool size pool before) (fun _ => []) := by
  apply indexed_empty aligned
  intro a whole after control
  rw [sizeofTlsf_eq] at low control
  rw [clearedPool, clearFreePtr_other, store_other, store_other]
  · exact Bytes.fill_inside before whole (by omega) (by omega)
  · omega
  · simp only [sizeField, firstBlock_eq]
    omega
  · simp only [freePrev, firstBlock_eq]
    omega
  · simp only [freeNext, firstBlock_eq]
    omega

def readyPool (size pool : Nat) (before : Mem) : Mem :=
  let cell := mappingInsert (poolBytes size)
  store (store (insertBlock (clearedPool size pool before) (firstBlock pool) pool cell.1 cell.2)
    (sentinel pool size) (ofPtr (firstBlock pool))) (sizeField (sentinel pool size)) prevFree

theorem clearedPool_insert (before : Mem) (low : sizeofTlsf + 136 ≤ size) (high : size < 2 ^ 30 + 3184)
    (space : pool + size ≤ 2 ^ 32) (aligned : pool % 4 = 0) :
    let cell := mappingInsert (poolBytes size)
    Indexed pool (insertBlock (clearedPool size pool before) (firstBlock pool) pool cell.1 cell.2)
        (startLists pool size) ∧
      Untouched pool (fun x => x = firstBlock pool) (clearedPool size pool before)
        (insertBlock (clearedPool size pool before) (firstBlock pool) pool cell.1 cell.2) := by
  have bytes := poolBytes_bounds low high
  have inside := cellOf_inside (s := poolBytes size) (by omega)
  have cell : cellOf (poolBytes size) =
      .large (mappingInsert (poolBytes size)).1 (mappingInsert (poolBytes size)).2 := by
    rw [cellOf, if_neg (by simp only [smallBlock]; omega)]
  rw [cell] at inside
  have spread : Spread pool (fun x => x = firstBlock pool) := by
    constructor
    · rintro x rfl
      rw [firstBlock_eq, sizeofTlsf_eq]
    · rintro x rfl
      rw [firstBlock_eq]
      omega
    · rintro x y rfl rfl
      exact Or.inl rfl
  have inserted := insertBlock_indexed spread (L := fun _ => []) (by simp) (clearedPool_indexed before low aligned)
    (b := firstBlock pool) rfl (by simp) inside.1 inside.2
  rw [startLists, cell]
  exact inserted

theorem inserted_header (before : Mem) (low : sizeofTlsf + 136 ≤ size) (high : size < 2 ^ 30 + 3184)
    (space : pool + size ≤ 2 ^ 32) (aligned : pool % 4 = 0) :
    insertBlock (clearedPool size pool before) (firstBlock pool) pool
      (mappingInsert (poolBytes size)).1 (mappingInsert (poolBytes size)).2 (sizeField (firstBlock pool)) =
      hdrWord (poolBytes size) true false := by
  obtain ⟨_, untouched⟩ := clearedPool_insert before low high space aligned
  rw [untouched, clearedPool_header]
  · simp only [sizeField, firstBlock_eq, sizeofTlsf_eq]
    omega
  · rintro x rfl
    simp only [sizeField, freePrev, freeNext]
    omega

theorem readyPool_heap (before : Mem) (low : sizeofTlsf + 136 ≤ size) (high : size < 2 ^ 30 + 3184)
    (space : pool + size ≤ 2 ^ 32) (aligned : pool % 4 = 0) :
    HeapAt pool (sentinel pool size) (readyPool size pool before)
      [⟨firstBlock pool, poolBytes size, true⟩] (startLists pool size) := by
  have bytes := poolBytes_bounds low high
  obtain ⟨indexed, _⟩ := clearedPool_insert before low high space aligned
  have header := inserted_header before low high space aligned
  have off : ∀ a, sentinel pool size ≤ a → ∀ c, ∀ y ∈ startLists pool size c,
      a ≠ freePrev y ∧ a ≠ freeNext y := by
    intro a behind c y member
    have only : y = firstBlock pool := by
      by_cases here : c = cellOf (poolBytes size)
      · simpa [startLists, here] using member
      · simp [startLists, Function.update_of_ne here] at member
    simp only [sentinel] at behind
    simp only [only, freePrev, freeNext]
    omega
  constructor
  · refine ⟨rfl, ⟨bytes.2.1, by simp only [minBlockSize]; omega⟩, (fun used => by cases used),
      ⟨?_, fun q is => by cases is⟩, rfl, ⟨?_, ?_⟩⟩
    · rw [readyPool, store_other _ _ (by simp only [sizeField, sentinel]; omega),
        store_other _ _ (by simp only [sizeField, sentinel]; omega), header]
      rfl
    · simp only [readyPool, Blk.next]
      exact store_same _ _ _
    · intro q is
      cases is
      simp only [readyPool, Blk.next]
      rw [store_other _ _ (by simp only [sizeField, sentinel]; omega)]
      exact store_same _ _ _
  · apply Indexed.store_off
    · apply indexed.store_off
      · simp only [sentinel, firstBlock_eq, sizeofTlsf_eq]
        omega
      · exact off _ (Nat.le_refl _)
    · simp only [sizeField, sentinel, firstBlock_eq, sizeofTlsf_eq]
      omega
    · exact off _ (by simp only [sizeField]; omega)
  · intro c x
    by_cases here : c = cellOf (poolBytes size)
    · subst here
      simp [startLists]
    · simp only [startLists, Function.update_of_ne here, List.not_mem_nil, false_iff, List.mem_singleton]
      rintro ⟨t, is, cell⟩
      cases is
      exact here cell.symm

theorem smallPool_heap : Bounded 4096 (sentinel 4096 4176) ∧
    HeapAt 4096 (sentinel 4096 4176) (readyPool 4176 4096 fun _ => 0#32)
      [⟨firstBlock 4096, poolBytes 4176, true⟩] (startLists 4096 4176) :=
  ⟨(sentinel_bounded (by decide) (by decide) (by decide)).1,
    readyPool_heap _ (by decide) (by decide) (by decide) (by decide)⟩

theorem initMemoryPool_eq (low : sizeofTlsf + 136 ≤ size) (high : size < 2 ^ 30 + 3184)
    (space : pool + size ≤ 2 ^ 32) (nonnull : pool ≠ 0) (aligned : pool % 4 = 0) :
    initMemoryPool size pool before = ((poolBytes size : Int), readyPool size pool before) := by
  have bytes := poolBytes_bounds low high
  have first : getNextBlock pool sizeofTlsf = firstBlock pool := rfl
  have whole : rounddownSize (size - sizeofTlsf - 2 * bhdrOverhead) = poolBytes size := rfl
  have word : ofPtr (poolBytes size) ||| freeBlock = hdrWord (poolBytes size) true false :=
    hdrWord_or_flags bytes.2.1 true false
  have cleared : clearFreePtr (store (store (memset pool 0#8 size before)
      pool tlsfSignature) (sizeField (firstBlock pool)) (hdrWord (poolBytes size) true false))
      (firstBlock pool) = clearedPool size pool before := rfl
  have value : (hdrWord (poolBytes size) true false).toNat = poolBytes size + 1 := by
    simp only [hdrWord, Bool.toNat_true, Bool.toNat_false, BitVec.toNat_ofNat]
    omega
  have valid : ¬ (pool = 0 ∨ size = 0 ∨ size < sizeofTlsf + 128) := by
    rw [sizeofTlsf_eq] at *
    omega
  have fits : ¬ poolBytes size + 1 > 2 ^ maxFli := by
    simp only [maxFli]
    omega
  have header := inserted_header before low high space aligned
  have inner := blockSize_header header bytes.2.1 (by omega)
  have last : getNextBlock (buffer (firstBlock pool)) (poolBytes size) = sentinel pool size := by
    rw [getNextBlock_eq, sentinel]
  have ready : store (store (insertBlock (clearedPool size pool before) (firstBlock pool) pool
      (mappingInsert (poolBytes size)).1 (mappingInsert (poolBytes size)).2) (sentinel pool size)
      (ofPtr (firstBlock pool))) (sizeField (sentinel pool size)) prevFree = readyPool size pool before := rfl
  have outer : blockSize (readyPool size pool before) (firstBlock pool) = poolBytes size :=
    blockSize_header (readyPool_heap _ low high space aligned).tiled.2.2.2.1.header bytes.2.1 (by omega)
  simp only [initMemoryPool, valid, aligned, ne_eq, not_true_eq_false, ↓reduceIte, first, whole, word,
    cleared, clearedPool_header, value, fits, mappingIndex_eq (by omega : 128 ≤ poolBytes size + 1)
      (by omega), insertBlockAt_eq, mappingInsert_flag bytes.1 (by omega) bytes.2.1, inner, last, ready, outer]

theorem initMemoryPool_accepted (accepted : (initMemoryPool size pool before).1 ≠ -1) :
    pool ≠ 0 ∧ pool % 4 = 0 := by
  by_cases valid : pool = 0 ∨ size = 0 ∨ size < sizeofTlsf + 128
  · simp [initMemoryPool, valid] at accepted
  · by_cases aligned : pool % 4 = 0
    · exact ⟨fun zero => valid (Or.inl zero), aligned⟩
    · simp [initMemoryPool, valid, aligned] at accepted

def initHeader (size : Nat) : Word := ofPtr (poolBytes size) ||| freeBlock

/-- The words that init_memory_pool stores to after memset, in its order. -/
def initStores (size pool : Nat) (before : Mem) : List Nat :=
  let b := firstBlock pool
  let m := clearFreePtr (store (store (memset pool 0#8 size before) pool tlsfSignature)
    (sizeField b) (initHeader size)) b
  let cell := mappingIndex (m (sizeField b)).toNat
  let head := matrixAt pool cell.1 cell.2
  let linked := store (store m (freePrev b) 0#32) (freeNext b) (m head)
  let m' := insertBlockAt m b pool cell.1 cell.2
  let lb := getNextBlock (buffer b) (blockSize m' b)
  [pool, sizeField b, freePrev b, freeNext b] ++
    if (m (sizeField b)).toNat > 2 ^ maxFli then []
    else (if linked head ≠ 0#32 then [freePrev (linked head).toNat] else []) ++
      [head, slBitmapAt pool cell.1, flBitmap pool, lb, sizeField lb]

theorem insertFront_other {m : Mem} {head b a : Nat} (prev : a ≠ freePrev b) (next : a ≠ freeNext b)
    (first : a ≠ head)
    (old : store (store m (freePrev b) 0#32) (freeNext b) (m head) head ≠ 0#32 →
      a ≠ freePrev (store (store m (freePrev b) 0#32) (freeNext b) (m head) head).toNat) :
    insertFront m head b a = m a := by
  simp only [insertFront]
  rw [store_other _ _ first]
  split
  · rename_i some
    rw [store_other _ _ (old some), store_other _ _ next, store_other _ _ prev]
  · rw [store_other _ _ next, store_other _ _ prev]

theorem setBitInt_other (m : Mem) {a x : Nat} (nr : Int) (apart : x ≠ a) : setBitInt m a nr x = m x := by
  unfold setBitInt
  split
  · rfl
  · exact store_other _ _ apart

theorem initMemoryPool_stores (nonnull : pool ≠ 0) (aligned : pool % 4 = 0) (least : sizeofTlsf + 128 ≤ size)
    {a : Nat} (off : a ∉ initStores size pool before) :
    (initMemoryPool size pool before).2 a = memset pool 0#8 size before a := by
  have valid : ¬ (pool = 0 ∨ size = 0 ∨ size < sizeofTlsf + 128) := by omega
  have first : getNextBlock pool sizeofTlsf = firstBlock pool := rfl
  have header : ofPtr (rounddownSize (size - sizeofTlsf - 2 * bhdrOverhead)) ||| freeBlock =
      initHeader size := rfl
  simp only [initMemoryPool, valid, aligned, ne_eq, not_true_eq_false, ↓reduceIte, first, header]
  simp only [initStores, List.mem_append, List.mem_cons, List.not_mem_nil, or_false, not_or] at off
  generalize cleared : clearFreePtr (store (store (memset pool 0#8 size before) pool tlsfSignature)
    (sizeField (firstBlock pool)) (initHeader size)) (firstBlock pool) = m at off
  obtain ⟨⟨offPool, offSize, offPrev, offNext⟩, offRest⟩ := off
  have start : m a = memset pool 0#8 size before a := by
    rw [← cleared, clearFreePtr_other _ offPrev offNext, store_other _ _ offSize, store_other _ _ offPool]
  split
  · exact start
  · rename_i fits
    rw [if_neg fits] at offRest
    simp only [List.mem_append, List.mem_cons, List.not_mem_nil, or_false, not_or] at offRest
    obtain ⟨offOld, offHead, offRow, offBitmap, offLast, offSentinel⟩ := offRest
    dsimp only
    rw [store_other _ _ offSentinel, store_other _ _ offLast, insertBlockAt,
      setBitInt_other _ _ offBitmap, setBitInt_other _ _ offRow, insertFront_other offPrev offNext offHead]
    · exact start
    · intro some
      rw [if_pos some] at offOld
      simpa using offOld

/-- A call that is not refused makes a pool: the cell of its first block is one of
    the matrix, nothing outside the pool is written, and the heap is that block. -/
structure PoolRight (size pool : Nat) (before : Mem) : Prop where
  row : 0 ≤ (mappingIndex (initHeader size).toNat).1 ∧ (mappingIndex (initHeader size).toNat).1 < realFli
  column : 0 ≤ (mappingIndex (initHeader size).toNat).2 ∧ (mappingIndex (initHeader size).toNat).2 < maxSli
  stores : ∀ a ∈ initStores size pool before, pool ≤ a ∧ a + 4 ≤ pool + size
  outside : ∀ x, x < pool ∨ pool + size ≤ x →
    Bytes.byteAt (initMemoryPool size pool before).2 x = Bytes.byteAt before x
  heap : ∃ r : Nat, (initMemoryPool size pool before).1 = r ∧ Bounded pool (sentinel pool size) ∧
    ∃ L, HeapAt pool (sentinel pool size) (initMemoryPool size pool before).2 [⟨firstBlock pool, r, true⟩] L

/-- A call that is refused for its size or its alignment leaves the memory alone. -/
structure InitRight (size pool : Nat) (before : Mem) : Prop where
  accepted : pool % 4 = 0 → (initMemoryPool size pool before).1 ≠ -1 → PoolRight size pool before
  refused : pool = 0 ∨ size < sizeofTlsf + 128 ∨ pool % 4 ≠ 0 →
    initMemoryPool size pool before = (-1, before)

theorem initHeader_eq (low : sizeofTlsf + 136 ≤ size) (high : size < 2 ^ 30 + 3184) :
    initHeader size = hdrWord (poolBytes size) true false ∧ (initHeader size).toNat = poolBytes size + 1 := by
  have bytes := poolBytes_bounds low high
  have word : initHeader size = hdrWord (poolBytes size) true false := hdrWord_or_flags bytes.2.1 true false
  refine ⟨word, ?_⟩
  rw [word]
  simp only [hdrWord, Bool.toNat_true, Bool.toNat_false, BitVec.toNat_ofNat]
  omega

theorem initIndex_eq (low : sizeofTlsf + 136 ≤ size) (high : size < 2 ^ 30 + 3184) :
    mappingIndex (initHeader size).toNat =
      (((mappingInsert (poolBytes size)).1 : Int), ((mappingInsert (poolBytes size)).2 : Int)) := by
  have bytes := poolBytes_bounds low high
  rw [(initHeader_eq low high).2, mappingIndex_eq (by omega) (by omega),
    mappingInsert_flag bytes.1 (by omega) bytes.2.1]

theorem initCell_inside (low : sizeofTlsf + 136 ≤ size) (high : size < 2 ^ 30 + 3184) :
    (mappingInsert (poolBytes size)).1 < realFli ∧ (mappingInsert (poolBytes size)).2 < maxSli := by
  have bytes := poolBytes_bounds low high
  have inside := cellOf_inside (s := poolBytes size) (by omega)
  have large : ¬ poolBytes size < smallBlock := by
    simp only [smallBlock]
    omega
  rw [cellOf, if_neg large] at inside
  exact inside

theorem initStores_eq (before : Mem) (low : sizeofTlsf + 136 ≤ size) (high : size < 2 ^ 30 + 3184)
    (space : pool + size ≤ 2 ^ 32) (aligned : pool % 4 = 0) :
    initStores size pool before =
      [pool, sizeField (firstBlock pool), freePrev (firstBlock pool), freeNext (firstBlock pool),
        matrix pool (mappingInsert (poolBytes size)).1 (mappingInsert (poolBytes size)).2,
        slBitmap pool (mappingInsert (poolBytes size)).1, flBitmap pool, sentinel pool size,
        sizeField (sentinel pool size)] := by
  have bytes := poolBytes_bounds low high
  have inside := initCell_inside low high
  have head : ∀ fl sl : Nat, matrixAt pool fl sl = matrix pool fl sl := by
    intro fl sl
    simp only [matrixAt, matrix, maxSli]
    omega
  have row : ∀ fl : Nat, slBitmapAt pool fl = slBitmap pool fl := by
    intro fl
    simp only [slBitmapAt, slBitmap]
    omega
  have cleared : clearFreePtr (store (store (memset pool 0#8 size before) pool tlsfSignature)
      (sizeField (firstBlock pool)) (initHeader size)) (firstBlock pool) = clearedPool size pool before := by
    rw [(initHeader_eq low high).1]
    rfl
  have bound := Cell.head_bounds (c := .large _ _) inside pool
  simp only [Cell.head] at bound
  have none : (store (store (clearedPool size pool before) (freePrev (firstBlock pool)) 0#32)
      (freeNext (firstBlock pool)) (clearedPool size pool before
        (matrix pool (mappingInsert (poolBytes size)).1 (mappingInsert (poolBytes size)).2)))
      (matrix pool (mappingInsert (poolBytes size)).1 (mappingInsert (poolBytes size)).2) = 0#32 := by
    have indexed := clearedPool_indexed before low aligned
    have empty := Intrusive.segment_head (indexed.listed.chain (.large _ _) inside)
    rw [store_other, store_other]
    · exact ptrOf_eq_none.mp empty
    · simp only [freePrev, firstBlock_eq]
      rw [sizeofTlsf_eq] at bound
      omega
    · simp only [freeNext, firstBlock_eq]
      rw [sizeofTlsf_eq] at bound
      omega
  have fits : ¬ poolBytes size + 1 > 2 ^ maxFli := by
    simp only [maxFli]
    omega
  have inner := blockSize_header (inserted_header before low high space aligned) bytes.2.1 (by omega)
  have last : getNextBlock (buffer (firstBlock pool)) (poolBytes size) = sentinel pool size := by
    rw [getNextBlock_eq, sentinel]
  have index := initIndex_eq low high
  have value := (initHeader_eq low high).2
  rw [value] at index
  rw [(initHeader_eq low high).1] at value
  simp only [initStores, cleared, clearedPool_header, index, value, fits, head, row, none, insertBlockAt_eq,
    inner, last, ne_eq, not_true_eq_false, ↓reduceIte, List.nil_append, List.cons_append]

theorem initMemoryPool_right (nonnull : pool ≠ 0) (aligned : pool % 4 = 0) (low : sizeofTlsf + 136 ≤ size)
    (high : size < 2 ^ 30 + 3184) (space : pool + size ≤ 2 ^ 32) : PoolRight size pool before := by
  have bytes := poolBytes_bounds low high
  have inside := initCell_inside low high
  have index := initIndex_eq low high
  have bound := Cell.head_bounds (c := .large _ _) inside pool
  have top := sentinel_bounded low high space
  simp only [Cell.head, sizeofTlsf_eq] at bound
  have stores : ∀ a ∈ initStores size pool before, a % 4 = 0 ∧ pool ≤ a ∧ a + 4 ≤ pool + size := by
    rw [initStores_eq before low high space aligned]
    have end_ := top.2
    simp only [realFli, maxFli, fliOffset, maxSli] at inside
    simp only [sentinel, firstBlock_eq, sizeofTlsf_eq] at end_ low ⊢
    simp only [List.mem_cons, List.not_mem_nil, or_false, sizeField, freePrev, freeNext, slBitmap,
      flBitmap, matrix, realFli, maxFli, fliOffset, maxSli]
    intro a is
    omega
  constructor
  · rw [index]
    simp only
    omega
  · rw [index]
    simp only
    omega
  · intro a member
    exact (stores a member).2
  · intro x away
    have off : x / 4 * 4 ∉ initStores size pool before := by
      intro member
      have within := stores _ member
      omega
    have least : sizeofTlsf + 128 ≤ size := by omega
    have same := initMemoryPool_stores nonnull aligned least off
    have filled := Bytes.byteAt_fill pool 0#8 size before x
    rw [if_neg (by omega)] at filled
    rw [← filled]
    exact Bytes.byteAt_congr same
  · refine ⟨poolBytes size, ?_, top.1, startLists pool size, ?_⟩
    · rw [initMemoryPool_eq low high space nonnull aligned]
    · rw [initMemoryPool_eq low high space nonnull aligned]
      exact readyPool_heap before low high space aligned

theorem initMemoryPool_answers (nonnull : pool ≠ 0) (aligned : pool % 4 = 0)
    (least : sizeofTlsf + 128 ≤ size) (fits : (initHeader size).toNat ≤ 2 ^ maxFli) :
    (initMemoryPool size pool before).1 ≠ -1 := by
  have valid : ¬ (pool = 0 ∨ size = 0 ∨ size < sizeofTlsf + 128) := by omega
  have header : ofPtr (rounddownSize (size - sizeofTlsf - 2 * bhdrOverhead)) ||| freeBlock =
      initHeader size := rfl
  have small : ¬ (initHeader size).toNat > 2 ^ maxFli := by omega
  simp only [initMemoryPool, valid, aligned, ne_eq, not_true_eq_false, ↓reduceIte, header, clearFreePtr_header,
    small]
  omega

theorem initMemoryPool_large (before : Mem) (nonnull : pool ≠ 0) (aligned : pool % 4 = 0)
    (large : 2 ^ 30 + 3184 ≤ size) (space : pool + size ≤ 2 ^ 32) :
    (initMemoryPool size pool before).1 = -1 := by
  have valid : ¬ (pool = 0 ∨ size = 0 ∨ size < sizeofTlsf + 128) := by
    rw [sizeofTlsf_eq]
    omega
  have less : size - sizeofTlsf - 2 * bhdrOverhead = size - 3184 := by
    simp only [sizeofTlsf_eq, bhdrOverhead]
    omega
  have rounded : rounddownSize (size - sizeofTlsf - 2 * bhdrOverhead) = (size - 3184) / 4 * 4 := by
    rw [less, rounddownSize_eq (by omega)]
  have whole : (size - 3184) / 4 * 4 % 4 = 0 := Nat.mul_mod_left _ 4
  have word : ofPtr ((size - 3184) / 4 * 4) ||| freeBlock = hdrWord ((size - 3184) / 4 * 4) true false :=
    hdrWord_or_flags whole true false
  have value : (hdrWord ((size - 3184) / 4 * 4) true false).toNat = (size - 3184) / 4 * 4 + 1 := by
    simp only [hdrWord, Bool.toNat_true, Bool.toNat_false, BitVec.toNat_ofNat]
    omega
  have exceeds : (size - 3184) / 4 * 4 + 1 > 2 ^ maxFli := by
    simp only [maxFli]
    omega
  simp only [initMemoryPool, valid, aligned, ne_eq, not_true_eq_false, ↓reduceIte, rounded, word,
    clearFreePtr_header, value, exceeds]

/-- init_memory_pool does what it should unless the pool is one of the eight sizes
    that pass its test and leave less than 128 bytes for the first block. -/
theorem init_right_iff (size pool : Nat) (before : Mem) (space : pool + size ≤ 2 ^ 32) :
    InitRight size pool before ↔
      ¬ (pool ≠ 0 ∧ pool % 4 = 0 ∧ sizeofTlsf + 128 ≤ size ∧ size < sizeofTlsf + 136) := by
  constructor
  · rintro right ⟨nonnull, aligned, least, less⟩
    have bytes : poolBytes size = 120 ∨ poolBytes size = 124 := by
      rw [sizeofTlsf_eq] at least less
      rw [poolBytes_eq (by omega)]
      omega
    -- such a block belongs before the first row of the matrix
    have index : (initHeader size).toNat ≤ 2 ^ maxFli ∧ (mappingIndex (initHeader size).toNat).1 = -1 := by
      rcases bytes with is | is
      · rw [initHeader, is]
        decide
      · rw [initHeader, is]
        decide
    have row := (right.accepted aligned (initMemoryPool_answers nonnull aligned least index.1)).row
    rw [index.2] at row
    omega
  · intro other
    constructor
    · intro aligned accepted
      have nonnull := (initMemoryPool_accepted accepted).1
      by_cases least : sizeofTlsf + 128 ≤ size
      · have low : sizeofTlsf + 136 ≤ size := by omega
        by_cases high : size < 2 ^ 30 + 3184
        · exact initMemoryPool_right nonnull aligned low high space
        · exact absurd (initMemoryPool_large before nonnull aligned (by omega) space) accepted
      · have less : pool = 0 ∨ size = 0 ∨ size < sizeofTlsf + 128 := by omega
        simp [initMemoryPool, less] at accepted
    · intro refused
      by_cases less : pool = 0 ∨ size = 0 ∨ size < sizeofTlsf + 128
      · simp [initMemoryPool, less]
      · have unaligned : pool % 4 ≠ 0 := by omega
        simp [initMemoryPool, less, unaligned]

theorem init_right_iff_least : InitRight 3312 4096 fun _ => 0#32 :=
  (init_right_iff 3312 4096 (fun _ => 0#32) (by decide)).mpr (by decide)

/-- 3304 bytes are taken, with a block of 120 in row -1. -/
theorem init_before_matrix : (initMemoryPool 3304 4096 fun _ => 0#32).1 = 120 ∧
    mappingIndex (initHeader 3304).toNat = (-1, 28) ∧ matrixAt 4096 (-1) 28 = slBitmap 4096 19 ∧
    ¬ InitRight 3304 4096 fun _ => 0#32 := by
  have answer : (initMemoryPool 3304 4096 fun _ => 0#32).1 = 120 := by decide +kernel
  have index : mappingIndex (initHeader 3304).toNat = (-1, 28) := by decide +kernel
  refine ⟨answer, index, by decide, fun right => ?_⟩
  have row := (right.accepted (by decide) (by rw [answer]; decide)).row
  rw [index] at row
  omega

end
end L4ertl.Tlsf
