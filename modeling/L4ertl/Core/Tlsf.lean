import L4ertl.Core.Bitop
import L4ertl.Lib.Bytes

/-!
The two-level segregated fit allocator of tlsf.c on a memory of 32-bit words.
Every access of the allocator itself is to an aligned word, so a memory is a
function of the word's byte address; memset and memcpy go by bytes. The macros
of the source become functions from memory to memory; the fields of `tlsf_t` and
`bhdr_t` are address functions.
-/
namespace L4ertl.Tlsf

abbrev Mem := Nat → Word

/- The two functions of string.c. -/
def memset (dst : Nat) (s : BitVec 8) (count : Nat) (m : Mem) : Mem := Bytes.fill dst s count m
def memcpy (dst src count : Nat) (m : Mem) : Mem := Bytes.copy dst src count m

def store (m : Mem) (a : Nat) (v : Word) : Mem := Function.update m a v

abbrev ofPtr (a : Nat) : Word := BitVec.ofNat 32 a

def maxFli : Nat := 30
def maxLog2Sli : Nat := 5
def maxSli : Nat := 32
def fliOffset : Nat := 7
def smallBlock : Nat := 128
def realFli : Nat := maxFli - fliOffset
def minBlockSize : Nat := 12
def bhdrOverhead : Nat := 4
def tlsfSignature : Word := 0x2A59FA59#32

/-- `BLOCK_SIZE`, the mask of the size bits of a header word. -/
def blockMask : Word := 0xFFFFFFFC#32
def freeBlock : Word := 1#32
def prevFree : Word := 2#32

/- The fields of `tlsf_t`. -/
def sbBitmap (pool : Nat) : Nat := pool + 4
def sbArray (pool fl : Nat) : Nat := pool + 8 + 4 * fl
def flBitmap (pool : Nat) : Nat := pool + 136
def slBitmap (pool fl : Nat) : Nat := pool + 140 + 4 * fl
def matrix (pool fl sl : Nat) : Nat := pool + 140 + 4 * realFli + 4 * (maxSli * fl + sl)
def sizeofTlsf : Nat := 140 + 4 * realFli + 4 * (maxSli * realFli)

/- The fields of `bhdr_t`; `prev_hdr` is the header's first word. -/
def sizeField (b : Nat) : Nat := b + 4
def buffer (b : Nat) : Nat := b + 8
def freePrev (b : Nat) : Nat := b + 8
def freeNext (b : Nat) : Nat := b + 12

def getNextBlock (addr r : Nat) : Nat := addr + r - 4

def blockSize (m : Mem) (b : Nat) : Nat := (m (sizeField b) &&& blockMask).toNat

/-- The two roundings are those of 32-bit arithmetic. -/
def roundupSize (r : Nat) : Nat := ((BitVec.ofNat 32 r + 3#32) &&& blockMask).toNat
def rounddownSize (r : Nat) : Nat := (BitVec.ofNat 32 r &&& blockMask).toNat

def mappingSearch (r : Nat) : Nat × Nat × Nat :=
  let t := 2 ^ (fls (BitVec.ofNat 32 r) - maxLog2Sli).toNat - 1
  let grown := (r + t) % 2 ^ 32
  let fl := fls (BitVec.ofNat 32 grown)
  let sl := grown >>> (fl - maxLog2Sli).toNat - maxSli
  let rounded := (BitVec.ofNat 32 grown &&& ~~~ BitVec.ofNat 32 t).toNat
  if fl - fliOffset < 0 then (rounded, 0, 0) else (rounded, (fl - fliOffset).toNat, sl)

def mappingInsert (r : Nat) : Nat × Nat :=
  let fl := fls (BitVec.ofNat 32 r)
  ((fl - fliOffset).toNat, r >>> (fl - maxLog2Sli).toNat - maxSli)

/-- The same as the `int`s that the source computes, which init_memory_pool does
    not look at before it uses them. -/
def mappingIndex (r : Nat) : Int × Int :=
  let fl := fls (BitVec.ofNat 32 r)
  (fl - fliOffset, ((r >>> (fl - maxLog2Sli).toNat : Nat) : Int) - maxSli)

/- `matrix [fl][sl]` and `sl_bitmap [fl]`, whatever the indices. -/
def matrixAt (pool : Nat) (fl sl : Int) : Nat :=
  ((pool + 140 + 4 * realFli : Nat) + 4 * (maxSli * fl + sl)).toNat
def slBitmapAt (pool : Nat) (fl : Int) : Nat := ((pool + 140 : Nat) + 4 * fl).toNat

def fliSb (r : Nat) : Nat := r >>> 2

/-- `~0 << k` -/
def above (k : Nat) : Word := BitVec.allOnes 32 <<< k

/-- The block, 0 if there is none, and the cell that heads it. -/
def findSuitableBlock (m : Mem) (pool fl sl : Nat) : Nat × Nat × Nat :=
  let tmp := m (slBitmap pool fl) &&& above sl
  if tmp ≠ 0#32 then
    let sl := (ffs tmp).toNat
    ((m (matrix pool fl sl)).toNat, fl, sl)
  else
    let up := ffs (m (flBitmap pool) &&& above (fl + 1))
    if up > 0 then
      let fl := up.toNat
      let sl := (ffs (m (slBitmap pool fl))).toNat
      ((m (matrix pool fl sl)).toNat, fl, sl)
    else (0, up.toNat, sl)

def findSmallSuitableBlock (r : Nat) (m : Mem) (pool : Nat) : Nat × Nat :=
  if r ≥ smallBlock then (0, 0)
  else
    let fl := ffs (m (sbBitmap pool) &&& above (fliSb r))
    if fl > -1 then ((m (sbArray pool fl.toNat)).toNat, fl.toNat) else (0, fl.toNat)

/-- `b->ptr.free_ptr = {NULL, NULL}` -/
def clearFreePtr (m : Mem) (b : Nat) : Mem := store (store m (freePrev b) 0#32) (freeNext b) 0#32

def setBitAt (m : Mem) (a nr : Nat) : Mem := store m a (setbit (m a) nr)
def clearBitAt (m : Mem) (a nr : Nat) : Mem := store m a (clearbit (m a) nr)

/-- `1 << nr` is 0 for a negative `nr`: ARM shifts by the low byte of the count. -/
def setBitInt (m : Mem) (a : Nat) (nr : Int) : Mem := if nr < 0 then m else setBitAt m a nr.toNat

/-- The two macros that insert a block put it in front of the list at `head`. -/
def insertFront (m : Mem) (head b : Nat) : Mem :=
  let m := store (store m (freePrev b) 0#32) (freeNext b) (m head)
  let m := if m head ≠ 0#32 then store m (freePrev (m head).toNat) (ofPtr b) else m
  store m head (ofPtr b)

def unlinkBlock (m : Mem) (head b : Nat) : Mem :=
  let m := if m (freeNext b) ≠ 0#32 then
    store m (freePrev (m (freeNext b)).toNat) (m (freePrev b)) else m
  let m := if m (freePrev b) ≠ 0#32 then
    store m (freeNext (m (freePrev b)).toNat) (m (freeNext b)) else m
  if m head = ofPtr b then store m head (m (freeNext b)) else m

def extractBlockHdr (m : Mem) (b pool fl sl : Nat) : Mem :=
  let head := matrix pool fl sl
  let m := store m head (m (freeNext b))
  let m := if m head ≠ 0#32 then store m (freePrev (m head).toNat) 0#32
    else clearBitAt m (slBitmap pool fl) sl
  let m := clearFreePtr m b
  if m (slBitmap pool fl) = 0#32 then clearBitAt m (flBitmap pool) fl else m

def extractSmallBlockHdr (m : Mem) (b pool fl : Nat) : Mem :=
  let head := sbArray pool fl
  let m := store m head (m (freeNext b))
  if m head ≠ 0#32 then store m (freePrev (m head).toNat) 0#32
  else clearBitAt m (sbBitmap pool) fl

def extractBlock (m : Mem) (b pool fl sl : Nat) : Mem :=
  let head := matrix pool fl sl
  let m := unlinkBlock m head b
  let m := if m head = 0#32 then clearBitAt m (slBitmap pool fl) sl else m
  let m := if m (slBitmap pool fl) = 0#32 then clearBitAt m (flBitmap pool) fl else m
  clearFreePtr m b

def insertBlock (m : Mem) (b pool fl sl : Nat) : Mem :=
  let m := insertFront m (matrix pool fl sl) b
  let m := setBitAt m (slBitmap pool fl) sl
  setBitAt m (flBitmap pool) fl

def insertBlockAt (m : Mem) (b pool : Nat) (fl sl : Int) : Mem :=
  let m := insertFront m (matrixAt pool fl sl) b
  let m := setBitInt m (slBitmapAt pool fl) sl
  setBitInt m (flBitmap pool) fl

def extractSmallBlock (m : Mem) (b pool fl : Nat) : Mem :=
  let head := sbArray pool fl
  let m := unlinkBlock m head b
  let m := if m head = 0#32 then clearBitAt m (sbBitmap pool) fl else m
  clearFreePtr m b

def insertSmallBlock (m : Mem) (b pool fl : Nat) : Mem :=
  let m := insertFront m (sbArray pool fl) b
  setBitAt m (sbBitmap pool) fl

def initMemoryPool (memPoolSize memPool : Nat) (m : Mem) : Int × Mem :=
  if memPool = 0 ∨ memPoolSize = 0 ∨ memPoolSize < sizeofTlsf + 128 then (-1, m)
  else if memPool % 4 ≠ 0 then (-1, m)
  else
    let m := memset memPool 0#8 memPoolSize m
    let m := store m memPool tlsfSignature
    let b := getNextBlock memPool sizeofTlsf
    let m := store m (sizeField b)
      (ofPtr (rounddownSize (memPoolSize - sizeofTlsf - 2 * bhdrOverhead)) ||| freeBlock)
    let m := clearFreePtr m b
    if (m (sizeField b)).toNat > 2 ^ maxFli then (-1, m)
    else
      let cell := mappingIndex (m (sizeField b)).toNat
      let m := insertBlockAt m b memPool cell.1 cell.2
      let lb := getNextBlock (buffer b) (blockSize m b)
      let m := store m lb (ofPtr b)
      let m := store m (sizeField lb) prevFree
      (blockSize m b, m)

/-- From the label `found`: the block is cut when the rest can hold a block. -/
def mallocFound (m : Mem) (size b pool : Nat) : Nat × Mem :=
  let nextB := getNextBlock (buffer b) (blockSize m b)
  let tmpSize := ((m (sizeField b) &&& blockMask) - ofPtr size - 4#32).toInt
  let m := if tmpSize ≥ minBlockSize then
      let b2 := getNextBlock (buffer b) size
      let m := store m (sizeField b2) (BitVec.ofInt 32 tmpSize ||| freeBlock)
      let m := store m nextB (ofPtr b2)
      let m := if tmpSize < smallBlock then insertSmallBlock m b2 pool (fliSb (blockSize m b2))
        else
          let cell := mappingInsert tmpSize.toNat
          insertBlock m b2 pool cell.1 cell.2
      store m (sizeField b) (ofPtr size ||| (m (sizeField b) &&& prevFree))
    else store m (sizeField nextB) (m (sizeField nextB) &&& ~~~ prevFree)
  (buffer b, store m (sizeField b) (m (sizeField b) &&& ~~~ freeBlock))

def mallocEx (size pool : Nat) (m : Mem) : Nat × Mem :=
  let size := if size < minBlockSize then minBlockSize else roundupSize size
  let small := findSmallSuitableBlock size m pool
  if small.1 ≠ 0 then mallocFound (extractSmallBlockHdr m small.1 pool small.2) size small.1 pool
  else
    let search := if size < 32 then (size, 0, 0) else mappingSearch size
    let large := findSuitableBlock m pool search.2.1 search.2.2
    if large.1 = 0 then (0, m)
    else mallocFound (extractBlockHdr m large.1 pool large.2.1 large.2.2) search.1 large.1 pool

def extractFree (m : Mem) (b pool : Nat) : Mem :=
  if blockSize m b < smallBlock then extractSmallBlock m b pool (fliSb (blockSize m b))
  else
    let cell := mappingInsert (blockSize m b)
    extractBlock m b pool cell.1 cell.2

def insertFree (m : Mem) (b pool : Nat) : Mem :=
  if blockSize m b < smallBlock then insertSmallBlock m b pool (fliSb (blockSize m b))
  else
    let cell := mappingInsert (blockSize m b)
    insertBlock m b pool cell.1 cell.2

/-- `b->size += (other->size & BLOCK_SIZE) + BHDR_OVERHEAD` -/
def absorb (m : Mem) (b other : Nat) : Mem :=
  store m (sizeField b) (m (sizeField b) + ofPtr (blockSize m other + bhdrOverhead))

def mergeNext (m : Mem) (b pool : Nat) : Mem :=
  let tmpB := getNextBlock (buffer b) (blockSize m b)
  if m (sizeField tmpB) &&& freeBlock ≠ 0#32 then absorb (extractFree m tmpB pool) b tmpB else m

/-- The block the freed one ends up in, and the memory. -/
def mergePrev (m : Mem) (b pool : Nat) : Nat × Mem :=
  if m (sizeField b) &&& prevFree ≠ 0#32 then
    let tmpB := (m b).toNat
    (tmpB, absorb (extractFree m tmpB pool) tmpB b)
  else (b, m)

def freeEx (ptr pool : Nat) (m : Mem) : Mem :=
  let b := ptr - 8
  let m := store m (sizeField b) (m (sizeField b) ||| freeBlock)
  let m := clearFreePtr m b
  let m := mergeNext m b pool
  let merged := mergePrev m b pool
  let m := insertFree merged.2 merged.1 pool
  let tmpB := getNextBlock (buffer merged.1) (blockSize m merged.1)
  let m := store m (sizeField tmpB) (m (sizeField tmpB) ||| prevFree)
  store m tmpB (ofPtr merged.1)

/-- What realloc_ex copies and how much of it; the old block is read after the new
    one is taken. -/
def reallocCount (ptr newSize : Nat) (m : Mem) : Nat :=
  if blockSize m (ptr - 8) > newSize then newSize else blockSize m (ptr - 8)

def reallocEx (ptr newSize pool : Nat) (m : Mem) : Nat × Mem :=
  if ptr = 0 then
    if newSize ≠ 0 then mallocEx newSize pool m else (0, m)
  else if newSize = 0 then (0, freeEx ptr pool m)
  else
    let r := mallocEx newSize pool m
    (r.1, freeEx ptr pool (memcpy r.1 ptr (reallocCount ptr newSize r.2) r.2))

/-- The product is that of 32-bit arithmetic. -/
def callocEx (nelem elemSize pool : Nat) (m : Mem) : Nat × Mem :=
  if nelem = 0 ∨ elemSize = 0 then (0, m)
  else
    let bytes := nelem * elemSize % 2 ^ 32
    let r := mallocEx bytes pool m
    if r.1 = 0 then r else (r.1, memset r.1 0#8 bytes r.2)

end L4ertl.Tlsf
