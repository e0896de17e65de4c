import L4ertl.Core.TlsfRuns
import L4ertl.Core.TlsfSearch

/-!
Moving a block with realloc_ex. It takes a new block, copies and frees the old one,
and never looks at what malloc_ex said: with no block to be had it copies to NULL
and the old block is gone all the same.
-/
namespace L4ertl.Tlsf

section
variable {pool e : Nat} {m : Mem} {bs : List Blk} {L : Lists} {b old n : Nat}

/-- The old block's bytes are in a new one of at least `n`, the old one is part of a
    free block, and no other used block has changed. -/
structure Moved (pool e : Nat) (m w : Mem) (bs : List Blk) (b old n result : Nat) (cs : List Blk) : Prop where
  block : ∃ d r, result = buffer d ∧ n ≤ r ∧ ∀ x : Blk, x.free = false →
    (x ∈ cs ↔ x = ⟨d, r, false⟩ ∨ x ∈ bs ∧ x ≠ ⟨b, old, false⟩)
  bytes : ∀ i < min old n, Bytes.byteAt w (result + i) = Bytes.byteAt m (buffer b + i)
  freed : ∃ x ∈ cs, x.free = true ∧ x.addr ≤ b ∧ b + 4 + old ≤ x.next
  others : ∀ x ∈ bs, x.free = false → x ≠ ⟨b, old, false⟩ → ∀ a, buffer x.addr ≤ a →
    a < buffer x.addr + x.size → w a = m a
  heap : ∃ K, HeapAt pool e w cs K

structure Spared (pool e : Nat) (m w : Mem) (b old : Nat) (cs : List Blk) : Prop where
  still : (⟨b, old, false⟩ : Blk) ∈ cs
  kept : ∀ a, buffer b ≤ a → a < buffer b + old → w a = m a
  heap : ∃ K, HeapAt pool e w cs K

def reallocCopies (ptr newSize pool : Nat) (m : Mem) : Nat × Nat :=
  ((mallocEx newSize pool m).1, reallocCount ptr newSize (mallocEx newSize pool m).2)

structure ReallocRight (pool e : Nat) (m : Mem) (bs : List Blk) (b old n : Nat) : Prop where
  moved : (reallocEx (buffer b) n pool m).1 ≠ 0 → ∃ cs, Moved pool e m (reallocEx (buffer b) n pool m).2 bs
    b old n (reallocEx (buffer b) n pool m).1 cs
  spared : (reallocEx (buffer b) n pool m).1 = 0 →
    (∃ cs, Spared pool e m (reallocEx (buffer b) n pool m).2 b old cs) ∧
      ((reallocCopies (buffer b) n pool m).1 = 0 → (reallocCopies (buffer b) n pool m).2 = 0)

theorem mallocEx_found_iff (bounded : Bounded pool e) (heap : HeapAt pool e m bs L)
    (small : n ≤ 2 ^ 30 - 2 ^ 24) :
    (mallocEx n pool m).1 ≠ 0 ↔ ∃ x ∈ bs, x.free = true ∧ Suits (request n) x.size := by
  obtain ⟨r, is, whole, _, _, top⟩ := request_spec small
  have asked : request n = r := is
  have row : (searchStart (request n)).1 < realFli := by
    rw [asked]
    exact searchStart_row whole top
  rw [ne_eq, mallocEx_null_iff bounded heap row]
  push Not
  rfl

theorem HeapAt.used_size (bounded : Bounded pool e) (heap : HeapAt pool e m bs L)
    (member : (⟨b, old, false⟩ : Blk) ∈ bs) : blockSize m b = old := by
  obtain ⟨pre, post, shape⟩ := List.append_of_mem member
  subst shape
  obtain ⟨prev, gap, joint, _⟩ := heap.gap
  exact blockSize_header joint.header gap.fits.whole (gap.small bounded).1

theorem reallocCount_eq (bounded : Bounded pool e) (heap : HeapAt pool e m bs L)
    (member : (⟨b, old, false⟩ : Blk) ∈ bs) : reallocCount (buffer b) n m = min old n := by
  have back : buffer b - 8 = b := by
    simp only [buffer]
    omega
  rw [reallocCount, back, heap.used_size bounded member]
  split <;> omega

theorem reallocEx_eq (positive : 0 < n) :
    reallocEx (buffer b) n pool m = ((mallocEx n pool m).1,
      freeEx (buffer b) pool (memcpy (mallocEx n pool m).1 (buffer b)
        (reallocCount (buffer b) n (mallocEx n pool m).2) (mallocEx n pool m).2)) := by
  have pointer : ¬ buffer b = 0 := by
    simp only [buffer]
    omega
  rw [reallocEx, if_neg pointer, if_neg (by omega)]

theorem bytes_kept {w : Mem} {q s : Nat} (whole : q % 4 = 0) (kept : ∀ a, q ≤ a → a < q + s → w a = m a)
    {i : Nat} (inside : i < s) : Bytes.byteAt w (q + i) = Bytes.byteAt m (q + i) :=
  Bytes.byteAt_congr (kept _ (by omega) (by omega))

theorem HeapAt.other_iff (heap : HeapAt pool e m bs L) (member : (⟨b, old, false⟩ : Blk) ∈ bs) {x : Blk}
    (inside : x ∈ bs) : x.addr ≠ b ↔ x ≠ ⟨b, old, false⟩ := by
  constructor
  · intro other is
    exact other (by rw [is])
  · intro other is
    exact other (heap.same_addr inside member is)

theorem HeapAt.buffers_apart (heap : HeapAt pool e m bs L) {d r : Nat} (other : d ≠ b)
    (new : (⟨d, r, false⟩ : Blk) ∈ bs) (member : (⟨b, old, false⟩ : Blk) ∈ bs) :
    buffer d + r ≤ buffer b ∨ buffer b + old ≤ buffer d := by
  rcases heap.tiled.apart new member with same | before | after
  · cases same
    exact absurd rfl other
  · left
    simp only [Blk.next, buffer] at *
    omega
  · right
    simp only [Blk.next, buffer] at *
    omega

theorem reallocEx_moved (bounded : Bounded pool e) (aligned : pool % 4 = 0) (heap : HeapAt pool e m bs L)
    (member : (⟨b, old, false⟩ : Blk) ∈ bs) (positive : 0 < n) {d : Nat} {cs : List Blk}
    (result : (mallocEx n pool m).1 = buffer d) (handed : Handed pool e m (mallocEx n pool m).2 bs n d cs) :
    ∃ cs', Moved pool e m (reallocEx (buffer b) n pool m).2 bs b old n (buffer d) cs' := by
  obtain ⟨r, fits, used, elsewhere, kept⟩ := handed.used heap
  have taken := handed
  obtain ⟨_, K, heap₁⟩ := taken
  have there : (⟨b, old, false⟩ : Blk) ∈ cs := (used _ rfl).mpr (Or.inr member)
  have new : (⟨d, r, false⟩ : Blk) ∈ cs := (used _ rfl).mpr (Or.inl rfl)
  have wholeB := heap.buffer_whole aligned member
  have wholeD := heap₁.buffer_whole aligned new
  simp only at wholeB wholeD
  have apartD : d ≠ b := fun is => elsewhere _ member rfl is.symm
  have apart := heap₁.buffers_apart apartD new there
  have same : ∀ a, a < buffer d ∨ buffer d + n ≤ a →
      memcpy (buffer d) (buffer b) (min old n) (mallocEx n pool m).2 a = (mallocEx n pool m).2 a := by
    intro a outside
    apply Bytes.copy_other
    unfold Bytes.Off
    omega
  -- the copy stays in the new block, whose words free_ex leaves alone
  have copied := handed.scribble heap same
  obtain ⟨r', fits', used', elsewhere', kept'⟩ := copied.used heap
  obtain ⟨_, K', heap₂⟩ := copied
  obtain ⟨cs', K'', heap₃, freed, left, words⟩ := heap₂.freed bounded there
  have sameBlock : r' = r := by
    have first := (used' ⟨d, r, false⟩ rfl).mp new
    rcases first with is | was
    · cases is
      rfl
    · exact absurd rfl (elsewhere _ was rfl)
  subst sameBlock
  rw [reallocEx_eq positive, result, reallocCount_eq bounded heap₁ there]
  refine ⟨cs', ⟨d, r', rfl, fits, ?_⟩, ?_, freed, ?_, K'', heap₃⟩
  · intro x isUsed
    rw [left x isUsed, used x isUsed]
    constructor
    · rintro ⟨is | inside, other⟩
      · exact Or.inl is
      · exact Or.inr ⟨inside, (heap.other_iff member inside).mp other⟩
    · rintro (is | ⟨inside, other⟩)
      · exact ⟨Or.inl is, by rw [is]; exact apartD⟩
      · exact ⟨Or.inr inside, (heap.other_iff member inside).mpr other⟩
  · intro i inside
    have final := words ⟨d, r', false⟩ new rfl apartD
    simp only at final
    rw [bytes_kept wholeD final (by omega), memcpy, Bytes.byteAt_copy _ (by omega), if_pos (by omega)]
    have place : buffer b + (buffer d + i - buffer d) = buffer b + i := by omega
    rw [place, bytes_kept wholeB (kept _ member rfl) (by simp only; omega)]
  · intro x inside isUsed other a low high
    have here : x ∈ cs := (used x isUsed).mpr (Or.inr inside)
    have away : x.addr ≠ b := (heap.other_iff member inside).mpr other
    exact (words x here isUsed away a low high).trans (kept' x inside isUsed a low high)

end

/-- realloc_ex does what it is for exactly when the search of malloc_ex comes to a
    free block. -/
theorem realloc_right_iff {pool e : Nat} {m : Mem} {bs : List Blk} {L : Lists} (bounded : Bounded pool e)
    (aligned : pool % 4 = 0) (heap : HeapAt pool e m bs L) {b old n : Nat}
    (member : (⟨b, old, false⟩ : Blk) ∈ bs) (positive : 0 < n) (small : n ≤ 2 ^ 29) :
    ReallocRight pool e m bs b old n ↔ ∃ x ∈ bs, x.free = true ∧ Suits (request n) x.size := by
  have outcome : (reallocEx (buffer b) n pool m).1 = (mallocEx n pool m).1 := by rw [reallocEx_eq positive]
  rw [← mallocEx_found_iff bounded heap (by omega)]
  constructor
  · intro right failed
    obtain ⟨_, written⟩ := right.spared (outcome.trans failed)
    have none := written failed
    rw [reallocCopies, (mallocEx_null n pool m).2 failed] at none
    simp only at none
    rw [reallocCount_eq bounded heap member] at none
    have least := (heap.tiled.bounds.2 _ member).2.2.least
    simp only [minBlockSize] at least
    omega
  · intro some
    rcases mallocEx_spec bounded heap (n := n) (by omega) with failed | ⟨d, cs, result, handed⟩
    · exact absurd (congrArg Prod.fst failed) some
    · constructor
      · intro _
        rw [outcome, result]
        exact reallocEx_moved bounded aligned heap member positive result handed
      · intro failed
        exact absurd (outcome.symm.trans failed) some

def takenPool : Mem := (mallocEx 100 4096 (readyPool 4176 4096 fun _ => 0#32)).2

theorem takenPool_heap : Bounded 4096 (sentinel 4096 4176) ∧
    ∃ bs L, HeapAt 4096 (sentinel 4096 4176) takenPool bs L ∧ (⟨7268, 100, false⟩ : Blk) ∈ bs := by
  obtain ⟨bounded, heap⟩ := smallPool_heap
  have pointer : (mallocEx 100 4096 (readyPool 4176 4096 fun _ => 0#32)).1 = buffer 7268 := by decide +kernel
  refine ⟨bounded, ?_⟩
  rcases mallocEx_spec bounded heap (n := 100) (by decide) with failed | ⟨d, cs, result, handed⟩
  · rw [failed] at pointer
    cases pointer
  · have place : d = 7268 := buffer_inj (result.symm.trans pointer)
    subst place
    obtain ⟨r, _, used, _⟩ := handed.used heap
    obtain ⟨_, K, now⟩ := handed
    have member : (⟨7268, r, false⟩ : Blk) ∈ cs := (used _ rfl).mpr (Or.inl rfl)
    have measured := now.used_size bounded member
    have size : blockSize takenPool 7268 = 100 := by decide +kernel
    refine ⟨cs, K, now, ?_⟩
    rw [← size, takenPool, measured]
    exact member

theorem realloc_right_iff_taken : ∃ bs, (⟨7268, 100, false⟩ : Blk) ∈ bs ∧
    ReallocRight 4096 (sentinel 4096 4176) takenPool bs 7268 100 200 := by
  obtain ⟨bounded, bs, L, heap, member⟩ := takenPool_heap
  have found : (mallocEx 200 4096 takenPool).1 ≠ 0 := by decide +kernel
  refine ⟨bs, member, ?_⟩
  exact (realloc_right_iff bounded (by decide) heap member (by decide) (by decide)).mpr
    ((mallocEx_found_iff bounded heap (by decide)).mp found)

/-- 2000 bytes are not to be had: the 100 go to NULL and their block is free. -/
theorem realloc_to_null : ((reallocEx 7276 2000 4096 takenPool).1 = 0 ∧
      reallocCopies 7276 2000 4096 takenPool = (0, 100) ∧
      (reallocEx 7276 2000 4096 takenPool).2 (sizeField 7268) &&& freeBlock = 1#32) ∧
    ∃ bs L, HeapAt 4096 (sentinel 4096 4176) takenPool bs L ∧ (⟨7268, 100, false⟩ : Blk) ∈ bs ∧
      ¬ ReallocRight 4096 (sentinel 4096 4176) takenPool bs 7268 100 2000 := by
  obtain ⟨_, bs, L, heap, member⟩ := takenPool_heap
  have copies : reallocCopies 7276 2000 4096 takenPool = (0, 100) := by decide +kernel
  have null : (reallocEx 7276 2000 4096 takenPool).1 = 0 := by decide +kernel
  refine ⟨⟨null, copies, by decide +kernel⟩, bs, L, heap, member, ?_⟩
  intro right
  have none := (right.spared null).2
  have pointer : buffer 7268 = 7276 := rfl
  rw [pointer, copies] at none
  exact absurd (none rfl) (by decide)

end L4ertl.Tlsf
