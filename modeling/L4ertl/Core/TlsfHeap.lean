import L4ertl.Core.TlsfLayout

/-!
The heap as a whole, and what `malloc_ex` and `free_ex` make of it. Both take
one block out of the heap, work on the gap it leaves, which `free_ex` may grow
over its free neighbours, and close the gap again.
-/
namespace L4ertl.Tlsf

def firstBlock (pool : Nat) : Nat := getNextBlock pool sizeofTlsf

theorem firstBlock_eq (pool : Nat) : firstBlock pool = pool + 3172 := by
  simp only [firstBlock, getNextBlock, sizeofTlsf_eq]
  omega

theorem getNextBlock_eq (b r : Nat) : getNextBlock (buffer b) r = b + 4 + r := by
  simp only [getNextBlock, buffer]
  omega

structure Bounded (pool e : Nat) : Prop where
  space : e + 8 ≤ 2 ^ 32
  large : e < pool + sizeofTlsf + 2 ^ 30

structure HeapAt (pool e : Nat) (m : Mem) (bs : List Blk) (L : Lists) : Prop where
  tiled : Tiled m e none (firstBlock pool) bs
  indexed : Indexed pool m L
  filed : Filed bs L

/-- The tiling around a block of `s` bytes at `b`: what the header behind it
    says of it may be out of date. -/
structure Gap (pool e : Nat) (m : Mem) (pre : List Blk) (prev : Option Nat) (b s : Nat)
    (next : Option Nat) (post : List Blk) : Prop where
  run : Run m none (firstBlock pool) pre prev b
  rest : Tiled m e next (b + 4 + s) post
  fits : (⟨b, s, true⟩ : Blk).Fits

def Local (pool : Nat) (N : Nat → Prop) (lo hi : Nat) (m w : Mem) : Prop :=
  ∀ a, pool + sizeofTlsf ≤ a → a < lo ∨ hi ≤ a → (∀ x, N x → a ≠ freePrev x ∧ a ≠ freeNext x) → w a = m a

def Kept (bs : List Blk) (m w : Mem) : Prop :=
  ∀ x ∈ bs, x.free = false → ∀ a, buffer x.addr ≤ a → a < buffer x.addr + x.size → w a = m a

section
variable {pool : Nat} {N : Nat → Prop} {lo hi : Nat} {m w v : Mem} {L : Lists} {bs : List Blk}

theorem Local.trans (first : Local pool N lo hi m w) (second : Local pool N lo hi w v) :
    Local pool N lo hi m v :=
  fun a behind away outside => (second a behind away outside).trans (first a behind away outside)

theorem store_local {a : Nat} (x : Word) (low : lo ≤ a) (high : a < hi) :
    Local pool N lo hi m (store m a x) := by
  intro y _ away _
  exact store_other m x (by omega)

theorem clearFreePtr_local {b : Nat} (hb : N b) : Local pool N lo hi m (clearFreePtr m b) := by
  intro y _ _ outside
  exact clearFreePtr_other m (outside b hb).1 (outside b hb).2

theorem Kept.trans (first : Kept bs m w) (second : Kept bs w v) : Kept bs m v :=
  fun x member used a low high => (second x member used a low high).trans (first x member used a low high)

theorem Kept.mono {cs : List Blk} (kept : Kept bs m w)
    (sub : ∀ x ∈ cs, x.free = false → x ∈ bs) : Kept cs m w :=
  fun x member used => kept x (sub x member used) used

theorem Indexed.congr (indexed : Indexed pool m L)
    (control : ∀ a, a < pool + sizeofTlsf → w a = m a)
    (cells : ∀ c, c.Inside → ∀ x ∈ L c, w (freePrev x) = m (freePrev x) ∧ w (freeNext x) = m (freeNext x)) :
    Indexed pool w L := by
  have bitmaps : ∀ a, Bitmap pool a → w a = m a := fun a is => control a (by have := is.low; omega)
  obtain ⟨listed, marked⟩ := indexed
  refine ⟨⟨?_, listed.nodup, listed.single⟩, ⟨?_, ?_, ?_⟩⟩
  · intro c inside
    have bound := (Cell.head_bounds inside pool).2.1
    rw [control _ (by omega)]
    refine Intrusive.segment_congr ?_ (listed.chain c inside)
    intro x member
    simp only [links, cells c inside x member]
  · intro fl inside
    rw [bitmaps _ (Or.inl rfl)]
    exact marked.small fl inside
  · intro fl sl row column
    rw [bitmaps _ (Or.inr (Or.inr ⟨fl, row, rfl⟩))]
    exact marked.column fl sl row column
  · intro fl inside
    rw [bitmaps _ (Or.inr (Or.inl rfl))]
    exact marked.row fl inside

end

theorem Indexed.store_off {pool : Nat} {m : Mem} {L : Lists} (indexed : Indexed pool m L) {a : Nat}
    (x : Word) (behind : pool + sizeofTlsf ≤ a) (off : ∀ c, ∀ y ∈ L c, a ≠ freePrev y ∧ a ≠ freeNext y) :
    Indexed pool (store m a x) L := by
  apply indexed.congr
  · intro y control
    exact store_other m x (by omega)
  · intro c _ y member
    have apart := off c y member
    exact ⟨store_other m x apart.1.symm, store_other m x apart.2.symm⟩

section
variable {pool e : Nat} {m w v : Mem} {pre post : List Blk} {prev next : Option Nat} {b s : Nat} {L : Lists}

def GapAt (pre post : List Blk) (b x : Nat) : Prop := x = b ∨ FreeAt (pre ++ post) x

theorem Gap.inside (gap : Gap pool e m pre prev b s next post) :
    firstBlock pool ≤ b ∧ b + 4 + s ≤ e ∧ 12 ≤ s ∧ s % 4 = 0 :=
  ⟨gap.run.bounds.1, gap.rest.bounds.1, gap.fits.least, gap.fits.whole⟩

theorem Gap.blocks (gap : Gap pool e m pre prev b s next post) :
    ∀ x ∈ pre ++ post, x.Fits ∧ firstBlock pool ≤ x.addr ∧ x.next ≤ e ∧
      (x.next ≤ b ∨ b + 4 + s ≤ x.addr) := by
  intro x member
  have inside := gap.inside
  rcases List.mem_append.mp member with before | after
  · have bound := gap.run.bounds.2 x before
    exact ⟨bound.2.2, bound.1, by omega, Or.inl bound.2.1⟩
  · have bound := gap.rest.bounds.2 x after
    exact ⟨bound.2.2, by omega, bound.2.1, Or.inr bound.1⟩

theorem Gap.apart (gap : Gap pool e m pre prev b s next post) {x y : Blk} (hx : x ∈ pre ++ post)
    (hy : y ∈ pre ++ post) : x = y ∨ x.next ≤ y.addr ∨ y.next ≤ x.addr := by
  have inside := gap.inside
  rcases List.mem_append.mp hx with beforeX | afterX
  · rcases List.mem_append.mp hy with beforeY | afterY
    · exact gap.run.apart beforeX beforeY
    · have left := gap.run.bounds.2 x beforeX
      have right := gap.rest.bounds.2 y afterY
      exact Or.inr (Or.inl (by omega))
  · rcases List.mem_append.mp hy with beforeY | afterY
    · have left := gap.run.bounds.2 y beforeY
      have right := gap.rest.bounds.2 x afterX
      exact Or.inr (Or.inr (by omega))
    · exact gap.rest.apart afterX afterY

theorem Gap.free_far (gap : Gap pool e m pre prev b s next post) {x : Nat}
    (free : FreeAt (pre ++ post) x) : x + 16 ≤ b ∨ b + 4 + s ≤ x := by
  obtain ⟨t, member⟩ := free
  obtain ⟨fits, _, _, far⟩ := gap.blocks _ member
  have least := fits.next_ge
  simp only [Blk.next] at far least
  omega

theorem Gap.spread (bounded : Bounded pool e) (gap : Gap pool e m pre prev b s next post) :
    Spread pool (GapAt pre post b) := by
  have inside := gap.inside
  have space := bounded.space
  rw [firstBlock_eq] at inside
  constructor
  · rintro x (rfl | ⟨t, member⟩)
    · rw [sizeofTlsf_eq]
      omega
    · have bound := gap.blocks _ member
      rw [firstBlock_eq] at bound
      rw [sizeofTlsf_eq]
      simp only at bound
      omega
  · rintro x (rfl | ⟨t, member⟩)
    · omega
    · have bound := gap.blocks _ member
      have least := bound.1.next_ge
      simp only at bound least
      omega
  · rintro x y (rfl | hx) (rfl | hy)
    · exact Or.inl rfl
    · have far := gap.free_far hy
      omega
    · have far := gap.free_far hx
      omega
    · obtain ⟨t, memberX⟩ := hx
      obtain ⟨r, memberY⟩ := hy
      have leastX := (gap.blocks _ memberX).1.next_ge
      have leastY := (gap.blocks _ memberY).1.next_ge
      rcases gap.apart memberX memberY with same | before | after
      · left
        simpa using congrArg Blk.addr same
      · simp only at before leastX leastY
        omega
      · simp only at after leastX leastY
        omega

theorem Gap.left_same {hi : Nat} (gap : Gap pool e m pre prev b s next post)
    (loc : Local pool (GapAt pre post b) (b + 4) hi m w) {x : Nat} (after : firstBlock pool + 4 ≤ x)
    (before : x < b + 4) (unowned : ∀ y ∈ pre, ¬ y.Owns x) : w x = m x := by
  have inside := gap.inside
  rw [firstBlock_eq] at after inside
  apply loc x (by rw [sizeofTlsf_eq]; omega) (Or.inl before)
  rintro y (rfl | ⟨t, member⟩)
  · simp only [freePrev, freeNext]
    omega
  · rcases List.mem_append.mp member with left | right
    · have not := unowned _ left
      simpa [Blk.Owns] using not
    · have bound := gap.rest.bounds.2 _ right
      simp only [freePrev, freeNext] at *
      omega

theorem Gap.right_same {hi : Nat} (gap : Gap pool e m pre prev b s next post)
    (loc : Local pool (GapAt pre post b) (b + 4) hi m w) {x : Nat} (high : hi ≤ x)
    (after : b + 4 + s ≤ x) (unowned : ∀ y ∈ post, ¬ y.Owns x) : w x = m x := by
  have inside := gap.inside
  rw [firstBlock_eq] at inside
  apply loc x (by rw [sizeofTlsf_eq]; omega) (Or.inr high)
  rintro y (rfl | ⟨t, member⟩)
  · simp only [freePrev, freeNext]
    omega
  · rcases List.mem_append.mp member with left | right
    · have bound := gap.run.bounds.2 _ left
      have least := bound.2.2.next_ge
      simp only [freePrev, freeNext] at *
      omega
    · have not := unowned _ right
      simpa [Blk.Owns] using not

theorem Gap.run_same {hi : Nat} (gap : Gap pool e m pre prev b s next post)
    (loc : Local pool (GapAt pre post b) (b + 4) hi m w) : Run w none (firstBlock pool) pre prev b := by
  refine gap.run.congr ?_
  intro x after before unowned
  simp only [Option.isSome_none, Bool.false_eq_true, and_false, false_or] at after
  exact gap.left_same loc after (by omega) unowned

theorem Gap.change (gap : Gap pool e m pre prev b s next post)
    (loc : Local pool (GapAt pre post b) (b + 4) (b + 4 + s) m w) :
    Gap pool e w pre prev b s next post := by
  refine ⟨gap.run_same loc, gap.rest.congr ?_, gap.fits⟩
  intro x after _ unowned
  exact gap.right_same loc (by omega) (by omega) unowned

theorem Gap.back_same {hi : Nat} (gap : Gap pool e m pre prev b s next post)
    (loc : Local pool (GapAt pre post b) (b + 4) hi m w) (some : prev.isSome = true) : w b = m b := by
  obtain ⟨q, rfl⟩ := Option.isSome_iff_exists.mp some
  obtain ⟨front, t, shape, run, meets, fits, _⟩ := gap.run.last_free
  have low := run.bounds
  have least := fits.next_ge
  simp only [Blk.next] at least
  apply gap.left_same loc (by omega) (by omega)
  intro y member
  rw [shape, List.mem_append, List.mem_singleton] at member
  rcases member with earlier | rfl
  · have bound := low.2 y earlier
    have size := bound.2.2.next_ge
    simp only [Blk.Owns, freePrev, freeNext, buffer, Blk.next] at *
    split <;> omega
  · apply Blk.not_owns_next fits
    left
    exact ⟨meets.symm, rfl⟩

theorem Gap.kept (gap : Gap pool e m pre prev b s next post)
    (loc : Local pool (GapAt pre post b) (b + 4) (b + 4 + s + 8) m w) : Kept (pre ++ post) m w := by
  intro x member used a low high
  obtain ⟨fits, start, _, far⟩ := gap.blocks x member
  have inside := gap.inside
  simp only [buffer] at low high
  simp only [firstBlock_eq, Blk.next] at start far
  apply loc a (by rw [sizeofTlsf_eq]; omega) (by omega)
  rintro y (rfl | ⟨t, free⟩)
  · simp only [freePrev, freeNext]
    omega
  · have least := (gap.blocks _ free).1.next_ge
    rcases gap.apart member free with same | before | after
    · rw [same] at used
      cases used
    · simp only [Blk.next] at before least
      simp only [freePrev, freeNext]
      omega
    · simp only [Blk.next] at after least
      simp only [freePrev, freeNext]
      omega

theorem Gap.off_links (gap : Gap pool e m pre prev b s next post) {a : Nat} (low : b ≤ a)
    (high : a < b + 4 + s + 8) {x : Nat} (free : FreeAt (pre ++ post) x) :
    a ≠ freePrev x ∧ a ≠ freeNext x := by
  have far := gap.free_far free
  simp only [freePrev, freeNext]
  omega

theorem Gap.small (bounded : Bounded pool e) (gap : Gap pool e m pre prev b s next post) :
    s < 2 ^ 30 ∧ b + 4 + s + 8 ≤ 2 ^ 32 := by
  have inside := gap.inside
  have large := bounded.large
  have space := bounded.space
  rw [firstBlock_eq] at inside
  rw [sizeofTlsf_eq] at large
  omega

theorem HeapAt.gap {free : Bool} (heap : HeapAt pool e m (pre ++ ⟨b, s, free⟩ :: post) L) :
    ∃ prev, Gap pool e m pre prev b s (if free then some b else none) post ∧
      Joint m prev b s free ∧ (prev.isSome = true → free = false) := by
  obtain ⟨r, y, run, start, fits, alone, joint, tail⟩ := tiled_append.mp heap.tiled
  simp only at start
  subst start
  exact ⟨r, ⟨run, tail, fits.whole, fits.least⟩, joint, alone⟩

theorem headFree_of_link (tiled : Tiled m e (some b) s post) : headFree post = false := by
  cases post with
  | nil => rfl
  | cons x xs => exact tiled.2.2.1 rfl

theorem Gap.close {f : Bool} (gap : Gap pool e m pre prev b s next post)
    (header : w (sizeField b) = hdrWord s f prev.isSome)
    (behind : Joint w (if f then some b else none) (b + 4 + s) (headSize post) (headFree post))
    (alone : f = true → prev = none ∧ headFree post = false)
    (loc : Local pool (GapAt pre post b) (b + 4) (b + 4 + s + 8) m w)
    (back : ∀ q, prev = some q → m b = ofPtr q) :
    Tiled w e none (firstBlock pool) (pre ++ ⟨b, s, f⟩ :: post) := by
  apply tiled_append.mpr
  refine ⟨prev, b, gap.run_same loc, rfl, ⟨gap.fits.whole, gap.fits.least⟩, ?_, ⟨header, ?_⟩, ?_⟩
  · intro some
    cases f with
    | false => rfl
    | true =>
      rw [(alone rfl).1] at some
      cases some
  · intro q is
    rw [gap.back_same loc (by simp [is])]
    exact back q is
  · refine gap.rest.relink behind ?_ ?_
    · intro some
      cases f with
      | false => cases some
      | true => exact (alone rfl).2
    · intro x after _ unowned
      exact gap.right_same loc (by omega) (by omega) unowned

theorem gapAt_iff {x : Nat} : FreeAt (pre ++ ⟨b, s, true⟩ :: post) x ↔ GapAt pre post b x := by
  simp only [FreeAt, GapAt, List.mem_append, List.mem_cons, Blk.mk.injEq, and_true]
  constructor
  · rintro ⟨t, left | here | right⟩
    · exact Or.inr ⟨t, Or.inl left⟩
    · exact Or.inl here.1
    · exact Or.inr ⟨t, Or.inr right⟩
  · rintro (here | ⟨t, left | right⟩)
    · exact ⟨s, Or.inr (Or.inl ⟨here, rfl⟩)⟩
    · exact ⟨t, Or.inl left⟩
    · exact ⟨t, Or.inr (Or.inr right)⟩

theorem HeapAt.take (heap : HeapAt pool e m (pre ++ ⟨b, s, true⟩ :: post) L)
    (untouched : Untouched pool (FreeAt (pre ++ ⟨b, s, true⟩ :: post)) m w) :
    Gap pool e w pre none b s (some b) post ∧ w (sizeField b) = hdrWord s true false ∧
      headFree post = false ∧ Kept (pre ++ post) m w ∧
      ((L (cellOf s)).Nodup →
        Filed (pre ++ post) (Function.update L (cellOf s) ((L (cellOf s)).erase b))) := by
  obtain ⟨prev, gap, joint, alone⟩ := heap.gap
  have isNone : prev = none := by
    cases prev with
    | none => rfl
    | some q => cases alone rfl
  subst isNone
  simp only [↓reduceIte] at gap
  have inside := gap.inside
  rw [firstBlock_eq] at inside
  have loc : ∀ lo hi, Local pool (GapAt pre post b) lo hi m w := by
    intro lo hi a behind _ outside
    exact untouched a behind (fun x free => outside x (gapAt_iff.mp free))
  refine ⟨gap.change (loc _ _), ?_, headFree_of_link gap.rest, gap.kept (loc _ _), ?_⟩
  · have same : w (sizeField b) = m (sizeField b) := by
      apply loc (b + 5) (b + 5) _ (by simp only [sizeField, sizeofTlsf_eq]; omega)
        (Or.inl (by simp only [sizeField]; omega))
      rintro x (rfl | free)
      · simp only [sizeField, freePrev, freeNext]
        omega
      · exact gap.off_links (by simp only [sizeField]; omega) (by simp only [sizeField]; omega) free
    rw [same, joint.header]
    rfl
  · apply heap.filed.remove
    intro x member is
    have far := (gap.blocks x member).2.2.2
    have least := (gap.blocks x member).1.next_ge
    omega

theorem Tiled.head_whole {p : Option Nat} {a : Nat} {bs : List Blk} (tiled : Tiled m e p a bs) :
    headSize bs % 4 = 0 := by
  cases bs with
  | nil => rfl
  | cons x bs => exact tiled.2.1.whole

theorem toInt_rest {size : Nat} (small : s < 2 ^ 30) (fits : size ≤ s) :
    (ofPtr s - ofPtr size - 4#32).toInt = (s : Int) - size - 4 := by
  rw [BitVec.toInt_eq_toNat_cond, BitVec.toNat_sub, BitVec.toNat_sub, ofPtr, ofPtr, BitVec.toNat_ofNat,
    BitVec.toNat_ofNat, BitVec.toNat_ofNat]
  split <;> omega

theorem blockSize_header {f g : Bool} (header : m (sizeField b) = hdrWord s f g) (whole : s % 4 = 0)
    (small : s < 2 ^ 30) : blockSize m b = s := by
  rw [blockSize, header, hdrWord_and_mask whole, ofPtr, BitVec.toNat_ofNat, Nat.mod_eq_of_lt (by omega)]

theorem mallocFound_whole (bounded : Bounded pool e) (gap : Gap pool e m pre none b s (some b) post)
    (header : m (sizeField b) = hdrWord s true false) (indexed : Indexed pool m L)
    (filed : Filed (pre ++ post) L) {size : Nat} (fits : size ≤ s) (tight : s < size + 16) :
    (mallocFound m size b pool).1 = buffer b ∧ Kept (pre ++ post) m (mallocFound m size b pool).2 ∧
      HeapAt pool e (mallocFound m size b pool).2 (pre ++ ⟨b, s, false⟩ :: post) L := by
  have inside := gap.inside
  have small := gap.small bounded
  have joint := gap.rest.joint
  have whole := gap.rest.head_whole
  rw [firstBlock_eq] at inside
  have apart : sizeField b ≠ sizeField (b + 4 + s) := by simp only [sizeField]; omega
  have keep : ¬ ((s : Int) - size - 4 ≥ minBlockSize) := by simp only [minBlockSize]; omega
  have found : mallocFound m size b pool = (buffer b, store (store m (sizeField (b + 4 + s))
      (hdrWord (headSize post) (headFree post) false)) (sizeField b) (hdrWord s false false)) := by
    simp only [mallocFound, blockSize_header header inside.2.2.2 small.1, getNextBlock_eq, header,
      hdrWord_and_mask inside.2.2.2, toInt_rest small.1 fits, keep, ↓reduceIte, store_other _ _ apart,
      hdrWord_and_not_free inside.2.2.2, joint.header, hdrWord_and_not_prev whole]
  rw [found]
  have off : ∀ a, b ≤ a → a < b + 4 + s + 8 → ∀ c, ∀ y ∈ L c, a ≠ freePrev y ∧ a ≠ freeNext y :=
    fun a low high c y member => gap.off_links low high (filed.members c y member)
  have loc : Local pool (GapAt pre post b) (b + 4) (b + 4 + s + 8) m
      (store (store m (sizeField (b + 4 + s)) (hdrWord (headSize post) (headFree post) false))
        (sizeField b) (hdrWord s false false)) := by
    have behind : Local pool (GapAt pre post b) (b + 4) (b + 4 + s + 8) m
        (store m (sizeField (b + 4 + s)) (hdrWord (headSize post) (headFree post) false)) :=
      store_local _ (by simp only [sizeField]; omega) (by simp only [sizeField]; omega)
    exact behind.trans (store_local _ (by simp only [sizeField]; omega) (by simp only [sizeField]; omega))
  dsimp only
  refine ⟨rfl, gap.kept loc, ?_, ?_, Filed.used.mpr filed⟩
  · refine gap.close (store_same _ _ _) ?_ ?_ loc ?_
    rotate_left
    · intro free
      cases free
    · intro q is
      cases is
    constructor
    · rw [store_other _ _ apart.symm, store_same]
      rfl
    · intro q is
      cases is
  · apply Indexed.store_off
    · apply indexed.store_off
      · simp only [sizeField, sizeofTlsf_eq]
        omega
      · exact off _ (by simp only [sizeField]; omega) (by simp only [sizeField]; omega)
    · simp only [sizeField, sizeofTlsf_eq]
      omega
    · exact off _ (by simp only [sizeField]; omega) (by simp only [sizeField]; omega)

theorem Gap.cut (gap : Gap pool e m pre prev b s next post) {size : Nat} (whole : size % 4 = 0)
    (least : minBlockSize ≤ size) (room : size + 16 ≤ s)
    (header : m (sizeField b) = hdrWord size false prev.isSome)
    (back : ∀ q, prev = some q → m b = ofPtr q) :
    Gap pool e m (pre ++ [⟨b, size, false⟩]) none (b + 4 + size) (s - size - 4) next post := by
  have inside := gap.inside
  constructor
  · apply run_append.mpr
    exact ⟨prev, b, gap.run, rfl, ⟨whole, least⟩, fun _ => rfl, ⟨header, back⟩, rfl, rfl⟩
  · have same : b + 4 + size + 4 + (s - size - 4) = b + 4 + s := by omega
    rw [same]
    exact gap.rest
  · constructor
    · simp only
      omega
    · simp only [minBlockSize]
      omega

theorem store_store (m : Mem) (a : Nat) (x y : Word) : store (store m a x) a y = store m a y := by
  simp only [store, Function.update_idem]

def cutMem (m : Mem) (b size s : Nat) : Mem :=
  store (store m (sizeField (b + 4 + size)) (hdrWord (s - size - 4) true false))
    (b + 4 + s) (ofPtr (b + 4 + size))

theorem cutMem_header (m : Mem) {size : Nat} (room : size + 16 ≤ s) :
    cutMem m b size s (sizeField (b + 4 + size)) = hdrWord (s - size - 4) true false := by
  rw [cutMem, store_other _ _ (by simp only [sizeField]; omega), store_same]

theorem cutMem_other (m : Mem) {size a : Nat} (notRest : a ≠ sizeField (b + 4 + size))
    (notNext : a ≠ b + 4 + s) : cutMem m b size s a = m a := by
  rw [cutMem, store_other _ _ notNext, store_other _ _ notRest]

theorem mallocFound_cut_eq (header : m (sizeField b) = hdrWord s true false) (small : s < 2 ^ 30)
    (wholes : s % 4 = 0) {size : Nat} (whole : size % 4 = 0) (room : size + 16 ≤ s)
    (front : insertFree (cutMem m b size s) (b + 4 + size) pool (sizeField b) = hdrWord s true false) :
    mallocFound m size b pool = (buffer b,
      store (insertFree (cutMem m b size s) (b + 4 + size) pool) (sizeField b)
        (hdrWord size false false)) := by
  have restWhole : (s - size - 4) % 4 = 0 := by omega
  have cut : (s : Int) - size - 4 = ((s - size - 4 : Nat) : Int) := by omega
  have word : BitVec.ofInt 32 ((s - size - 4 : Nat) : Int) ||| freeBlock =
      hdrWord (s - size - 4) true false := by
    rw [BitVec.ofInt_natCast, freeBlock_flags]
    exact hdrWord_or_flags restWhole true false
  have used : ofPtr size ||| hdrWord 0 false false = hdrWord size false false :=
    hdrWord_or_flags whole false false
  have size2 := blockSize_header (cutMem_header (b := b) m room) restWhole (by omega)
  have placed : (if ((s - size - 4 : Nat) : Int) < smallBlock
      then insertSmallBlock (cutMem m b size s) (b + 4 + size) pool
        (fliSb (blockSize (cutMem m b size s) (b + 4 + size)))
      else insertBlock (cutMem m b size s) (b + 4 + size) pool
        (mappingInsert ((s - size - 4 : Nat) : Int).toNat).1
        (mappingInsert ((s - size - 4 : Nat) : Int).toNat).2) =
      insertFree (cutMem m b size s) (b + 4 + size) pool := by
    simp only [insertFree, size2, Int.toNat_natCast, Int.ofNat_lt]
  have split : ((s - size - 4 : Nat) : Int) ≥ minBlockSize := by simp only [minBlockSize]; omega
  have opened : store (store m (sizeField (b + 4 + size)) (hdrWord (s - size - 4) true false))
    (b + 4 + s) (ofPtr (b + 4 + size)) = cutMem m b size s := rfl
  simp only [mallocFound, blockSize_header header wholes small, getNextBlock_eq, header,
    hdrWord_and_mask wholes, toInt_rest small (by omega : size ≤ s), cut, split, ↓reduceIte,
    word, opened, placed, front, hdrWord_and_prev wholes, used, store_same, store_store,
    hdrWord_and_not_free whole]

theorem Gap.cut_indexed (gap : Gap pool e m pre none b s (some b) post) (indexed : Indexed pool m L)
    (filed : Filed (pre ++ post) L) {size : Nat} (room : size + 16 ≤ s) :
    Indexed pool (cutMem m b size s) L := by
  have inside := gap.inside
  rw [firstBlock_eq] at inside
  have off : ∀ a, b ≤ a → a < b + 4 + s + 8 → ∀ c, ∀ y ∈ L c, a ≠ freePrev y ∧ a ≠ freeNext y :=
    fun a low high c y member => gap.off_links low high (filed.members c y member)
  apply Indexed.store_off
  · apply indexed.store_off
    · simp only [sizeField, sizeofTlsf_eq]
      omega
    · exact off _ (by simp only [sizeField]; omega) (by simp only [sizeField]; omega)
  · rw [sizeofTlsf_eq]
    omega
  · exact off _ (by omega) (by omega)

def restMem (m : Mem) (b size s pool : Nat) : Mem := insertFree (cutMem m b size s) (b + 4 + size) pool

/-- A free block that has been taken off its list, and is larger than what is asked for. -/
structure Cuttable (pool e : Nat) (m : Mem) (pre : List Blk) (b s size : Nat) (post : List Blk)
    (L : Lists) : Prop where
  bounded : Bounded pool e
  gap : Gap pool e m pre none b s (some b) post
  header : m (sizeField b) = hdrWord s true false
  indexed : Indexed pool m L
  filed : Filed (pre ++ post) L
  last : headFree post = false
  whole : size % 4 = 0
  least : minBlockSize ≤ size
  room : size + 16 ≤ s

section
variable {size : Nat}

theorem Cuttable.rest (cut : Cuttable pool e m pre b s size post L) :
    Gap pool e (store m (sizeField b) (hdrWord size false false)) (pre ++ [⟨b, size, false⟩]) none
      (b + 4 + size) (s - size - 4) (some b) post := by
  have loc : Local pool (GapAt pre post b) (b + 4) (b + 4 + s) m
      (store m (sizeField b) (hdrWord size false false)) := by
    have inside := cut.gap.inside
    have room := cut.room
    rw [firstBlock_eq] at inside
    exact store_local _ (by simp only [sizeField]; omega) (by simp only [sizeField]; omega)
  exact (cut.gap.change loc).cut cut.whole cut.least cut.room (store_same _ _ _) (fun q is => by cases is)

theorem Cuttable.filed_rest (cut : Cuttable pool e m pre b s size post L) :
    Filed ((pre ++ [⟨b, size, false⟩]) ++ post) L := by
  have regroup : (pre ++ [⟨b, size, false⟩]) ++ post = pre ++ ⟨b, size, false⟩ :: post := by simp
  rw [regroup]
  exact Filed.used.mpr cut.filed

theorem Cuttable.inserted (cut : Cuttable pool e m pre b s size post L) :
    Indexed pool (restMem m b size s pool) (Function.update L (cellOf (s - size - 4))
      ((b + 4 + size) :: L (cellOf (s - size - 4)))) ∧
    ∀ a, pool + sizeofTlsf ≤ a → a ≠ freePrev (b + 4 + size) → a ≠ freeNext (b + 4 + size) →
      (∀ x, FreeAt (pre ++ post) x → a ≠ freePrev x ∧ a ≠ freeNext x) →
      restMem m b size s pool a = cutMem m b size s a := by
  have small := (cut.gap.small cut.bounded).1
  have wholes := cut.gap.inside.2.2.2
  have whole := cut.whole
  have room := cut.room
  have restWhole : (s - size - 4) % 4 = 0 := by omega
  have fresh : ∀ d : Cell, d.Inside → b + 4 + size ∉ L d := by
    intro d _ member
    have far := cut.gap.free_far (cut.filed.members d _ member)
    omega
  obtain ⟨indexed, untouched⟩ := insertFree_indexed (cut.rest.spread cut.bounded)
    (fun d _ x member => Or.inr (cut.filed_rest.members d x member))
    (cut.gap.cut_indexed cut.indexed cut.filed room) (Or.inl rfl) fresh
    (blockSize_header (cutMem_header m room) restWhole (by omega))
    (by omega)
  refine ⟨indexed, fun a behind prev next others => untouched a behind ?_⟩
  rintro x (rfl | free)
  · exact ⟨prev, next⟩
  · have same : FreeAt (pre ++ post) x := by simpa [FreeAt] using free
    exact others x same

theorem Cuttable.within (cut : Cuttable pool e m pre b s size post L) {a : Nat} (low : b + 4 ≤ a)
    (high : a < b + 4 + s + 8) (prev : a ≠ freePrev (b + 4 + size)) (next : a ≠ freeNext (b + 4 + size)) :
    restMem m b size s pool a = cutMem m b size s a := by
  have inside := cut.gap.inside
  rw [firstBlock_eq] at inside
  exact cut.inserted.2 a (by rw [sizeofTlsf_eq]; omega) prev next
    (fun x free => cut.gap.off_links (by omega) high free)

theorem Cuttable.found (cut : Cuttable pool e m pre b s size post L) :
    mallocFound m size b pool =
      (buffer b, store (restMem m b size s pool) (sizeField b) (hdrWord size false false)) := by
  have inside := cut.gap.inside
  have room := cut.room
  have front : restMem m b size s pool (sizeField b) = hdrWord s true false := by
    rw [cut.within, cutMem_other, cut.header]
    all_goals simp only [sizeField, freePrev, freeNext]
    all_goals omega
  exact mallocFound_cut_eq cut.header (cut.gap.small cut.bounded).1 inside.2.2.2 cut.whole room front

theorem Cuttable.kept (cut : Cuttable pool e m pre b s size post L) :
    Kept (pre ++ post) m (store (restMem m b size s pool) (sizeField b) (hdrWord size false false)) := by
  have room := cut.room
  apply cut.gap.kept
  intro a behind away links
  have apart : a ≠ sizeField b ∧ a ≠ sizeField (b + 4 + size) ∧ a ≠ b + 4 + s ∧
      a ≠ freePrev (b + 4 + size) ∧ a ≠ freeNext (b + 4 + size) := by
    simp only [sizeField, freePrev, freeNext]
    omega
  obtain ⟨notFront, notRest, notNext, prev, next⟩ := apart
  rw [store_other _ _ notFront, cut.inserted.2 a behind prev next (fun x free => links x (Or.inr free)),
    cutMem_other m notRest notNext]

theorem Cuttable.tiled (cut : Cuttable pool e m pre b s size post L) :
    Tiled (store (restMem m b size s pool) (sizeField b) (hdrWord size false false)) e none
      (firstBlock pool) (pre ++ ⟨b, size, false⟩ :: ⟨b + 4 + size, s - size - 4, true⟩ :: post) := by
  have inside := cut.gap.inside
  have room := cut.room
  have least : 12 ≤ size := cut.least
  rw [firstBlock_eq] at inside
  have meets : b + 4 + size + 4 + (s - size - 4) = b + 4 + s := by omega
  have tiled := cut.rest.close (f := true)
    (w := store (restMem m b size s pool) (sizeField b) (hdrWord size false false))
    ?_ ?_ (fun _ => ⟨rfl, cut.last⟩) ?_ (fun q is => by cases is)
  · simpa using tiled
  · rw [store_other _ _ (by simp only [sizeField]; omega), cut.within, cutMem_header m room]
    · rfl
    all_goals simp only [sizeField, freePrev, freeNext]
    all_goals omega
  · rw [meets]
    constructor
    · rw [store_other _ _ (by simp only [sizeField]; omega), cut.within, cutMem_other, cut.gap.rest.joint.header]
      · rfl
      all_goals simp only [sizeField, freePrev, freeNext]
      all_goals omega
    · intro q is
      cases is
      rw [store_other _ _ (by simp only [sizeField]; omega), cut.within, cutMem, store_same]
      any_goals simp only [freePrev, freeNext]
      all_goals omega
  · intro a behind away links
    by_cases atFront : a = sizeField b
    · rw [atFront, store_same, store_same]
    · rw [store_other _ _ atFront, store_other m _ atFront]
      have own := links (b + 4 + size) (Or.inl rfl)
      have others : ∀ x, FreeAt (pre ++ post) x → a ≠ freePrev x ∧ a ≠ freeNext x := by
        intro x free
        have same : FreeAt ((pre ++ [⟨b, size, false⟩]) ++ post) x := by simpa [FreeAt] using free
        exact links x (Or.inr same)
      rw [cut.inserted.2 a behind own.1 own.2 others, cutMem_other]
      · simp only [sizeField]
        omega
      · omega

end

theorem mallocFound_cut {size : Nat} (cut : Cuttable pool e m pre b s size post L) :
    (mallocFound m size b pool).1 = buffer b ∧ Kept (pre ++ post) m (mallocFound m size b pool).2 ∧
      ∃ K, HeapAt pool e (mallocFound m size b pool).2
        (pre ++ ⟨b, size, false⟩ :: ⟨b + 4 + size, s - size - 4, true⟩ :: post) K := by
  have inside := cut.gap.inside
  rw [firstBlock_eq] at inside
  rw [cut.found]
  refine ⟨rfl, cut.kept, Function.update L (cellOf (s - size - 4))
    ((b + 4 + size) :: L (cellOf (s - size - 4))), cut.tiled, ?_, ?_⟩
  · apply cut.inserted.1.store_off
    · simp only [sizeField, sizeofTlsf_eq]
      omega
    · intro c y member
      have least : 12 ≤ size := cut.least
      rcases mem_of_added member with ⟨_, rfl⟩ | old
      · simp only [sizeField, freePrev, freeNext]
        omega
      · exact cut.gap.off_links (by simp only [sizeField]; omega) (by simp only [sizeField]; omega)
          (cut.filed.members c y old)
  · have added := cut.filed_rest.add (b := b + 4 + size) (s := s - size - 4)
    simpa using added

/-- A block of `r` bytes is in use where a free one was, with what is left of
    that behind it. -/
structure Handed (pool e : Nat) (m w : Mem) (bs : List Blk) (n b : Nat) (cs : List Blk) : Prop where
  place : ∃ pre s post r tail, bs = pre ++ ⟨b, s, true⟩ :: post ∧ cs = pre ++ ⟨b, r, false⟩ :: tail ∧
    (tail = post ∨ ∃ x : Blk, x.free = true ∧ tail = x :: post) ∧ n ≤ r ∧ Kept (pre ++ post) m w
  heap : ∃ K, HeapAt pool e w cs K

theorem mallocFound_spec (bounded : Bounded pool e) (gap : Gap pool e w pre none b s (some b) post)
    (header : w (sizeField b) = hdrWord s true false) (indexed : Indexed pool w L)
    (filed : Filed (pre ++ post) L) (last : headFree post = false) (kept : Kept (pre ++ post) m w)
    {size : Nat} (whole : size % 4 = 0) (least : minBlockSize ≤ size) (fits : size ≤ s) :
    (mallocFound w size b pool).1 = buffer b ∧
      ∃ cs, Handed pool e m (mallocFound w size b pool).2 (pre ++ ⟨b, s, true⟩ :: post) size b cs := by
  by_cases room : size + 16 ≤ s
  · obtain ⟨result, same, heap⟩ :=
      mallocFound_cut ⟨bounded, gap, header, indexed, filed, last, whole, least, room⟩
    refine ⟨result, _, ⟨pre, s, post, size, _, rfl, rfl, Or.inr ⟨_, rfl, rfl⟩, Nat.le_refl _,
      kept.trans same⟩, heap⟩
  · obtain ⟨result, same, heap⟩ := mallocFound_whole bounded gap header indexed filed fits (by omega)
    refine ⟨result, _, ⟨pre, s, post, s, post, rfl, rfl, Or.inl rfl, fits, kept.trans same⟩, L, heap⟩

theorem HeapAt.spread (bounded : Bounded pool e)
    (heap : HeapAt pool e m (pre ++ ⟨b, s, true⟩ :: post) L) :
    Spread pool (FreeAt (pre ++ ⟨b, s, true⟩ :: post)) := by
  obtain ⟨prev, gap, _⟩ := heap.gap
  have same : FreeAt (pre ++ ⟨b, s, true⟩ :: post) = GapAt pre post b :=
    funext fun x => propext gapAt_iff
  rw [same]
  exact gap.spread bounded

theorem HeapAt.hand (bounded : Bounded pool e) {bs : List Blk} (heap : HeapAt pool e m bs L) {c : Cell}
    {rest : List Nat} (inside : c.Inside) (first : L c = b :: rest) {size n : Nat} (whole : size % 4 = 0)
    (least : minBlockSize ≤ size) (fits : ∀ s, s < 2 ^ 30 → s % 4 = 0 → cellOf s = c → size ≤ s)
    (enough : n ≤ size)
    (extracted : Spread pool (FreeAt bs) →
      Indexed pool w (Function.update L c rest) ∧ Untouched pool (FreeAt bs) m w) :
    (mallocFound w size b pool).1 = buffer b ∧
      ∃ cs, Handed pool e m (mallocFound w size b pool).2 bs n b cs := by
  obtain ⟨s, member, cell⟩ := (heap.filed c b).mp (by simp [first])
  obtain ⟨pre, post, shape⟩ := List.append_of_mem member
  subst shape cell
  obtain ⟨indexed, untouched⟩ := extracted (heap.spread bounded)
  obtain ⟨gap, header, last, kept, filed⟩ := heap.take untouched
  have filed := filed (heap.indexed.listed.nodup _ inside)
  rw [first, List.erase_cons_head] at filed
  have holds := fits s (gap.small bounded).1 gap.fits.whole rfl
  obtain ⟨result, cs, handed⟩ :=
    mallocFound_spec bounded gap header indexed filed last kept whole least holds
  obtain ⟨⟨pre', s', post', r, tail, shape, cut, behind, size', same⟩, heap'⟩ := handed
  exact ⟨result, cs, ⟨pre', s', post', r, tail, shape, cut, behind, le_trans enough size', same⟩, heap'⟩

theorem request_spec {n : Nat} (small : n ≤ 2 ^ 30 - 2 ^ 24) :
    ∃ size, (if n < minBlockSize then minBlockSize else roundupSize n) = size ∧
      size % 4 = 0 ∧ minBlockSize ≤ size ∧ n ≤ size ∧ size ≤ 2 ^ 30 - 2 ^ 24 := by
  refine ⟨_, rfl, ?_⟩
  by_cases tiny : n < minBlockSize
  · rw [if_pos tiny]
    exact ⟨rfl, Nat.le_refl _, tiny.le, by decide⟩
  · simp only [tiny, ↓reduceIte, roundupSize_eq (by omega : n ≤ 2 ^ 32 - 4)]
    simp only [minBlockSize] at *
    omega

theorem search_spec {size : Nat} (whole : size % 4 = 0) (top : size ≤ 2 ^ 30 - 2 ^ 24) :
    ∃ r fl sl, (if size < 32 then (size, 0, 0) else mappingSearch size) = (r, fl, sl) ∧ size ≤ r ∧
      r % 4 = 0 ∧ fl < realFli ∧ Serves r fl sl := by
  by_cases tiny : size < 32
  · rw [if_pos tiny]
    exact ⟨size, 0, 0, rfl, Nat.le_refl _, whole, by decide, serves_first (by omega)⟩
  · rw [if_neg tiny]
    obtain ⟨fl, sl, eq, up, multiple, row, _, serves⟩ := mappingSearch_spec (by omega) top whole
    exact ⟨searchSize size, fl, sl, eq, up, multiple, row, serves⟩

theorem mallocEx_spec (bounded : Bounded pool e) {bs : List Blk} (heap : HeapAt pool e m bs L) {n : Nat}
    (small : n ≤ 2 ^ 30 - 2 ^ 24) :
    mallocEx n pool m = (0, m) ∨ ∃ b cs, (mallocEx n pool m).1 = buffer b ∧
      Handed pool e m (mallocEx n pool m).2 bs n b cs := by
  obtain ⟨size, sizeIs, whole, least, enough, top⟩ := request_spec small
  simp only [mallocEx, sizeIs]
  by_cases found : (findSmallSuitableBlock size m pool).1 ≠ 0
  · obtain ⟨fl, rest, pair, inside, reach, first⟩ := findSmallSuitableBlock_spec heap.indexed found
    right
    rw [if_pos found, pair]
    obtain ⟨result, cs, handed⟩ := heap.hand bounded (c := .small fl) inside first whole
      least (fun s _ four cell => by have := cellOf_small cell; omega) enough
      (fun spread => extractSmallBlockHdr_indexed spread (fun d _ x => heap.filed.members d x)
        heap.indexed inside first)
    exact ⟨_, cs, result, handed⟩
  · rw [if_neg found]
    obtain ⟨r, fl, sl, searched, up, multiple, row, serves⟩ := search_spec whole top
    rw [searched]
    dsimp only
    by_cases none : (findSuitableBlock m pool fl sl).1 = 0
    · left
      rw [if_pos none]
    · obtain ⟨fl', sl', rest, triple, row', column', after, first⟩ :=
        findSuitableBlock_spec heap.indexed row none
      right
      rw [if_neg none, triple]
      obtain ⟨result, cs, handed⟩ := heap.hand bounded (c := .large fl' sl')
        ⟨row', column'⟩ first multiple (le_trans least up)
        (fun s inside _ cell => serves s fl' sl' inside cell after) (le_trans enough up)
        (fun spread => extractBlockHdr_indexed spread (fun d _ x => heap.filed.members d x)
          heap.indexed row' column' first)
      exact ⟨_, cs, result, handed⟩

def SameUsed (bs cs : List Blk) : Prop := ∀ x : Blk, x.free = false → (x ∈ cs ↔ x ∈ bs)

theorem SameUsed.trans {as bs cs : List Blk} (first : SameUsed as bs) (second : SameUsed bs cs) :
    SameUsed as cs :=
  fun x used => (second x used).trans (first x used)

theorem sameUsed_free (pre post : List Blk) (q r : Nat) : SameUsed (pre ++ ⟨q, r, true⟩ :: post) (pre ++ post) := by
  intro x isUsed
  have other : x ≠ ⟨q, r, true⟩ := fun is => by rw [is] at isUsed; cases isUsed
  simp [other]

/-- A gap that holds a block with its header, off every list. -/
structure Opened (pool e : Nat) (m : Mem) (pre : List Blk) (prev : Option Nat) (b s : Nat)
    (next : Option Nat) (post : List Blk) (L : Lists) : Prop where
  gap : Gap pool e m pre prev b s next post
  header : m (sizeField b) = hdrWord s true prev.isSome
  back : ∀ q, prev = some q → m b = ofPtr q
  indexed : Indexed pool m L
  filed : Filed (pre ++ post) L

theorem Opened.off (opened : Opened pool e m pre prev b s next post L) {a : Nat} (low : b ≤ a)
    (high : a < b + 4 + s + 8) : ∀ c, ∀ y ∈ L c, a ≠ freePrev y ∧ a ≠ freeNext y :=
  fun c y member => opened.gap.off_links low high (opened.filed.members c y member)

theorem HeapAt.opened (heap : HeapAt pool e m (pre ++ ⟨b, s, false⟩ :: post) L) :
    ∃ prev, Opened pool e (clearFreePtr (store m (sizeField b) (m (sizeField b) ||| freeBlock)) b)
        pre prev b s none post L ∧
      Kept (pre ++ post) m (clearFreePtr (store m (sizeField b) (m (sizeField b) ||| freeBlock)) b) := by
  obtain ⟨prev, gap, joint, _⟩ := heap.gap
  simp only [Bool.false_eq_true, ↓reduceIte] at gap
  have inside := gap.inside
  rw [firstBlock_eq] at inside
  have filed := Filed.used.mp heap.filed
  have off : ∀ a, b ≤ a → a < b + 4 + s + 8 → ∀ c, ∀ y ∈ L c, a ≠ freePrev y ∧ a ≠ freeNext y :=
    fun a low high c y member => gap.off_links low high (filed.members c y member)
  have loc : ∀ hi, b + 4 < hi → Local pool (GapAt pre post b) (b + 4) hi m
      (clearFreePtr (store m (sizeField b) (m (sizeField b) ||| freeBlock)) b) := by
    intro hi above
    have first : Local pool (GapAt pre post b) (b + 4) hi m
        (store m (sizeField b) (m (sizeField b) ||| freeBlock)) :=
      store_local _ (by simp only [sizeField]; omega) (by simp only [sizeField]; omega)
    exact first.trans (clearFreePtr_local (Or.inl rfl))
  refine ⟨prev, ⟨gap.change (loc _ (by omega)), ?_, ?_, ?_, filed⟩, gap.kept (loc _ (by omega))⟩
  · rw [clearFreePtr_header, joint.header, hdrWord_or_free inside.2.2.2]
  · intro q is
    rw [gap.back_same (loc (b + 4 + s) (by omega)) (by simp [is])]
    exact joint.back q is
  · have behind : ∀ a, b + 4 ≤ a → pool + sizeofTlsf ≤ a := by
      intro a low
      rw [sizeofTlsf_eq]
      omega
    apply Indexed.store_off
    · apply Indexed.store_off
      · apply heap.indexed.store_off
        · exact behind _ (by simp only [sizeField]; omega)
        · exact off _ (by simp only [sizeField]; omega) (by simp only [sizeField]; omega)
      · exact behind _ (by simp only [freePrev]; omega)
      · exact off _ (by simp only [freePrev]; omega) (by simp only [freePrev]; omega)
    · exact behind _ (by simp only [freeNext]; omega)
    · exact off _ (by simp only [freeNext]; omega) (by simp only [freeNext]; omega)

theorem absorb_spec {lo other r t : Nat} {f g : Bool} (grows : m (sizeField lo) = hdrWord r true f)
    (eaten : m (sizeField other) = hdrWord t true g) (whole : t % 4 = 0) (small : t < 2 ^ 30) :
    absorb m lo other = store m (sizeField lo) (hdrWord (r + (t + 4)) true f) := by
  rw [absorb, blockSize_header eaten whole small, grows, hdrWord_add]
  rfl

theorem Opened.extract (bounded : Bounded pool e) (opened : Opened pool e m pre prev b s next post L)
    {x t : Nat} (member : (⟨x, t, true⟩ : Blk) ∈ pre ++ post) (header : blockSize m x = t) :
    Indexed pool (extractFree m x pool) (Function.update L (cellOf t) ((L (cellOf t)).erase x)) ∧
      Untouched pool (GapAt pre post b) m (extractFree m x pool) := by
  have block := opened.gap.blocks _ member
  have large := bounded.large
  have listed : x ∈ L (cellOf t) := (opened.filed _ _).mpr ⟨t, member, rfl⟩
  apply extractFree_indexed (opened.gap.spread bounded) _ opened.indexed header _ listed
  · exact fun d _ y inList => Or.inr (opened.filed.members d y inList)
  · simp only [firstBlock_eq, Blk.next] at block
    rw [sizeofTlsf_eq] at large
    omega

theorem mergeNext_spec (bounded : Bounded pool e) (opened : Opened pool e m pre prev b s next post L) :
    ∃ s' next' post' K, Opened pool e (mergeNext m b pool) pre prev b s' next' post' K ∧
      s ≤ s' ∧ headFree post' = false ∧ SameUsed (pre ++ post) (pre ++ post') ∧
      Kept (pre ++ post) m (mergeNext m b pool) := by
  have gap := opened.gap
  have inside := gap.inside
  have small := gap.small bounded
  have joint := gap.rest.joint
  rw [firstBlock_eq] at inside
  have tested : m (sizeField (b + 4 + s)) &&& freeBlock ≠ 0#32 ↔ headFree post = true := by
    rw [joint.header, hdrWord_and_free gap.rest.head_whole, flags_ne_zero]
    simp
  simp only [mergeNext, blockSize_header opened.header inside.2.2.2 small.1, getNextBlock_eq, tested]
  cases free : headFree post with
  | false => exact ⟨s, next, post, L, opened, Nat.le_refl s, free, fun _ _ => Iff.rfl, fun _ _ _ _ _ _ => rfl⟩
  | true =>
    simp only [↓reduceIte]
    cases post with
    | nil => cases free
    | cons y post =>
      obtain ⟨c, t, f⟩ := y
      simp only [headFree] at free
      subst free
      obtain ⟨start, fits, _, nextJoint, tail⟩ := gap.rest
      simp only at start
      subst start
      simp only [Blk.link, ↓reduceIte, Blk.next] at tail
      have bound := tail.bounds.1
      have large := bounded.large
      have four : t % 4 = 0 := fits.whole
      have least : 12 ≤ t := fits.least
      have tSmall : t < 2 ^ 30 := by rw [sizeofTlsf_eq] at large; omega
      have size := blockSize_header nextJoint.header four tSmall
      obtain ⟨indexed, untouched⟩ := opened.extract bounded (by simp) size
      have keeps : ∀ a, a = sizeField b ∨ a = sizeField (b + 4 + s) →
          extractFree m (b + 4 + s) pool a = m a := by
        intro a is
        apply untouched a (by rw [sizeofTlsf_eq]; simp only [sizeField] at is; omega)
        rintro x (rfl | there)
        · simp only [sizeField, freePrev, freeNext] at *
          omega
        · exact gap.off_links (by simp only [sizeField] at is; omega)
            (by simp only [sizeField] at is; omega) there
      rw [absorb_spec ((keeps _ (Or.inl rfl)).trans opened.header)
        ((keeps _ (Or.inr rfl)).trans nextJoint.header) four tSmall]
      -- the gap now reaches over the neighbour
      have wider : Gap pool e m pre prev b (s + (t + 4)) (some (b + 4 + s)) post := by
        refine ⟨gap.run, ?_, ⟨by simp only; omega, by simp only [minBlockSize]; omega⟩⟩
        have same : b + 4 + (s + (t + 4)) = b + 4 + s + 4 + t := by omega
        rw [same]
        exact tail
      have loc : ∀ hi, b + 4 + (s + (t + 4)) ≤ hi → Local pool (GapAt pre post b) (b + 4) hi m
          (store (extractFree m (b + 4 + s) pool) (sizeField b)
            (hdrWord (s + (t + 4)) true prev.isSome)) := by
        intro hi above a behind away outside
        rw [store_other _ _ (by simp only [sizeField]; omega)]
        apply untouched a behind
        rintro x (rfl | ⟨r, there⟩)
        · exact outside x (Or.inl rfl)
        · simp only [List.mem_append, List.mem_cons, Blk.mk.injEq, and_true] at there
          rcases there with left | ⟨is, _⟩ | right
          · exact outside x (Or.inr ⟨r, List.mem_append_left _ left⟩)
          · simp only [freePrev, freeNext]
            omega
          · exact outside x (Or.inr ⟨r, List.mem_append_right _ right⟩)
      have used := sameUsed_free pre post (b + 4 + s) t
      refine ⟨s + (t + 4), some (b + 4 + s), post, _, ⟨wider.change (loc _ (Nat.le_refl _)),
        store_same _ _ _,
        ?_, indexed.store_off _ ?_ ?_, ?_⟩, Nat.le_add_right s _, headFree_of_link tail, used, ?_⟩
      · intro q is
        rw [wider.back_same (loc (b + 4 + (s + (t + 4))) (Nat.le_refl _)) (by simp [is])]
        exact opened.back q is
      · simp only [sizeField, sizeofTlsf_eq]
        omega
      · intro d y inList
        exact opened.off (by simp only [sizeField]; omega) (by simp only [sizeField]; omega) d y
          (mem_of_erased inList)
      · apply opened.filed.remove
        · intro x there is
          have far := wider.blocks x there
          have size := far.1.next_ge
          omega
        · exact opened.indexed.listed.nodup _ (cellOf_inside tSmall)
      · apply (wider.kept (loc _ (by omega))).mono
        intro x there isUsed
        exact (used x isUsed).mpr there

theorem mergePrev_spec (bounded : Bounded pool e) (opened : Opened pool e m pre prev b s next post L) :
    ∃ front s' K, Opened pool e (mergePrev m b pool).2 front none (mergePrev m b pool).1 s' next post K ∧
      ((mergePrev m b pool).1 ≤ b ∧ b + s ≤ (mergePrev m b pool).1 + s') ∧
      SameUsed (pre ++ post) (front ++ post) ∧ Kept (pre ++ post) m (mergePrev m b pool).2 := by
  have gap := opened.gap
  have inside := gap.inside
  have small := gap.small bounded
  have tested : m (sizeField b) &&& prevFree ≠ 0#32 ↔ prev.isSome = true := by
    rw [opened.header, hdrWord_and_prev inside.2.2.2, flags_ne_zero]
    simp
  simp only [mergePrev, tested]
  cases prev with
  | none =>
    simp only [Option.isSome_none, Bool.false_eq_true, ↓reduceIte]
    exact ⟨pre, s, L, opened, ⟨Nat.le_refl _, Nat.le_refl _⟩, fun _ _ => Iff.rfl, fun _ _ _ _ _ _ => rfl⟩
  | some q =>
    simp only [Option.isSome_some, ↓reduceIte]
    obtain ⟨front, r, shape, run, meets, fits, joint⟩ := gap.run.last_free
    subst shape
    have low := run.bounds.1
    have four : r % 4 = 0 := fits.whole
    have least : 12 ≤ r := fits.least
    rw [firstBlock_eq] at inside low
    have large := bounded.large
    have rSmall : r < 2 ^ 30 := by rw [sizeofTlsf_eq] at large; omega
    have pointer : (m b).toNat = q := by
      rw [opened.back q rfl, ofPtr, BitVec.toNat_ofNat, Nat.mod_eq_of_lt (by omega)]
    rw [pointer]
    have regroup : (front ++ [(⟨q, r, true⟩ : Blk)]) ++ post = front ++ ⟨q, r, true⟩ :: post := by simp
    have size := blockSize_header joint.header four rSmall
    obtain ⟨indexed, untouched⟩ := opened.extract bounded (x := q) (t := r) (by simp) size
    -- the gap now starts at the neighbour
    have wider : Gap pool e m front none q (r + (s + 4)) next post := by
      refine ⟨run, ?_, ⟨by simp only; omega, by simp only [minBlockSize]; omega⟩⟩
      have same : q + 4 + (r + (s + 4)) = b + 4 + s := by omega
      rw [same]
      exact gap.rest
    have keeps : ∀ a, a = sizeField b ∨ a = sizeField q → extractFree m q pool a = m a := by
      intro a is
      apply untouched a (by rw [sizeofTlsf_eq]; simp only [sizeField] at is; omega)
      rintro x (rfl | ⟨u, there⟩)
      · simp only [sizeField, freePrev, freeNext] at *
        omega
      · rw [regroup] at there
        simp only [List.mem_append, List.mem_cons, Blk.mk.injEq, and_true] at there
        rcases there with left | ⟨rfl, _⟩ | right
        · exact wider.off_links (by simp only [sizeField] at is; omega)
            (by simp only [sizeField] at is; omega) ⟨u, List.mem_append_left _ left⟩
        · simp only [sizeField, freePrev, freeNext] at *
          omega
        · exact wider.off_links (by simp only [sizeField] at is; omega)
            (by simp only [sizeField] at is; omega) ⟨u, List.mem_append_right _ right⟩
    rw [absorb_spec ((keeps _ (Or.inr rfl)).trans joint.header)
      ((keeps _ (Or.inl rfl)).trans opened.header) inside.2.2.2 small.1]
    have loc : ∀ hi, q + 4 + (r + (s + 4)) ≤ hi → Local pool (GapAt front post q) (q + 4) hi m
        (store (extractFree m q pool) (sizeField q) (hdrWord (r + (s + 4)) true false)) := by
      intro hi above a behind away outside
      rw [store_other _ _ (by simp only [sizeField]; omega)]
      apply untouched a behind
      rintro x (rfl | ⟨u, there⟩)
      · simp only [freePrev, freeNext]
        omega
      · rw [regroup] at there
        exact outside x (gapAt_iff.mp ⟨u, there⟩)
    have used : SameUsed ((front ++ [⟨q, r, true⟩]) ++ post) (front ++ post) := by
      rw [regroup]
      exact sameUsed_free front post q r
    refine ⟨front, r + (s + 4), _, ⟨wider.change (loc _ (Nat.le_refl _)), store_same _ _ _,
      (fun y is => by cases is), indexed.store_off _ ?_ ?_, ?_⟩, ⟨by omega, by omega⟩, used, ?_⟩
    · simp only [sizeField, sizeofTlsf_eq]
      omega
    · intro d y inList
      have there := opened.filed.members d y (mem_of_erased inList)
      rw [regroup, gapAt_iff] at there
      rcases there with rfl | free
      · simp only [sizeField, freePrev, freeNext]
        omega
      · exact wider.off_links (by simp only [sizeField]; omega) (by simp only [sizeField]; omega) free
    · have filed := opened.filed
      rw [regroup] at filed
      apply filed.remove
      · intro x there is
        have far := wider.blocks x there
        have size := far.1.next_ge
        omega
      · exact opened.indexed.listed.nodup _ (cellOf_inside rSmall)
    · apply (wider.kept (loc _ (by omega))).mono
      intro x there isUsed
      exact (used x isUsed).mpr there

/-- The end of `free_ex`: the block goes on its list and the header behind it
    learns of it. -/
def settle (m : Mem) (b pool : Nat) : Mem :=
  let m := insertFree m b pool
  let tmpB := getNextBlock (buffer b) (blockSize m b)
  let m := store m (sizeField tmpB) (m (sizeField tmpB) ||| prevFree)
  store m tmpB (ofPtr b)

theorem settle_spec (bounded : Bounded pool e) (opened : Opened pool e m pre none b s next post L)
    (last : headFree post = false) :
    (∃ K, HeapAt pool e (settle m b pool) (pre ++ ⟨b, s, true⟩ :: post) K) ∧
      Kept (pre ++ post) m (settle m b pool) := by
  have gap := opened.gap
  have inside := gap.inside
  have small := gap.small bounded
  have joint := gap.rest.joint
  have whole := gap.rest.head_whole
  rw [firstBlock_eq] at inside
  have fresh : ∀ d : Cell, d.Inside → b ∉ L d := by
    intro d _ member
    have far := gap.free_far (opened.filed.members d _ member)
    omega
  have size := blockSize_header opened.header inside.2.2.2 small.1
  obtain ⟨indexed, untouched⟩ := insertFree_indexed (gap.spread bounded)
    (fun d _ x member => Or.inr (opened.filed.members d x member)) opened.indexed (Or.inl rfl) fresh
    size small.1
  have keeps : ∀ a, b + 4 ≤ a → a < b + 4 + s + 8 → a ≠ freePrev b → a ≠ freeNext b →
      insertFree m b pool a = m a := by
    intro a low high prev next
    apply untouched a (by rw [sizeofTlsf_eq]; omega)
    rintro x (rfl | free)
    · exact ⟨prev, next⟩
    · exact gap.off_links (by omega) high free
  have own : insertFree m b pool (sizeField b) = hdrWord s true false := by
    rw [keeps, opened.header]
    · rfl
    all_goals simp only [sizeField, freePrev, freeNext]
    all_goals omega
  have behind : insertFree m b pool (sizeField (b + 4 + s)) =
      hdrWord (headSize post) (headFree post) next.isSome := by
    rw [keeps, joint.header]
    all_goals simp only [sizeField, freePrev, freeNext]
    all_goals omega
  have settled : settle m b pool = store (store (insertFree m b pool) (sizeField (b + 4 + s))
      (hdrWord (headSize post) (headFree post) true)) (b + 4 + s) (ofPtr b) := by
    simp only [settle, blockSize_header own inside.2.2.2 small.1, getNextBlock_eq, behind,
      hdrWord_or_prev whole]
  rw [settled]
  have loc : Local pool (GapAt pre post b) (b + 4) (b + 4 + s + 8) m
      (store (store (insertFree m b pool) (sizeField (b + 4 + s))
        (hdrWord (headSize post) (headFree post) true)) (b + 4 + s) (ofPtr b)) := by
    intro a after away outside
    rw [store_other _ _ (by omega), store_other _ _ (by simp only [sizeField]; omega)]
    exact untouched a after outside
  refine ⟨⟨_, ?_, ?_, opened.filed.add⟩, gap.kept loc⟩
  · refine gap.close ?_ ?_ (fun _ => ⟨rfl, last⟩) loc (fun q is => by cases is)
    · rw [store_other _ _ (by simp only [sizeField]; omega),
        store_other _ _ (by simp only [sizeField]; omega), own]
      rfl
    · constructor
      · rw [store_other _ _ (by simp only [sizeField]; omega), store_same]
        rfl
      · intro q is
        cases is
        rw [store_same]
  · have links : ∀ a, b + 4 + s ≤ a → a < b + 4 + s + 8 → ∀ d,
        ∀ y ∈ Function.update L (cellOf s) (b :: L (cellOf s)) d, a ≠ freePrev y ∧ a ≠ freeNext y := by
      intro a low high d y member
      rcases mem_of_added member with ⟨_, rfl⟩ | old
      · simp only [freePrev, freeNext]
        omega
      · exact opened.off (by omega) high d y old
    apply Indexed.store_off
    · apply indexed.store_off
      · simp only [sizeField, sizeofTlsf_eq]
        omega
      · exact links _ (by simp only [sizeField]; omega) (by simp only [sizeField]; omega)
    · rw [sizeofTlsf_eq]
      omega
    · exact links _ (Nat.le_refl _) (by omega)

theorem freeEx_eq (m : Mem) (b pool : Nat) :
    freeEx (buffer b) pool m =
      let start := clearFreePtr (store m (sizeField b) (m (sizeField b) ||| freeBlock)) b
      let merged := mergePrev (mergeNext start b pool) b pool
      settle merged.2 merged.1 pool := by
  have back : buffer b - 8 = b := by simp only [buffer]; omega
  simp only [freeEx, back, settle]

theorem freeEx_spec (bounded : Bounded pool e)
    (heap : HeapAt pool e m (pre ++ ⟨b, s, false⟩ :: post) L) :
    ∃ cs K, HeapAt pool e (freeEx (buffer b) pool m) cs K ∧
      (∃ x ∈ cs, x.free = true ∧ x.addr ≤ b ∧ b + 4 + s ≤ x.next) ∧ SameUsed (pre ++ post) cs ∧
      Kept (pre ++ post) m (freeEx (buffer b) pool m) := by
  obtain ⟨prev, opened, kept⟩ := heap.opened
  obtain ⟨s₁, next₁, post₁, L₁, opened₁, wider, last, used₁, kept₁⟩ := mergeNext_spec bounded opened
  obtain ⟨front, s₂, L₂, opened₂, ⟨before, behind⟩, used₂, kept₂⟩ := mergePrev_spec bounded opened₁
  obtain ⟨⟨K, final⟩, kept₃⟩ := settle_spec bounded opened₂ last
  rw [freeEx_eq]
  have used := used₁.trans used₂
  refine ⟨_, K, final, ⟨_, List.mem_append_right front List.mem_cons_self, rfl, before, ?_⟩, ?_, ?_⟩
  · simp only [Blk.next]
    omega
  · intro x isUsed
    rw [← used x isUsed]
    have other : x ≠ ⟨(mergePrev (mergeNext (clearFreePtr (store m (sizeField b)
        (m (sizeField b) ||| freeBlock)) b) b pool) b pool).1, s₂, true⟩ :=
      fun is => by rw [is] at isUsed; cases isUsed
    simp [other]
  · have second := kept₂.mono (fun x there isUsed => (used₁ x isUsed).mpr there)
    have third := kept₃.mono (fun x there isUsed => (used x isUsed).mpr there)
    exact ((kept.trans kept₁).trans second).trans third

end
end L4ertl.Tlsf
