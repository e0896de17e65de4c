import L4ertl.Core.TlsfWords
import L4ertl.Lib.Intrusive

/-!
The index of the free blocks: a doubly linked list for each cell and the three
bitmaps over them. The link words of a block lie in the block itself, so the
list operations are related to those of `Intrusive` on headers whose fields do
not overlap.
-/
namespace L4ertl.Tlsf
open Intrusive

theorem store_apply (m : Mem) (a x : Nat) (v : Word) : store m a v x = if x = a then v else m x := by
  simp only [store, Function.update_apply]

theorem store_same (m : Mem) (a : Nat) (v : Word) : store m a v a = v := by simp [store_apply]

theorem store_other (m : Mem) {a x : Nat} (v : Word) (other : x ≠ a) : store m a v x = m x := by
  simp [store_apply, other]

theorem guarded_apply (guard : Prop) [Decidable guard] (m : Mem) (a x : Nat) (v : Word) :
    (if guard then store m a v else m) x = if guard ∧ x = a then v else m x := by
  by_cases taken : guard
  · simp [taken, store_apply]
  · simp [taken]

theorem sizeofTlsf_eq : sizeofTlsf = 3176 := rfl

def ptrOf (w : Word) : Option Nat := if w = 0#32 then none else some w.toNat

theorem ptrOf_zero : ptrOf 0#32 = none := rfl

theorem ptrOf_ofPtr {a : Nat} (positive : a ≠ 0) (small : a < 2 ^ 32) : ptrOf (ofPtr a) = some a := by
  have value : (ofPtr a).toNat = a := by rw [ofPtr, BitVec.toNat_ofNat, Nat.mod_eq_of_lt small]
  have nonzero : ofPtr a ≠ 0#32 := by
    intro zero
    rw [zero] at value
    exact positive value.symm
  simp [ptrOf, nonzero, value]

theorem ptrOf_eq_some {w : Word} {a : Nat} : ptrOf w = some a ↔ w ≠ 0#32 ∧ w.toNat = a := by
  unfold ptrOf
  split <;> simp [*]

theorem ptrOf_eq_none {w : Word} : ptrOf w = none ↔ w = 0#32 := by
  unfold ptrOf
  split <;> simp [*]

def links (m : Mem) : Links Nat := fun b => ⟨ptrOf (m (freePrev b)), ptrOf (m (freeNext b))⟩

/-- Headers behind the control structure whose fields do not overlap. -/
structure Spread (pool : Nat) (N : Nat → Prop) : Prop where
  low : ∀ x, N x → pool + sizeofTlsf ≤ x + 4
  high : ∀ x, N x → x + 16 ≤ 2 ^ 32
  apart : ∀ x y, N x → N y → x = y ∨ x + 16 ≤ y ∨ y + 16 ≤ x

def Untouched (pool : Nat) (N : Nat → Prop) (m w : Mem) : Prop :=
  ∀ a, pool + sizeofTlsf ≤ a → (∀ x, N x → a ≠ freePrev x ∧ a ≠ freeNext x) → w a = m a

theorem Cell.head_bounds {c : Cell} (inside : c.Inside) (pool : Nat) :
    pool + 8 ≤ c.head pool ∧ c.head pool + 4 ≤ pool + sizeofTlsf ∧
      (∀ fl, fl < realFli → c.head pool ≠ slBitmap pool fl) ∧ c.head pool ≠ flBitmap pool := by
  cases c with
  | small fl =>
    simp only [Cell.Inside] at inside
    simp only [Cell.head, sbArray, sizeofTlsf_eq, slBitmap, flBitmap]
    exact ⟨by omega, by omega, fun _ _ => by omega, by omega⟩
  | large fl sl =>
    simp only [Cell.Inside, realFli, maxFli, fliOffset, maxSli] at inside
    simp only [Cell.head, matrix, sizeofTlsf_eq, slBitmap, flBitmap, realFli, maxFli, fliOffset, maxSli]
    exact ⟨by omega, by omega, fun _ _ => by omega, by omega⟩

theorem Cell.head_inj {c d : Cell} (hc : c.Inside) (hd : d.Inside) {pool : Nat}
    (same : c.head pool = d.head pool) : c = d := by
  cases c with
  | small fl =>
    cases d with
    | small k =>
      simp only [Cell.head, sbArray] at same
      rw [show fl = k by omega]
    | large k l =>
      simp only [Cell.Inside, Cell.head, sbArray, matrix] at hc same
      omega
  | large fl sl =>
    cases d with
    | small k =>
      simp only [Cell.Inside, Cell.head, sbArray, matrix] at hd same
      omega
    | large k l =>
      simp only [Cell.Inside, Cell.head, matrix, realFli, maxFli, fliOffset, maxSli] at hc hd same
      rw [show fl = k by omega, show sl = l by omega]

section
variable {pool : Nat} {N : Nat → Prop} {m : Mem} {head b : Nat}

theorem insertFront_eq (spread : Spread pool N) (hb : N b) (front : head + 4 ≤ pool + sizeofTlsf) (a : Nat) :
    insertFront m head b a =
      if a = head then ofPtr b
      else if m head ≠ 0#32 ∧ a = freePrev (m head).toNat then ofPtr b
      else if a = freeNext b then m head
      else if a = freePrev b then 0#32
      else m a := by
  have low := spread.low b hb
  have kept : store (store m (freePrev b) 0#32) (freeNext b) (m head) head = m head := by
    rw [store_other, store_other]
    · simp only [freePrev]; omega
    · simp only [freeNext]; omega
  simp only [insertFront, kept]
  by_cases empty : m head = 0#32
  · simp only [empty, ne_eq, not_true_eq_false, ↓reduceIte, false_and, store_apply]
  · simp only [empty, ne_eq, not_false_eq_true, ↓reduceIte, true_and, store_apply]

theorem unlinkBlock_eq (spread : Spread pool N) (hb : N b) (front : head + 4 ≤ pool + sizeofTlsf)
    (next : ∀ x, ptrOf (m (freeNext b)) = some x → N x)
    (prev : ∀ x, ptrOf (m (freePrev b)) = some x → N x) (a : Nat) :
    unlinkBlock m head b a =
      if a = head then (if m head = ofPtr b then m (freeNext b) else m head)
      else if m (freePrev b) ≠ 0#32 ∧ a = freeNext (m (freePrev b)).toNat then m (freeNext b)
      else if m (freeNext b) ≠ 0#32 ∧ a = freePrev (m (freeNext b)).toNat then m (freePrev b)
      else m a := by
  have low := spread.low b hb
  have nextKept : ¬ (m (freeNext b) ≠ 0#32 ∧ freeNext b = freePrev (m (freeNext b)).toNat) := by
    rintro ⟨some, same⟩
    have far := spread.apart b _ hb (next _ (ptrOf_eq_some.mpr ⟨some, rfl⟩))
    simp only [freeNext, freePrev] at same far
    omega
  have headKept : ¬ (m (freeNext b) ≠ 0#32 ∧ head = freePrev (m (freeNext b)).toNat) := by
    rintro ⟨some, same⟩
    have far := spread.low _ (next _ (ptrOf_eq_some.mpr ⟨some, rfl⟩))
    simp only [freePrev] at same far
    omega
  have headFar : ¬ (m (freePrev b) ≠ 0#32 ∧ head = freeNext (m (freePrev b)).toNat) := by
    rintro ⟨some, same⟩
    have far := spread.low _ (prev _ (ptrOf_eq_some.mpr ⟨some, rfl⟩))
    simp only [freeNext] at same far
    omega
  simp only [unlinkBlock, guarded_apply, ite_self, nextKept, headKept, headFar, ↓reduceIte]
  by_cases here : a = head
  · subst here
    simp only [and_true, headKept, headFar, ↓reduceIte]
  · simp only [here, and_false, ↓reduceIte]

theorem Spread.fields (spread : Spread pool N) {x y : Nat} (hx : N x) (hy : N y) :
    freePrev x ≠ freeNext y ∧ freeNext x ≠ freePrev y := by
  have far := spread.apart x y hx hy
  simp only [freePrev, freeNext]
  omega

theorem Spread.behind (spread : Spread pool N) {x : Nat} (hx : N x)
    (front : head + 4 ≤ pool + sizeofTlsf) : freePrev x ≠ head ∧ freeNext x ≠ head := by
  have low := spread.low x hx
  simp only [freePrev, freeNext]
  omega

theorem insertFront_links (spread : Spread pool N) (hb : N b) (front : head + 4 ≤ pool + sizeofTlsf)
    (first : ∀ x, ptrOf (m head) = some x → N x ∧ x ≠ b) {y : Nat} (hy : N y) :
    links (insertFront m head b) y =
      if y = b then ⟨none, ptrOf (m head)⟩ else patchPrev (links m) (ptrOf (m head)) (some b) y := by
  have isFirst : (m head ≠ 0#32 ∧ freePrev y = freePrev (m head).toNat) ↔ ptrOf (m head) = some y := by
    rw [ptrOf_eq_some]
    simp only [freePrev, Nat.add_right_cancel_iff, eq_comm]
  have notFirst : ¬ (m head ≠ 0#32 ∧ freeNext y = freePrev (m head).toNat) := by
    rintro ⟨some, same⟩
    exact (spread.fields hy (first _ (ptrOf_eq_some.mpr ⟨some, rfl⟩)).1).2 same
  have high := spread.high b hb
  have low := spread.low b hb
  have self : ptrOf (ofPtr b) = some b := by
    rw [sizeofTlsf_eq] at low
    exact ptrOf_ofPtr (by omega) (by omega)
  have fields := spread.fields hy hb
  have behind := spread.behind hy front
  simp only [links, insertFront_eq spread hb front, behind, fields, isFirst, notFirst, ↓reduceIte,
    patchPrev_apply]
  by_cases same : y = b
  · subst same
    have other : ptrOf (m head) ≠ some y := fun is => (first y is).2 rfl
    simp [other, ptrOf_zero]
  · have prevs : freePrev y ≠ freePrev b := by simp only [freePrev]; omega
    have nexts : freeNext y ≠ freeNext b := by simp only [freeNext]; omega
    simp only [same, prevs, nexts, ↓reduceIte]
    split <;> simp [self]

theorem insertFront_frame (spread : Spread pool N) (hb : N b) (front : head + 4 ≤ pool + sizeofTlsf)
    (first : ∀ x, ptrOf (m head) = some x → N x) {a : Nat} (other : a ≠ head)
    (outside : ∀ x, N x → a ≠ freePrev x ∧ a ≠ freeNext x) : insertFront m head b a = m a := by
  have notFirst : ¬ (m head ≠ 0#32 ∧ a = freePrev (m head).toNat) := by
    rintro ⟨some, same⟩
    exact (outside _ (first _ (ptrOf_eq_some.mpr ⟨some, rfl⟩))).1 same
  rw [insertFront_eq spread hb front, if_neg other, if_neg notFirst, if_neg (outside b hb).2,
    if_neg (outside b hb).1]

section
variable (next : ∀ x, ptrOf (m (freeNext b)) = some x → N x)
  (prev : ∀ x, ptrOf (m (freePrev b)) = some x → N x)
include next prev

theorem unlinkBlock_links (spread : Spread pool N) (hb : N b) (front : head + 4 ≤ pool + sizeofTlsf)
    {y : Nat} (hy : N y) : links (unlinkBlock m head b) y = bypass (links m) b y := by
  have isNext : (m (freeNext b) ≠ 0#32 ∧ freePrev y = freePrev (m (freeNext b)).toNat) ↔
      ptrOf (m (freeNext b)) = some y := by
    rw [ptrOf_eq_some]
    simp only [freePrev, Nat.add_right_cancel_iff, eq_comm]
  have isPrev : (m (freePrev b) ≠ 0#32 ∧ freeNext y = freeNext (m (freePrev b)).toNat) ↔
      ptrOf (m (freePrev b)) = some y := by
    rw [ptrOf_eq_some]
    simp only [freeNext, Nat.add_right_cancel_iff, eq_comm]
  have notPrev : ¬ (m (freePrev b) ≠ 0#32 ∧ freePrev y = freeNext (m (freePrev b)).toNat) := by
    rintro ⟨some, same⟩
    exact (spread.fields hy (prev _ (ptrOf_eq_some.mpr ⟨some, rfl⟩))).1 same
  have notNext : ¬ (m (freeNext b) ≠ 0#32 ∧ freeNext y = freePrev (m (freeNext b)).toNat) := by
    rintro ⟨some, same⟩
    exact (spread.fields hy (next _ (ptrOf_eq_some.mpr ⟨some, rfl⟩))).2 same
  have behind := spread.behind hy front
  rw [bypass_apply]
  simp only [links, unlinkBlock_eq spread hb front next prev, behind, isNext, isPrev, notPrev, notNext,
    ↓reduceIte]
  rw [apply_ite ptrOf, apply_ite ptrOf]
  congr

theorem unlinkBlock_frame (spread : Spread pool N) (hb : N b) (front : head + 4 ≤ pool + sizeofTlsf)
    {a : Nat} (other : a ≠ head) (outside : ∀ x, N x → a ≠ freePrev x ∧ a ≠ freeNext x) :
    unlinkBlock m head b a = m a := by
  have notPrev : ¬ (m (freePrev b) ≠ 0#32 ∧ a = freeNext (m (freePrev b)).toNat) := by
    rintro ⟨some, same⟩
    exact (outside _ (prev _ (ptrOf_eq_some.mpr ⟨some, rfl⟩))).2 same
  have notNext : ¬ (m (freeNext b) ≠ 0#32 ∧ a = freePrev (m (freeNext b)).toNat) := by
    rintro ⟨some, same⟩
    exact (outside _ (next _ (ptrOf_eq_some.mpr ⟨some, rfl⟩))).1 same
  rw [unlinkBlock_eq spread hb front next prev, if_neg other, if_neg notPrev, if_neg notNext]

theorem unlinkBlock_head (spread : Spread pool N) (hb : N b) (front : head + 4 ≤ pool + sizeofTlsf) :
    unlinkBlock m head b head = if m head = ofPtr b then m (freeNext b) else m head := by
  rw [unlinkBlock_eq spread hb front next prev, if_pos rfl]

end

end

abbrev Lists := Cell → List Nat

/-- Each list is what is linked from its head, and no block is in two places. -/
structure Listed (pool : Nat) (m : Mem) (L : Lists) : Prop where
  chain : ∀ c, c.Inside → Chain (links m) (ptrOf (m (c.head pool))) (L c)
  nodup : ∀ c, c.Inside → (L c).Nodup
  single : ∀ c d x, c.Inside → d.Inside → x ∈ L c → x ∈ L d → c = d

structure Marked (pool : Nat) (m : Mem) (L : Lists) : Prop where
  small : ∀ fl, fl < 32 → (isbitset (m (sbBitmap pool)) fl = true ↔ L (.small fl) ≠ [])
  column : ∀ fl sl, fl < realFli → sl < maxSli →
    (isbitset (m (slBitmap pool fl)) sl = true ↔ L (.large fl sl) ≠ [])
  row : ∀ fl, fl < 32 → (isbitset (m (flBitmap pool)) fl = true ↔
    fl < realFli ∧ ∃ sl, sl < maxSli ∧ L (.large fl sl) ≠ [])

structure Indexed (pool : Nat) (m : Mem) (L : Lists) : Prop where
  listed : Listed pool m L
  marked : Marked pool m L

section
variable {pool : Nat} {m w : Mem} {L : Lists} {c : Cell} {b : Nat}

theorem mem_of_added {d : Cell} {y : Nat} (later : y ∈ Function.update L c (b :: L c) d) :
    (d = c ∧ y = b) ∨ y ∈ L d := by
  by_cases same : d = c
  · subst same
    rw [Function.update_self, List.mem_cons] at later
    exact later.imp_left fun is => ⟨rfl, is⟩
  · rw [Function.update_of_ne same] at later
    exact Or.inr later

theorem Listed.insert (listed : Listed pool m L) (inside : c.Inside)
    (fresh : ∀ d, d.Inside → b ∉ L d) (cell : links w b = ⟨none, ptrOf (m (c.head pool))⟩)
    (others : ∀ d, d.Inside → ∀ y ∈ L d,
      links w y = patchPrev (links m) (ptrOf (m (c.head pool))) (some b) y)
    (head : ptrOf (w (c.head pool)) = some b)
    (heads : ∀ d, d.Inside → d ≠ c → w (d.head pool) = m (d.head pool)) :
    Listed pool w (Function.update L c (b :: L c)) := by
  have firstIn : ∀ x, ptrOf (m (c.head pool)) = some x → x ∈ L c := by
    intro x is
    rw [segment_head (listed.chain c inside)] at is
    exact List.mem_of_head? is
  constructor
  · intro d within
    by_cases same : d = c
    · subst same
      rw [Function.update_self, head]
      exact chain_cons (listed.chain d within) (listed.nodup d within) cell (others d within)
    · rw [Function.update_of_ne same, heads d within same]
      refine segment_congr ?_ (listed.chain d within)
      intro y member
      rw [others d within y member, patchPrev_apply, if_neg]
      intro is
      exact same (listed.single d c y within inside member (firstIn y is))
  · intro d within
    by_cases same : d = c
    · subst same
      rw [Function.update_self]
      exact List.nodup_cons.mpr ⟨fresh d within, listed.nodup d within⟩
    · rw [Function.update_of_ne same]
      exact listed.nodup d within
  · intro d e x hd he inD inE
    rcases mem_of_added inD with ⟨dc, isD⟩ | oldD
    · rcases mem_of_added inE with ⟨ec, _⟩ | oldE
      · rw [dc, ec]
      · exact absurd (isD ▸ oldE) (fresh e he)
    · rcases mem_of_added inE with ⟨_, isE⟩ | oldE
      · exact absurd (isE ▸ oldD) (fresh d hd)
      · exact listed.single d e x hd he oldD oldE

theorem mem_of_erased {d : Cell} {y : Nat} (later : y ∈ Function.update L c ((L c).erase b) d) : y ∈ L d := by
  by_cases same : d = c
  · subst same
    rw [Function.update_self] at later
    exact List.mem_of_mem_erase later
  · rwa [Function.update_of_ne same] at later

theorem Listed.remove (listed : Listed pool m L) (inside : c.Inside) (member : b ∈ L c)
    (others : ∀ d, d.Inside → ∀ y ∈ L d, y ≠ b → links w y = bypass (links m) b y)
    (head : ptrOf (w (c.head pool)) =
      if ptrOf (m (c.head pool)) = some b then (links m b).next else ptrOf (m (c.head pool)))
    (heads : ∀ d, d.Inside → d ≠ c → w (d.head pool) = m (d.head pool)) :
    Listed pool w (Function.update L c ((L c).erase b)) := by
  have nodup := listed.nodup c inside
  obtain ⟨as, bs, split⟩ := List.append_of_mem member
  have chain := listed.chain c inside
  rw [split] at nodup chain
  obtain ⟨back, forth, _⟩ := chain_split chain
  have erased : (L c).erase b = as ++ bs := by
    have before : b ∉ as := fun early => (List.nodup_append.mp nodup).2.2 b early b (by simp) rfl
    rw [split, List.erase_append_right _ before, List.erase_cons_head]
  have within : ∀ y ∈ (L c).erase b, y ∈ L c ∧ y ≠ b := by
    intro y later
    rw [← split] at nodup
    exact ⟨List.mem_of_mem_erase later, fun is => (List.Nodup.mem_erase_iff nodup).mp (is ▸ later) |>.1 rfl⟩
  have neighbours : ∀ y, (links m b).next = some y ∨ (links m b).prev = some y → y ∈ L c := by
    intro y is
    rw [split, back, forth] at *
    rcases is with after | earlier
    · exact List.mem_append_right _ (List.mem_cons_of_mem _ (List.mem_of_head? after))
    · exact List.mem_append_left _ (List.mem_of_getLast? earlier)
  constructor
  · intro d hd
    by_cases same : d = c
    · subst same
      rw [Function.update_self, head, erased]
      refine segment_congr ?_ (chain_bypass chain nodup)
      intro y later
      rw [← erased] at later
      exact others d hd y (within y later).1 (within y later).2
    · rw [Function.update_of_ne same, heads d hd same]
      refine segment_congr ?_ (listed.chain d hd)
      intro y later
      have other : y ≠ b := fun is => same (listed.single d c y hd inside later (is ▸ member))
      have far : y ∉ L c := fun also => same (listed.single d c y hd inside later also)
      have notNext : (links m b).next ≠ some y := fun is => far (neighbours y (Or.inl is))
      have notPrev : (links m b).prev ≠ some y := fun is => far (neighbours y (Or.inr is))
      rw [others d hd y later other, bypass_apply, if_neg notNext, if_neg notPrev]
  · intro d hd
    by_cases same : d = c
    · subst same
      rw [Function.update_self]
      exact (listed.nodup d hd).erase b
    · rw [Function.update_of_ne same]
      exact listed.nodup d hd
  · intro d e x hd he inD inE
    exact listed.single d e x hd he (mem_of_erased inD) (mem_of_erased inE)

theorem Marked.update_large (marked : Marked pool m L) {fl sl : Nat} (hfl : fl < realFli)
    (l : List Nat) (sb : w (sbBitmap pool) = m (sbBitmap pool))
    (bit : isbitset (w (slBitmap pool fl)) sl = true ↔ l ≠ [])
    (bits : ∀ j, j < 32 → j ≠ sl →
      isbitset (w (slBitmap pool fl)) j = isbitset (m (slBitmap pool fl)) j)
    (rows : ∀ r, r < realFli → r ≠ fl → w (slBitmap pool r) = m (slBitmap pool r))
    (top : isbitset (w (flBitmap pool)) fl = true ↔ w (slBitmap pool fl) ≠ 0#32)
    (tops : ∀ r, r < 32 → r ≠ fl → isbitset (w (flBitmap pool)) r = isbitset (m (flBitmap pool)) r) :
    Marked pool w (Function.update L (.large fl sl) l) := by
  have column : ∀ r j, r < realFli → j < maxSli →
      (isbitset (w (slBitmap pool r)) j = true ↔ Function.update L (.large fl sl) l (.large r j) ≠ []) := by
    intro r j hr hj
    by_cases same : r = fl ∧ j = sl
    · rw [same.1, same.2, Function.update_self]
      exact bit
    · rw [Function.update_of_ne (by simpa using same), ← marked.column r j hr hj]
      by_cases line : r = fl
      · rw [line, bits j hj (fun is => same ⟨line, is⟩)]
      · rw [rows r hr line]
  constructor
  · intro k hk
    rw [sb, Function.update_of_ne (by simp)]
    exact marked.small k hk
  · exact column
  · intro r hr
    by_cases line : r = fl
    · subst line
      rw [top, word_ne_zero_iff]
      constructor
      · rintro ⟨j, hj, set⟩
        exact ⟨hfl, j, hj, (column r j hfl hj).mp set⟩
      · rintro ⟨_, j, hj, some⟩
        exact ⟨j, hj, (column r j hfl hj).mpr some⟩
    · rw [tops r hr line, marked.row r hr]
      have same : ∀ j, Function.update L (.large fl sl) l (.large r j) = L (.large r j) := by
        intro j
        apply Function.update_of_ne
        simp [line]
      simp only [same]

theorem Marked.update_small (marked : Marked pool m L) {fl : Nat} (l : List Nat)
    (bit : isbitset (w (sbBitmap pool)) fl = true ↔ l ≠ [])
    (bits : ∀ j, j < 32 → j ≠ fl → isbitset (w (sbBitmap pool)) j = isbitset (m (sbBitmap pool)) j)
    (rows : ∀ r, r < realFli → w (slBitmap pool r) = m (slBitmap pool r))
    (top : w (flBitmap pool) = m (flBitmap pool)) :
    Marked pool w (Function.update L (.small fl) l) := by
  constructor
  · intro k hk
    by_cases same : k = fl
    · rw [same, Function.update_self]
      exact bit
    · rw [Function.update_of_ne (by simpa using same), bits k hk same]
      exact marked.small k hk
  · intro r j hr hj
    rw [rows r hr, Function.update_of_ne (by simp)]
    exact marked.column r j hr hj
  · intro r hr
    rw [top, marked.row r hr]
    have same : ∀ j, Function.update L (.small fl) l (.large r j) = L (.large r j) := by
      intro j
      apply Function.update_of_ne
      simp
    simp only [same]

theorem setBitAt_apply (m : Mem) (a nr x : Nat) :
    setBitAt m a nr x = if x = a then setbit (m a) nr else m x := by
  rw [setBitAt, store_apply]

def Bitmap (pool a : Nat) : Prop :=
  a = sbBitmap pool ∨ a = flBitmap pool ∨ ∃ fl, fl < realFli ∧ a = slBitmap pool fl

theorem Bitmap.low {a : Nat} (bitmap : Bitmap pool a) : a + 4 ≤ pool + sizeofTlsf := by
  rw [sizeofTlsf_eq]
  rcases bitmap with rfl | rfl | ⟨fl, inside, rfl⟩
  · simp only [sbBitmap]
    omega
  · simp only [flBitmap]
    omega
  · simp only [realFli, maxFli, fliOffset] at inside
    simp only [slBitmap]
    omega

theorem Cell.head_not_bitmap (inside : c.Inside) : ¬ Bitmap pool (c.head pool) := by
  obtain ⟨low, _, columns, row⟩ := Cell.head_bounds inside pool
  rintro (is | is | ⟨fl, hfl, is⟩)
  · simp only [sbBitmap] at is
    omega
  · exact row is
  · exact columns fl hfl is

section
variable {N : Nat → Prop} (spread : Spread pool N) (members : ∀ d, d.Inside → ∀ x ∈ L d, N x)
include spread members

omit members in
theorem Spread.not_bitmap {x a : Nat} (hx : N x) (bitmap : Bitmap pool a) :
    a ≠ freePrev x ∧ a ≠ freeNext x := by
  have low := spread.low x hx
  have early := bitmap.low
  simp only [freePrev, freeNext]
  omega

omit members in
theorem Spread.head_apart {x : Nat} (hx : N x) (inside : c.Inside) :
    c.head pool ≠ freePrev x ∧ c.head pool ≠ freeNext x := by
  have behind := spread.behind hx (Cell.head_bounds inside pool).2.1
  exact ⟨behind.1.symm, behind.2.symm⟩

theorem insertFront_listed (listed : Listed pool m L) (hb : N b) (fresh : ∀ d, d.Inside → b ∉ L d)
    (inside : c.Inside) (agree : ∀ a, ¬ Bitmap pool a → w a = insertFront m (c.head pool) b a) :
    Listed pool w (Function.update L c (b :: L c)) ∧ Untouched pool N m w ∧
      ∀ a, Bitmap pool a → insertFront m (c.head pool) b a = m a := by
  obtain ⟨_, front, _⟩ := Cell.head_bounds inside pool
  have first : ∀ x, ptrOf (m (c.head pool)) = some x → N x ∧ x ≠ b := by
    intro x is
    rw [segment_head (listed.chain c inside)] at is
    have member := List.mem_of_head? is
    exact ⟨members c inside x member, fun same => fresh c inside (same ▸ member)⟩
  have cells : ∀ y, N y → links w y = links (insertFront m (c.head pool) b) y := by
    intro y hy
    have prev : ¬ Bitmap pool (freePrev y) := fun is => (spread.not_bitmap hy is).1 rfl
    have next : ¬ Bitmap pool (freeNext y) := fun is => (spread.not_bitmap hy is).2 rfl
    simp only [links, agree _ prev, agree _ next]
  have apart := fun (d : Cell) (hd : d.Inside) (x : Nat) (hx : N x) => spread.head_apart hx hd
  refine ⟨?_, ?_, ?_⟩
  · apply listed.insert inside fresh
    · rw [cells b hb, insertFront_links spread hb front first hb, if_pos rfl]
    · intro d hd y member
      have other : y ≠ b := fun is => fresh d hd (is ▸ member)
      rw [cells y (members d hd y member),
        insertFront_links spread hb front first (members d hd y member), if_neg other]
    · have low := spread.low b hb
      have high := spread.high b hb
      rw [sizeofTlsf_eq] at low
      rw [agree _ (Cell.head_not_bitmap inside), insertFront_eq spread hb front, if_pos rfl,
        ptrOf_ofPtr (by omega) (by omega)]
    · intro d hd other
      rw [agree _ (Cell.head_not_bitmap hd)]
      apply insertFront_frame spread hb front (fun x is => (first x is).1) _ (apart d hd)
      exact fun same => other (Cell.head_inj hd inside same)
  · intro a behind outside
    have notBitmap : ¬ Bitmap pool a := fun is => by have := is.low; omega
    rw [agree a notBitmap]
    exact insertFront_frame spread hb front (fun x is => (first x is).1) (by omega) outside
  · intro a bitmap
    apply insertFront_frame spread hb front (fun x is => (first x is).1)
    · exact fun is => Cell.head_not_bitmap inside (is ▸ bitmap)
    · exact fun x hx => spread.not_bitmap hx bitmap

theorem unlinkBlock_listed (listed : Listed pool m L) (inside : c.Inside) (member : b ∈ L c)
    (agree : ∀ a, ¬ Bitmap pool a → a ≠ freePrev b → a ≠ freeNext b →
      w a = unlinkBlock m (c.head pool) b a) :
    Listed pool w (Function.update L c ((L c).erase b)) ∧ Untouched pool N m w ∧
      ∀ a, Bitmap pool a → unlinkBlock m (c.head pool) b a = m a := by
  have hb : N b := members c inside b member
  obtain ⟨_, front, _⟩ := Cell.head_bounds inside pool
  obtain ⟨as, bs, split⟩ := List.append_of_mem member
  have chain := listed.chain c inside
  rw [split] at chain
  obtain ⟨back, forth, _⟩ := chain_split chain
  have next : ∀ x, ptrOf (m (freeNext b)) = some x → N x := by
    intro x is
    apply members c inside
    rw [split]
    exact List.mem_append_right _ (List.mem_cons_of_mem _ (List.mem_of_head? (forth.symm.trans is)))
  have prev : ∀ x, ptrOf (m (freePrev b)) = some x → N x := by
    intro x is
    apply members c inside
    rw [split]
    exact List.mem_append_left _ (List.mem_of_getLast? (back.symm.trans is))
  have apart := fun (d : Cell) (hd : d.Inside) (x : Nat) (hx : N x) => spread.head_apart hx hd
  have headKept : ∀ d : Cell, d.Inside → w (d.head pool) = unlinkBlock m (c.head pool) b (d.head pool) :=
    fun d hd => agree _ (Cell.head_not_bitmap hd) (apart d hd b hb).1 (apart d hd b hb).2
  refine ⟨?_, ?_, ?_⟩
  · apply listed.remove inside member
    · intro d hd y inList other
      have hy := members d hd y inList
      have notPrev : ¬ Bitmap pool (freePrev y) := fun is => (spread.not_bitmap hy is).1 rfl
      have notNext : ¬ Bitmap pool (freeNext y) := fun is => (spread.not_bitmap hy is).2 rfl
      have fields := spread.fields hy hb
      have prevs : freePrev y ≠ freePrev b := by simp only [freePrev]; omega
      have nexts : freeNext y ≠ freeNext b := by simp only [freeNext]; omega
      rw [← unlinkBlock_links next prev spread hb front hy]
      simp only [links, agree _ notPrev prevs fields.1, agree _ notNext fields.2 nexts]
    · rw [headKept c inside, unlinkBlock_head next prev spread hb front, apply_ite ptrOf]
      have low := spread.low b hb
      have high := spread.high b hb
      rw [sizeofTlsf_eq] at low
      have isHead : m (c.head pool) = ofPtr b ↔ ptrOf (m (c.head pool)) = some b := by
        constructor
        · intro is
          rw [is, ptrOf_ofPtr (by omega) (by omega)]
        · intro is
          obtain ⟨_, value⟩ := ptrOf_eq_some.mp is
          apply BitVec.eq_of_toNat_eq
          rw [value, ofPtr, BitVec.toNat_ofNat, Nat.mod_eq_of_lt (by omega)]
      simp only [isHead]
      congr
    · intro d hd other
      rw [headKept d hd]
      apply unlinkBlock_frame next prev spread hb front _ (apart d hd)
      exact fun same => other (Cell.head_inj hd inside same)
  · intro a behind outside
    have notBitmap : ¬ Bitmap pool a := fun is => by have := is.low; omega
    rw [agree a notBitmap (outside b hb).1 (outside b hb).2]
    exact unlinkBlock_frame next prev spread hb front (by omega) outside
  · intro a bitmap
    apply unlinkBlock_frame next prev spread hb front
    · exact fun is => Cell.head_not_bitmap inside (is ▸ bitmap)
    · exact fun x hx => spread.not_bitmap hx bitmap

theorem insertBlock_indexed (idx : Indexed pool m L) (hb : N b) (fresh : ∀ d, d.Inside → b ∉ L d)
    {fl sl : Nat} (hfl : fl < realFli) (hsl : sl < maxSli) :
    Indexed pool (insertBlock m b pool fl sl)
        (Function.update L (.large fl sl) (b :: L (.large fl sl))) ∧
      Untouched pool N m (insertBlock m b pool fl sl) := by
  have column : Bitmap pool (slBitmap pool fl) := Or.inr (Or.inr ⟨fl, hfl, rfl⟩)
  have row : Bitmap pool (flBitmap pool) := Or.inr (Or.inl rfl)
  have apart : slBitmap pool fl ≠ flBitmap pool := by simp only [slBitmap, flBitmap]; omega
  obtain ⟨listed, untouched, kept⟩ := insertFront_listed spread members idx.listed hb fresh
    (c := .large fl sl) (w := insertBlock m b pool fl sl) ⟨hfl, hsl⟩ (by
      intro a notBitmap
      have notRow : a ≠ flBitmap pool := fun is => notBitmap (is ▸ row)
      have notColumn : a ≠ slBitmap pool fl := fun is => notBitmap (is ▸ column)
      simp only [insertBlock, setBitAt_apply, notRow, notColumn, ↓reduceIte, Cell.head])
  simp only [Cell.head] at kept
  have columnIs : insertBlock m b pool fl sl (slBitmap pool fl) = setbit (m (slBitmap pool fl)) sl := by
    simp only [insertBlock, setBitAt_apply, apart, ↓reduceIte, kept _ column]
  have rowIs : insertBlock m b pool fl sl (flBitmap pool) = setbit (m (flBitmap pool)) fl := by
    simp only [insertBlock, setBitAt_apply, apart.symm, ↓reduceIte, kept _ row]
  have rest : ∀ a, Bitmap pool a → a ≠ flBitmap pool → a ≠ slBitmap pool fl →
      insertBlock m b pool fl sl a = m a := by
    intro a bitmap notRow notColumn
    simp only [insertBlock, setBitAt_apply, notRow, notColumn, ↓reduceIte, kept _ bitmap]
  have set : isbitset (insertBlock m b pool fl sl (slBitmap pool fl)) sl = true := by
    rw [columnIs, isbitset_setbit _ hsl]
    simp
  refine ⟨⟨listed, ?_⟩, untouched⟩
  apply idx.marked.update_large hfl
  · apply rest _ (Or.inl rfl)
    · simp only [sbBitmap, flBitmap]; omega
    · simp only [sbBitmap, slBitmap]; omega
  · simp [set]
  · intro j hj other
    rw [columnIs, isbitset_setbit _ hj]
    simp [other]
  · intro r hr other
    apply rest _ (Or.inr (Or.inr ⟨r, hr, rfl⟩))
    · simp only [slBitmap, flBitmap]; omega
    · simp only [slBitmap]; omega
  · have inside : fl < 32 := lt_trans hfl (by decide)
    have nonzero := (word_ne_zero_iff _).mpr ⟨sl, hsl, set⟩
    rw [rowIs, isbitset_setbit _ inside]
    simp [nonzero]
  · intro r hr other
    rw [rowIs, isbitset_setbit _ hr]
    simp [other]

theorem insertSmallBlock_indexed (idx : Indexed pool m L) (hb : N b)
    (fresh : ∀ d, d.Inside → b ∉ L d) {fl : Nat} (hfl : fl < 32) :
    Indexed pool (insertSmallBlock m b pool fl) (Function.update L (.small fl) (b :: L (.small fl))) ∧
      Untouched pool N m (insertSmallBlock m b pool fl) := by
  have bitmap : Bitmap pool (sbBitmap pool) := Or.inl rfl
  obtain ⟨listed, untouched, kept⟩ := insertFront_listed spread members idx.listed hb fresh
    (c := .small fl) (w := insertSmallBlock m b pool fl) hfl (by
      intro a notBitmap
      have other : a ≠ sbBitmap pool := fun is => notBitmap (is ▸ bitmap)
      simp only [insertSmallBlock, setBitAt_apply, other, ↓reduceIte, Cell.head])
  simp only [Cell.head] at kept
  have wordIs : insertSmallBlock m b pool fl (sbBitmap pool) = setbit (m (sbBitmap pool)) fl := by
    simp only [insertSmallBlock, setBitAt_apply, ↓reduceIte, kept _ bitmap]
  have rest : ∀ a, Bitmap pool a → a ≠ sbBitmap pool → insertSmallBlock m b pool fl a = m a := by
    intro a is other
    simp only [insertSmallBlock, setBitAt_apply, other, ↓reduceIte, kept _ is]
  refine ⟨⟨listed, ?_⟩, untouched⟩
  apply idx.marked.update_small
  · rw [wordIs, isbitset_setbit _ hfl]
    simp
  · intro j hj other
    rw [wordIs, isbitset_setbit _ hj]
    simp [other]
  · intro r hr
    apply rest _ (Or.inr (Or.inr ⟨r, hr, rfl⟩))
    simp only [slBitmap, sbBitmap]
    omega
  · apply rest _ (Or.inr (Or.inl rfl))
    simp only [flBitmap, sbBitmap]
    omega

theorem removed_large (idx : Indexed pool m L) {fl sl : Nat} (hfl : fl < realFli) (hsl : sl < maxSli)
    (member : b ∈ L (.large fl sl))
    (agree : ∀ a, ¬ Bitmap pool a → a ≠ freePrev b → a ≠ freeNext b →
      w a = unlinkBlock m (matrix pool fl sl) b a)
    (columnIs : w (slBitmap pool fl) = if w (matrix pool fl sl) = 0#32
      then clearbit (m (slBitmap pool fl)) sl else m (slBitmap pool fl))
    (rowIs : w (flBitmap pool) = if w (slBitmap pool fl) = 0#32
      then clearbit (m (flBitmap pool)) fl else m (flBitmap pool))
    (rest : ∀ a, Bitmap pool a → a ≠ flBitmap pool → a ≠ slBitmap pool fl → w a = m a) :
    Indexed pool w (Function.update L (.large fl sl) ((L (.large fl sl)).erase b)) ∧
      Untouched pool N m w := by
  have inside : (Cell.large fl sl).Inside := ⟨hfl, hsl⟩
  have nonempty : L (.large fl sl) ≠ [] := List.ne_nil_of_mem member
  obtain ⟨listed, untouched, _⟩ := unlinkBlock_listed spread members idx.listed inside member agree
  have emptied := segment_empty_iff (listed.chain (.large fl sl) inside)
  rw [Function.update_self, ptrOf_eq_none] at emptied
  simp only [Cell.head] at emptied
  refine ⟨⟨listed, ?_⟩, untouched⟩
  apply idx.marked.update_large hfl
  · apply rest _ (Or.inl rfl)
    · simp only [sbBitmap, flBitmap]; omega
    · simp only [sbBitmap, slBitmap]; omega
  · rw [columnIs, ne_eq, ← emptied]
    by_cases empty : w (matrix pool fl sl) = 0#32
    · simp [empty, isbitset_clearbit _ hsl]
    · simp [empty, (idx.marked.column fl sl hfl hsl).mpr nonempty]
  · intro j hj other
    rw [columnIs]
    split
    · simp [isbitset_clearbit _ hj, other]
    · rfl
  · intro r hr other
    apply rest _ (Or.inr (Or.inr ⟨r, hr, rfl⟩))
    · simp only [slBitmap, flBitmap]; omega
    · simp only [slBitmap]; omega
  · have low : fl < 32 := lt_trans hfl (by decide)
    rw [rowIs]
    by_cases empty : w (slBitmap pool fl) = 0#32
    · simp [empty, isbitset_clearbit _ low]
    · have set := (idx.marked.row fl low).mpr ⟨hfl, sl, hsl, nonempty⟩
      simp [empty, set]
  · intro r hr other
    rw [rowIs]
    split
    · simp [isbitset_clearbit _ hr, other]
    · rfl

theorem removed_small (idx : Indexed pool m L) {fl : Nat} (hfl : fl < 32) (member : b ∈ L (.small fl))
    (agree : ∀ a, ¬ Bitmap pool a → a ≠ freePrev b → a ≠ freeNext b →
      w a = unlinkBlock m (sbArray pool fl) b a)
    (wordIs : w (sbBitmap pool) = if w (sbArray pool fl) = 0#32
      then clearbit (m (sbBitmap pool)) fl else m (sbBitmap pool))
    (rest : ∀ a, Bitmap pool a → a ≠ sbBitmap pool → w a = m a) :
    Indexed pool w (Function.update L (.small fl) ((L (.small fl)).erase b)) ∧
      Untouched pool N m w := by
  have nonempty : L (.small fl) ≠ [] := List.ne_nil_of_mem member
  obtain ⟨listed, untouched, _⟩ :=
    unlinkBlock_listed spread members idx.listed (c := .small fl) hfl member agree
  have emptied := segment_empty_iff (listed.chain (.small fl) hfl)
  rw [Function.update_self, ptrOf_eq_none] at emptied
  simp only [Cell.head] at emptied
  refine ⟨⟨listed, ?_⟩, untouched⟩
  apply idx.marked.update_small
  · rw [wordIs, ne_eq, ← emptied]
    by_cases empty : w (sbArray pool fl) = 0#32
    · simp [empty, isbitset_clearbit _ hfl]
    · simp [empty, (idx.marked.small fl hfl).mpr nonempty]
  · intro j hj other
    rw [wordIs]
    split
    · simp [isbitset_clearbit _ hj, other]
    · rfl
  · intro r hr
    apply rest _ (Or.inr (Or.inr ⟨r, hr, rfl⟩))
    simp only [slBitmap, sbBitmap]
    omega
  · apply rest _ (Or.inr (Or.inl rfl))
    simp only [flBitmap, sbBitmap]
    omega

omit spread members in
theorem clearFreePtr_other (m : Mem) {a : Nat} (prev : a ≠ freePrev b) (next : a ≠ freeNext b) :
    clearFreePtr m b a = m a := by
  rw [clearFreePtr, store_other _ _ next, store_other _ _ prev]

omit spread members in
theorem clearFreePtr_header (m : Mem) (v : Word) :
    clearFreePtr (store m (sizeField b) v) b (sizeField b) = v := by
  rw [clearFreePtr_other, store_same]
  · simp only [sizeField, freePrev]
    omega
  · simp only [sizeField, freeNext]
    omega

theorem extractBlock_indexed (idx : Indexed pool m L) {fl sl : Nat} (hfl : fl < realFli)
    (hsl : sl < maxSli) (member : b ∈ L (.large fl sl)) :
    Indexed pool (extractBlock m b pool fl sl)
        (Function.update L (.large fl sl) ((L (.large fl sl)).erase b)) ∧
      Untouched pool N m (extractBlock m b pool fl sl) := by
  have inside : (Cell.large fl sl).Inside := ⟨hfl, hsl⟩
  have hb := members (.large fl sl) inside b member
  have column : Bitmap pool (slBitmap pool fl) := Or.inr (Or.inr ⟨fl, hfl, rfl⟩)
  have row : Bitmap pool (flBitmap pool) := Or.inr (Or.inl rfl)
  have apart : slBitmap pool fl ≠ flBitmap pool := by simp only [slBitmap, flBitmap]; omega
  have headApart := spread.head_apart hb inside
  obtain ⟨_, _, headColumn, headRow⟩ := Cell.head_bounds inside pool
  have headColumn := headColumn fl hfl
  simp only [Cell.head] at headApart headColumn headRow
  obtain ⟨_, _, kept⟩ := unlinkBlock_listed spread members idx.listed inside member
    (w := unlinkBlock m (matrix pool fl sl) b) (fun a _ _ _ => rfl)
  simp only [Cell.head] at kept
  have bitmapApart := fun (a : Nat) (is : Bitmap pool a) => spread.not_bitmap hb is
  have away : ∀ a, a ≠ freePrev b → a ≠ freeNext b → a ≠ flBitmap pool → a ≠ slBitmap pool fl →
      extractBlock m b pool fl sl a = unlinkBlock m (matrix pool fl sl) b a := by
    intro a prev next notRow notColumn
    simp only [extractBlock, clearFreePtr_other _ prev next, clearBitAt, guarded_apply, notRow, notColumn,
      and_false, ↓reduceIte]
  have columnIs : extractBlock m b pool fl sl (slBitmap pool fl) =
      if unlinkBlock m (matrix pool fl sl) b (matrix pool fl sl) = 0#32
      then clearbit (m (slBitmap pool fl)) sl else m (slBitmap pool fl) := by
    have off := bitmapApart _ column
    simp only [extractBlock, clearFreePtr_other _ off.1 off.2, clearBitAt, guarded_apply, apart, and_false,
      and_true, ↓reduceIte, kept _ column]
  apply removed_large spread members idx hfl hsl member
  · intro a notBitmap prev next
    exact away a prev next (fun is => notBitmap (is ▸ row)) (fun is => notBitmap (is ▸ column))
  · rw [columnIs, away _ headApart.1 headApart.2 headRow headColumn]
  · have off := bitmapApart _ row
    rw [columnIs]
    simp only [extractBlock, clearFreePtr_other _ off.1 off.2, clearBitAt, guarded_apply, apart.symm,
      and_false, and_true, ↓reduceIte, kept _ row, kept _ column]
  · intro a bitmap notRow notColumn
    have off := bitmapApart a bitmap
    rw [away a off.1 off.2 notRow notColumn, kept a bitmap]

theorem extractSmallBlock_indexed (idx : Indexed pool m L) {fl : Nat} (hfl : fl < 32)
    (member : b ∈ L (.small fl)) :
    Indexed pool (extractSmallBlock m b pool fl)
        (Function.update L (.small fl) ((L (.small fl)).erase b)) ∧
      Untouched pool N m (extractSmallBlock m b pool fl) := by
  have inside : (Cell.small fl).Inside := hfl
  have hb := members (.small fl) inside b member
  have bitmap : Bitmap pool (sbBitmap pool) := Or.inl rfl
  have headApart := spread.head_apart hb inside
  have headWord : sbArray pool fl ≠ sbBitmap pool := by simp only [sbArray, sbBitmap]; omega
  simp only [Cell.head] at headApart
  obtain ⟨_, _, kept⟩ := unlinkBlock_listed spread members idx.listed inside member
    (w := unlinkBlock m (sbArray pool fl) b) (fun a _ _ _ => rfl)
  simp only [Cell.head] at kept
  have away : ∀ a, a ≠ freePrev b → a ≠ freeNext b → a ≠ sbBitmap pool →
      extractSmallBlock m b pool fl a = unlinkBlock m (sbArray pool fl) b a := by
    intro a prev next other
    simp only [extractSmallBlock, clearFreePtr_other _ prev next, clearBitAt, guarded_apply, other,
      and_false, ↓reduceIte]
  apply removed_small spread members idx hfl member
  · intro a notBitmap prev next
    exact away a prev next (fun is => notBitmap (is ▸ bitmap))
  · have off := spread.not_bitmap hb bitmap
    rw [away _ headApart.1 headApart.2 headWord]
    simp only [extractSmallBlock, clearFreePtr_other _ off.1 off.2, clearBitAt, guarded_apply, and_true,
      kept _ bitmap]
  · intro a is other
    have off := spread.not_bitmap hb is
    rw [away a off.1 off.2 other, kept a is]

/-- For the first block of a list the shorter code of the `_HDR` macros unlinks
    it as well. -/
theorem pop_eq_unlink (listed : Listed pool m L) (inside : c.Inside) {rest : List Nat}
    (first : L c = b :: rest) :
    (store m (c.head pool) (m (freeNext b)) (c.head pool) =
        unlinkBlock m (c.head pool) b (c.head pool)) ∧
      (unlinkBlock m (c.head pool) b (c.head pool) = 0#32 →
        store m (c.head pool) (m (freeNext b)) = unlinkBlock m (c.head pool) b) ∧
      (unlinkBlock m (c.head pool) b (c.head pool) ≠ 0#32 →
        store (store m (c.head pool) (m (freeNext b)))
            (freePrev (unlinkBlock m (c.head pool) b (c.head pool)).toNat) 0#32 =
          unlinkBlock m (c.head pool) b) := by
  have hb : N b := members c inside b (by simp [first])
  obtain ⟨_, front, _⟩ := Cell.head_bounds inside pool
  have chain := listed.chain c inside
  rw [first] at chain
  obtain ⟨headIs, noPrev, tail⟩ := chain
  have prevZero : m (freePrev b) = 0#32 := ptrOf_eq_none.mp noPrev
  have prev : ∀ x, ptrOf (m (freePrev b)) = some x → N x := by
    intro x is
    rw [prevZero] at is
    cases is
  have next : ∀ x, ptrOf (m (freeNext b)) = some x → N x := by
    intro x is
    have inRest := List.mem_of_head? ((segment_head tail).symm.trans is)
    exact members c inside x (by simp [first, inRest])
  have headWord : m (c.head pool) = ofPtr b := by
    obtain ⟨_, value⟩ := ptrOf_eq_some.mp headIs
    have high := spread.high b hb
    apply BitVec.eq_of_toNat_eq
    rw [value, ofPtr, BitVec.toNat_ofNat, Nat.mod_eq_of_lt (by omega)]
  have unlinked := unlinkBlock_eq spread hb front next prev
  simp only [headWord, prevZero, ne_eq, not_true_eq_false, false_and, ↓reduceIte] at unlinked
  have headNow : unlinkBlock m (c.head pool) b (c.head pool) = m (freeNext b) := by simp [unlinked]
  refine ⟨by rw [store_same, headNow], ?_, ?_⟩
  · rw [headNow]
    intro last
    funext a
    rw [unlinked, store_apply]
    simp [last]
  · rw [headNow]
    intro more
    funext a
    have apart := spread.head_apart (next _ (ptrOf_eq_some.mpr ⟨more, rfl⟩)) inside
    rw [unlinked, store_apply, store_apply]
    by_cases here : a = c.head pool
    · simp [here, apart.1]
    · simp [here, more]

theorem extractBlockHdr_eq (listed : Listed pool m L) {fl sl : Nat} (hfl : fl < realFli)
    (hsl : sl < maxSli) {rest : List Nat} (first : L (.large fl sl) = b :: rest) :
    extractBlockHdr m b pool fl sl = extractBlock m b pool fl sl := by
  have inside : (Cell.large fl sl).Inside := ⟨hfl, hsl⟩
  have hb : N b := members _ inside b (by simp [first])
  have column : Bitmap pool (slBitmap pool fl) := Or.inr (Or.inr ⟨fl, hfl, rfl⟩)
  have row : Bitmap pool (flBitmap pool) := Or.inr (Or.inl rfl)
  have offColumn := spread.not_bitmap hb column
  have offRow := spread.not_bitmap hb row
  obtain ⟨headIs, last, more⟩ := pop_eq_unlink spread members listed inside first
  simp only [Cell.head] at headIs last more
  have popped : (if unlinkBlock m (matrix pool fl sl) b (matrix pool fl sl) ≠ 0#32 then
        store (store m (matrix pool fl sl) (m (freeNext b)))
          (freePrev (unlinkBlock m (matrix pool fl sl) b (matrix pool fl sl)).toNat) 0#32
      else clearBitAt (store m (matrix pool fl sl) (m (freeNext b))) (slBitmap pool fl) sl) =
      if unlinkBlock m (matrix pool fl sl) b (matrix pool fl sl) = 0#32
      then clearBitAt (unlinkBlock m (matrix pool fl sl) b) (slBitmap pool fl) sl
      else unlinkBlock m (matrix pool fl sl) b := by
    by_cases empty : unlinkBlock m (matrix pool fl sl) b (matrix pool fl sl) = 0#32
    · simp only [empty, ne_eq, not_true_eq_false, ↓reduceIte, last empty]
    · simp only [empty, ne_eq, not_false_eq_true, ↓reduceIte, more empty]
  simp only [extractBlockHdr, extractBlock, headIs, popped]
  generalize (if unlinkBlock m (matrix pool fl sl) b (matrix pool fl sl) = 0#32
      then clearBitAt (unlinkBlock m (matrix pool fl sl) b) (slBitmap pool fl) sl
      else unlinkBlock m (matrix pool fl sl) b) = u
  rw [clearFreePtr_other u offColumn.1 offColumn.2]
  split
  · -- the row's bit and the links of the block are different words
    funext a
    simp only [clearFreePtr, clearBitAt, store_apply, offRow.1, offRow.2, ↓reduceIte]
    by_cases here : a = flBitmap pool
    · simp [here, offRow.1, offRow.2]
    · simp [here]
  · rfl

theorem extractBlockHdr_indexed (idx : Indexed pool m L) {fl sl : Nat} (hfl : fl < realFli)
    (hsl : sl < maxSli) {rest : List Nat} (first : L (.large fl sl) = b :: rest) :
    Indexed pool (extractBlockHdr m b pool fl sl) (Function.update L (.large fl sl) rest) ∧
      Untouched pool N m (extractBlockHdr m b pool fl sl) := by
  have extracted := extractBlock_indexed spread members idx hfl hsl (b := b) (by simp [first])
  rw [extractBlockHdr_eq spread members idx.listed hfl hsl first]
  simpa [first] using extracted

theorem extractSmallBlockHdr_indexed (idx : Indexed pool m L) {fl : Nat} (hfl : fl < 32)
    {rest : List Nat} (first : L (.small fl) = b :: rest) :
    Indexed pool (extractSmallBlockHdr m b pool fl) (Function.update L (.small fl) rest) ∧
      Untouched pool N m (extractSmallBlockHdr m b pool fl) := by
  have inside : (Cell.small fl).Inside := hfl
  have member : b ∈ L (.small fl) := by simp [first]
  have bitmap : Bitmap pool (sbBitmap pool) := Or.inl rfl
  have headWord : sbArray pool fl ≠ sbBitmap pool := by simp only [sbArray, sbBitmap]; omega
  obtain ⟨headIs, last, more⟩ := pop_eq_unlink spread members idx.listed inside first
  obtain ⟨_, _, kept⟩ := unlinkBlock_listed spread members idx.listed inside member
    (w := unlinkBlock m (sbArray pool fl) b) (fun a _ _ _ => rfl)
  simp only [Cell.head] at headIs last more kept
  have popped : extractSmallBlockHdr m b pool fl =
      if unlinkBlock m (sbArray pool fl) b (sbArray pool fl) = 0#32
      then clearBitAt (unlinkBlock m (sbArray pool fl) b) (sbBitmap pool) fl
      else unlinkBlock m (sbArray pool fl) b := by
    simp only [extractSmallBlockHdr, headIs]
    by_cases empty : unlinkBlock m (sbArray pool fl) b (sbArray pool fl) = 0#32
    · simp only [empty, ne_eq, not_true_eq_false, ↓reduceIte, last empty]
    · simp only [empty, ne_eq, not_false_eq_true, ↓reduceIte, more empty]
  have away : ∀ a, a ≠ sbBitmap pool →
      extractSmallBlockHdr m b pool fl a = unlinkBlock m (sbArray pool fl) b a := by
    intro a other
    simp only [popped, clearBitAt, guarded_apply, other, and_false, ↓reduceIte]
  have removed := removed_small spread members idx hfl member (w := extractSmallBlockHdr m b pool fl)
    (fun a notBitmap _ _ => away a (fun is => notBitmap (is ▸ bitmap)))
    (by
      rw [away _ headWord]
      simp only [popped, clearBitAt, guarded_apply, and_true, kept _ bitmap])
    (fun a is other => by rw [away a other, kept a is])
  simpa [first] using removed

theorem insertFree_indexed (idx : Indexed pool m L) (hb : N b) (fresh : ∀ d, d.Inside → b ∉ L d)
    {s : Nat} (size : blockSize m b = s) (small : s < 2 ^ 30) :
    Indexed pool (insertFree m b pool) (Function.update L (cellOf s) (b :: L (cellOf s))) ∧
      Untouched pool N m (insertFree m b pool) := by
  have inside := cellOf_inside small
  simp only [insertFree, size]
  unfold cellOf at *
  split
  · rename_i low
    simp only [low, ↓reduceIte, Cell.Inside] at inside
    exact insertSmallBlock_indexed spread members idx hb fresh inside
  · rename_i high
    simp only [high, ↓reduceIte, Cell.Inside] at inside
    exact insertBlock_indexed spread members idx hb fresh inside.1 inside.2

theorem extractFree_indexed (idx : Indexed pool m L) {s : Nat} (size : blockSize m b = s)
    (small : s < 2 ^ 30) (member : b ∈ L (cellOf s)) :
    Indexed pool (extractFree m b pool) (Function.update L (cellOf s) ((L (cellOf s)).erase b)) ∧
      Untouched pool N m (extractFree m b pool) := by
  have inside := cellOf_inside small
  simp only [extractFree, size]
  unfold cellOf at *
  split
  · rename_i low
    simp only [low, ↓reduceIte, Cell.Inside] at inside member
    exact extractSmallBlock_indexed spread members idx inside member
  · rename_i high
    simp only [high, ↓reduceIte, Cell.Inside] at inside member
    exact extractBlock_indexed spread members idx inside.1 inside.2 member

end

theorem lowestBit_above {x : Word} {k i : Nat} (low : LowestBit (x &&& above k) i) :
    i < 32 ∧ k ≤ i ∧ isbitset x i = true := by
  obtain ⟨inside, bit, _⟩ := low
  rw [BitVec.getLsbD_and, Bool.and_eq_true] at bit
  have high : k ≤ i := by
    have mask := bit.2
    simp only [above, BitVec.getLsbD_shiftLeft, Bool.and_eq_true, decide_eq_true_eq,
      Bool.not_eq_true'] at mask
    have notBelow := mask.1.2
    simp only [decide_eq_false_iff_not] at notBelow
    omega
  exact ⟨inside, high, (isbitset_eq x inside).trans bit.1⟩

theorem Listed.first (listed : Listed pool m L) (inside : c.Inside) (nonempty : L c ≠ []) :
    ∃ rest, L c = (m (c.head pool)).toNat :: rest := by
  have head := segment_head (listed.chain c inside)
  cases there : L c with
  | nil => exact absurd there nonempty
  | cons x rest =>
    rw [there, List.head?_cons] at head
    exact ⟨rest, by rw [(ptrOf_eq_some.mp head).2]⟩

theorem findSmallSuitableBlock_spec (idx : Indexed pool m L) {r : Nat}
    (found : (findSmallSuitableBlock r m pool).1 ≠ 0) :
    ∃ fl rest, findSmallSuitableBlock r m pool = ((findSmallSuitableBlock r m pool).1, fl) ∧
      fl < 32 ∧ r / 4 ≤ fl ∧ L (.small fl) = (findSmallSuitableBlock r m pool).1 :: rest := by
  unfold findSmallSuitableBlock at *
  split at found
  · exact absurd rfl found
  · rename_i small
    simp only at found
    split at found
    · rename_i hit
      have nonzero : m (sbBitmap pool) &&& above (fliSb r) ≠ 0#32 := by
        intro zero
        rw [zero, ffs_zero] at hit
        omega
      obtain ⟨i, low⟩ := lowestBit_exists nonzero
      obtain ⟨inside, reach, bit⟩ := lowestBit_above low
      obtain ⟨rest, first⟩ := idx.listed.first (c := .small i) inside ((idx.marked.small i inside).mp bit)
      simp only [small, ↓reduceIte, ffs_lowest low, Int.toNat_natCast]
      have positive : (i : Int) > -1 := by omega
      simp only [positive, ↓reduceIte]
      rw [fliSb, Nat.shiftRight_eq_div_pow] at reach
      exact ⟨i, rest, rfl, inside, reach, first⟩
    · exact absurd rfl found

theorem findSuitableBlock_spec (idx : Indexed pool m L) {fl sl : Nat} (hfl : fl < realFli)
    (found : (findSuitableBlock m pool fl sl).1 ≠ 0) :
    ∃ fl' sl' rest,
      findSuitableBlock m pool fl sl = ((findSuitableBlock m pool fl sl).1, fl', sl') ∧
      fl' < realFli ∧ sl' < maxSli ∧ (fl < fl' ∨ fl = fl' ∧ sl ≤ sl') ∧
      L (.large fl' sl') = (findSuitableBlock m pool fl sl).1 :: rest := by
  unfold findSuitableBlock at *
  simp only at found ⊢
  split at found
  · rename_i some
    obtain ⟨i, low⟩ := lowestBit_exists some
    obtain ⟨inside, reach, bit⟩ := lowestBit_above low
    obtain ⟨rest, first⟩ := idx.listed.first (c := .large fl i) ⟨hfl, inside⟩
      ((idx.marked.column fl i hfl inside).mp bit)
    simp only [some, ↓reduceIte, ffs_lowest low, Int.toNat_natCast, not_false_eq_true, ne_eq]
    exact ⟨fl, i, rest, rfl, hfl, inside, Or.inr ⟨rfl, reach⟩, first⟩
  · rename_i none
    split at found
    · rename_i hit
      have nonzero : m (flBitmap pool) &&& above (fl + 1) ≠ 0#32 := by
        intro zero
        rw [zero, ffs_zero] at hit
        omega
      obtain ⟨i, low⟩ := lowestBit_exists nonzero
      obtain ⟨inside, reach, bit⟩ := lowestBit_above low
      obtain ⟨row, j, hj, some⟩ := (idx.marked.row i inside).mp bit
      have columns : m (slBitmap pool i) ≠ 0#32 :=
        (word_ne_zero_iff _).mpr ⟨j, hj, (idx.marked.column i j row hj).mpr some⟩
      obtain ⟨k, lowest⟩ := lowestBit_exists columns
      have kbit : isbitset (m (slBitmap pool i)) k = true := (isbitset_eq _ lowest.1).trans lowest.2.1
      obtain ⟨rest, first⟩ := idx.listed.first (c := .large i k) ⟨row, lowest.1⟩
        ((idx.marked.column i k row lowest.1).mp kbit)
      rw [ffs_lowest low] at hit
      simp only [none, hit, ↓reduceIte, ffs_lowest low, Int.toNat_natCast, ffs_lowest lowest]
      exact ⟨i, k, rest, rfl, row, lowest.1, Or.inl (by omega), first⟩
    · exact absurd rfl found

end
end L4ertl.Tlsf
