import L4ertl.Core.Regions

/-!
Memory for user code (ualloc_sys in l4_sysmem.c). Whatever size is asked for, one
megabyte is taken from the region allocator; what is cleared, mapped and returned
starts at the page in which that area begins, without a look at whether there is
an area.
-/
namespace L4ertl
open Intrusive

def l4PageSize : Nat := 4096
def configKdynamicMemory : Word := 2097152#32
def vcpuVmmLog2Size : Nat := 20
def vcpuVmmSize : Word := 0x100000#32

def l4TruncPage (a : Nat) : Nat := a / l4PageSize * l4PageSize

structure Span where
  first : Nat
  len : Nat
  deriving DecidableEq, Repr

def Span.Inside (s area : Span) : Prop := area.first ≤ s.first ∧ s.first + s.len ≤ area.first + area.len

def Span.Apart (s t : Span) : Prop := s.first + s.len ≤ t.first ∨ t.first + t.len ≤ s.first

instance (s t : Span) : Decidable (s.Inside t) := inferInstanceAs (Decidable (_ ∧ _))

/-- memset to zero over the headers and free_ptrs there. The fields of a header are
    size, prev_phys, next_phys and the two pointers of the free list. -/
def Regions.clear (r : Regions) (s : Span) : Regions where
  size := fun b => if Span.Inside ⟨b, 4⟩ s then 0#32 else r.size b
  phys := fun b =>
    { prev := if Span.Inside ⟨b + 4, 4⟩ s then none else (r.phys b).prev
      next := if Span.Inside ⟨b + 8, 4⟩ s then none else (r.phys b).next }
  freePtr := fun b =>
    { prev := if Span.Inside ⟨b + 16, 4⟩ s then none else (r.freePtr b).prev
      next := if Span.Inside ⟨b + 12, 4⟩ s then none else (r.freePtr b).next }
  head := r.head

/-- init_sysmem up to the set-up of the heap in memory_pool. -/
def initSysmem (base : Nat) : Option (Regions × Option Nat) :=
  allocRegion configKdynamicMemory (initVmm base)

/-- What one call did: the pointer it returned, the area that alloc_region gave it
    and the memory it cleared and mapped. -/
structure Grant where
  vmmVbase : Nat
  area : Option Span
  cleared : Span
  mapped : Span
  deriving DecidableEq, Repr

def Regions.area (r : Regions) (p : Nat) : Span := ⟨p, (getBlockSize (r.size (p - headerSize))).toNat⟩

/-- The parameter size is not looked at. -/
def uallocSys (_size : Nat) (r : Regions) : Option (Regions × Grant) :=
  match allocRegion vcpuVmmSize r with
  | none => none
  | some (r, p) =>
    -- a NULL pointer is cut to its page as well
    let vmmVbase := l4TruncPage (p.getD 0)
    let window : Span := ⟨vmmVbase, vcpuVmmSize.toNat⟩
    some (r.clear window, ⟨vmmVbase, p.map r.area, window, ⟨vmmVbase, 2 ^ vcpuVmmLog2Size⟩⟩)

structure Grant.Contained (size : Nat) (g : Grant) (area : Span) : Prop where
  reserved : g.area = some area
  aligned : g.vmmVbase % l4PageSize = 0
  usable : Span.Inside ⟨g.vmmVbase, size⟩ area
  cleared : g.cleared.Inside area
  mapped : g.mapped.Inside area

def UallocRight (size : Nat) (r : Regions) : Prop :=
  ∃ w g area, uallocSys size r = some (w, g) ∧ g.Contained size area

def uallocBlock (r : Regions) : Option (Option Nat) :=
  firstFit r vcpuVmmSize (systemMemorySize + 1) r.head

def keptSize (n : Nat) : Nat := if 0x100000 + 24 ≤ n then 0x100000 else n

def Roomy (size : Nat) (r : Regions) (aux : Nat) : Prop :=
  (aux + headerSize) % l4PageSize = 0 ∧ 0x100000 ≤ (getBlockSize (r.size aux)).toNat ∧
    size ≤ keptSize (getBlockSize (r.size aux)).toNat

instance (size : Nat) (r : Regions) (aux : Nat) : Decidable (Roomy size r aux) :=
  inferInstanceAs (Decidable (_ ∧ _ ∧ _))

theorem Span.Inside.apart {s area other : Span} (inside : s.Inside area) (away : area.Apart other) :
    s.Apart other := by
  unfold Span.Inside at inside
  unfold Span.Apart at *
  omega

theorem l4TruncPage_le (a : Nat) : l4TruncPage a ≤ a := Nat.div_mul_le_self a l4PageSize

theorem l4TruncPage_aligned (a : Nat) : l4TruncPage a % l4PageSize = 0 := Nat.mul_mod_left ..

theorem l4TruncPage_eq_iff (a : Nat) : l4TruncPage a = a ↔ a % l4PageSize = 0 := by
  constructor
  · intro same
    rw [← same]
    exact l4TruncPage_aligned a
  · intro aligned
    exact Nat.div_mul_cancel (Nat.dvd_of_mod_eq_zero aligned)

theorem used_keeps_size (n : Word) : getBlockSize (setUsedBlock n) = getBlockSize n := by
  simp only [getBlockSize, setUsedBlock]
  ext i inside
  simp only [BitVec.getElem_and, BitVec.getElem_or, BitVec.getElem_not]
  cases n[i] <;> cases usedBlock[i] <;> rfl

theorem getBlockSize_lt (n : Word) : (getBlockSize n).toNat < 2 ^ 31 := by
  have masked : getBlockSize n = n &&& 0x7FFFFFFF#32 := rfl
  rw [masked, BitVec.toNat_and]
  exact Nat.lt_of_le_of_lt Nat.and_le_right (by decide)

theorem cut_iff (n : Word) :
    minSize.sle (getBlockSize n - vcpuVmmSize - BitVec.ofNat 32 headerSize) = true ↔
      0x100000 + 24 ≤ (getBlockSize n).toNat := by
  have bound := getBlockSize_lt n
  have least : minSize.toNat = 12 := rfl
  have head : (BitVec.ofNat 32 headerSize).toNat = 12 := rfl
  have whole : vcpuVmmSize.toNat = 0x100000 := rfl
  rw [BitVec.sle_eq_decide, decide_eq_true_eq, BitVec.toInt_eq_toNat_cond,
    BitVec.toInt_eq_toNat_cond, BitVec.toNat_sub, BitVec.toNat_sub, least, head, whole]
  split <;> split <;> omega

theorem Regions.split_size_aux (r : Regions) (aux : Nat) (size newSize : Word) :
    (r.split aux size newSize).size aux = setUsedBlock size := by
  simp [Regions.split, Regions.setSize, Regions.pushFree]

theorem allocRegion_area (r : Regions) :
    (uallocBlock r = none ∧ allocRegion vcpuVmmSize r = none) ∨
    (uallocBlock r = some none ∧ allocRegion vcpuVmmSize r = some (r, none)) ∨
    ∃ aux w, uallocBlock r = some (some aux) ∧
      allocRegion vcpuVmmSize r = some (w, some (aux + headerSize)) ∧
      w.area (aux + headerSize) = ⟨aux + headerSize, keptSize (getBlockSize (r.size aux)).toNat⟩ := by
  have some_ : ¬vcpuVmmSize = 0#32 := by decide
  have large : ¬vcpuVmmSize < minSize := by decide
  simp only [allocRegion, if_neg some_, if_neg large, uallocBlock]
  split
  · rename_i ring
    exact Or.inl ⟨ring, rfl⟩
  · rename_i nothing
    exact Or.inr (Or.inl ⟨nothing, rfl⟩)
  · rename_i aux found
    refine Or.inr (Or.inr ⟨aux, _, found, rfl, ?_⟩)
    have here : aux + headerSize - headerSize = aux := Nat.add_sub_cancel ..
    have before : (((r.unlinkFree aux).setSize aux (setUsedBlock ((r.unlinkFree aux).size aux))).clearFree
        aux).size aux = setUsedBlock (r.size aux) := by
      simp [Regions.clearFree, Regions.setSize, Regions.unlinkFree]
    have cut := cut_iff (setUsedBlock (r.size aux))
    rw [used_keeps_size] at cut
    simp only [Regions.area, here, before, used_keeps_size, keptSize]
    by_cases room : 0x100000 + 24 ≤ (getBlockSize (r.size aux)).toNat
    · rw [if_pos room, if_pos (cut.mpr room), Regions.split_size_aux]
      rfl
    · rw [if_neg room, if_neg fun above => room (cut.mp above), before, used_keeps_size]

/-- A call that gets no area clears and maps the first megabyte all the same. -/
theorem uallocSys_null (size : Nat) {r : Regions} (nothing : uallocBlock r = some none) :
    ∃ w, uallocSys size r = some (w, ⟨0, none, ⟨0, 0x100000⟩, ⟨0, 0x100000⟩⟩) := by
  rcases allocRegion_area r with ⟨ring, _⟩ | ⟨_, result⟩ | ⟨aux, _, found, _⟩
  · rw [nothing] at ring
    cases ring
  · simp only [uallocSys, result]
    exact ⟨_, rfl⟩
  · rw [nothing] at found
    cases found

theorem contained_iff {size : Nat} {g : Grant} {p n : Nat} (area : g.area = some ⟨p, n⟩)
    (base : g.vmmVbase = l4TruncPage p) (cleared : g.cleared = ⟨l4TruncPage p, 0x100000⟩)
    (mapped : g.mapped = ⟨l4TruncPage p, 0x100000⟩) :
    g.Contained size ⟨p, n⟩ ↔ p % l4PageSize = 0 ∧ 0x100000 ≤ n ∧ size ≤ n := by
  have below := l4TruncPage_le p
  constructor
  · intro contained
    have window := contained.cleared
    have usable := contained.usable
    rw [cleared] at window
    rw [base] at usable
    simp only [Span.Inside] at window usable
    have same : l4TruncPage p = p := Nat.le_antisymm below window.1
    exact ⟨(l4TruncPage_eq_iff p).mp same, by omega, by omega⟩
  · intro ⟨aligned, megabyte, enough⟩
    have same := (l4TruncPage_eq_iff p).mpr aligned
    rw [same] at base cleared mapped
    constructor
    · exact area
    · rw [base]
      exact aligned
    · rw [base]
      exact ⟨Nat.le_refl _, Nat.add_le_add_left enough p⟩
    · rw [cleared]
      exact ⟨Nat.le_refl _, Nat.add_le_add_left megabyte p⟩
    · rw [mapped]
      exact ⟨Nat.le_refl _, Nat.add_le_add_left megabyte p⟩

theorem megabyte_le_kept (n : Nat) : 0x100000 ≤ keptSize n ↔ 0x100000 ≤ n := by
  unfold keptSize
  split <;> omega

theorem uallocSys_contained_iff (size : Nat) (r : Regions) :
    UallocRight size r ↔ ∃ aux, uallocBlock r = some (some aux) ∧ Roomy size r aux := by
  unfold UallocRight
  rcases allocRegion_area r with ⟨ring, result⟩ | ⟨nothing, result⟩ | ⟨aux, w, found, result, area⟩
  · simp only [uallocSys, result, ring, reduceCtorEq, false_and, exists_false]
  · constructor
    · rintro ⟨w, g, area, called, contained⟩
      simp only [uallocSys, result] at called
      cases called
      cases contained.reserved
    · rintro ⟨aux, found, _⟩
      rw [nothing] at found
      cases found
  · have roomy : Roomy size r aux ↔ (aux + headerSize) % l4PageSize = 0 ∧
        0x100000 ≤ keptSize (getBlockSize (r.size aux)).toNat ∧
          size ≤ keptSize (getBlockSize (r.size aux)).toNat := by
      rw [Roomy, megabyte_le_kept]
    constructor
    · rintro ⟨v, g, span, called, contained⟩
      simp only [uallocSys, result, Option.getD_some, Option.map_some, area] at called
      cases called
      cases contained.reserved
      exact ⟨aux, found, roomy.mpr ((contained_iff rfl rfl rfl rfl).mp contained)⟩
    · rintro ⟨other, same, enough⟩
      rw [found] at same
      cases same
      have whole := roomy.mp enough
      simp only [uallocSys, result, Option.getD_some, Option.map_some, area]
      exact ⟨_, _, _, rfl, (contained_iff rfl rfl rfl rfl).mpr whole⟩

/-- In every state of the allocator and for every size, the memory of a call is contained
    exactly when a block is found for it whose area begins on a page and of which enough
    is kept. When none is found, the first megabyte is cleared and mapped, and NULL is
    returned. -/
theorem ualloc_right_iff (size : Nat) (r : Regions) :
    (UallocRight size r ↔ ∃ aux, uallocBlock r = some (some aux) ∧ Roomy size r aux) ∧
    (uallocBlock r = some none ↔
      ∃ w, uallocSys size r = some (w, ⟨0, none, ⟨0, 0x100000⟩, ⟨0, 0x100000⟩⟩)) := by
  refine ⟨uallocSys_contained_iff size r, uallocSys_null size, ?_⟩
  rintro ⟨w, called⟩
  rcases allocRegion_area r with ⟨_, result⟩ | ⟨nothing, _⟩ | ⟨aux, v, _, result, _⟩
  · simp only [uallocSys, result] at called
    cases called
  · exact nothing
  · have area := congrArg (Option.map fun x => x.2.area) called
    simp only [uallocSys, result, Option.map_some] at area
    cases area

/-- Twenty-four bytes in front of a page the arena gives the first call an area that
    begins on one. -/
theorem ualloc_right_iff_off_page :
    ∃ r pool, initSysmem 0x90ffffe8 = some (r, pool) ∧ UallocRight 4096 r := by
  obtain ⟨⟨r, pool⟩, start, found⟩ := Option.bind_eq_some_iff.mp
    (by decide +kernel : ((initSysmem 0x90ffffe8).bind fun s =>
      if uallocBlock s.1 = some (some 0x911ffff4) ∧ Roomy 4096 s.1 0x911ffff4 then some () else none) =
        some ())
  split at found
  · rename_i both
    exact ⟨r, pool, start, (ualloc_right_iff 4096 r).1.mpr ⟨_, both⟩⟩
  · cases found

/-- The first call after the start, for a page: the window begins 24 bytes before the
    area, over its own header and the end of the memory_pool. -/
theorem ualloc_first_spills :
    ∃ r pool w g, initSysmem 0x91000000 = some (r, some pool) ∧ uallocSys 4096 r = some (w, g) ∧
      r.area pool = ⟨0x9100000c, 0x200000⟩ ∧ g.area = some ⟨0x91200018, 0x100000⟩ ∧
      g.vmmVbase = 0x91200000 ∧ ¬g.cleared.Apart (r.area pool) ∧
      r.size 0x9120000c ≠ 0#32 ∧ w.size 0x9120000c = 0#32 ∧ ¬UallocRight 4096 r := by
  have final : (initSysmem 0x91000000).bind (fun s => (uallocSys 4096 s.1).map fun t =>
      (s.2, s.1.area 0x9100000c, s.1.size 0x9120000c, t.1.size 0x9120000c, t.2)) =
      some (some 0x9100000c, ⟨0x9100000c, 0x200000⟩, 0x5FFFE8#32, 0#32,
        ⟨0x91200000, some ⟨0x91200018, 0x100000⟩, ⟨0x91200000, 0x100000⟩, ⟨0x91200000, 0x100000⟩⟩) := by
    decide +kernel
  obtain ⟨⟨r, pool⟩, start, more⟩ := Option.bind_eq_some_iff.mp final
  obtain ⟨⟨w, g⟩, called, eq⟩ := Option.map_eq_some_iff.mp more
  simp only [Prod.mk.injEq] at eq
  obtain ⟨rfl, area, header, zero, rfl⟩ := eq
  refine ⟨r, _, w, _, start, called, area, rfl, rfl, ?_, ?_, zero, ?_⟩
  · rw [area]
    unfold Span.Apart
    decide
  · rw [header]
    decide
  · rintro ⟨v, h, span, again, contained⟩
    rw [called] at again
    cases again
    cases contained.reserved
    exact absurd contained.cleared (by decide)

section
variable {base n : Nat} {r w : Regions}

def lastBlock (base n : Nat) : Nat := base + 0x20000c + n * 0x10000c

/-- What `n` calls have left of the arena behind the memory_pool: one free block. -/
structure Cut (base n : Nat) (r : Regions) : Prop where
  few : n ≤ 5
  head : r.head = some (lastBlock base n)
  size : r.size (lastBlock base n) = BitVec.ofNat 32 (0x5FFFE8 - n * 0x10000c)
  only : r.freePtr (lastBlock base n) = detached

theorem lastBlock_succ (base n : Nat) :
    lastBlock base (n + 1) = lastBlock base n + headerSize + vcpuVmmSize.toNat := by
  have whole : vcpuVmmSize.toNat = 0x100000 := rfl
  simp only [lastBlock, headerSize, whole]
  omega

theorem Regions.split_new (none : r.head = none) (aux : Nat) (size rest : Word) :
    (r.split aux size rest).head = some (aux + headerSize + size.toNat) ∧
      (r.split aux size rest).size (aux + headerSize + size.toNat) = setFreeBlock rest ∧
      (r.split aux size rest).freePtr (aux + headerSize + size.toNat) = detached := by
  have apart : aux + headerSize + size.toNat ≠ aux := by
    simp only [headerSize]
    omega
  refine ⟨rfl, ?_, ?_⟩
  · simp [Regions.split, Regions.setSize, Regions.pushFree, Regions.clearFree, apart]
  · simp [Regions.split, Regions.setSize, Regions.pushFree, Regions.clearFree, none, detached,
      patchPrev, setNext_apply]

theorem initSysmem_cut {pool : Option Nat} (start : initSysmem base = some (r, pool)) : Cut base 0 r := by
  have fits : wanted configKdynamicMemory ≤ initialSize := by decide
  have room : (wanted configKdynamicMemory).toNat + 24 ≤ initialSize.toNat := by decide
  rw [initSysmem, allocRegion_fresh (by decide), if_pos fits, if_pos room] at start
  cases start
  have pool : (wanted configKdynamicMemory).toNat = 0x200000 := by decide
  have place : lastBlock base 0 = base + headerSize + (wanted configKdynamicMemory).toNat := by
    unfold lastBlock headerSize
    omega
  obtain ⟨head, size, only⟩ := Regions.split_new (r := usedUp base) rfl base (wanted configKdynamicMemory)
    (getBlockSize (setUsedBlock initialSize) - wanted configKdynamicMemory - BitVec.ofNat 32 headerSize)
  rw [← place] at head size only
  exact ⟨by omega, head, size.trans (by decide), only⟩

theorem Cut.clear {s : Span} (cut : Cut base n r)
    (before : s.first + s.len ≤ lastBlock base n) : Cut base n (r.clear s) := by
  have behind : ∀ a, lastBlock base n ≤ a → ¬Span.Inside ⟨a, 4⟩ s := by
    intro a later inside
    simp only [Span.Inside] at inside
    omega
  refine ⟨cut.few, cut.head, ?_, ?_⟩
  · simp only [Regions.clear, if_neg (behind _ le_rfl)]
    exact cut.size
  · simp only [Regions.clear, if_neg (behind _ (Nat.le_add_right _ _))]
    exact cut.only

theorem Cut.found (cut : Cut base n r) :
    uallocBlock r = some (if n < 5 then some (lastBlock base n) else none) := by
  have small := cut.few
  have whole : vcpuVmmSize.toNat = 0x100000 := rfl
  have fits : vcpuVmmSize ≤ r.size (lastBlock base n) ↔ n < 5 := by
    rw [cut.size, BitVec.le_def, whole, BitVec.toNat_ofNat, Nat.mod_eq_of_lt (by omega)]
    omega
  have next : (r.freePtr (lastBlock base n)).next = none := by
    rw [cut.only]
    rfl
  rw [uallocBlock, cut.head, systemMemorySize, firstFit, next]
  simp only [fits]
  split
  · rfl
  · rfl

theorem getBlockSize_small {x : Word} (small : x.toNat < 2 ^ 31) : getBlockSize x = x := by
  have masked : getBlockSize x = x &&& 0x7FFFFFFF#32 := rfl
  have mask : (0x7FFFFFFF#32).toNat = 2 ^ 31 - 1 := rfl
  apply BitVec.eq_of_toNat_eq
  rw [masked, BitVec.toNat_and, mask, Nat.and_two_pow_sub_one_eq_mod, Nat.mod_eq_of_lt small]

def Regions.taken (r : Regions) (aux : Nat) : Regions :=
  let r := r.unlinkFree aux
  (r.setSize aux (setUsedBlock (r.size aux))).clearFree aux

theorem Cut.taken (cut : Cut base n r) : (r.taken (lastBlock base n)).head = none ∧
    (r.taken (lastBlock base n)).size (lastBlock base n) = setUsedBlock (r.size (lastBlock base n)) := by
  simp [Regions.taken, Regions.unlinkFree, Regions.setSize, Regions.clearFree, cut.head, cut.only, detached,
    patchPrev, patchNext]

theorem Cut.alloc (cut : Cut base n r) (few : n < 5) :
    ∃ w, allocRegion vcpuVmmSize r = some (w, some (lastBlock base n + headerSize)) ∧ Cut base (n + 1) w := by
  have found := cut.found
  rw [if_pos few, uallocBlock] at found
  obtain ⟨alone, used⟩ := cut.taken
  have whole : vcpuVmmSize.toNat = 0x100000 := rfl
  have size : (r.size (lastBlock base n)).toNat = 0x5FFFE8 - n * 0x10000c := by
    rw [cut.size, BitVec.toNat_ofNat, Nat.mod_eq_of_lt (by omega)]
  have free := getBlockSize_small (x := r.size (lastBlock base n)) (by omega)
  have rest := cut_iff (setUsedBlock (r.size (lastBlock base n)))
  have some_ : ¬vcpuVmmSize = 0#32 := by decide
  have large : ¬vcpuVmmSize < minSize := by decide
  have run : allocRegion vcpuVmmSize r = some ((r.taken (lastBlock base n)).split (lastBlock base n) vcpuVmmSize
      (r.size (lastBlock base n) - vcpuVmmSize - BitVec.ofNat 32 headerSize),
      some (lastBlock base n + headerSize)) := by
    simp only [allocRegion, if_neg some_, if_neg large, found]
    change some (if minSize.sle (getBlockSize ((r.taken (lastBlock base n)).size (lastBlock base n)) -
      vcpuVmmSize - BitVec.ofNat 32 headerSize) then (r.taken (lastBlock base n)).split _ _
        (getBlockSize ((r.taken (lastBlock base n)).size (lastBlock base n)) - vcpuVmmSize - _) else _, _) = _
    rw [used, if_pos (rest.mpr (by rw [used_keeps_size, free]; omega)), used_keeps_size, free]
  obtain ⟨head, left, only⟩ := Regions.split_new alone (lastBlock base n) vcpuVmmSize
    (r.size (lastBlock base n) - vcpuVmmSize - BitVec.ofNat 32 headerSize)
  rw [← lastBlock_succ] at head left only
  refine ⟨_, run, by omega, head, left.trans ?_, only⟩
  have value : r.size (lastBlock base n) - vcpuVmmSize - BitVec.ofNat 32 headerSize =
      BitVec.ofNat 32 (0x5FFFE8 - (n + 1) * 0x10000c) := by
    apply BitVec.eq_of_toNat_eq
    simp only [BitVec.toNat_sub, BitVec.toNat_ofNat, whole, size, headerSize]
    omega
  rw [value]
  apply getBlockSize_small
  rw [BitVec.toNat_ofNat]
  exact Nat.lt_of_le_of_lt (Nat.mod_le _ _) (by omega)

theorem Cut.ualloc {size : Nat} {g : Grant} (cut : Cut base n r) (high : vcpuVmmSize.toNat ≤ base)
    (called : uallocSys size r = some (w, g)) : ∃ m, Cut base m w := by
  have whole : vcpuVmmSize.toNat = 0x100000 := rfl
  by_cases few : n < 5
  · obtain ⟨x, took, next⟩ := cut.alloc few
    simp only [uallocSys, took, Option.getD_some] at called
    cases called
    refine ⟨n + 1, next.clear ?_⟩
    have below := l4TruncPage_le (lastBlock base n + headerSize)
    rw [lastBlock_succ]
    exact Nat.add_le_add_right below _
  · have found := cut.found
    rw [if_neg few] at found
    obtain ⟨v, null⟩ := uallocSys_null size found
    have same : allocRegion vcpuVmmSize r = some (r, none) := by
      rcases allocRegion_area r with ⟨ring, _⟩ | ⟨_, result⟩ | ⟨aux, _, other, _⟩
      · rw [found] at ring
        cases ring
      · exact result
      · rw [found] at other
        cases other
    simp only [uallocSys, same, Option.getD_none] at called
    cases called
    refine ⟨n, cut.clear ?_⟩
    have start : l4TruncPage 0 = 0 := rfl
    change l4TruncPage 0 + vcpuVmmSize.toNat ≤ lastBlock base n
    unfold lastBlock
    omega

theorem lastBlock_off_page (paged : base % l4PageSize = 0) (few : n < 5) :
    (lastBlock base n + headerSize) % l4PageSize ≠ 0 ∧
      l4TruncPage (lastBlock base n + headerSize) ≤ lastBlock base n := by
  have place : lastBlock base n + headerSize =
      l4PageSize * (base / l4PageSize + 512 + 256 * n) + (24 + 12 * n) := by
    simp only [lastBlock, headerSize, l4PageSize] at *
    omega
  have small : 24 + 12 * n < l4PageSize := by
    simp only [l4PageSize]
    omega
  constructor
  · rw [place, Nat.mul_add_mod, Nat.mod_eq_of_lt small]
    omega
  · have page : (lastBlock base n + headerSize) / l4PageSize = base / l4PageSize + 512 + 256 * n := by
      rw [place, Nat.mul_add_div (by decide), Nat.div_eq_of_lt small, Nat.add_zero]
    rw [l4TruncPage, page, Nat.mul_comm]
    simp only [headerSize] at place
    omega

theorem Cut.wiped {size : Nat} (cut : Cut base n r) (paged : base % l4PageSize = 0) :
    ¬UallocRight size r ∧ ∀ aux, uallocBlock r = some (some aux) →
      ∃ w g, uallocSys size r = some (w, g) ∧ w.size aux = 0#32 := by
  rw [uallocSys_contained_iff, cut.found]
  by_cases few : n < 5
  · obtain ⟨off, before⟩ := lastBlock_off_page paged few
    rw [if_pos few]
    constructor
    · rintro ⟨aux, same, roomy, _⟩
      cases same
      exact off roomy
    · intro aux same
      cases same
      obtain ⟨w, took, _⟩ := cut.alloc few
      have state : (uallocSys size r).map Prod.fst =
          some (w.clear ⟨l4TruncPage (lastBlock base n + headerSize), vcpuVmmSize.toNat⟩) := by
        simp only [uallocSys, took]
        rfl
      obtain ⟨⟨v, g⟩, called, rfl⟩ := Option.map_eq_some_iff.mp state
      refine ⟨_, g, called, ?_⟩
      have window : Span.Inside ⟨lastBlock base n, 4⟩
          ⟨l4TruncPage (lastBlock base n + headerSize), vcpuVmmSize.toNat⟩ := by
        have whole : vcpuVmmSize.toNat = 0x100000 := rfl
        refine ⟨before, ?_⟩
        simp only [l4TruncPage, whole, l4PageSize, headerSize]
        omega
      exact if_pos window
  · rw [if_neg few]
    refine ⟨?_, fun aux never => by cases never⟩
    rintro ⟨aux, never, _⟩
    cases never

end

def uallocStep (r : Regions) (size : Nat) : Option (Regions × List Grant) :=
  (uallocSys size r).map fun x => (x.1, [x.2])

/-- With the arena on a page no call is ever right: after any calls, as long as a block
    is left, the next one clears the header of its own block. -/
theorem ualloc_never_right {base : Nat} {r w : Regions} {pool : Option Nat} {gs : List Grant}
    (paged : base % l4PageSize = 0) (high : vcpuVmmSize.toNat ≤ base)
    (start : initSysmem base = some (r, pool)) (sizes : List Nat)
    (run : Lts.exec uallocStep r sizes = some (w, gs)) (size : Nat) :
    ¬UallocRight size w ∧ ∀ aux, uallocBlock w = some (some aux) →
      ∃ v g, uallocSys size w = some (v, g) ∧ v.size aux = 0#32 := by
  have keeps : ∀ x asked y es, (∃ n, Cut base n x) → True → uallocStep x asked = some (y, es) →
      ∃ n, Cut base n y := by
    rintro x asked y es ⟨n, cut⟩ _ took
    obtain ⟨⟨v, g⟩, called, same⟩ := Option.map_eq_some_iff.mp took
    cases same
    exact cut.ualloc high called
  obtain ⟨n, cut⟩ := Lts.exec_keeps (fun x => ∃ n, Cut base n x) keeps sizes ⟨0, initSysmem_cut start⟩
    (Lts.along_trivial sizes r) run
  exact cut.wiped paged

theorem ualloc_never_right_seven :
    ∃ r pool w gs, initSysmem 0x91000000 = some (r, pool) ∧
      Lts.exec uallocStep r (List.replicate 7 4096) = some (w, gs) ∧
      gs.map Grant.vmmVbase = [0x91200000, 0x91300000, 0x91400000, 0x91500000, 0x91600000, 0, 0] ∧
      ¬UallocRight 1 w := by
  obtain ⟨⟨r, pool⟩, start, more⟩ := Option.bind_eq_some_iff.mp
    (by decide +kernel : ((initSysmem 0x91000000).bind fun s =>
      (Lts.exec uallocStep s.1 (List.replicate 7 4096)).map fun t => t.2.map Grant.vmmVbase) =
        some [0x91200000, 0x91300000, 0x91400000, 0x91500000, 0x91600000, 0, 0])
  obtain ⟨⟨w, gs⟩, run, grants⟩ := Option.map_eq_some_iff.mp more
  exact ⟨r, pool, w, gs, start, run, grants, (ualloc_never_right (by decide) (by decide) start _ run 1).1⟩

end L4ertl
