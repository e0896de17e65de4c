import L4ertl.Core.Bitop
import L4ertl.Lib.Intrusive
import L4ertl.Lib.Lts

/-!
The region allocator (l4_sysmem.c, sysmem.h): one arena cut into blocks, a list
through all blocks in the order of their addresses and one through the free ones.
A block is named by the address of its header; `none` is NULL. The header has
three words; the two pointers of the free list are where the area of the block
begins.
-/
namespace L4ertl
open Intrusive

def systemMemorySize : Nat := 8 * 1024 * 1024
def minSize : Word := 12#32
def headerSize : Nat := 12

def usedBlock : Word := 0x80000000#32

def isUsedBlock (size : Word) : Bool := (size &&& usedBlock) == usedBlock
def getBlockSize (size : Word) : Word := size &&& ~~~usedBlock
def setUsedBlock (size : Word) : Word := size ||| usedBlock
def setFreeBlock (size : Word) : Word := size &&& ~~~usedBlock

structure Regions where
  size : Nat → Word
  phys : Links Nat
  freePtr : Links Nat
  head : Option Nat

/-- `base` is the address of the memory that the kernel has been given. -/
def initVmm (base : Nat) : Regions where
  size := Function.update (fun _ => 0#32) base
    (setFreeBlock (BitVec.ofNat 32 (systemMemorySize - headerSize)))
  phys := fun _ => detached
  freePtr := fun _ => detached
  head := some base

/-- The first free block that is large enough. The walk over the list ends or is
    cut off after as many blocks as can be in the arena: it is caught in a ring. -/
def firstFit (r : Regions) (size : Word) : Nat → Option Nat → Option (Option Nat)
  | 0, _ => none
  | _ + 1, none => some none
  | fuel + 1, some aux =>
    if size ≤ r.size aux then some (some aux) else firstFit r size fuel (r.freePtr aux).next

/-- The three statements that take a block off the free list, wherever they stand. -/
def Regions.unlinkFree (r : Regions) (b : Nat) : Regions :=
  let free := patchPrev r.freePtr (r.freePtr b).next (r.freePtr b).prev
  let free := patchNext free (free b).prev (free b).next
  { r with
    freePtr := free
    head := if r.head = some b then (free b).next else r.head }

def Regions.clearFree (r : Regions) (b : Nat) : Regions :=
  { r with freePtr := Function.update r.freePtr b detached }

def Regions.setSize (r : Regions) (b : Nat) (size : Word) : Regions :=
  { r with size := Function.update r.size b size }

def Regions.pushFree (r : Regions) (b : Nat) : Regions :=
  let free := setNext r.freePtr b r.head
  { r with
    freePtr := patchPrev free r.head (some b)
    head := some b }

/-- What is left of `aux` behind its first `size` bytes becomes a block. The link
    of `aux` is set before the new block takes over the one that it had. -/
def Regions.split (r : Regions) (aux : Nat) (size newSize : Word) : Regions :=
  let new := aux + headerSize + size.toNat
  let r := (r.setSize new (setFreeBlock newSize)).clearFree new
  let phys := setPrev r.phys new (some aux)
  let phys := setNext phys aux (some new)
  let phys := setNext phys new (phys aux).next
  let phys := patchPrev phys (phys aux).next (some new)
  ({ r with phys := phys }.setSize aux (setUsedBlock size)).pushFree new

/-- alloc_region without the range, which it does not look at; the pointer it
    returns. `none` where it does not return. -/
def allocRegion (size : Word) (r : Regions) : Option (Regions × Option Nat) :=
  if size = 0#32 then some (r, none)
  else
    let size := if size < minSize then minSize else size
    match firstFit r size (systemMemorySize + 1) r.head with
    | none => none
    | some none => some (r, none)
    | some (some aux) =>
      let r := r.unlinkFree aux
      let r := (r.setSize aux (setUsedBlock (r.size aux))).clearFree aux
      let newSize := getBlockSize (r.size aux) - size - BitVec.ofNat 32 headerSize
      let r := if minSize.sle newSize then r.split aux size newSize else r
      some (r, some (aux + headerSize))

def Regions.mergePrev (r : Regions) (b : Nat) : Regions × Nat :=
  match (r.phys b).prev with
  | some b2 =>
    if isUsedBlock (r.size b2) then (r, b)
    else
      let r := r.setSize b2 (getBlockSize (r.size b2) + getBlockSize (r.size b) +
        BitVec.ofNat 32 headerSize)
      let r := r.unlinkFree b2
      let r := (r.setSize b2 (setFreeBlock (r.size b2))).clearFree b2
      let phys := patchPrev r.phys (r.phys b).next (some b2)
      ({ r with phys := setNext phys b2 (phys b).next }, b2)
  | none => (r, b)

/-- The block behind it is free: the two become one. Only a block that has one
    behind it goes into the free list. -/
def Regions.mergeNext (r : Regions) (b : Nat) : Regions :=
  match (r.phys b).next with
  | some b2 =>
    let r :=
      if isUsedBlock (r.size b2) then r
      else
        let r := r.setSize b (r.size b + (getBlockSize (r.size b2) + BitVec.ofNat 32 headerSize))
        let r := (r.unlinkFree b2).clearFree b2
        let phys := patchPrev r.phys (r.phys b2).next (some b)
        { r with phys := setNext phys b (phys b2).next }
    r.pushFree b
  | none => r

def deallocRegion (ptr : Nat) (r : Regions) : Regions :=
  let b := ptr - headerSize
  if !isUsedBlock (r.size b) then r
  else
    let r := (r.setSize b (setFreeBlock (r.size b))).clearFree b
    let (r, b) := r.mergePrev b
    r.mergeNext b

inductive RegionOp where
  | alloc (size : Word)
  | dealloc (ptr : Nat)
  deriving DecidableEq, Repr

structure Arena where
  regions : Regions
  given : List (Nat × Nat)

def Arena.start (base : Nat) : Arena := ⟨initVmm base, []⟩

/-- Sizes below 2^31, and pointers that are handed out. -/
def Arena.step (s : Arena) : RegionOp → Option (Arena × List Unit)
  | .alloc size =>
    if size ≠ 0#32 ∧ size.toNat < 2 ^ 31 then
      match allocRegion size s.regions with
      | some (r, some p) => some (⟨r, (p, size.toNat) :: s.given⟩, [])
      | some (r, none) => some ({ s with regions := r }, [])
      | none => none
    else none
  | .dealloc ptr =>
    if ptr ∈ s.given.map Prod.fst then
      some (⟨deallocRegion ptr s.regions, s.given.eraseP fun x => x.1 == ptr⟩, [])
    else none

def Tiles (r : Regions) (fin : Nat) : Nat → List Nat → Prop
  | a, [] => a = fin
  | a, b :: bs => b = a ∧ Tiles r fin (b + headerSize + (getBlockSize (r.size b)).toNat) bs

structure Blocks (base : Nat) (r : Regions) (bs fs : List Nat) : Prop where
  phys : Chain r.phys (some base) bs
  tiles : Tiles r (base + systemMemorySize) base bs
  free : Chain r.freePtr r.head fs
  once : fs.Nodup
  exactly : ∀ b, b ∈ fs ↔ b ∈ bs ∧ isUsedBlock (r.size b) = false
  merged : bs.IsChain fun a b => isUsedBlock (r.size a) = true ∨ isUsedBlock (r.size b) = true

def initialSize : Word := BitVec.ofNat 32 (systemMemorySize - headerSize)

structure Arena.Ok (base : Nat) (s : Arena) : Prop where
  blocks : ∃ bs fs, Blocks base s.regions bs fs ∧
    (s.given = [] → bs = [base] ∧ s.regions.size base = initialSize ∧
      ∃ r p, allocRegion initialSize s.regions = some (r, some p))
  apart : s.given.Pairwise fun x y => x.1 + x.2 ≤ y.1 ∨ y.1 + y.2 ≤ x.1
  inside : ∀ x ∈ s.given, base ≤ x.1 ∧ x.1 + x.2 ≤ base + systemMemorySize

def wanted (size : Word) : Word := if size < minSize then minSize else size

def RegionOp.Whole (s : Arena) : RegionOp → Prop
  | .alloc size => s.regions.head = none ∨ initialSize.toNat < (wanted size).toNat + 24
  | .dealloc _ => False

section
variable {base : Nat}

def usedUp (base : Nat) : Regions where
  size := Function.update (fun _ => 0#32) base (setUsedBlock initialSize)
  phys := fun _ => detached
  freePtr := fun _ => detached
  head := none

theorem initVmm_size : (initVmm base).size base = initialSize := by
  simp only [initVmm, Function.update_self]
  decide

theorem initVmm_fit (size : Word) :
    firstFit (initVmm base) size (systemMemorySize + 1) (initVmm base).head =
      if size ≤ initialSize then some (some base) else some none := by
  have head : (initVmm base).head = some base := rfl
  have next : ((initVmm base).freePtr base).next = none := rfl
  rw [head, firstFit, initVmm_size, next]
  split
  · rfl
  · rfl

theorem initVmm_taken (base : Nat) :
    let r := (initVmm base).unlinkFree base
    (r.setSize base (setUsedBlock (r.size base))).clearFree base = usedUp base := by
  have freed : (initVmm base).unlinkFree base = { initVmm base with head := none } := by
    simp [Regions.unlinkFree, initVmm, detached, patchPrev, patchNext]
  simp only [freed]
  simp only [Regions.setSize, Regions.clearFree, usedUp, initVmm_size]
  simp [initVmm]

theorem sle_newSize {n : Word} (fits : n ≤ initialSize) :
    minSize.sle (getBlockSize (setUsedBlock initialSize) - n - BitVec.ofNat 32 headerSize) = true ↔
      n.toNat + 24 ≤ initialSize.toNat := by
  have whole : getBlockSize (setUsedBlock initialSize) = initialSize := by decide
  have size : initialSize.toNat = 8388596 := by decide
  have bound : n.toNat ≤ 8388596 := by rw [← size]; exact fits
  rw [whole, BitVec.sle_eq_decide, decide_eq_true_eq, BitVec.toInt_eq_toNat_cond,
    BitVec.toInt_eq_toNat_cond, BitVec.toNat_sub, BitVec.toNat_sub, size]
  have least : minSize.toNat = 12 := rfl
  have head : (BitVec.ofNat 32 headerSize).toNat = 12 := rfl
  rw [least, head]
  split <;> split <;> omega

end

section
variable {base : Nat}

theorem usedUp_size : (usedUp base).size base = setUsedBlock initialSize := by
  simp [usedUp]

theorem allocRegion_fresh {size : Word} (some_ : size ≠ 0#32) :
    allocRegion size (initVmm base) =
      if wanted size ≤ initialSize then
        if (wanted size).toNat + 24 ≤ initialSize.toNat then
          some ((usedUp base).split base (wanted size)
            (getBlockSize (setUsedBlock initialSize) - wanted size - BitVec.ofNat 32 headerSize),
            some (base + headerSize))
        else some (usedUp base, some (base + headerSize))
      else some (initVmm base, none) := by
  have taken := initVmm_taken base
  simp only at taken
  simp only [allocRegion, if_neg some_]
  rw [← wanted, initVmm_fit]
  by_cases fits : wanted size ≤ initialSize
  · simp only [if_pos fits, taken, usedUp_size]
    by_cases room : (wanted size).toNat + 24 ≤ initialSize.toNat
    · rw [if_pos room, if_pos ((sle_newSize fits).mpr room)]
    · rw [if_neg room, if_neg fun cut => room ((sle_newSize fits).mp cut)]
  · simp only [if_neg fits]

theorem allocRegion_usedUp (size : Word) :
    allocRegion size (usedUp base) = some (usedUp base, none) := by
  have head : (usedUp base).head = none := rfl
  simp only [allocRegion]
  split
  · rfl
  · rw [head, firstFit]

theorem deallocRegion_usedUp :
    deallocRegion (base + headerSize) (usedUp base) =
      { usedUp base with size := Function.update (fun _ => 0#32) base initialSize } := by
  have here : base + headerSize - headerSize = base := Nat.add_sub_cancel _ _
  have used : isUsedBlock (setUsedBlock initialSize) = true := by decide
  have free : setFreeBlock (setUsedBlock initialSize) = initialSize := by decide
  simp only [deallocRegion, here, usedUp_size, used, free]
  simp [Regions.setSize, Regions.clearFree, Regions.mergePrev, Regions.mergeNext, usedUp, detached]

/-- The block that is cut off is linked to itself. -/
theorem split_broken {size n : Word} {given : List (Nat × Nat)} :
    ¬Arena.Ok base ⟨(usedUp base).split base size n, given⟩ := by
  rintro ⟨⟨bs, fs, blocks, _⟩, _, _⟩
  have apart : base ≠ base + headerSize + size.toNat := by
    simp only [headerSize]
    omega
  have first : (((usedUp base).split base size n).phys base).next =
      some (base + headerSize + size.toNat) := by
    simp [Regions.split, Regions.setSize, Regions.clearFree, Regions.pushFree, usedUp, patchPrev_apply,
      setNext_apply, setPrev_apply, apart, Ne.symm apart]
  have second : (((usedUp base).split base size n).phys (base + headerSize + size.toNat)).prev =
      some (base + headerSize + size.toNat) := by
    simp [Regions.split, Regions.setSize, Regions.clearFree, Regions.pushFree, usedUp, patchPrev_apply,
      setNext_apply, setPrev_apply, apart, Ne.symm apart]
  have chain := blocks.phys
  cases bs with
  | nil => cases chain
  | cons b rest =>
    obtain ⟨head, _, tail⟩ := chain
    cases head
    rw [first] at tail
    cases rest with
    | nil => cases tail
    | cons c more =>
      obtain ⟨next, back, _⟩ := tail
      cases next
      rw [second] at back
      exact apart (Option.some.inj back).symm

/-- The only block is free again, and not in the free list. -/
theorem released_broken {given : List (Nat × Nat)} :
    ¬Arena.Ok base
      ⟨{ usedUp base with size := Function.update (fun _ => 0#32) base initialSize }, given⟩ := by
  rintro ⟨⟨bs, fs, blocks, _⟩, _, _⟩
  have none : fs = [] := (segment_empty_iff blocks.free).mp rfl
  have head := segment_head blocks.phys
  have member : base ∈ bs := List.mem_of_head? head.symm
  have listed := (blocks.exactly base).mpr ⟨member, by simp; decide⟩
  rw [none] at listed
  cases listed

theorem fresh_ok : Arena.Ok base (Arena.start base) := by
  refine ⟨⟨[base], [base], ⟨?_, ?_, ?_, by simp, ?_, by simp⟩, fun _ => ⟨rfl, initVmm_size, ?_⟩⟩,
    List.Pairwise.nil, nofun⟩
  · exact ⟨rfl, rfl, rfl⟩
  · refine ⟨rfl, ?_⟩
    show base + headerSize + (getBlockSize ((initVmm base).size base)).toNat = base + systemMemorySize
    rw [initVmm_size]
    simp only [headerSize, systemMemorySize]
    have size : (getBlockSize initialSize).toNat = 8388596 := by decide
    omega
  · exact ⟨rfl, rfl, rfl⟩
  · intro b
    simp only [List.mem_singleton, iff_self_and]
    rintro rfl
    show isUsedBlock ((initVmm b).size b) = false
    rw [initVmm_size]
    decide
  · show ∃ r p, allocRegion initialSize (initVmm base) = some (r, some p)
    rw [allocRegion_fresh (by decide)]
    exact ⟨_, _, rfl⟩

theorem usedUp_ok {size : Word} (fits : wanted size ≤ initialSize) :
    Arena.Ok base ⟨usedUp base, [(base + headerSize, size.toNat)]⟩ := by
  have whole : (getBlockSize (setUsedBlock initialSize)).toNat = 8388596 := by decide
  have used : isUsedBlock (setUsedBlock initialSize) = true := by decide
  refine ⟨⟨[base], [], ⟨?_, ?_, rfl, List.nodup_nil, ?_, by simp⟩, nofun⟩, by simp, ?_⟩
  · exact ⟨rfl, rfl, rfl⟩
  · refine ⟨rfl, ?_⟩
    show base + headerSize + (getBlockSize ((usedUp base).size base)).toNat = base + systemMemorySize
    rw [usedUp_size]
    simp only [headerSize, systemMemorySize]
    omega
  · intro b
    simp only [List.not_mem_nil, List.mem_singleton, false_iff, not_and]
    rintro rfl
    show ¬isUsedBlock ((usedUp b).size b) = false
    rw [usedUp_size, used]
    decide
  · intro x member
    rw [List.mem_singleton] at member
    subst member
    have bound : (wanted size).toNat ≤ 8388596 := fits
    have least : size.toNat ≤ (wanted size).toNat := by
      unfold wanted
      split
      · rename_i below
        exact Nat.le_of_lt below
      · exact Nat.le_refl _
    simp only [headerSize, systemMemorySize]
    omega

end

inductive Arena.Intact (base : Nat) : Arena → Prop where
  | fresh : Arena.Intact base (Arena.start base)
  | used (size : Word) (fits : wanted size ≤ initialSize) :
      Arena.Intact base ⟨usedUp base, [(base + headerSize, size.toNat)]⟩

theorem Arena.Intact.ok {base : Nat} {s : Arena} (intact : s.Intact base) : s.Ok base := by
  cases intact with
  | fresh => exact fresh_ok
  | used size fits => exact usedUp_ok fits

theorem Arena.Intact.alloc {base : Nat} {s w : Arena} {size : Word} {es : List Unit}
    (intact : s.Intact base) (taken : s.step (.alloc size) = some (w, es)) :
    (w.Intact base ∧ RegionOp.Whole s (.alloc size)) ∨
      (¬w.Ok base ∧ ¬RegionOp.Whole s (.alloc size)) := by
  simp only [Arena.step] at taken
  split at taken
  · rename_i legal
    cases intact with
    | fresh =>
      simp only [Arena.start, allocRegion_fresh legal.1] at taken
      simp only [RegionOp.Whole]
      by_cases fits : wanted size ≤ initialSize
      · rw [if_pos fits] at taken
        by_cases room : (wanted size).toNat + 24 ≤ initialSize.toNat
        · rw [if_pos room] at taken
          cases taken
          refine Or.inr ⟨split_broken, ?_⟩
          rintro (none | rest)
          · cases none
          · omega
        · rw [if_neg room] at taken
          cases taken
          exact Or.inl ⟨.used size fits, Or.inr (by omega)⟩
      · rw [if_neg fits] at taken
        cases taken
        have large : initialSize.toNat < (wanted size).toNat := by
          rw [BitVec.le_def] at fits
          omega
        exact Or.inl ⟨.fresh, Or.inr (by omega)⟩
    | used given fits =>
      simp only [allocRegion_usedUp] at taken
      cases taken
      exact Or.inl ⟨.used given fits, Or.inl rfl⟩
  · cases taken

theorem Arena.Intact.dealloc {base : Nat} {s w : Arena} {ptr : Nat} {es : List Unit}
    (intact : s.Intact base) (taken : s.step (.dealloc ptr) = some (w, es)) : ¬w.Ok base := by
  simp only [Arena.step] at taken
  split at taken
  · rename_i given
    cases taken
    cases intact with
    | fresh => cases given
    | used size fits =>
      simp only [List.map_cons, List.map_nil, List.mem_singleton] at given
      subst given
      rw [deallocRegion_usedUp]
      exact released_broken
  · cases taken

theorem Arena.step_ok {base : Nat} {s w : Arena} {op : RegionOp} {es : List Unit}
    (intact : s.Ok base → s.Intact base) (ok : s.Ok base) (taken : s.step op = some (w, es)) :
    (w.Ok base → w.Intact base) ∧ (w.Ok base ↔ op.Whole s) := by
  cases op with
  | alloc size =>
    rcases (intact ok).alloc taken with ⟨next, whole⟩ | ⟨broken, cut⟩
    · exact ⟨fun _ => next, fun _ => whole, fun _ => next.ok⟩
    · exact ⟨fun good => absurd good broken, fun good => absurd good broken, fun good => absurd good cut⟩
  | dealloc ptr =>
    have broken := (intact ok).dealloc taken
    exact ⟨fun good => absurd good broken, fun good => absurd good broken, fun never => never.elim⟩

/-- The allocator is in order all along a run exactly if no allocation cuts a block
    off and nothing is ever released. -/
theorem regions_ok_iff (base : Nat) (ops : List RegionOp) (w : Arena) (es : List Unit)
    (run : Lts.exec Arena.step (Arena.start base) ops = some (w, es)) :
    (∀ before after s past, ops = before ++ after →
        Lts.exec Arena.step (Arena.start base) before = some (s, past) → s.Ok base) ↔
      Lts.Along Arena.step (fun s op => op.Whole s) (Arena.start base) ops := by
  have keeps : ∀ (s : Arena) (op : RegionOp) (w : Arena) (es : List Unit),
      (s.Ok base → s.Intact base) → s.Ok base → True → s.step op = some (w, es) →
      (w.Ok base → w.Intact base) ∧ (w.Ok base ↔ op.Whole s) :=
    fun _ _ _ _ intact ok _ taken => Arena.step_ok intact ok taken
  exact Lts.good_iff_along keeps ops (fun _ => .fresh) fresh_ok (Lts.along_trivial ops _) run

instance (s : Arena) : (op : RegionOp) → Decidable (op.Whole s)
  | .alloc size =>
    inferInstanceAs (Decidable (s.regions.head = none ∨ initialSize.toNat < (wanted size).toNat + 24))
  | .dealloc _ => inferInstanceAs (Decidable False)

theorem regions_ok_iff_one :
    ∃ w, Lts.exec Arena.step (Arena.start 0x91000000) [.alloc 8388596#32, .alloc 100#32] = some (w, []) ∧
      w.given = [(0x9100000c, 8388596)] ∧ w.Ok 0x91000000 := by
  have final : (Lts.exec Arena.step (Arena.start 0x91000000) [.alloc 8388596#32, .alloc 100#32]).map
      (fun r => (r.2, r.1.given)) = some ([], [(0x9100000c, 8388596)]) := by decide +kernel
  obtain ⟨⟨w, es⟩, run, there⟩ := Option.map_eq_some_iff.mp final
  simp only [Prod.mk.injEq] at there
  obtain ⟨rfl, given⟩ := there
  have good := (regions_ok_iff 0x91000000 _ w [] run).mpr (by decide +kernel)
  exact ⟨w, run, given, good _ [] w [] (by simp) run⟩

theorem regions_ring :
    ∃ w, Lts.exec Arena.step (Arena.start 0x91000000) [.alloc 100#32] = some (w, []) ∧
      w.regions.phys 0x91000070 = ⟨some 0x91000070, some 0x91000070⟩ ∧ ¬w.Ok 0x91000000 := by
  have final : (Lts.exec Arena.step (Arena.start 0x91000000) [.alloc 100#32]).map
      (fun r => (r.2, r.1.regions.phys 0x91000070)) =
      some ([], ⟨some 0x91000070, some 0x91000070⟩) := by decide +kernel
  obtain ⟨⟨w, es⟩, run, there⟩ := Option.map_eq_some_iff.mp final
  simp only [Prod.mk.injEq] at there
  obtain ⟨rfl, ring⟩ := there
  refine ⟨w, run, ring, fun ok => ?_⟩
  obtain ⟨v, _, _, taken, rest, _⟩ := Lts.exec_cons run
  cases rest
  rcases Arena.Intact.fresh.alloc taken with ⟨_, whole⟩ | ⟨broken, _⟩
  · exact absurd whole (by decide)
  · exact broken ok

end L4ertl
