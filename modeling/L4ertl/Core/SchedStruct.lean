import Mathlib.Data.Fintype.Card
import Mathlib.Data.Fintype.Prod
import Mathlib.Data.List.Nodup
import Mathlib.Data.Fintype.List
import L4ertl.Lib.Intrusive
import L4ertl.Core.Bitop

/-!
The scheduler's ready structure (sched_struct.h): 32 x 32 intrusive lists, one
for each priority, under two levels of bitmaps. The per-thread fields that the
structure owns (next_matrix, prev_matrix, ss_i, ss_j) are kept as maps from the
thread to the field, so that `(ss.matrix t).next` reads `t -> next_matrix`.

`ReadyModel` is the structure's purpose: a list of threads for each priority.
`Represents` ties the two, and every operation refines its list counterpart.
-/
namespace L4ertl
open Intrusive

/-- Indices of thread_matrix, at most 31 each by the masks of `prio2ij`. -/
abbrev Cell := Fin 32 × Fin 32

structure ActiveThreads (T : Type) where
  threadMatrix : Cell → Option T
  flbitmap : Word
  slbitmap : Fin 32 → Word
  matrix : Links T
  ssI : T → Int
  ssJ : T → Int

/-- Masking an int with 2^n - 1 is reducing it modulo 2^n. -/
def prio2ij (prio : Int) : Cell :=
  (Fin.ofNat 32 (prio % 1024 / 32).toNat, Fin.ofNat 32 (prio % 32).toNat)

def ij2prio (c : Cell) : Int := 32 * (c.1.val : Int) + (c.2.val : Int)

theorem ij2prio_prio2ij {p : Int} (low : 0 ≤ p) (high : p ≤ 1023) : ij2prio (prio2ij p) = p := by
  simp only [ij2prio, prio2ij, Fin.val_ofNat]
  omega

variable {T : Type} [DecidableEq T]

def initSs (ss : ActiveThreads T) : ActiveThreads T :=
  { ss with
    threadMatrix := fun _ => none
    flbitmap := 0#32
    slbitmap := fun _ => 0#32 }

def markSs (ss : ActiveThreads T) (c : Cell) : ActiveThreads T :=
  { ss with
    flbitmap := setbit ss.flbitmap c.1
    slbitmap := Function.update ss.slbitmap c.1 (setbit (ss.slbitmap c.1) c.2) }

def placeSs (ss : ActiveThreads T) (thread : T) (c : Cell) : ActiveThreads T :=
  { ss with
    ssI := Function.update ss.ssI thread c.1
    ssJ := Function.update ss.ssJ thread c.2 }

def insertSs (thread : T) (priority : Int) (ss : ActiveThreads T) : ActiveThreads T :=
  let c := prio2ij priority
  let head := ss.threadMatrix c
  let m := Function.update ss.matrix thread detached
  let m := setNext m thread head
  let m := patchPrev m head (some thread)
  placeSs (markSs { ss with
    matrix := m
    threadMatrix := Function.update ss.threadMatrix c (some thread) } c) thread c

/-- The walk to the tail stops at the last thread: no list is longer than the
    number of threads, which bounds the steps. -/
def insertSsTail [Fintype T] (thread : T) (priority : Int) (ss : ActiveThreads T) :
    ActiveThreads T :=
  let c := prio2ij priority
  let m := Function.update ss.matrix thread detached
  let linked := match ss.threadMatrix c with
    | some head =>
      let aux := walk m (Fintype.card T) head
      let m := setNext m aux (some thread)
      { ss with matrix := setPrev m thread (some aux) }
    | none => { ss with
        matrix := m
        threadMatrix := Function.update ss.threadMatrix c (some thread) }
  placeSs (markSs linked c) thread c

def getHeadSs (ss : ActiveThreads T) : Option T × Int :=
  if ss.flbitmap = 0#32 then (none, -1)
  else
    let i := Fin.ofNat 32 (ffs ss.flbitmap).toNat
    let j := Fin.ofNat 32 (ffs (ss.slbitmap i)).toNat
    (ss.threadMatrix (i, j), ij2prio (i, j))

def unmarkSs (ss : ActiveThreads T) (c : Cell) : ActiveThreads T :=
  match ss.threadMatrix c with
  | some _ => ss
  | none =>
    let row := clearbit (ss.slbitmap c.1) c.2
    { ss with
      slbitmap := Function.update ss.slbitmap c.1 row
      flbitmap := if row = 0#32 then clearbit ss.flbitmap c.1 else ss.flbitmap }

def removeSs (thread : T) (ss : ActiveThreads T) : ActiveThreads T :=
  if ss.ssI thread = -1 ∨ ss.ssJ thread = -1 then ss
  else
    let c : Cell := (Fin.ofNat 32 (ss.ssI thread).toNat, Fin.ofNat 32 (ss.ssJ thread).toNat)
    let m := ss.matrix
    let m := patchNext m (m thread).prev (m thread).next
    let m := patchPrev m (m thread).next (m thread).prev
    let head := if ss.threadMatrix c = some thread then (m thread).next else ss.threadMatrix c
    let ss := unmarkSs { ss with
      threadMatrix := Function.update ss.threadMatrix c head
      matrix := Function.update m thread detached } c
    { ss with
      ssI := Function.update ss.ssI thread (-1)
      ssJ := Function.update ss.ssJ thread (-1) }

/-- The part of zeroing a new thread structure that concerns the ready structure. -/
def zeroSs (thread : T) (ss : ActiveThreads T) : ActiveThreads T :=
  { ss with
    matrix := Function.update ss.matrix thread detached
    ssI := Function.update ss.ssI thread 0
    ssJ := Function.update ss.ssJ thread 0 }

/-- The threads met walking list `c`, as lookfor_ss does. -/
def threadsAt [Fintype T] (ss : ActiveThreads T) (c : Cell) : List T :=
  collect ss.matrix (Fintype.card T) (ss.threadMatrix c)

/-- The threads of each priority list. `fresh` marks threads that no operation
    has touched since their structure was zeroed, `parked` those whose last
    operation was a removal. -/
structure ReadyModel (T : Type) where
  lists : Cell → List T
  fresh : T → Bool
  parked : T → Bool

def ReadyModel.Absent (r : ReadyModel T) (t : T) : Prop := ∀ c, t ∉ r.lists c

structure Represents (ss : ActiveThreads T) (r : ReadyModel T) : Prop where
  chain : ∀ c, Chain ss.matrix (ss.threadMatrix c) (r.lists c)
  nodup : ∀ c, (r.lists c).Nodup
  placed : ∀ c, ∀ t ∈ r.lists c, ss.ssI t = c.1.val ∧ ss.ssJ t = c.2.val
  second : ∀ i j : Fin 32, isbitset (ss.slbitmap i) j = true ↔ r.lists (i, j) ≠ []
  first : ∀ i : Fin 32, isbitset ss.flbitmap i = true ↔ ss.slbitmap i ≠ 0#32
  zeroed : ∀ t, r.fresh t = true → r.Absent t ∧ ss.matrix t = detached ∧ ss.ssI t = 0 ∧ ss.ssJ t = 0
  gone : ∀ t, r.parked t = true → r.Absent t ∧ ss.ssI t = -1 ∧ ss.ssJ t = -1

inductive SsOp (T : Type) where
  | init
  | insert (thread : T) (priority : Int)
  | insertTail (thread : T) (priority : Int)
  | remove (thread : T)
  deriving DecidableEq, Repr

def SsOp.run [Fintype T] (ss : ActiveThreads T) : SsOp T → ActiveThreads T
  | .init => initSs ss
  | .insert t p => insertSs t p ss
  | .insertTail t p => insertSsTail t p ss
  | .remove t => removeSs t ss

def SsOp.model (r : ReadyModel T) : SsOp T → ReadyModel T
  | .init => { r with lists := fun _ => [] }
  | .insert t p =>
    { lists := Function.update r.lists (prio2ij p) (t :: r.lists (prio2ij p))
      fresh := Function.update r.fresh t false
      parked := Function.update r.parked t false }
  | .insertTail t p =>
    { lists := Function.update r.lists (prio2ij p) (r.lists (prio2ij p) ++ [t])
      fresh := Function.update r.fresh t false
      parked := Function.update r.parked t false }
  | .remove t =>
    { lists := fun c => (r.lists c).erase t
      fresh := Function.update r.fresh t false
      parked := Function.update r.parked t true }

/-- Insertions take a thread that is in no list; a removal takes a thread that
    is in a list, or was removed before, or was never inserted. -/
def SsOp.Legal (r : ReadyModel T) : SsOp T → Prop
  | .init => True
  | .insert t p => r.Absent t ∧ 0 ≤ p ∧ p ≤ 1023
  | .insertTail t p => r.Absent t ∧ 0 ≤ p ∧ p ≤ 1023
  | .remove t => (∃ c, t ∈ r.lists c) ∨ r.parked t = true ∨ r.fresh t = true

theorem cell_eq_of_val {a b : Cell} (row : (a.1.val : Int) = b.1.val)
    (col : (a.2.val : Int) = b.2.val) : a = b :=
  Prod.ext (Fin.ext (by omega)) (Fin.ext (by omega))

omit [DecidableEq T] in
theorem Represents.same_cell {ss : ActiveThreads T} {r : ReadyModel T} (rep : Represents ss r)
    {a b : Cell} {t : T} (inA : t ∈ r.lists a) (inB : t ∈ r.lists b) : a = b := by
  have pa := rep.placed a t inA
  have pb := rep.placed b t inB
  exact cell_eq_of_val (pa.1.symm.trans pb.1) (pa.2.symm.trans pb.2)

omit [DecidableEq T] in
theorem Represents.head_mem {ss : ActiveThreads T} {r : ReadyModel T} (rep : Represents ss r)
    {c : Cell} {t : T} (head : ss.threadMatrix c = some t) : t ∈ r.lists c := by
  have eq := segment_head (rep.chain c)
  rw [head] at eq
  exact List.mem_of_head? eq.symm

theorem initSs_represents {ss : ActiveThreads T} {r : ReadyModel T}
    (zeroed : ∀ t, r.fresh t = true → ss.matrix t = detached ∧ ss.ssI t = 0 ∧ ss.ssJ t = 0)
    (gone : ∀ t, r.parked t = true → ss.ssI t = -1 ∧ ss.ssJ t = -1) :
    Represents (initSs ss) (SsOp.model r .init) where
  chain c := rfl
  nodup c := List.nodup_nil
  placed c t member := by simp [SsOp.model] at member
  second i j := by simp [initSs, SsOp.model, isbitset_zero]
  first i := by simp [initSs, isbitset_zero]
  zeroed t fresh := ⟨fun c => by simp [SsOp.model], zeroed t fresh⟩
  gone t parked := ⟨fun c => by simp [SsOp.model], gone t parked⟩

theorem represents_grow {ss : ActiveThreads T} {r : ReadyModel T} (rep : Represents ss r)
    {t : T} (absent : r.Absent t) {c : Cell} {m : Links T} {head : Option T} {xs : List T}
    (chain : Chain m head xs) (nodup : xs.Nodup)
    (members : ∀ u, u ∈ xs ↔ u = t ∨ u ∈ r.lists c)
    (frame : ∀ u, u ∉ xs → m u = ss.matrix u) :
    Represents
      (placeSs (markSs { ss with
        matrix := m
        threadMatrix := Function.update ss.threadMatrix c head } c) t c)
      { lists := Function.update r.lists c xs
        fresh := Function.update r.fresh t false
        parked := Function.update r.parked t false } := by
  have apart : ∀ d, d ≠ c → ∀ u ∈ r.lists d, u ∉ xs := by
    intro d ne u inD inXs
    rcases (members u).mp inXs with same | inC
    · exact absent d (same ▸ inD)
    · exact ne (rep.same_cell inD inC)
  have notListed : ∀ u, u ≠ t → (∀ d, u ∉ r.lists d) →
      u ∉ xs ∧ ∀ d, u ∉ Function.update r.lists c xs d := by
    intro u ne out
    have notXs : u ∉ xs := fun inXs => ((members u).mp inXs).elim ne (out c)
    refine ⟨notXs, fun d => ?_⟩
    by_cases same : d = c
    · subst same; simpa using notXs
    · simpa [same] using out d
  constructor
  · intro d
    by_cases same : d = c
    · subst same; simpa [placeSs, markSs] using chain
    · simp only [placeSs, markSs, Function.update_of_ne same]
      exact segment_congr (fun u member => frame u (apart d same u member)) (rep.chain d)
  · intro d
    by_cases same : d = c
    · subst same; simpa using nodup
    · simpa [same] using rep.nodup d
  · intro d u member
    by_cases same : d = c
    · subst same
      simp only [Function.update_self] at member
      by_cases self : u = t
      · subst self; simp [placeSs]
      · have old := ((members u).mp member).resolve_left self
        simpa [placeSs, markSs, self] using rep.placed d u old
    · simp only [Function.update_of_ne same] at member
      have self : u ≠ t := fun e => absent d (e ▸ member)
      simpa [placeSs, markSs, self] using rep.placed d u member
  · intro i j
    have nonempty : xs ≠ [] := List.ne_nil_of_mem ((members t).mpr (Or.inl rfl))
    by_cases row : i = c.1
    · subst row
      simp only [placeSs, markSs, Function.update_self, isbitset_setbit _ j.isLt]
      by_cases col : j = c.2
      · subst col; simp [nonempty]
      · have other : (c.1, j) ≠ c := fun e => col (congrArg Prod.snd e)
        have val : j.val ≠ c.2.val := fun e => col (Fin.ext e)
        simpa [other, val] using rep.second c.1 j
    · have other : (i, j) ≠ c := fun e => row (congrArg Prod.fst e)
      simpa [placeSs, markSs, row, other] using rep.second i j
  · intro i
    by_cases row : i = c.1
    · subst row
      have bit : isbitset (setbit (ss.slbitmap c.1) c.2) c.2 = true := by
        simp [isbitset_setbit _ c.2.isLt]
      have nonzero : setbit (ss.slbitmap c.1) c.2 ≠ 0#32 :=
        (word_ne_zero_iff _).mpr ⟨c.2, c.2.isLt, bit⟩
      simp [placeSs, markSs, isbitset_setbit _ c.1.isLt, nonzero]
    · have val : i.val ≠ c.1.val := fun e => row (Fin.ext e)
      simp only [placeSs, markSs, isbitset_setbit _ i.isLt, Function.update_of_ne row]
      simpa [val] using rep.first i
  · intro u fresh
    have self : u ≠ t := by rintro rfl; simp at fresh
    simp only [Function.update_of_ne self] at fresh
    obtain ⟨out, links, row, col⟩ := rep.zeroed u fresh
    obtain ⟨notXs, out'⟩ := notListed u self out
    refine ⟨out', ?_, ?_, ?_⟩
    · simpa [placeSs, markSs] using (frame u notXs).trans links
    · simpa [placeSs, markSs, self] using row
    · simpa [placeSs, markSs, self] using col
  · intro u parked
    have self : u ≠ t := by rintro rfl; simp at parked
    simp only [Function.update_of_ne self] at parked
    obtain ⟨out, row, col⟩ := rep.gone u parked
    refine ⟨(notListed u self out).2, ?_, ?_⟩
    · simpa [placeSs, markSs, self] using row
    · simpa [placeSs, markSs, self] using col

theorem insertSs_represents {ss : ActiveThreads T} {r : ReadyModel T} (rep : Represents ss r)
    {t : T} (absent : r.Absent t) (p : Int) :
    Represents (insertSs t p ss) (SsOp.model r (.insert t p)) := by
  have chain := rep.chain (prio2ij p)
  have headNe : ss.threadMatrix (prio2ij p) ≠ some t := fun head =>
    absent (prio2ij p) (rep.head_mem head)
  apply represents_grow rep absent
  · apply chain_cons chain (rep.nodup _)
    · simp [patchPrev_apply, headNe, setNext_apply, detached]
    · intro y member
      have other : y ≠ t := fun e => absent _ (e ▸ member)
      simp [patchPrev_apply, setNext_apply, other]
  · exact List.nodup_cons.mpr ⟨absent _, rep.nodup _⟩
  · intro u; simp
  · intro u out
    have other : u ≠ t := by rintro rfl; simp at out
    have notHead : ss.threadMatrix (prio2ij p) ≠ some u := fun head =>
      out (List.mem_cons_of_mem _ (rep.head_mem head))
    simp [patchPrev_apply, setNext_apply, other, notHead]

theorem insertSsTail_represents [Fintype T] {ss : ActiveThreads T} {r : ReadyModel T}
    (rep : Represents ss r) {t : T} (absent : r.Absent t) (p : Int) :
    Represents (insertSsTail t p ss) (SsOp.model r (.insertTail t p)) := by
  have chain := rep.chain (prio2ij p)
  have out := absent (prio2ij p)
  have nodup := rep.nodup (prio2ij p)
  have keep : ∀ y ∈ r.lists (prio2ij p), Function.update ss.matrix t detached y = ss.matrix y := by
    intro y member
    have other : y ≠ t := fun e => out (e ▸ member)
    simp [other]
  rcases List.eq_nil_or_concat' (r.lists (prio2ij p)) with empty | ⟨front, a, full⟩
  · have head : ss.threadMatrix (prio2ij p) = none := by rw [segment_head chain, empty]; rfl
    have single : Chain (Function.update ss.matrix t detached) (some t) [t] := by
      simp [Segment, detached]
    have grown := represents_grow rep absent (c := prio2ij p) single (by simp) (by simp [empty])
      (by intro u ne; simp at ne; simp [ne])
    simpa [insertSsTail, head, SsOp.model, empty] using grown
  · obtain ⟨h, head⟩ : ∃ h, ss.threadMatrix (prio2ij p) = some h := by
      rw [segment_head chain, full]
      cases front <;> simp
    have chain' : Chain (Function.update ss.matrix t detached) (some h) (front ++ [a]) := by
      rw [← full, ← head]
      exact segment_congr keep chain
    have aNe : a ≠ t := by rintro rfl; rw [full] at out; simp at out
    -- the walk reaches the last thread because the list has no repetition
    have last : walk (Function.update ss.matrix t detached) (Fintype.card T) h = a := by
      have listed : ∃ rest, front ++ [a] = h :: rest := by
        have first := segment_head chain'
        cases front with
        | nil => exact ⟨[], by simpa using first.symm⟩
        | cons f fs => exact ⟨fs ++ [a], by simpa using first.symm⟩
      obtain ⟨rest, split⟩ := listed
      have length : rest.length ≤ Fintype.card T := by
        have bound := nodup.length_le_card
        rw [full, split] at bound
        simp at bound
        omega
      rw [split] at chain'
      rw [walk_last chain' length]
      simp [← split]
    have longer : Chain (setPrev (setNext (Function.update ss.matrix t detached) a (some t)) t (some a))
        (some h) (front ++ [a] ++ [t]) := by
      apply chain_snoc chain' (full ▸ nodup)
      · simp [setPrev_apply, setNext_apply, Ne.symm aNe, detached]
      · intro y member
        have other : y ≠ t := by rintro rfl; rw [full] at out; exact out member
        simp [setPrev_apply, other]
    have distinct : (front ++ [a] ++ [t]).Nodup := by
      rw [← full]
      refine List.nodup_append.mpr ⟨nodup, by simp, ?_⟩
      intro x member y single same
      simp only [List.mem_singleton] at single
      exact out (single ▸ same ▸ member)
    have grown := represents_grow rep absent (c := prio2ij p) longer distinct
      (by intro u; rw [full]; simp; tauto)
      (by
        intro u notIn
        simp only [List.append_assoc, List.cons_append, List.nil_append, List.mem_append,
          List.mem_cons, List.not_mem_nil, or_false, not_or] at notIn
        simp [setPrev_apply, setNext_apply, notIn.2.1, notIn.2.2])
    simp only [insertSsTail, head, last, SsOp.model, full]
    have stay : Function.update ss.threadMatrix (prio2ij p) (some h) = ss.threadMatrix := by
      rw [← head, Function.update_eq_self]
    rw [stay] at grown
    exact grown

omit [DecidableEq T] in
@[simp] theorem unmarkSs_threadMatrix (ss : ActiveThreads T) (c : Cell) :
    (unmarkSs ss c).threadMatrix = ss.threadMatrix := by
  unfold unmarkSs; split <;> rfl

omit [DecidableEq T] in
@[simp] theorem unmarkSs_matrix (ss : ActiveThreads T) (c : Cell) :
    (unmarkSs ss c).matrix = ss.matrix := by
  unfold unmarkSs; split <;> rfl

omit [DecidableEq T] in
@[simp] theorem unmarkSs_ssI (ss : ActiveThreads T) (c : Cell) : (unmarkSs ss c).ssI = ss.ssI := by
  unfold unmarkSs; split <;> rfl

omit [DecidableEq T] in
@[simp] theorem unmarkSs_ssJ (ss : ActiveThreads T) (c : Cell) : (unmarkSs ss c).ssJ = ss.ssJ := by
  unfold unmarkSs; split <;> rfl

theorem represents_shrink {ss : ActiveThreads T} {r : ReadyModel T} (rep : Represents ss r)
    {t : T} {c : Cell} {m : Links T} {head : Option T}
    (chain : Chain m head ((r.lists c).erase t)) (only : ∀ d, d ≠ c → t ∉ r.lists d)
    (frame : ∀ u, u ≠ t → u ∉ r.lists c → m u = ss.matrix u) :
    Represents
      { unmarkSs { ss with
          threadMatrix := Function.update ss.threadMatrix c head
          matrix := m } c with
        ssI := Function.update ss.ssI t (-1)
        ssJ := Function.update ss.ssJ t (-1) }
      (SsOp.model r (.remove t)) := by
  have erased : ∀ d, d ≠ c → (r.lists d).erase t = r.lists d := fun d ne =>
    List.erase_of_not_mem (only d ne)
  have gone : ∀ d, t ∉ (r.lists d).erase t := by
    intro d member
    exact (List.Nodup.mem_erase_iff (rep.nodup d)).mp member |>.1 rfl
  constructor
  · intro d
    simp only [unmarkSs_matrix, unmarkSs_threadMatrix, SsOp.model]
    by_cases same : d = c
    · subst same; simpa using chain
    · simp only [Function.update_of_ne same, erased d same]
      apply segment_congr _ (rep.chain d)
      intro u member
      apply frame u
      · rintro rfl; exact only d same member
      · intro inC; exact same (rep.same_cell member inC)
  · intro d
    exact (rep.nodup d).erase t
  · intro d u member
    have self : u ≠ t := by rintro rfl; exact gone d member
    simpa [self] using rep.placed d u (List.mem_of_mem_erase member)
  · intro i j
    simp only [SsOp.model]
    have old := rep.second i j
    unfold unmarkSs
    have empty := segment_empty_iff chain
    cases eq : head with
    | some x =>
      have nonempty : (r.lists c).erase t ≠ [] := by
        intro e
        have none := empty.mpr e
        rw [eq] at none
        cases none
      simp only [Function.update_self]
      by_cases same : (i, j) = c
      · subst same
        have full : r.lists (i, j) ≠ [] := by
          intro e; rw [e] at nonempty; simp at nonempty
        simp [old, full, nonempty]
      · simp [old, erased _ same]
    | none =>
      have isEmpty := empty.mp eq
      simp only [Function.update_self]
      by_cases row : i = c.1
      · subst row
        by_cases col : j = c.2
        · subst col
          simp [isbitset_clearbit _ c.2.isLt, isEmpty]
        · have other : (c.1, j) ≠ c := fun e => col (congrArg Prod.snd e)
          have val : j.val ≠ c.2.val := fun e => col (Fin.ext e)
          simp only [Function.update_self, isbitset_clearbit _ j.isLt, erased _ other, ← old]
          simp [val]
      · have other : (i, j) ≠ c := fun e => row (congrArg Prod.fst e)
        simp [Function.update_of_ne row, old, erased _ other]
  · intro i
    have old := rep.first i
    unfold unmarkSs
    cases eq : head with
    | some x => simpa using old
    | none =>
      simp only [Function.update_self]
      by_cases row : i = c.1
      · subst row
        by_cases zero : clearbit (ss.slbitmap c.1) c.2 = 0#32
        · simp [zero, isbitset_clearbit _ c.1.isLt]
        · have nonzero : ss.slbitmap c.1 ≠ 0#32 := by
            intro e; rw [e] at zero; exact zero (by simp [clearbit])
          simp only [zero, ↓reduceIte, Function.update_self]
          exact iff_of_true (old.mpr nonzero) zero
      · have val : i.val ≠ c.1.val := fun e => row (Fin.ext e)
        simp only [Function.update_of_ne row, ← old]
        split
        · simp only [isbitset_clearbit _ i.isLt]
          simp [val]
        · rfl
  · intro u fresh
    have self : u ≠ t := by rintro rfl; simp [SsOp.model] at fresh
    simp only [SsOp.model, Function.update_of_ne self] at fresh
    obtain ⟨out, links, row, col⟩ := rep.zeroed u fresh
    refine ⟨fun d member => out d (List.mem_of_mem_erase member), ?_, ?_, ?_⟩
    · simp only [unmarkSs_matrix]
      exact (frame u self (out c)).trans links
    · simpa [self] using row
    · simpa [self] using col
  · intro u parked
    by_cases self : u = t
    · subst self
      exact ⟨gone, by simp, by simp⟩
    · simp only [SsOp.model, Function.update_of_ne self] at parked
      obtain ⟨out, row, col⟩ := rep.gone u parked
      refine ⟨fun d member => out d (List.mem_of_mem_erase member), ?_, ?_⟩
      · simpa [self] using row
      · simpa [self] using col

/-- The source patches the predecessor first; the order does not matter. -/
theorem removal_links (m : Links T) (t : T) :
    patchPrev (patchNext m (m t).prev (m t).next)
        (patchNext m (m t).prev (m t).next t).next (patchNext m (m t).prev (m t).next t).prev =
      bypass m t := by
  have own : patchNext m (m t).prev (m t).next t = m t := by
    rw [patchNext_apply]
    split
    · rename_i loop; cases h : m t; simp_all
    · rfl
  rw [own]
  funext y
  rw [bypass_apply, patchPrev_apply, patchNext_apply]
  split <;> split <;> rfl

theorem removeSs_represents {ss : ActiveThreads T} {r : ReadyModel T} (rep : Represents ss r)
    {t : T} (legal : (SsOp.remove t).Legal r) :
    Represents (removeSs t ss) (SsOp.model r (.remove t)) := by
  rcases legal with ⟨c, member⟩ | parked | fresh
  · -- present: its indices name list `c`, and both neighbours bypass it
    obtain ⟨row, col⟩ := rep.placed c t member
    obtain ⟨front, back, split⟩ := List.append_of_mem member
    have nodup := rep.nodup c
    have chain := rep.chain c
    rw [split] at nodup chain
    have notFront : t ∉ front := fun inFront =>
      (List.nodup_append.mp nodup).2.2 t inFront t (by simp) rfl
    have rest : (r.lists c).erase t = front ++ back := by
      rw [split, List.erase_append_right _ notFront, List.erase_cons_head]
    have shorter := chain_bypass chain nodup
    have out : t ∉ front ++ back := by
      rw [← rest]
      exact fun inside => ((rep.nodup c).mem_erase_iff.mp inside).1 rfl
    have cellIs : ((Fin.ofNat 32 (ss.ssI t).toNat, Fin.ofNat 32 (ss.ssJ t).toNat) : Cell) = c := by
      apply cell_eq_of_val
      · have := c.1.isLt; simp [row]
      · have := c.2.isLt; simp [col]
    have notParked : ¬ (ss.ssI t = -1 ∨ ss.ssJ t = -1) := by omega
    have shrunk := represents_shrink rep (t := t) (c := c)
      (m := Function.update (bypass ss.matrix t) t detached)
      (by
        rw [rest]
        apply segment_congr _ shorter
        intro u inside
        have self : u ≠ t := by rintro rfl; exact out inside
        simp [self])
      (fun d ne inD => ne (rep.same_cell inD member))
      (by
        intro u self notIn
        have facts := chain_split chain
        rw [Function.update_of_ne self, bypass_apply, facts.1, facts.2.1]
        have notNext : back.head? ≠ some u := fun e =>
          notIn (by rw [split]; simp [List.mem_of_head? e])
        have notPrev : front.getLast? ≠ some u := fun e =>
          notIn (by rw [split]; simp [List.mem_of_getLast? e])
        simp [notNext, notPrev])
    simp only [removeSs, notParked, ↓reduceIte, cellIs, removal_links, bypass_self, unmarkSs_ssI,
      unmarkSs_ssJ]
    exact shrunk
  · obtain ⟨out, row, _⟩ := rep.gone t parked
    have unchanged : removeSs t ss = ss := by simp [removeSs, row]
    have sameLists : (fun c => (r.lists c).erase t) = r.lists := by
      funext c; exact List.erase_of_not_mem (out c)
    rw [unchanged]
    refine ⟨?_, ?_, ?_, ?_, rep.first, ?_, ?_⟩
    all_goals simp only [SsOp.model, sameLists, ReadyModel.Absent]
    · exact rep.chain
    · exact rep.nodup
    · exact rep.placed
    · exact rep.second
    · intro u h
      have self : u ≠ t := by rintro rfl; simp at h
      exact rep.zeroed u (by simpa [self] using h)
    · intro u h
      by_cases self : u = t
      · subst self; exact rep.gone u parked
      · exact rep.gone u (by simpa [self] using h)
  · -- never inserted: the zeroed indices name list (0, 0), which does not hold it
    obtain ⟨out, links, row, col⟩ := rep.zeroed t fresh
    have notHead : ss.threadMatrix (0, 0) ≠ some t := fun head => out _ (rep.head_mem head)
    have shrunk := represents_shrink rep (t := t) (c := (0, 0))
      (m := Function.update ss.matrix t detached)
      (by
        rw [List.erase_of_not_mem (out _)]
        apply segment_congr _ (rep.chain (0, 0))
        intro u inside
        have self : u ≠ t := by rintro rfl; exact out _ inside
        simp [self])
      (fun d _ => out d)
      (by intro u self _; simp [self])
    simp only [removeSs, row, col, links, detached, patchPrev, patchNext]
    simp [notHead]
    simpa [detached] using shrunk

omit [DecidableEq T] in
theorem Represents.threadsAt_eq [Fintype T] {ss : ActiveThreads T} {r : ReadyModel T}
    (rep : Represents ss r) (c : Cell) : threadsAt ss c = r.lists c :=
  collect_segment (rep.chain c) (rep.nodup c).length_le_card

theorem zeroSs_represents {ss : ActiveThreads T} {r : ReadyModel T} (rep : Represents ss r)
    {t : T} (absent : r.Absent t) :
    Represents (zeroSs t ss)
      { r with
        fresh := Function.update r.fresh t true
        parked := Function.update r.parked t false } := by
  have other : ∀ c, ∀ u ∈ r.lists c, u ≠ t := fun c u member same => absent c (same ▸ member)
  constructor
  · intro c
    apply segment_congr _ (rep.chain c)
    intro u member
    simp [zeroSs, other c u member]
  · exact rep.nodup
  · intro c u member
    simpa [zeroSs, other c u member] using rep.placed c u member
  · exact rep.second
  · exact rep.first
  · intro u fresh
    by_cases self : u = t
    · subst self
      exact ⟨absent, by simp [zeroSs], by simp [zeroSs], by simp [zeroSs]⟩
    · simpa [zeroSs, self, ReadyModel.Absent] using rep.zeroed u (by simpa [self] using fresh)
  · intro u parked
    have self : u ≠ t := by rintro rfl; simp at parked
    simpa [zeroSs, self, ReadyModel.Absent] using rep.gone u (by simpa [self] using parked)

omit [DecidableEq T] in
theorem getHeadSs_empty {ss : ActiveThreads T} {r : ReadyModel T} (rep : Represents ss r)
    (empty : ∀ c, r.lists c = []) : getHeadSs ss = (none, -1) := by
  have rows : ∀ i, ss.slbitmap i = 0#32 := by
    intro i
    by_contra nonzero
    obtain ⟨j, inside, bit⟩ := (word_ne_zero_iff _).mp nonzero
    exact (rep.second i ⟨j, inside⟩).mp bit (empty _)
  have zero : ss.flbitmap = 0#32 := by
    by_contra nonzero
    obtain ⟨i, inside, bit⟩ := (word_ne_zero_iff _).mp nonzero
    exact (rep.first ⟨i, inside⟩).mp bit (rows _)
  simp [getHeadSs, zero]

omit [DecidableEq T] in
theorem getHeadSs_urgent {ss : ActiveThreads T} {r : ReadyModel T} (rep : Represents ss r)
    {d : Cell} (busy : r.lists d ≠ []) :
    ∃ c t, getHeadSs ss = (some t, ij2prio c) ∧ (r.lists c).head? = some t ∧
      ∀ e, r.lists e ≠ [] → ij2prio c ≤ ij2prio e := by
  have rowBusy : ∀ e, r.lists e ≠ [] → ss.slbitmap e.1 ≠ 0#32 := fun e full =>
    (word_ne_zero_iff _).mpr ⟨e.2, e.2.isLt, (rep.second e.1 e.2).mpr full⟩
  have top : ss.flbitmap ≠ 0#32 :=
    (word_ne_zero_iff _).mpr ⟨d.1, d.1.isLt, (rep.first d.1).mpr (rowBusy d busy)⟩
  obtain ⟨i, rowLow⟩ := lowestBit_exists top
  have rowSet : ss.slbitmap ⟨i, rowLow.1⟩ ≠ 0#32 :=
    (rep.first ⟨i, rowLow.1⟩).mp (by rw [isbitset_eq _ rowLow.1]; exact rowLow.2.1)
  obtain ⟨j, colLow⟩ := lowestBit_exists rowSet
  have full : r.lists (⟨i, rowLow.1⟩, ⟨j, colLow.1⟩) ≠ [] :=
    (rep.second ⟨i, rowLow.1⟩ ⟨j, colLow.1⟩).mp (by rw [isbitset_eq _ colLow.1]; exact colLow.2.1)
  have rowIs : Fin.ofNat 32 (ffs ss.flbitmap).toNat = ⟨i, rowLow.1⟩ := by
    rw [ffs_lowest rowLow]
    exact Fin.ext (by simp [Nat.mod_eq_of_lt rowLow.1])
  have colIs : Fin.ofNat 32 (ffs (ss.slbitmap ⟨i, rowLow.1⟩)).toNat = ⟨j, colLow.1⟩ := by
    rw [ffs_lowest colLow]
    exact Fin.ext (by simp [Nat.mod_eq_of_lt colLow.1])
  obtain ⟨t, first⟩ : ∃ t, (r.lists (⟨i, rowLow.1⟩, ⟨j, colLow.1⟩)).head? = some t := by
    cases eq : r.lists (⟨i, rowLow.1⟩, ⟨j, colLow.1⟩) with
    | nil => exact absurd eq full
    | cons t rest => exact ⟨t, rfl⟩
  refine ⟨(⟨i, rowLow.1⟩, ⟨j, colLow.1⟩), t, ?_, first, ?_⟩
  · simp only [getHeadSs, top, ↓reduceIte, rowIs, colIs]
    rw [segment_head (rep.chain _), first]
  · intro e busyE
    have rowBit : ss.flbitmap.getLsbD e.1 = true := by
      rw [← isbitset_eq _ e.1.isLt]; exact (rep.first e.1).mpr (rowBusy e busyE)
    have rowLe : i ≤ e.1.val := by
      by_contra less
      have clear := rowLow.2.2 e.1 (by omega)
      rw [rowBit] at clear
      cases clear
    by_cases sameRow : e.1.val = i
    · have rowEq : e.1 = ⟨i, rowLow.1⟩ := Fin.ext sameRow
      have colBit : (ss.slbitmap ⟨i, rowLow.1⟩).getLsbD e.2 = true := by
        rw [← isbitset_eq _ e.2.isLt, ← rowEq]; exact (rep.second e.1 e.2).mpr busyE
      have colLe : j ≤ e.2.val := by
        by_contra less
        have clear := colLow.2.2 e.2 (by omega)
        rw [colBit] at clear
        cases clear
      simp only [ij2prio]
      omega
    · have := colLow.1
      simp only [ij2prio]
      omega

theorem SsOp.represents [Fintype T] {ss : ActiveThreads T} {r : ReadyModel T}
    (rep : Represents ss r) {op : SsOp T} (legal : op.Legal r) :
    Represents (op.run ss) (op.model r) := by
  cases op with
  | init =>
    exact initSs_represents (fun t fresh => (rep.zeroed t fresh).2) (fun t parked => (rep.gone t parked).2)
  | insert t p => exact insertSs_represents rep legal.1 p
  | insertTail t p => exact insertSsTail_represents rep legal.1 p
  | remove t => exact removeSs_represents rep legal

def LegalOps (r : ReadyModel T) : List (SsOp T) → Prop
  | [] => True
  | op :: ops => op.Legal r ∧ LegalOps (op.model r) ops

theorem ops_represent [Fintype T] (ops : List (SsOp T)) {ss : ActiveThreads T} {r : ReadyModel T}
    (rep : Represents ss r) (legal : LegalOps r ops) :
    Represents (ops.foldl SsOp.run ss) (ops.foldl SsOp.model r) := by
  induction ops generalizing ss r with
  | nil => exact rep
  | cons op ops ih => exact ih (SsOp.represents rep legal.1) legal.2

def ReadyModel.empty : ReadyModel T := ⟨fun _ => [], fun _ => true, fun _ => false⟩

theorem empty_represents {ss : ActiveThreads T}
    (zeroed : ∀ t, ss.matrix t = detached ∧ ss.ssI t = 0 ∧ ss.ssJ t = 0) :
    Represents (initSs ss) ReadyModel.empty :=
  initSs_represents (r := ReadyModel.empty) (fun t _ => zeroed t)
    (fun t parked => by simp [ReadyModel.empty] at parked)

/-- Whatever the operations, the 1024 lists are well-formed doubly linked lists
    of the threads the model says, in its order; the bitmaps agree with them;
    and a thread is in at most one list, once, which its indices name. -/
theorem ready_structure_refines [Fintype T] (ss : ActiveThreads T)
    (zeroed : ∀ t, ss.matrix t = detached ∧ ss.ssI t = 0 ∧ ss.ssJ t = 0)
    (ops : List (SsOp T)) (legal : LegalOps ReadyModel.empty ops) :
    let final := ops.foldl SsOp.run (initSs ss)
    let model := ops.foldl SsOp.model ReadyModel.empty
    Represents final model ∧
      ∀ t a b, t ∈ model.lists a → t ∈ model.lists b →
        a = b ∧ (model.lists a).count t = 1 ∧ final.ssI t = a.1.val ∧ final.ssJ t = a.2.val := by
  intro final model
  have rep : Represents final model := ops_represent ops (empty_represents zeroed) legal
  refine ⟨rep, ?_⟩
  intro t a b inA inB
  exact ⟨rep.same_cell inA inB, List.count_eq_one_of_mem (rep.nodup a) inA, rep.placed a t inA⟩

def zeroedThreads : ActiveThreads T :=
  ⟨fun _ => none, 0#32, fun _ => 0#32, fun _ => detached, fun _ => 0, fun _ => 0⟩

theorem ready_structure_refines_three :
    let ops : List (SsOp (Fin 3)) := [.insert 0 5, .insertTail 1 5, .remove 0, .remove 2]
    Represents (ops.foldl SsOp.run (initSs zeroedThreads))
        (ops.foldl SsOp.model ReadyModel.empty) ∧
      (ops.foldl SsOp.model ReadyModel.empty).lists (prio2ij 5) = [1] := by
  refine ⟨(ready_structure_refines zeroedThreads (fun _ => ⟨rfl, rfl, rfl⟩) _ ?_).1, by decide⟩
  refine ⟨⟨fun c => by simp [ReadyModel.empty], by decide, by decide⟩, ⟨?_, by decide, by decide⟩,
    Or.inl ⟨prio2ij 5, by decide⟩, Or.inr (Or.inr (by decide)), trivial⟩
  intro c
  simp only [SsOp.model, ReadyModel.empty, Function.update_apply]
  split <;> simp

end L4ertl
