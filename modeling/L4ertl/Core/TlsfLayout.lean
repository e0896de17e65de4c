import L4ertl.Core.TlsfIndex

/-!
The tiling of the pool. A list of blocks stands for the headers met from the
first one to the sentinel. A header tells the size and the state of its own
block and whether the block before it is free, and then where that one starts;
this last word is the end of the block before it.
-/
namespace L4ertl.Tlsf

structure Blk where
  addr : Nat
  size : Nat
  free : Bool
  deriving DecidableEq, Repr

namespace Blk

def next (b : Blk) : Nat := b.addr + 4 + b.size

def link (b : Blk) : Option Nat := if b.free then some b.addr else none

structure Fits (b : Blk) : Prop where
  whole : b.size % 4 = 0
  least : minBlockSize ≤ b.size

/-- The words inside the block that are not part of the tiling: the user's, or
    the link words. -/
def Owns (b : Blk) (a : Nat) : Prop :=
  if b.free then a = freePrev b.addr ∨ a = freeNext b.addr
  else buffer b.addr ≤ a ∧ a < buffer b.addr + b.size

end Blk

/-- The two header words at `a`, behind a block that is free at `q` if `prev = some q`. -/
structure Joint (m : Mem) (prev : Option Nat) (a size : Nat) (free : Bool) : Prop where
  header : m (sizeField a) = hdrWord size free prev.isSome
  back : ∀ q, prev = some q → m a = ofPtr q

/-- The blocks from `a` up to `z`; `p` and `q` say what lies before each end. -/
def Run (m : Mem) : Option Nat → Nat → List Blk → Option Nat → Nat → Prop
  | p, a, [], q, z => p = q ∧ a = z
  | p, a, b :: bs, q, z => b.addr = a ∧ b.Fits ∧ (p.isSome = true → b.free = false) ∧
      Joint m p a b.size b.free ∧ Run m b.link b.next bs q z

def Tiled (m : Mem) (e : Nat) : Option Nat → Nat → List Blk → Prop
  | p, a, [] => a = e ∧ Joint m p a 0 false
  | p, a, b :: bs => b.addr = a ∧ b.Fits ∧ (p.isSome = true → b.free = false) ∧
      Joint m p a b.size b.free ∧ Tiled m e b.link b.next bs

def headSize : List Blk → Nat
  | [] => 0
  | b :: _ => b.size

def headFree : List Blk → Bool
  | [] => false
  | b :: _ => b.free

section
variable {m w : Mem} {e a z : Nat} {p q : Option Nat} {bs pre post : List Blk} {b : Blk}

theorem run_append : Run m p a (pre ++ post) q z ↔ ∃ r y, Run m p a pre r y ∧ Run m r y post q z := by
  induction pre generalizing p a with
  | nil => simp [Run]
  | cons b bs ih => simp only [List.cons_append, Run, ih]; grind

theorem tiled_append : Tiled m e p a (pre ++ post) ↔ ∃ r y, Run m p a pre r y ∧ Tiled m e r y post := by
  induction pre generalizing p a with
  | nil => simp [Run]
  | cons b bs ih => simp only [List.cons_append, Run, Tiled, ih]; grind

theorem Tiled.joint (tiled : Tiled m e p a bs) : Joint m p a (headSize bs) (headFree bs) := by
  cases bs with
  | nil => exact tiled.2
  | cons b bs => exact tiled.2.2.2.1

theorem Blk.Fits.next_ge (fits : b.Fits) : b.addr + 16 ≤ b.next := by
  have least := fits.least
  simp only [minBlockSize] at least
  simp only [Blk.next]
  omega

theorem Run.bounds (run : Run m p a bs q z) : a ≤ z ∧ ∀ b ∈ bs, a ≤ b.addr ∧ b.next ≤ z ∧ b.Fits := by
  induction bs generalizing p a with
  | nil =>
    refine ⟨run.2.le, ?_⟩
    simp
  | cons x bs ih =>
    obtain ⟨start, fits, _, _, tail⟩ := run
    obtain ⟨le, rest⟩ := ih tail
    have far := fits.next_ge
    refine ⟨by omega, ?_⟩
    intro b member
    rcases List.mem_cons.mp member with rfl | later
    · exact ⟨start.ge, le, fits⟩
    · have bound := rest b later
      exact ⟨by omega, bound.2⟩

theorem Tiled.run (tiled : Tiled m e p a bs) : ∃ q, Run m p a bs q e := by
  induction bs generalizing p a with
  | nil => exact ⟨p, rfl, tiled.1⟩
  | cons x bs ih =>
    obtain ⟨start, fits, alone, joint, tail⟩ := tiled
    obtain ⟨q, run⟩ := ih tail
    exact ⟨q, start, fits, alone, joint, run⟩

theorem Tiled.bounds (tiled : Tiled m e p a bs) : a ≤ e ∧ ∀ b ∈ bs, a ≤ b.addr ∧ b.next ≤ e ∧ b.Fits := by
  obtain ⟨q, run⟩ := tiled.run
  exact run.bounds

theorem Run.apart (run : Run m p a bs q z) {x y : Blk} (hx : x ∈ bs) (hy : y ∈ bs) :
    x = y ∨ x.next ≤ y.addr ∨ y.next ≤ x.addr := by
  induction bs generalizing p a with
  | nil => cases hx
  | cons b bs ih =>
    obtain ⟨_, _, _, _, tail⟩ := run
    have rest := tail.bounds.2
    rcases List.mem_cons.mp hx with rfl | laterX
    · rcases List.mem_cons.mp hy with rfl | laterY
      · exact Or.inl rfl
      · exact Or.inr (Or.inl (rest y laterY).1)
    · rcases List.mem_cons.mp hy with rfl | laterY
      · exact Or.inr (Or.inr (rest x laterX).1)
      · exact ih tail laterX laterY

theorem Tiled.apart (tiled : Tiled m e p a bs) {x y : Blk} (hx : x ∈ bs) (hy : y ∈ bs) :
    x = y ∨ x.next ≤ y.addr ∨ y.next ≤ x.addr := by
  obtain ⟨q, run⟩ := tiled.run
  exact run.apart hx hy

theorem Blk.not_owns_next (fits : b.Fits) {x : Nat}
    (after : (x = b.next ∧ b.link.isSome = true) ∨ b.next + 4 ≤ x) : ¬ b.Owns x := by
  have far := fits.next_ge
  simp only [Blk.Owns, Blk.link] at *
  simp only [Blk.next, freePrev, freeNext, buffer] at *
  cases free : b.free with
  | true =>
    simp only [free, ↓reduceIte] at *
    omega
  | false =>
    simp only [free, Bool.false_eq_true, ↓reduceIte, Option.isSome_none, and_false, false_or] at *
    omega

theorem Joint.congr {size : Nat} {free : Bool} (joint : Joint m p a size free)
    (header : w (sizeField a) = m (sizeField a)) (back : p.isSome = true → w a = m a) :
    Joint w p a size free := by
  constructor
  · rw [header, joint.header]
  · intro q is
    rw [back (by simp [is])]
    exact joint.back q is

theorem Run.first_unowned (run : Run m p a (b :: bs) q z) {x : Nat} (here : x = a ∨ x = a + 4) :
    ∀ y ∈ b :: bs, ¬ y.Owns x := by
  obtain ⟨start, fits, _, _, tail⟩ := run
  have far := fits.next_ge
  intro y member
  rcases List.mem_cons.mp member with rfl | later
  · simp only [Blk.Owns, freePrev, freeNext, buffer]
    split <;> omega
  · have bound := tail.bounds.2 y later
    simp only [Blk.Owns, freePrev, freeNext, buffer]
    split <;> omega

theorem unowned_cons (fits : b.Fits) {x : Nat}
    (after : (x = b.next ∧ b.link.isSome = true) ∨ b.next + 4 ≤ x) (rest : ∀ y ∈ bs, ¬ y.Owns x) :
    ∀ y ∈ b :: bs, ¬ y.Owns x := by
  intro y member
  rcases List.mem_cons.mp member with rfl | later
  · exact Blk.not_owns_next fits after
  · exact rest y later

theorem Run.congr (run : Run m p a bs q z)
    (same : ∀ x, (x = a ∧ p.isSome = true ∨ a + 4 ≤ x) → x < z → (∀ b ∈ bs, ¬ b.Owns x) → w x = m x) :
    Run w p a bs q z := by
  induction bs generalizing p a with
  | nil => exact run
  | cons b bs ih =>
    have unowned := fun x => run.first_unowned (x := x)
    obtain ⟨start, fits, alone, joint, tail⟩ := run
    have far := fits.next_ge
    have rest := tail.bounds.1
    refine ⟨start, fits, alone, joint.congr ?_ ?_, ih tail ?_⟩
    · exact same (a + 4) (Or.inr (Nat.le_refl _)) (by omega) (unowned _ (Or.inr rfl))
    · intro some
      exact same a (Or.inl ⟨rfl, some⟩) (by omega) (unowned _ (Or.inl rfl))
    · intro x after before free
      exact same x (Or.inr (by omega)) before (unowned_cons fits after free)

theorem Tiled.congr (tiled : Tiled m e p a bs)
    (same : ∀ x, (x = a ∧ p.isSome = true ∨ a + 4 ≤ x) → x ≤ e + 4 → (∀ b ∈ bs, ¬ b.Owns x) → w x = m x) :
    Tiled w e p a bs := by
  induction bs generalizing p a with
  | nil =>
    obtain ⟨last, joint⟩ := tiled
    subst last
    refine ⟨rfl, joint.congr ?_ ?_⟩
    · exact same (a + 4) (Or.inr (Nat.le_refl _)) (by omega) (by simp)
    · intro some
      exact same a (Or.inl ⟨rfl, some⟩) (by omega) (by simp)
  | cons b bs ih =>
    obtain ⟨q, run⟩ := tiled.run
    have unowned := fun x => run.first_unowned (x := x)
    obtain ⟨start, fits, alone, joint, tail⟩ := tiled
    have far := fits.next_ge
    have rest := tail.bounds.1
    refine ⟨start, fits, alone, joint.congr ?_ ?_, ih tail ?_⟩
    · exact same (a + 4) (Or.inr (Nat.le_refl _)) (by omega) (unowned _ (Or.inr rfl))
    · intro some
      exact same a (Or.inl ⟨rfl, some⟩) (by omega) (unowned _ (Or.inl rfl))
    · intro x after before free
      exact same x (Or.inr (by omega)) before (unowned_cons fits after free)

theorem Tiled.relink (tiled : Tiled m e p a bs) (joint : Joint w q a (headSize bs) (headFree bs))
    (alone : q.isSome = true → headFree bs = false)
    (same : ∀ x, a + 8 ≤ x → x ≤ e + 4 → (∀ b ∈ bs, ¬ b.Owns x) → w x = m x) :
    Tiled w e q a bs := by
  cases bs with
  | nil => exact ⟨tiled.1, joint⟩
  | cons b bs =>
    obtain ⟨start, fits, _, _, tail⟩ := tiled
    have far := fits.next_ge
    refine ⟨start, fits, alone, joint, tail.congr ?_⟩
    intro x after before free
    exact same x (by omega) before (unowned_cons fits after free)

theorem Run.last_free {y : Nat} (run : Run m none a bs (some y) z) :
    ∃ front s, bs = front ++ [⟨y, s, true⟩] ∧ Run m none a front none y ∧ y + 4 + s = z ∧
      (⟨y, s, true⟩ : Blk).Fits ∧ Joint m none y s true := by
  rcases List.eq_nil_or_concat' bs with rfl | ⟨front, b, rfl⟩
  · cases run.1
  · obtain ⟨r, x, first, last⟩ := run_append.mp run
    obtain ⟨start, fits, alone, joint, link, next⟩ := last
    cases free : b.free with
    | false => simp [Blk.link, free] at link
    | true =>
      have addr : b.addr = y := by simpa [Blk.link, free] using link
      have isNone : r = none := by
        cases r with
        | none => rfl
        | some v => simp [free] at alone
      have shape : b = ⟨y, b.size, true⟩ := by rw [← addr, ← free]
      subst isNone
      rw [shape] at fits
      rw [← start, addr, free] at joint
      rw [← start, addr] at first
      exact ⟨front, b.size, by rw [← shape], first, by rw [← next, Blk.next, addr], fits, joint⟩

end

def FreeAt (bs : List Blk) (x : Nat) : Prop := ∃ s, (⟨x, s, true⟩ : Blk) ∈ bs

/-- Each free block is in the list of its cell, and nothing else is. -/
def Filed (bs : List Blk) (L : Lists) : Prop :=
  ∀ c x, x ∈ L c ↔ ∃ s, (⟨x, s, true⟩ : Blk) ∈ bs ∧ cellOf s = c

section
variable {pre post : List Blk} {L : Lists} {b s : Nat}

theorem Filed.used : Filed (pre ++ ⟨b, s, false⟩ :: post) L ↔ Filed (pre ++ post) L := by
  unfold Filed
  simp

theorem Filed.members {bs : List Blk} (filed : Filed bs L) : ∀ c, ∀ x ∈ L c, FreeAt bs x := by
  intro c x member
  obtain ⟨s, there, _⟩ := (filed c x).mp member
  exact ⟨s, there⟩

theorem Filed.add (filed : Filed (pre ++ post) L) :
    Filed (pre ++ ⟨b, s, true⟩ :: post) (Function.update L (cellOf s) (b :: L (cellOf s))) := by
  intro c x
  have old := filed c x
  by_cases same : c = cellOf s
  · subst same
    rw [Function.update_self, List.mem_cons, old]
    constructor
    · rintro (rfl | ⟨t, member, cell⟩)
      · exact ⟨s, by simp, rfl⟩
      · refine ⟨t, ?_, cell⟩
        simp only [List.mem_append, List.mem_cons] at *
        tauto
    · rintro ⟨t, member, cell⟩
      simp only [List.mem_append, List.mem_cons, Blk.mk.injEq] at *
      rcases member with there | ⟨is, _⟩ | there
      · exact Or.inr ⟨t, Or.inl there, cell⟩
      · exact Or.inl is
      · exact Or.inr ⟨t, Or.inr there, cell⟩
  · rw [Function.update_of_ne same, old]
    constructor
    · rintro ⟨t, member, cell⟩
      refine ⟨t, ?_, cell⟩
      simp only [List.mem_append, List.mem_cons] at *
      tauto
    · rintro ⟨t, member, cell⟩
      simp only [List.mem_append, List.mem_cons, Blk.mk.injEq] at *
      rcases member with there | ⟨_, is, _⟩ | there
      · exact ⟨t, Or.inl there, cell⟩
      · subst is
        exact absurd cell.symm same
      · exact ⟨t, Or.inr there, cell⟩

theorem Filed.remove (filed : Filed (pre ++ ⟨b, s, true⟩ :: post) L)
    (alone : ∀ x ∈ pre ++ post, x.addr ≠ b) (nodup : (L (cellOf s)).Nodup) :
    Filed (pre ++ post) (Function.update L (cellOf s) ((L (cellOf s)).erase b)) := by
  intro c x
  have old := filed c x
  have drop : ∀ t, x ≠ b → ((⟨x, t, true⟩ : Blk) ∈ pre ++ ⟨b, s, true⟩ :: post ↔
      (⟨x, t, true⟩ : Blk) ∈ pre ++ post) := by
    intro t other
    simp [other]
  by_cases gone : x = b
  · subst gone
    have never : ¬ ∃ t, (⟨x, t, true⟩ : Blk) ∈ pre ++ post ∧ cellOf t = c :=
      fun ⟨t, member, _⟩ => alone _ member rfl
    by_cases same : c = cellOf s
    · subst same
      rw [Function.update_self]
      simp only [never, iff_false]
      exact fun member => ((List.Nodup.mem_erase_iff nodup).mp member).1 rfl
    · rw [Function.update_of_ne same, old]
      simp only [never, iff_false]
      rintro ⟨t, member, cell⟩
      simp only [List.mem_append, List.mem_cons, Blk.mk.injEq] at member
      rcases member with there | ⟨_, is, _⟩ | there
      · exact alone _ (List.mem_append_left _ there) rfl
      · subst is
        exact same cell.symm
      · exact alone _ (List.mem_append_right _ there) rfl
  · have through : x ∈ Function.update L (cellOf s) ((L (cellOf s)).erase b) c ↔ x ∈ L c := by
      by_cases same : c = cellOf s
      · subst same
        rw [Function.update_self, List.mem_erase_of_ne gone]
      · rw [Function.update_of_ne same]
    rw [through, old]
    simp only [drop _ gone]

end
end L4ertl.Tlsf
