import L4ertl.Core.RootTree

/-!
The tables that mkroot writes for a directory tree. Its entries are numbered as they
are met; the order of roottab has the children of each directory together, the
directories in the order of their numbers.
-/
namespace L4ertl

structure MkrootNode where
  name : List Byte
  dotdot : Nat
  isdir : Bool
  deriving DecidableEq, Repr

/-- The arrays of mkroot once every path has been walked: an entry has a greater number
    than its directory. -/
structure MkrootTree where
  node : Nat → MkrootNode
  qid : Nat
  some_ : 0 < qid
  -- rootmaxq is an int
  few : qid < 2 ^ 31
  root : node 0 = ⟨[], 0, true⟩
  earlier : ∀ q, 0 < q → q < qid → (node q).dotdot < q
  isdir : ∀ q, 0 < q → q < qid → (node (node q).dotdot).isdir = true
  named : ∀ q, 0 < q → q < qid → (node q).name ≠ []
  siblings : ∀ q r, 0 < q → q < r → r < qid → (node q).dotdot = (node r).dotdot →
    (node q).name ≠ (node r).name

variable (m : MkrootTree)

def MkrootTree.children (q : Nat) : List Nat :=
  if (m.node q).isdir then
    (List.range m.qid).filter fun q2 => decide (0 < q2) && decide ((m.node q2).dotdot = q)
  else []

def MkrootTree.unsort : List Nat := 0 :: (List.range m.qid).flatMap m.children

def MkrootTree.sort (q : Nat) : Nat := m.unsort.idxOf q

/-- The two tables. `code` is the memory that the pointer of an entry leads to, and `len`
    the length that data2c has counted. -/
def mkroot (code : Nat → Nat → Byte) (len : Nat → Word) (behind : Nat → Byte) : RootTab where
  roottab := m.unsort.zipIdx.map fun (q, oq) =>
    ⟨(m.node q).name, ⟨BitVec.ofNat 64 oq, 0, if (m.node q).isdir then qtdir else qtfile⟩⟩
  rootdata := fun oq =>
    let q := m.unsort.getD oq 0
    ⟨m.sort (m.node q).dotdot, code q,
      if (m.node q).isdir then BitVec.ofNat 32 (m.children q).length else 0,
      if (m.node q).isdir then none else some (len q)⟩
  behind := behind

variable {m}

theorem mem_children {q r : Nat} :
    r ∈ m.children q ↔ (m.node q).isdir = true ∧ 0 < r ∧ r < m.qid ∧ (m.node r).dotdot = q := by
  unfold MkrootTree.children
  split
  · rename_i dir
    simp only [List.mem_filter, List.mem_range, Bool.and_eq_true, decide_eq_true_eq, dir, true_and]
    exact ⟨fun h => ⟨h.2.1, h.1, h.2.2⟩, fun h => ⟨h.2.1, h.1, h.2.2⟩⟩
  · rename_i file
    simp [file]

theorem unsort_by_dotdot :
    ((List.range m.qid).flatMap m.children).Pairwise fun q r => (m.node q).dotdot ≤ (m.node r).dotdot := by
  rw [List.pairwise_flatMap]
  constructor
  · intro a _
    apply List.pairwise_of_forall_mem_list
    intro q inA r also
    rw [(mem_children.mp inA).2.2.2, (mem_children.mp also).2.2.2]
  · apply List.pairwise_lt_range.imp
    intro a b before q inA r inB
    rw [(mem_children.mp inA).2.2.2, (mem_children.mp inB).2.2.2]
    exact Nat.le_of_lt before

theorem mem_unsort {q : Nat} : q ∈ m.unsort ↔ q < m.qid := by
  simp only [MkrootTree.unsort, List.mem_cons, List.mem_flatMap, List.mem_range, mem_children]
  constructor
  · rintro (rfl | ⟨a, _, _, _, inside, _⟩)
    · exact m.some_
    · exact inside
  · intro inside
    rcases Nat.eq_zero_or_pos q with zero | below
    · exact Or.inl zero
    · have before := m.earlier q below inside
      exact Or.inr ⟨_, by omega, m.isdir q below inside, below, inside, rfl⟩

theorem children_nodup (q : Nat) : (m.children q).Nodup := by
  unfold MkrootTree.children
  split
  · exact List.nodup_range.filter _
  · exact List.nodup_nil

theorem unsort_nodup : m.unsort.Nodup := by
  rw [MkrootTree.unsort, List.nodup_cons]
  constructor
  · simp only [List.mem_flatMap, mem_children]
    rintro ⟨a, _, _, below, _⟩
    exact absurd below (Nat.lt_irrefl 0)
  · rw [List.nodup_flatMap]
    refine ⟨fun q _ => children_nodup q, ?_⟩
    apply List.pairwise_lt_range.imp
    intro a b before r inA inB
    rw [mem_children] at inA inB
    have same := inA.2.2.2.symm.trans inB.2.2.2
    omega

theorem unsort_length : m.unsort.length = m.qid := by
  have perm : m.unsort.Perm (List.range m.qid) :=
    (List.perm_ext_iff_of_nodup unsort_nodup List.nodup_range).mpr fun q => by
      rw [mem_unsort, List.mem_range]
  rw [perm.length_eq, List.length_range]

def MkrootTree.at (m : MkrootTree) (oq : Nat) : Nat := m.unsort.getD oq 0

theorem at_eq {oq : Nat} (inside : oq < m.unsort.length) : m.at oq = m.unsort[oq] := by
  rw [MkrootTree.at, List.getD_eq_getElem?_getD, List.getElem?_eq_getElem inside]
  rfl

theorem at_lt {oq : Nat} (inside : oq < m.qid) : m.at oq < m.qid := by
  have place := unsort_length.symm ▸ inside
  rw [at_eq place, ← mem_unsort]
  exact List.getElem_mem place

theorem sort_at {oq : Nat} (inside : oq < m.qid) : m.sort (m.at oq) = oq := by
  have place := unsort_length.symm ▸ inside
  rw [at_eq place, MkrootTree.sort]
  exact unsort_nodup.idxOf_getElem oq place

theorem sort_lt {q : Nat} (inside : q < m.qid) : m.sort q < m.qid := by
  have place := List.idxOf_lt_length_of_mem (mem_unsort.mpr inside)
  exact unsort_length ▸ place

theorem at_sort {q : Nat} (inside : q < m.qid) : m.at (m.sort q) = q := by
  have place := unsort_length.symm ▸ sort_lt inside
  rw [at_eq place]
  exact List.getElem_idxOf place

theorem sort_inj {q r : Nat} (inside : q < m.qid) (also : r < m.qid) (same : m.sort q = m.sort r) : q = r := by
  rw [← at_sort inside, same, at_sort also]

theorem at_zero : m.at 0 = 0 := rfl

theorem sort_zero : m.sort 0 = 0 := by
  have back := sort_at m.some_
  rwa [at_zero] at back

theorem at_pos {oq : Nat} (below : 0 < oq) (inside : oq < m.qid) : 0 < m.at oq := by
  by_contra none_
  have back := sort_at inside
  rw [Nat.eq_zero_of_not_pos none_, sort_zero] at back
  omega

theorem dotdot_mono {i k : Nat} (below : 0 < i) (order : i ≤ k) (inside : k < m.qid) :
    (m.node (m.at i)).dotdot ≤ (m.node (m.at k)).dotdot := by
  rcases Nat.eq_or_lt_of_le order with same | before
  · rw [same]
  · have sorted := List.pairwise_iff_getElem.mp (unsort_by_dotdot (m := m))
    have whole := unsort_length (m := m)
    have tail : m.unsort.length = ((List.range m.qid).flatMap m.children).length + 1 := List.length_cons
    have pair := sorted (i - 1) (k - 1) (by omega) (by omega) (by omega)
    obtain ⟨a, rfl⟩ := Nat.exists_eq_succ_of_ne_zero (Nat.ne_of_gt below)
    obtain ⟨b, rfl⟩ := Nat.exists_eq_succ_of_ne_zero (Nat.ne_of_gt (Nat.lt_trans below before))
    rw [at_eq (by omega), at_eq (by omega)]
    exact pair

theorem dotdot_lt {q : Nat} (below : 0 < q) (inside : q < m.qid) : (m.node q).dotdot < m.qid :=
  Nat.lt_trans (m.earlier q below inside) inside

theorem sort_dotdot_lt {oq : Nat} (below : 0 < oq) (inside : oq < m.qid) :
    m.sort (m.node (m.at oq)).dotdot < oq := by
  have positive := at_pos below inside
  have here := at_lt inside
  have parent := dotdot_lt positive here
  by_contra behind
  rcases Nat.eq_zero_or_pos (m.node (m.at oq)).dotdot with top | inner
  · rw [top, sort_zero] at behind
    omega
  · have order := dotdot_mono below (Nat.le_of_not_lt behind) (sort_lt parent)
    rw [at_sort parent] at order
    have earlier := m.earlier _ inner parent
    omega

section
variable {code : Nat → Nat → Byte} {len : Nat → Word} {behind : Nat → Byte}

theorem mkroot_rootmaxq : (mkroot m code len behind).rootmaxq = m.qid := by
  simp [RootTab.rootmaxq, mkroot, unsort_length]

theorem mkroot_dir {oq : Nat} (inside : oq < m.qid) :
    (mkroot m code len behind).dir oq =
      ⟨(m.node (m.at oq)).name, ⟨BitVec.ofNat 64 oq, 0, if (m.node (m.at oq)).isdir then qtdir else qtfile⟩⟩ := by
  have place : oq < m.unsort.length := unsort_length.symm ▸ inside
  rw [at_eq place]
  simp [RootTab.dir, mkroot, place]

theorem mkroot_dotdot (oq : Nat) :
    ((mkroot m code len behind).rootdata oq).dotdot = m.sort (m.node (m.at oq)).dotdot := rfl

theorem same_dotdot {i j : Nat} (below : 0 < i) (inside : i < m.qid) (below' : 0 < j) (also : j < m.qid)
    (parent : m.sort (m.node (m.at i)).dotdot = m.sort (m.node (m.at j)).dotdot) :
    (m.node (m.at i)).dotdot = (m.node (m.at j)).dotdot :=
  sort_inj (dotdot_lt (at_pos below inside) (at_lt inside)) (dotdot_lt (at_pos below' also) (at_lt also)) parent

theorem siblings_at {i j : Nat} (below : 0 < i) (before : i < j) (inside : j < m.qid)
    (parent : (m.node (m.at i)).dotdot = (m.node (m.at j)).dotdot) :
    (m.node (m.at i)).name ≠ (m.node (m.at j)).name := by
  have earlier : i < m.qid := Nat.lt_trans before inside
  have after : 0 < j := Nat.lt_trans below before
  rcases Nat.lt_trichotomy (m.at i) (m.at j) with one | equal | other
  · exact m.siblings _ _ (at_pos below earlier) one (at_lt inside) parent
  · have places := congrArg m.sort equal
    rw [sort_at earlier, sort_at inside] at places
    omega
  · exact (m.siblings _ _ (at_pos after inside) other (at_lt earlier) parent.symm).symm

theorem mkroot_ofTree : (mkroot m code len behind).OfTree where
  root := by
    have first : (mkroot m code len behind).dir 0 = _ := mkroot_dir m.some_
    rw [at_zero, m.root] at first
    exact congrArg some first
  top := by
    rw [mkroot_dotdot, at_zero, m.root, sort_zero]
    rfl
  qids := by
    intro j inside
    rw [mkroot_rootmaxq] at inside
    have few := m.few
    rw [mkroot_dir inside, BitVec.toNat_ofNat]
    exact Nat.mod_eq_of_lt (by omega)
  types := by
    intro j inside
    rw [mkroot_rootmaxq] at inside
    rw [mkroot_dir inside]
    simp only
    split
    · exact Or.inl rfl
    · exact Or.inr rfl
  parents := by
    intro j inside below
    rw [mkroot_rootmaxq] at inside
    have before := sort_dotdot_lt below inside
    have positive := at_pos below inside
    have parent := dotdot_lt positive (at_lt inside)
    refine ⟨m.sort (m.node (m.at j)).dotdot, before, mkroot_dotdot j, ?_⟩
    rw [mkroot_dir (sort_lt parent), at_sort parent, m.isdir _ positive (at_lt inside)]
    change qtdir &&& qtdir ≠ 0
    decide
  named := by
    intro j inside below
    rw [mkroot_rootmaxq] at inside
    rw [mkroot_dir inside]
    exact m.named _ (at_pos below inside) (at_lt inside)
  siblings := by
    intro j inside i before below parent
    rw [mkroot_rootmaxq] at inside
    have earlier : i < m.qid := Nat.lt_trans before inside
    rw [mkroot_dotdot, mkroot_dotdot, Int.natCast_inj] at parent
    rw [mkroot_dir earlier, mkroot_dir inside]
    exact siblings_at below before inside (same_dotdot below earlier (Nat.lt_trans below before) inside parent)
  together := by
    intro k inside j upper i lower below parent
    rw [mkroot_rootmaxq] at inside
    rw [mkroot_dotdot, mkroot_dotdot, Int.natCast_inj] at parent ⊢
    have first : i < m.qid := by omega
    have one := dotdot_mono below lower (by omega : j < m.qid)
    have two := dotdot_mono (Nat.lt_of_lt_of_le below lower) upper inside
    have same := same_dotdot below first (by omega) inside parent
    rw [Nat.le_antisymm one (same ▸ two)]

end

end L4ertl
