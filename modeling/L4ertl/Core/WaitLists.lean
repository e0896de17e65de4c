import L4ertl.Core.WaitQueue
import L4ertl.Core.Reap
import L4ertl.Lib.Lts

/-!
The lists of pthread_list.h as stacks. Several lists may run through one node
field of the threads, as the waiters of all mutexes do; a thread is then on one
of them at most. What a list stands for is the stack of its threads, the last
one inserted first, and each operation acts on the stack of its own list.
-/
namespace L4ertl
open Intrusive Lts
variable {I T : Type} [DecidableEq I] [DecidableEq T]

structure PthreadLists (I T : Type) where
  node : Links T
  head : I → Option T

inductive ListCall (I T : Type) where
  | insert (i : I) (p : T)
  | remove (i : I) (p : T)
  | removeHead (i : I)
  deriving DecidableEq, Repr

namespace PthreadLists

def insert (s : PthreadLists I T) (i : I) (p : T) : PthreadLists I T :=
  let (node, head) := insertPthreadList s.node (s.head i) p
  ⟨node, Function.update s.head i head⟩

def remove (s : PthreadLists I T) (i : I) (p : T) : PthreadLists I T :=
  let (node, head) := removePthreadList s.node (s.head i) p
  ⟨node, Function.update s.head i head⟩

def removeHead (s : PthreadLists I T) (i : I) : PthreadLists I T × Option T :=
  let (node, head, thread) := removeHeadPthreadList s.node (s.head i)
  (⟨node, Function.update s.head i head⟩, thread)

def step (s : PthreadLists I T) : ListCall I T → Option (PthreadLists I T × List (Option T))
  | .insert i p => some (s.insert i p, [])
  | .remove i p => some (s.remove i p, [])
  | .removeHead i => some ((s.removeHead i).1, [(s.removeHead i).2])

structure WellFormed (s : PthreadLists I T) : Prop where
  linked : ∀ i, WellLinked s.node (s.head i)
  apart : ∀ i j p, Linked s.node (s.head i) p → Linked s.node (s.head j) p → i = j

structure Detached (s : PthreadLists I T) (p : T) : Prop where
  null : s.node p = detached
  nowhere : ∀ i, ¬Linked s.node (s.head i) p

/-- What the callers see to: a thread is inserted detached, and removed from
    the list it is on or while it is detached. -/
def Allowed (s : PthreadLists I T) : ListCall I T → Prop
  | .insert _ p => s.Detached p
  | .remove i p => Linked s.node (s.head i) p ∨ s.Detached p
  | .removeHead _ => True

def Proper (s : PthreadLists I T) : ListCall I T → Prop
  | .insert _ p => ∀ i, ¬Linked s.node (s.head i) p
  | .remove i p => ∀ j, j ≠ i → ¬Linked s.node (s.head j) p
  | .removeHead _ => True

structure Shows (s : PthreadLists I T) (xs : I → List T) : Prop where
  chain : ∀ i, Chain s.node (s.head i) (xs i)
  apart : ∀ i j, i ≠ j → (xs i).Disjoint (xs j)

end PthreadLists

def stackStep (xs : I → List T) : ListCall I T → Option ((I → List T) × List (Option T))
  | .insert i p => some (Function.update xs i (p :: xs i), [])
  | .remove i p => some (Function.update xs i ((xs i).erase p), [])
  | .removeHead i => some (Function.update xs i (xs i).tail, [(xs i).head?])

namespace PthreadLists
section
variable {s w : PthreadLists I T} {xs : I → List T} {i : I} {p : T}

omit [DecidableEq I] [DecidableEq T] in
theorem Shows.linked_iff (shown : s.Shows xs) : Linked s.node (s.head i) p ↔ p ∈ xs i :=
  ⟨fun linked => linked.mem (shown.chain i), fun member => .of_mem member (shown.chain i)⟩

omit [DecidableEq I] [DecidableEq T] in
theorem Shows.nodup (shown : s.Shows xs) (i : I) : (xs i).Nodup := segment_nodup _ (shown.chain i)

omit [DecidableEq I] [DecidableEq T] in
theorem wellFormed_iff (s : PthreadLists I T) : s.WellFormed ↔ ∃ xs, s.Shows xs := by
  constructor
  · intro ok
    choose xs chain using fun i => (wellLinked_iff s.node (s.head i)).mp (ok.linked i)
    refine ⟨xs, chain, ?_⟩
    intro i j other p here there
    exact other (ok.apart i j p (.of_mem here (chain i)) (.of_mem there (chain j)))
  · rintro ⟨xs, shown⟩
    refine ⟨fun i => (wellLinked_iff _ _).mpr ⟨xs i, shown.chain i⟩, ?_⟩
    intro i j p here there
    by_contra other
    exact shown.apart i j other (shown.linked_iff.mp here) (shown.linked_iff.mp there)

omit [DecidableEq I] [DecidableEq T] in
theorem Shows.wellFormed (shown : s.Shows xs) : s.WellFormed := (wellFormed_iff s).mpr ⟨xs, shown⟩

omit [DecidableEq I] [DecidableEq T] in
theorem Shows.detached_iff (shown : s.Shows xs) :
    s.Detached p ↔ s.node p = detached ∧ ∀ i, p ∉ xs i := by
  constructor
  · intro ok
    exact ⟨ok.null, fun i member => ok.nowhere i (shown.linked_iff.mpr member)⟩
  · rintro ⟨null, nowhere⟩
    exact ⟨null, fun i linked => nowhere i (shown.linked_iff.mp linked)⟩

omit [DecidableEq T] in
theorem Shows.replace (shown : s.Shows xs) {ys : List T} {h : Option T}
    (head : w.head = Function.update s.head i h) (chain : Chain w.node h ys)
    (kept : ∀ j, j ≠ i → ∀ y ∈ xs j, w.node y = s.node y)
    (apart : ∀ j, j ≠ i → ys.Disjoint (xs j)) : w.Shows (Function.update xs i ys) := by
  refine ⟨fun j => ?_, fun j k other => ?_⟩
  · rw [head]
    by_cases same : j = i
    · subst same
      rw [Function.update_self, Function.update_self]
      exact chain
    · rw [Function.update_of_ne same, Function.update_of_ne same]
      exact segment_congr (kept j same) (shown.chain j)
  · by_cases first : j = i
    · subst first
      rw [Function.update_self, Function.update_of_ne other.symm]
      exact apart k other.symm
    · by_cases second : k = i
      · subst second
        rw [Function.update_self, Function.update_of_ne other]
        exact (apart j other).symm
      · rw [Function.update_of_ne first, Function.update_of_ne second]
        exact shown.apart j k other

omit [DecidableEq I] in
theorem insertPthreadList_other {n : Links T} {h : Option T} {xs : List T} {p y : T}
    (chain : Chain n h xs) (other : y ≠ p) (outside : y ∉ xs) :
    (insertPthreadList n h p).1 y = n y := by
  have notHead : h ≠ some y := by
    rw [segment_head chain]
    intro first
    exact outside (List.mem_of_head? first)
  simp only [insertPthreadList, setNext_apply, if_neg other, patchPrev_apply, if_neg notHead]

omit [DecidableEq I] in
theorem removePthreadList_other {n : Links T} {h : Option T} {xs : List T} {p y : T}
    (chain : Chain n h xs) (member : p ∈ xs) (outside : y ∉ xs) :
    (removePthreadList n h p).1 y = n y := by
  have other : y ≠ p := by
    rintro rfl
    exact outside member
  obtain ⟨as, bs, rfl⟩ := List.append_of_mem member
  obtain ⟨back, forth, _⟩ := chain_split chain
  have notNext : (n p).next ≠ some y := by
    rw [forth]
    intro first
    exact outside (List.mem_append_right as (List.mem_cons_of_mem p (List.mem_of_head? first)))
  have notPrev : (n p).prev ≠ some y := by
    rw [back]
    intro last
    exact outside (List.mem_append_left _ (List.mem_of_getLast? last))
  simp only [removePthreadList_eq, Function.update_of_ne other, bypass_apply, if_neg notNext, if_neg notPrev]

theorem Shows.insert (shown : s.Shows xs) (free : s.Detached p) :
    (s.insert i p).Shows (Function.update xs i (p :: xs i)) := by
  obtain ⟨null, nowhere⟩ := shown.detached_iff.mp free
  have linked := insertPthreadList_chain (shown.chain i) (shown.nodup i) (nowhere i)
  have still : Function.update s.node p detached = s.node := by rw [← null, Function.update_eq_self]
  rw [still] at linked
  refine shown.replace rfl linked ?_ ?_
  · intro j other y inside
    have apart : y ≠ p := by
      rintro rfl
      exact nowhere j inside
    exact insertPthreadList_other (shown.chain i) apart (shown.apart j i other inside)
  · intro j other y first inside
    rcases List.mem_cons.mp first with same | later
    · exact nowhere j (same ▸ inside)
    · exact shown.apart j i other inside later

theorem Shows.remove (shown : s.Shows xs) (member : p ∈ xs i) :
    (s.remove i p).Shows (Function.update xs i ((xs i).erase p)) := by
  have linked := removePthreadList_chain (shown.chain i) (shown.nodup i) member
  refine shown.replace rfl linked ?_ ?_
  · intro j other y inside
    exact removePthreadList_other (shown.chain i) member (shown.apart j i other inside)
  · intro j other y first inside
    exact shown.apart j i other inside (List.mem_of_mem_erase first)

theorem Shows.remove_detached (shown : s.Shows xs) (member : p ∈ xs i) : (s.remove i p).Detached p := by
  rw [(shown.remove member).detached_iff]
  constructor
  · simp only [PthreadLists.remove, removePthreadList_eq, Function.update_self]
  · intro j
    by_cases same : j = i
    · subst same
      rw [Function.update_self]
      exact (shown.nodup j).not_mem_erase
    · rw [Function.update_of_ne same]
      exact fun also => shown.apart j i same also member

theorem remove_free (free : s.Detached p) : s.remove i p = s := by
  have notHead : s.head i ≠ some p := by
    intro first
    apply free.nowhere i
    rw [first]
    exact .here p
  have around : bypass s.node p = s.node := by
    funext y
    rw [bypass_apply, free.null]
    rfl
  simp only [PthreadLists.remove, removePthreadList_eq, around, if_neg notHead, Function.update_eq_self]
  rw [← free.null, Function.update_eq_self]

theorem removeHead_none (empty : s.head i = none) : s.removeHead i = (s, none) := by
  have same : removeHeadPthreadList s.node (s.head i) = (s.node, s.head i, none) := by
    rw [empty]
    rfl
  simp only [PthreadLists.removeHead, same, Function.update_eq_self]

/-- Taking the head off is removing it, for nothing lies before it. -/
theorem removeHead_some (first : s.head i = some p) (back : (s.node p).prev = none) :
    s.removeHead i = (s.remove i p, some p) := by
  have noNext : bypass s.node p = patchPrev s.node (s.node p).next none := by
    rw [bypass, back]
    rfl
  have same : removeHeadPthreadList s.node (s.head i) =
      ((removePthreadList s.node (s.head i) p).1, (removePthreadList s.node (s.head i) p).2, some p) := by
    rw [removePthreadList_eq, noNext, first, if_pos rfl]
    rfl
  simp only [PthreadLists.removeHead, same]
  rfl

omit [DecidableEq I] [DecidableEq T] in
theorem Shows.first {rest : List T} (shown : s.Shows xs) (contents : xs i = p :: rest) :
    s.head i = some p ∧ (s.node p).prev = none := by
  have chain := shown.chain i
  rw [contents] at chain
  exact ⟨chain.1, chain.2.1⟩

theorem Shows.removeHead_cases (shown : s.Shows xs) (i : I) :
    xs i = [] ∧ s.removeHead i = (s, none) ∨
      ∃ p rest, xs i = p :: rest ∧ s.removeHead i = (s.remove i p, some p) := by
  cases contents : xs i with
  | nil =>
    have empty : s.head i = none := (segment_empty_iff (shown.chain i)).mpr contents
    exact .inl ⟨rfl, removeHead_none empty⟩
  | cons p rest =>
    obtain ⟨first, back⟩ := shown.first contents
    exact .inr ⟨p, rest, rfl, removeHead_some first back⟩

theorem Shows.removeHead (shown : s.Shows xs) :
    (s.removeHead i).1.Shows (Function.update xs i (xs i).tail) ∧ (s.removeHead i).2 = (xs i).head? ∧
      ∀ p, (s.removeHead i).2 = some p → (s.removeHead i).1.Detached p := by
  rcases shown.removeHead_cases i with ⟨empty, same⟩ | ⟨p, rest, contents, same⟩
  · have unchanged : Function.update xs i (xs i).tail = xs := by
      rw [empty, List.tail_nil, ← empty, Function.update_eq_self]
    rw [same, unchanged, empty]
    exact ⟨shown, rfl, fun p none => nomatch none⟩
  · have member : p ∈ xs i := by
      rw [contents]
      exact List.mem_cons_self
    have after := shown.remove member
    rw [contents, List.erase_cons_head] at after
    rw [same, contents]
    refine ⟨after, rfl, ?_⟩
    rintro q taken
    cases taken
    exact shown.remove_detached member

theorem Shows.step (shown : s.Shows xs) {l : ListCall I T} (ok : s.Allowed l) :
    ∃ w ys es, s.step l = some (w, es) ∧ stackStep xs l = some (ys, es) ∧ w.Shows ys := by
  cases l with
  | insert i p => exact ⟨_, _, _, rfl, rfl, shown.insert ok⟩
  | remove i p =>
    refine ⟨_, _, _, rfl, rfl, ?_⟩
    rcases ok with linked | free
    · exact shown.remove (shown.linked_iff.mp linked)
    · have absent := (shown.detached_iff.mp free).2 i
      rw [remove_free free, List.erase_of_not_mem absent, Function.update_eq_self]
      exact shown
  | removeHead i =>
    obtain ⟨after, taken, _⟩ := shown.removeHead (i := i)
    refine ⟨_, _, _, rfl, ?_, after⟩
    rw [taken]
    rfl

def Tidy (s : PthreadLists I T) (xs : I → List T) : Prop := ∀ p, (∀ i, p ∉ xs i) → s.node p = detached

theorem Shows.allowed (shown : s.Shows xs) (tidy : s.Tidy xs) {l : ListCall I T} (ok : s.Proper l) :
    s.Allowed l := by
  have free : ∀ p, (∀ i, p ∉ xs i) → s.Detached p := fun p nowhere =>
    shown.detached_iff.mpr ⟨tidy p nowhere, nowhere⟩
  cases l with
  | insert i p => exact free p fun j member => ok j (shown.linked_iff.mpr member)
  | remove i p =>
    by_cases member : p ∈ xs i
    · exact .inl (shown.linked_iff.mpr member)
    · right
      apply free
      intro j also
      by_cases same : j = i
      · exact member (same ▸ also)
      · exact ok j same (shown.linked_iff.mpr also)
  | removeHead i => trivial

omit [DecidableEq T] in
theorem absent_of_update {ys : List T} (nowhere : ∀ j, p ∉ Function.update xs i ys j)
    (here : p ∉ xs i) (j : I) : p ∉ xs j := by
  by_cases same : j = i
  · rw [same]
    exact here
  · have there := nowhere j
    rw [Function.update_of_ne same] at there
    exact there

theorem Shows.insert_tidy (shown : s.Shows xs) (tidy : s.Tidy xs) :
    (s.insert i p).Tidy (Function.update xs i (p :: xs i)) := by
  intro q nowhere
  have here := nowhere i
  rw [Function.update_self, List.mem_cons, not_or] at here
  exact (insertPthreadList_other (shown.chain i) here.1 here.2).trans
    (tidy q (absent_of_update nowhere here.2))

theorem Shows.remove_tidy (shown : s.Shows xs) (tidy : s.Tidy xs) (member : p ∈ xs i) :
    (s.remove i p).Tidy (Function.update xs i ((xs i).erase p)) := by
  intro q nowhere
  by_cases taken : q = p
  · rw [taken]
    exact (shown.remove_detached member).null
  · have here := nowhere i
    rw [Function.update_self, List.mem_erase_of_ne taken] at here
    exact (removePthreadList_other (shown.chain i) member here).trans
      (tidy q (absent_of_update nowhere here))

theorem Shows.step_tidy (shown : s.Shows xs) (tidy : s.Tidy xs) {l : ListCall I T} (ok : s.Allowed l) :
    ∃ w ys es, s.step l = some (w, es) ∧ stackStep xs l = some (ys, es) ∧ w.Shows ys ∧ w.Tidy ys := by
  obtain ⟨w, ys, es, taken, also, after⟩ := shown.step ok
  refine ⟨w, ys, es, taken, also, after, ?_⟩
  cases l with
  | insert i p =>
    cases taken
    cases also
    exact shown.insert_tidy tidy
  | remove i p =>
    cases taken
    cases also
    rcases ok with linked | free
    · exact shown.remove_tidy tidy (shown.linked_iff.mp linked)
    · have absent := (shown.detached_iff.mp free).2 i
      rw [remove_free free, List.erase_of_not_mem absent, Function.update_eq_self]
      exact tidy
  | removeHead i =>
    cases taken
    obtain ⟨rfl, _⟩ := Prod.mk.inj (Option.some.inj also)
    rcases shown.removeHead_cases i with ⟨empty, same⟩ | ⟨p, rest, contents, same⟩
    · rw [same, empty, List.tail_nil, ← empty, Function.update_eq_self]
      exact tidy
    · have member : p ∈ xs i := by
        rw [contents]
        exact List.mem_cons_self
      have next := shown.remove_tidy tidy member
      rw [contents, List.erase_cons_head] at next
      rw [same, contents]
      exact next

end

/-- Well-formed lists are stacks: what each operation does to one, and any run
    of operations on threads that are inserted detached. -/
theorem lists_are_stacks (s : PthreadLists I T) (ok : s.WellFormed) :
    ∃ xs, s.Shows xs ∧ (∀ ys, s.Shows ys → ys = xs) ∧
      (∀ i p, s.Detached p → (s.insert i p).WellFormed ∧
        (s.insert i p).Shows (Function.update xs i (p :: xs i))) ∧
      (∀ i p, p ∈ xs i → (s.remove i p).WellFormed ∧ (s.remove i p).Detached p ∧
        (s.remove i p).Shows (Function.update xs i ((xs i).erase p))) ∧
      (∀ i p, s.Detached p → s.remove i p = s) ∧
      (∀ i, (s.removeHead i).1.WellFormed ∧ (s.removeHead i).2 = (xs i).head? ∧
        (∀ p, (s.removeHead i).2 = some p → (s.removeHead i).1.Detached p) ∧
        (s.removeHead i).1.Shows (Function.update xs i (xs i).tail)) ∧
      (∀ calls, Along step Allowed s calls → ∃ w ys es, exec step s calls = some (w, es) ∧
        exec stackStep xs calls = some (ys, es) ∧ w.WellFormed ∧ w.Shows ys) ∧
      (s.Tidy xs → ∀ calls, Along step Proper s calls → Along step Allowed s calls) := by
  obtain ⟨xs, shown⟩ := (wellFormed_iff s).mp ok
  refine ⟨xs, shown, ?_, ?_, ?_, fun i p => remove_free, ?_, ?_, ?_⟩
  · intro ys also
    funext i
    have mine := collect_segment (shown.chain i) (Nat.le_max_left _ (ys i).length)
    have yours := collect_segment (also.chain i) (Nat.le_max_right (xs i).length _)
    exact yours.symm.trans mine
  · intro i p free
    have after := shown.insert (i := i) free
    exact ⟨after.wellFormed, after⟩
  · intro i p member
    have after := shown.remove member
    exact ⟨after.wellFormed, shown.remove_detached member, after⟩
  · intro i
    obtain ⟨after, taken, gone⟩ := shown.removeHead (i := i)
    exact ⟨after.wellFormed, taken, gone, after⟩
  · intro calls along
    have both : ∀ (s : PthreadLists I T) (xs : I → List T) (l : ListCall I T), s.Shows xs → s.Allowed l →
        ∃ w ys es, s.step l = some (w, es) ∧ stackStep xs l = some (ys, es) ∧ w.Shows ys :=
      fun _ _ _ shown ok => shown.step ok
    obtain ⟨w, ys, es, run, also, after⟩ := exec_lockstep Shows both calls shown along
    exact ⟨w, ys, es, run, also, after.wellFormed, after⟩
  · intro tidy calls along
    apply Along.of_invariant (fun s => ∃ xs, s.Shows xs ∧ s.Tidy xs) ?_ ?_ ⟨xs, shown, tidy⟩ along
    · rintro s l w es ⟨xs, shown, tidy⟩ proper taken
      obtain ⟨v, ys, _, also, _, after⟩ := shown.step_tidy tidy (shown.allowed tidy proper)
      rw [taken] at also
      cases also
      exact ⟨ys, after⟩
    · rintro s l ⟨xs, shown, tidy⟩ proper
      exact shown.allowed tidy proper

def twoWaiting : PthreadLists Unit Nat where
  node t := if t = 1 then ⟨none, some 0⟩ else if t = 0 then ⟨some 1, none⟩ else detached
  head _ := some 1

theorem lists_are_stacks_two :
    ∃ xs, twoWaiting.Shows xs ∧ xs () = [1, 0] ∧ (twoWaiting.removeHead ()).2 = (xs ()).head? ∧
      (twoWaiting.remove () 0).Shows (Function.update xs () [1]) := by
  have shown : twoWaiting.Shows fun _ => [1, 0] :=
    ⟨fun _ => ⟨rfl, rfl, rfl, rfl, rfl⟩, fun i j other => absurd (Subsingleton.elim i j) other⟩
  obtain ⟨xs, also, only, _, member, _, head, _⟩ := lists_are_stacks twoWaiting shown.wellFormed
  have contents : xs () = [1, 0] := (congrFun (only _ shown) ()).symm
  have tail := (member () 0 (by rw [contents]; decide)).2.2
  rw [contents] at tail
  exact ⟨xs, also, contents, (head ()).2.1, tail⟩

end PthreadLists
end L4ertl
