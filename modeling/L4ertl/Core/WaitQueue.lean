import Mathlib.Data.Fintype.Card
import L4ertl.Core.Frame

/-!
What the wait-list operations do, in terms of lists: a blocked thread is put in
front, and draining a well-formed list takes every thread off it and wakes it,
in order. The drain loop ends on any pointer structure whatever.
-/
namespace L4ertl
open Intrusive
variable {T : Type} [DecidableEq T]

/-- The pointer part of the drain loop: the links and the head it leaves, and
    the threads it takes off. -/
def unlinkAll : Nat → Links T → Option T → Links T × Option T × List T
  | 0, n, h => (n, h, [])
  | fuel + 1, n, h =>
    match removeHeadPthreadList n h with
    | (n, h, some t) =>
      let (n, h, ts) := unlinkAll fuel n h
      (n, h, t :: ts)
    | (n, h, none) => (n, h, [])

def activateAll (ts : List T) (k : Kernel T) : Kernel T :=
  ts.foldl (fun k t => activateThread t k) k

/-- Waking and unlinking do not interfere: the loop is one pass over the
    pointers and one over the threads. -/
theorem WaitList.wakeAll_eq (l : WaitList T) (fuel : Nat) (k : Kernel T) :
    l.wakeAll fuel k =
      l.store (unlinkAll fuel (l.nodes k) (l.head k)).1 (unlinkAll fuel (l.nodes k) (l.head k)).2.1
        (activateAll (unlinkAll fuel (l.nodes k) (l.head k)).2.2 k) := by
  induction fuel generalizing k with
  | zero => exact (l.store_self k).symm
  | succ fuel ih =>
    unfold WaitList.wakeAll WaitList.removeHead unlinkAll
    obtain ⟨n, h, taken⟩ := removeHeadPthreadList (l.nodes k) (l.head k)
    cases taken with
    | none => rfl
    | some t =>
      simp only
      rw [ih, l.store_activate, l.nodes_store, l.head_store]
      simp only [activateAll, List.foldl_cons]
      have carried : ∀ (ts : List T) (x : Kernel T),
          ts.foldl (fun k t => activateThread t k) (l.store n h x) =
            l.store n h (ts.foldl (fun k t => activateThread t k) x) := by
        intro ts
        induction ts with
        | nil => intro x; rfl
        | cons u us more => intro x; rw [List.foldl_cons, l.store_activate, more, List.foldl_cons]
      rw [carried, l.store_store]

theorem activateAll_woken (ts : List T) (k : Kernel T) : Woken (· ∈ ts) k (activateAll ts k) := by
  induction ts generalizing k with
  | nil => exact .refl _ _
  | cons t ts ih =>
    have first : Woken (· ∈ t :: ts) k (activateThread t k) := .wake t (by simp)
    exact first.trans ((ih (activateThread t k)).mono (fun u member => List.mem_cons_of_mem t member))

theorem activateAll_state (ts : List T) (k : Kernel T) (t : T) :
    (activateAll ts k).state t =
      if t ∈ ts ∧ k.state t ≠ finishedThread then readyThread else k.state t := by
  induction ts generalizing k with
  | nil => simp [activateAll]
  | cons u ts ih =>
    have step : activateAll (u :: ts) k = activateAll ts (activateThread u k) := rfl
    rw [step, ih, activateThread_state]
    by_cases same : t = u
    · subst same
      by_cases ended : k.state t = finishedThread
      · simp [ended]
      · simp [ended]
    · simp [same]

theorem removeHead_chain {n : Links T} {h : Option T} {x : T} {xs : List T}
    (chain : Chain n h (x :: xs)) (nodup : (x :: xs).Nodup) :
    ∃ n' rest, removeHeadPthreadList n h = (n', rest, some x) ∧ Chain n' rest xs ∧
      n' x = detached ∧ ∀ y, y ∉ x :: xs → n' y = n y := by
  obtain ⟨head, _, tail⟩ := chain
  subst head
  have parts := List.nodup_cons.mp nodup
  refine ⟨Function.update (patchPrev n (n x).next none) x detached, (n x).next, rfl, ?_, by simp, ?_⟩
  · refine segment_congr ?_ (segment_repoint tail parts.2)
    intro y member
    have other : y ≠ x := fun same => parts.1 (same ▸ member)
    simp [other]
  · intro y outside
    have other : y ≠ x := by
      intro same
      exact outside (same ▸ List.mem_cons_self)
    have notNext : (n x).next ≠ some y := by
      rw [segment_head tail]
      intro first
      exact outside (List.mem_cons_of_mem x (List.mem_of_head? first))
    simp [other, patchPrev_apply, notNext]

section
variable {l : WaitList T} {k : Kernel T} {x : T} {c n : Nat}

theorem WaitList.store_state (l : WaitList T) (nodes : Links T) (head : Option T) (k : Kernel T) (t : T) :
    (l.store nodes head k).state t = k.state t := by
  have flags := congrArg Kernel.threadFlags (l.store_only nodes head k)
  exact Kernel.state_of_flags flags t

theorem WaitList.removeHead_state (l : WaitList T) (k : Kernel T) (t : T) :
    (l.removeHead k).1.state t = k.state t := l.store_state _ _ k t

theorem blockOn_state (l : WaitList T) (k : Kernel T) (t : T) :
    (blockOn l k).state t = (suspendThread k.currentThread k).state t := l.store_state _ _ _ t

theorem suspendThread_condLists (c : Nat) (u : T) (k : Kernel T) :
    (condWaiters c).nodes (suspendThread u k) = (condWaiters c).nodes k ∧
      (condWaiters c).head (suspendThread u k) = (condWaiters c).head k := by
  have nodes := congrArg Kernel.condNode (suspendThread_only u k)
  have heads := congrArg Kernel.cond (suspendThread_only u k)
  exact ⟨nodes, congrFun heads c⟩

theorem suspendThread_semLists (n : Nat) (u : T) (k : Kernel T) :
    (semWaiters n).nodes (suspendThread u k) = (semWaiters n).nodes k ∧
      (semWaiters n).head (suspendThread u k) = (semWaiters n).head k := by
  have nodes := congrArg Kernel.semNode (suspendThread_only u k)
  have heads := congrArg Kernel.sem (suspendThread_only u k)
  exact ⟨nodes, congrArg Sem.semList (congrFun heads n)⟩

theorem WaitList.removeHead_empty (empty : l.head k = none) : l.removeHead k = (k, none) := by
  have same : removeHeadPthreadList (l.nodes k) (l.head k) = (l.nodes k, l.head k, none) := by
    rw [empty]
    rfl
  simp only [WaitList.removeHead, same, l.store_self]

theorem WaitList.removeHead_first (first : l.head k = some x) :
    (l.removeHead k).2 = some x := by
  simp only [WaitList.removeHead, removeHeadPthreadList, first]

theorem pthreadCondSignalSys_first (first : k.cond c = some x) :
    pthreadCondSignalSys c k = (activateThread x ((condWaiters c).removeHead k).1, .sched .done) := by
  have taken := (condWaiters c).removeHead_first (k := k) first
  unfold pthreadCondSignalSys
  split
  · rename_i w t eq
    rw [eq] at taken ⊢
    cases taken
    rfl
  · rename_i w eq
    rw [eq] at taken
    cases taken

theorem pthreadCondSignalSys_empty (empty : k.cond c = none) :
    pthreadCondSignalSys c k = (k, .sched .done) := by
  unfold pthreadCondSignalSys
  rw [(condWaiters c).removeHead_empty empty]

theorem semPostSys_first (zero : (k.sem n).value = 0) (first : (k.sem n).semList = some x) :
    semPostSys n k = (activateThread x ((semWaiters n).removeHead k).1, .sched (.semPost n)) := by
  have taken := (semWaiters n).removeHead_first (k := k) first
  unfold semPostSys
  rw [if_pos zero]
  split
  · rename_i w t eq
    rw [eq] at taken ⊢
    cases taken
    rfl
  · rename_i w eq
    rw [eq] at taken
    cases taken

theorem semPostSys_empty (empty : (k.sem n).semList = none) : semPostSys n k = semGive n k := by
  unfold semPostSys
  rw [(semWaiters n).removeHead_empty empty]
  simp only [ite_self]

end

theorem unlinkAll_chain (fuel : Nat) {n : Links T} {h : Option T} {xs : List T}
    (chain : Chain n h xs) (nodup : xs.Nodup) (enough : xs.length < fuel) :
    (unlinkAll fuel n h).2.1 = none ∧ (unlinkAll fuel n h).2.2 = xs ∧
      (∀ y ∈ xs, (unlinkAll fuel n h).1 y = detached) ∧
      ∀ y, y ∉ xs → (unlinkAll fuel n h).1 y = n y := by
  induction fuel generalizing n h xs with
  | zero => omega
  | succ fuel ih =>
    cases xs with
    | nil =>
      have empty : h = none := chain
      subst empty
      unfold unlinkAll
      simp [removeHeadPthreadList, patchPrev]
    | cons x xs =>
      obtain ⟨n', rest, removed, chain', gone, others⟩ := removeHead_chain chain nodup
      have parts := List.nodup_cons.mp nodup
      obtain ⟨headNone, taken, cleared, kept⟩ := ih chain' parts.2 (by simp at enough; omega)
      unfold unlinkAll
      rw [removed]
      simp only
      refine ⟨headNone, by rw [taken], ?_, ?_⟩
      · intro y member
        rcases List.mem_cons.mp member with same | later
        · rw [same, kept x parts.1, gone]
        · exact cleared y later
      · intro y outside
        have notIn : y ∉ xs := fun inside => outside (List.mem_cons_of_mem x inside)
        rw [kept y notIn, others y outside]

section
variable [Fintype T]

def forwardCount (n : Links T) : Nat := (Finset.univ.filter fun t => (n t).next ≠ none).card

theorem removeHead_forwardCount {n n' : Links T} {h h' : Option T} {t : T}
    (removed : removeHeadPthreadList n h = (n', h', some t)) :
    h' = none ∨ forwardCount n' < forwardCount n := by
  unfold removeHeadPthreadList at removed
  cases h with
  | none => simp at removed
  | some p =>
    simp only [Option.bind_some, Prod.mk.injEq, Option.some.injEq] at removed
    obtain ⟨links, head, same⟩ := removed
    subst same
    cases next : (n p).next with
    | none => exact Or.inl (by rw [← head, next])
    | some q =>
      right
      apply Finset.card_lt_card
      rw [Finset.ssubset_iff_of_subset]
      · refine ⟨p, by simp [next], ?_⟩
        simp [← links, detached]
      · intro u member
        rw [Finset.mem_filter] at member ⊢
        refine ⟨Finset.mem_univ u, ?_⟩
        intro noNext
        apply member.2
        rw [← links]
        by_cases same : u = p
        · simp [same, detached]
        · simp only [Function.update_apply, same, if_false, patchPrev_apply]
          split <;> simp [noNext]

/-- The drain loop comes to an end whatever the pointers are, within the
    rounds that `drain` gives it. -/
theorem unlinkAll_ends (fuel : Nat) (n : Links T) (h : Option T) (enough : forwardCount n < fuel) :
    (unlinkAll fuel n h).2.1 = none := by
  induction fuel generalizing n h with
  | zero => omega
  | succ fuel ih =>
    unfold unlinkAll
    cases removed : removeHeadPthreadList n h with
    | mk n' rest =>
      obtain ⟨h', taken⟩ := rest
      cases taken with
      | none =>
        have empty : h = none := by
          cases h with
          | none => rfl
          | some p => simp [removeHeadPthreadList] at removed
        subst empty
        simp [removeHeadPthreadList] at removed
        simp [← removed.2]
      | some t =>
        simp only
        rcases removeHead_forwardCount removed with emptied | fewer
        · subst emptied
          cases fuel with
          | zero => rfl
          | succ fuel => simp [unlinkAll, removeHeadPthreadList]
        · exact ih n' h' (by omega)

theorem drain_head (l : WaitList T) (k : Kernel T) : l.head (drain l k) = none := by
  unfold drain
  rw [l.wakeAll_eq, l.head_store]
  apply unlinkAll_ends
  have bound : forwardCount (l.nodes k) ≤ Fintype.card T := Finset.card_le_univ _
  omega

end

end L4ertl
