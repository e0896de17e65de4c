import L4ertl.Core.CallSound

/-!
What the mutex calls do to the wait lists: they leave all of them alone, link
the caller in front of one, or empty one and wake the threads on it.
-/
namespace L4ertl
open Intrusive
variable {T : Type} [DecidableEq T]

/-- What leaves the lists of all mutexes alone; a free mutex may be taken. -/
structure ListsKept (k w : Kernel T) : Prop where
  nodes : ∀ t, w.mutexNode t = k.mutexNode t ∨ (k.live t = false ∧ w.mutexNode t = detached)
  heads : ∀ m, (w.mutex m).mutexList = (k.mutex m).mutexList
  owned : ∀ m, (k.mutex m).owner ≠ none → (w.mutex m).owner ≠ none

structure Blocked (m : Nat) (k w : Kernel T) : Prop where
  nodes : w.mutexNode = (insertPthreadList k.mutexNode (k.mutex m).mutexList k.currentThread).1
  head : (w.mutex m).mutexList = some k.currentThread
  owner : (k.mutex m).owner ≠ none ∧ (w.mutex m).owner = (k.mutex m).owner
  others : ∀ n, n ≠ m → w.mutex n = k.mutex n

section
omit [DecidableEq T]

theorem ListsKept.refl (k : Kernel T) : ListsKept k k := ⟨fun _ => Or.inl rfl, fun _ => rfl, fun _ h => h⟩

theorem ListsKept.same {k w : Kernel T} (nodes : w.mutexNode = k.mutexNode)
    (mutexes : w.mutex = k.mutex) : ListsKept k w := by
  refine ⟨fun t => Or.inl (by rw [nodes]), fun m => by rw [mutexes], fun m owned => ?_⟩
  rw [mutexes]
  exact owned

theorem QuietOnly.lists {k w : Kernel T} (only : QuietOnly k w) : ListsKept k w :=
  .same only.objects.2.1 only.objects.1

theorem CondOnly.lists {k w : Kernel T} (only : CondOnly k w) : ListsKept k w :=
  .same only.others.2.1 only.others.1

theorem SemOnly.lists {k w : Kernel T} (only : SemOnly k w) : ListsKept k w :=
  .same only.others.2.1 only.others.1

end

omit [DecidableEq T] in
theorem setMutex_lists {k : Kernel T} {m : Nat} {x : Mutex T}
    (list : x.mutexList = (k.mutex m).mutexList)
    (owned : (k.mutex m).owner ≠ none → x.owner ≠ none) : ListsKept k (setMutex m x k) := by
  refine ⟨fun t => Or.inl rfl, fun n => ?_, fun n => ?_⟩
  · simp only [setMutex, Function.update_apply]
    split
    · rename_i same
      rw [same, list]
    · rfl
  · simp only [setMutex, Function.update_apply]
    split
    · rename_i same
      rw [same]
      exact owned
    · exact fun h => h

omit [DecidableEq T] in
theorem ListsKept.then {k w x : Kernel T} (first : ListsKept k w) (nodes : x.mutexNode = w.mutexNode)
    (mutexes : x.mutex = w.mutex) : ListsKept k x := by
  refine ⟨fun t => ?_, fun m => ?_, fun m owned => ?_⟩
  · rw [nodes]
    exact first.nodes t
  · rw [mutexes]
    exact first.heads m
  · rw [mutexes]
    exact first.owned m owned

theorem changeThreadPrio_mutexNode (t : T) (p : Int) (k : Kernel T) :
    (changeThreadPrio t p k).mutexNode = k.mutexNode := by
  have nodes := congrArg Kernel.mutexNode (changeThreadPrio_only t p k)
  exact nodes

theorem raiseToCeiling_lists (m : Nat) (k : Kernel T) : ListsKept k (raiseToCeiling m k).1 := by
  unfold raiseToCeiling
  simp only
  split
  · have noted : ListsKept k (setMutex m { k.mutex m with
        attr := { (k.mutex m).attr with ownerPrio := k.prio k.currentThread } } k) :=
      setMutex_lists rfl (fun owned => owned)
    split
    · exact noted.then (changeThreadPrio_mutexNode _ _ _) (changeThreadPrio_mutex _ _ _)
    · exact noted
  · exact .refl k

omit [DecidableEq T] in
theorem ListsKept.trans {k w x : Kernel T} (first : ListsKept k w) (live : w.live = k.live)
    (second : ListsKept w x) : ListsKept k x := by
  refine ⟨fun t => ?_, fun m => (second.heads m).trans (first.heads m),
    fun m owned => second.owned m (first.owned m owned)⟩
  rcases second.nodes t with same | ⟨dead, fresh⟩
  · rw [same]
    exact first.nodes t
  · exact Or.inr ⟨live ▸ dead, fresh⟩

theorem blockOn_blocked {m : Nat} {k : Kernel T} (owned : (k.mutex m).owner ≠ none) :
    Blocked m k (blockOn (mutexWaiters m) k) := by
  have nodes := congrArg Kernel.mutexNode (suspendThread_only k.currentThread k)
  have mutexes := blockOn_mutex m k
  refine ⟨?_, ?_, ⟨owned, ?_⟩, ?_⟩
  · simp only [blockOn, WaitList.insert, mutexWaiters, setMutex]
    rw [nodes, suspendThread_mutex]
  · rw [mutexes, Function.update_self]
  · rw [mutexes, Function.update_self]
  · intro n other
    rw [mutexes, Function.update_of_ne other]

theorem mutexLockLoop_lists (m : Nat) (k : Kernel T) :
    ((mutexLockLoop m k).2 = .blocked ∧ Blocked m k (mutexLockLoop m k).1) ∨
      ((mutexLockLoop m k).2 ≠ .blocked ∧ ListsKept k (mutexLockLoop m k).1) := by
  unfold mutexLockLoop
  simp only
  split
  · rename_i free
    right
    have taken : ListsKept k
        (setMutex m { k.mutex m with owner := some k.currentThread, counter := 1 } k) :=
      setMutex_lists rfl (fun _ => nofun)
    refine ⟨?_, taken.trans rfl (raiseToCeiling_lists m _)⟩
    unfold raiseToCeiling
    simp only
    split
    · split <;> nofun
    · nofun
  · split
    · exact Or.inr ⟨nofun, .same rfl rfl⟩
    · split
      · exact Or.inr ⟨nofun, setMutex_lists rfl (fun owned => owned)⟩
      · rename_i owned _ _
        exact Or.inl ⟨rfl, blockOn_blocked owned⟩

theorem pthreadMutexTrylockSys_lists (m : Nat) (k : Kernel T) :
    ListsKept k (pthreadMutexTrylockSys m k).1 := by
  unfold pthreadMutexTrylockSys
  simp only
  split
  · have taken : ListsKept k (setMutex m { k.mutex m with owner := some k.currentThread } k) :=
      setMutex_lists rfl (fun _ => nofun)
    have raised := taken.trans rfl (raiseToCeiling_lists m _)
    split
    · rename_i eq
      rw [eq] at raised
      exact raised
    · rename_i eq
      rw [eq] at raised
      exact raised
  · split
    · exact setMutex_lists rfl (fun owned => owned)
    · exact .same rfl rfl

section
variable [Fintype T]

structure Released (m : Nat) (k w : Kernel T) : Prop where
  nodes : w.mutexNode =
    (unlinkAll (Fintype.card T + 1) k.mutexNode (k.mutex m).mutexList).1
  head : (w.mutex m).mutexList = none
  owner : (k.mutex m).owner = some k.currentThread
  others : ∀ n, n ≠ m → w.mutex n = k.mutex n
  woken : ∀ t ∈ (unlinkAll (Fintype.card T + 1) k.mutexNode (k.mutex m).mutexList).2.2,
    t ≠ k.currentThread → k.state t ≠ finishedThread → w.state t = readyThread

theorem drain_mutexNode (m : Nat) (k : Kernel T) :
    (drain (mutexWaiters m) k).mutexNode =
      (unlinkAll (Fintype.card T + 1) k.mutexNode (k.mutex m).mutexList).1 := by
  have same := (mutexWaiters m).nodes_store
    (unlinkAll (Fintype.card T + 1) k.mutexNode (k.mutex m).mutexList).1
    (unlinkAll (Fintype.card T + 1) k.mutexNode (k.mutex m).mutexList).2.1
    (activateAll (unlinkAll (Fintype.card T + 1) k.mutexNode (k.mutex m).mutexList).2.2 k)
  unfold drain
  rw [(mutexWaiters m).wakeAll_eq]
  exact same

theorem releaseMutex_released {m : Nat} {k : Kernel T} (owner : (k.mutex m).owner = some k.currentThread) :
    Released m k (releaseMutex m k).1 := by
  have mutexes := releaseMutex_mutex m k
  refine ⟨?_, ?_, owner, ?_, ?_⟩
  · rw [← drain_mutexNode]
    unfold releaseMutex
    simp only
    split
    · exact changeThreadPrio_mutexNode _ _ _
    · rfl
  · rw [mutexes, Function.update_self]
  · intro n other
    rw [mutexes, Function.update_of_ne other]
  · intro t member _ active
    have woken : (drain (mutexWaiters m) k).state t = readyThread := by
      rw [drain_state, if_pos]
      exact ⟨member, active⟩
    unfold releaseMutex
    simp only
    split
    · simp only [Kernel.state, changeThreadPrio_flags]
      exact woken
    · exact woken

theorem mutexUnlock_lists (m : Nat) (k : Kernel T) :
    Released m k (mutexUnlock m k).1 ∨ ListsKept k (mutexUnlock m k).1 := by
  unfold mutexUnlock
  simp only
  split
  · split
    · exact Or.inr (.same rfl rfl)
    · exact Or.inr (.refl k)
  · split
    · exact Or.inr (.same rfl rfl)
    · rename_i mine
      rw [not_not] at mine
      split
      · split
        · exact Or.inr (setMutex_lists rfl (fun owned => owned))
        · left
          have released := releaseMutex_released (m := m)
            (k := setMutex m { k.mutex m with counter := (k.mutex m).counter - 1 } k)
            (by simpa [setMutex] using mine)
          have list : ((setMutex m { k.mutex m with counter := (k.mutex m).counter - 1 } k).mutex m).mutexList =
              (k.mutex m).mutexList := by simp [setMutex]
          refine ⟨?_, released.head, mine, ?_, ?_⟩
          · rw [released.nodes, list]
            rfl
          · intro n other
            rw [released.others n other]
            simp [setMutex, other]
          · intro t member other active
            apply released.woken t _ other active
            rw [list]
            exact member
      · exact Or.inl (releaseMutex_released mine)

end

end L4ertl
