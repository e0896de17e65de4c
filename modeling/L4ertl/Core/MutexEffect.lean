import L4ertl.Core.SyncFrame

/-!
What the mutex calls do to the mutex records: who owns them afterwards, and that
a call on one mutex leaves every other one as it is.
-/
namespace L4ertl
open Intrusive
variable {T : Type} [DecidableEq T]

theorem suspendThread_mutex (t : T) (k : Kernel T) : (suspendThread t k).mutex = k.mutex := by
  have objects := congrArg Kernel.mutex (suspendThread_only t k)
  exact objects

theorem changeThreadPrio_mutex (t : T) (p : Int) (k : Kernel T) :
    (changeThreadPrio t p k).mutex = k.mutex := by
  have objects := congrArg Kernel.mutex (changeThreadPrio_only t p k)
  exact objects

theorem activateAll_mutex (ts : List T) (k : Kernel T) : (activateAll ts k).mutex = k.mutex := by
  have objects := congrArg Kernel.mutex (activateAll_only ts k)
  exact objects

theorem blockOn_mutex (m : Nat) (k : Kernel T) :
    (blockOn (mutexWaiters m) k).mutex =
      Function.update k.mutex m { k.mutex m with mutexList := some k.currentThread } := by
  change Function.update (suspendThread k.currentThread k).mutex m _ = _
  rw [suspendThread_mutex]

theorem raiseToCeiling_mutex (m : Nat) (k : Kernel T) :
    ∃ p, (raiseToCeiling m k).1.mutex =
      Function.update k.mutex m
        { k.mutex m with attr := { (k.mutex m).attr with ownerPrio := p } } := by
  simp only [raiseToCeiling]
  split
  · refine ⟨k.prio k.currentThread, ?_⟩
    split
    · rw [changeThreadPrio_mutex]
      rfl
    · rfl
  · exact ⟨(k.mutex m).attr.ownerPrio, by simp⟩

theorem mutexLockLoop_other (m n : Nat) (k : Kernel T) (other : n ≠ m) :
    (mutexLockLoop m k).1.mutex n = k.mutex n := by
  simp only [mutexLockLoop]
  split
  · obtain ⟨p, eq⟩ := raiseToCeiling_mutex m
      (setMutex m { k.mutex m with owner := some k.currentThread, counter := 1 } k)
    rw [eq]
    simp [setMutex, other]
  · split
    · rfl
    · split
      · simp [setMutex, other]
      · rw [blockOn_mutex]
        simp [other]

def OwnerAfterLock (t : T) (x y : Mutex T) : Prop :=
  (x.owner = none → y.owner = some t) ∧ (x.owner ≠ none → y.owner = x.owner) ∧
    y.attr.type = x.attr.type

theorem mutexLockLoop_owner (m : Nat) (k : Kernel T) :
    OwnerAfterLock k.currentThread (k.mutex m) ((mutexLockLoop m k).1.mutex m) := by
  unfold OwnerAfterLock
  simp only [mutexLockLoop]
  split
  · rename_i free
    obtain ⟨p, eq⟩ := raiseToCeiling_mutex m
      (setMutex m { k.mutex m with owner := some k.currentThread, counter := 1 } k)
    rw [eq]
    simp [setMutex, free]
  · rename_i owned
    split
    · exact ⟨fun free => absurd free owned, fun _ => rfl, rfl⟩
    · split
      · simp [setMutex, owned]
      · rw [blockOn_mutex]
        simp [owned]

theorem mutexLockLoop_taken (m : Nat) (k : Kernel T) (plain : (k.mutex m).attr.type ≠ .recursive)
    (ends : (mutexLockLoop m k).2 = .ret 0 ∨ (mutexLockLoop m k).2 = .raised) :
    (k.mutex m).owner = none := by
  by_contra owned
  simp only [mutexLockLoop] at ends
  simp only [owned, plain, and_false, if_false] at ends
  split at ends
  · rcases ends with ends | ends <;> cases ends
  · rcases ends with ends | ends <;> cases ends

section
variable [Fintype T]

theorem drain_mutex (m : Nat) (k : Kernel T) :
    ∃ h, (drain (mutexWaiters m) k).mutex =
      Function.update k.mutex m { k.mutex m with mutexList := h } := by
  unfold drain
  rw [WaitList.wakeAll_eq]
  refine ⟨(unlinkAll (Fintype.card T + 1) k.mutexNode (k.mutex m).mutexList).2.1, ?_⟩
  change Function.update (activateAll _ k).mutex m _ = _
  rw [activateAll_mutex]
  rfl

theorem releaseMutex_mutex (m : Nat) (k : Kernel T) :
    (releaseMutex m k).1.mutex =
      Function.update k.mutex m
        { k.mutex m with mutexList := none, owner := none, counter := 0 } := by
  obtain ⟨h, drained⟩ := drain_mutex m k
  unfold releaseMutex
  simp only
  split
  · rw [changeThreadPrio_mutex]
    simp [setMutex, drained]
  · simp [setMutex, drained]

theorem mutexUnlock_other (m n : Nat) (k : Kernel T) (other : n ≠ m) :
    (mutexUnlock m k).1.mutex n = k.mutex n := by
  simp only [mutexUnlock]
  split
  · split <;> rfl
  · split
    · rfl
    · split
      · split
        · simp [setMutex, other]
        · rw [releaseMutex_mutex]
          simp [setMutex, other]
      · rw [releaseMutex_mutex]
        simp [other]

theorem mutexUnlock_foreign (m : Nat) (k : Kernel T)
    (foreign : (k.mutex m).owner ≠ some k.currentThread) : (mutexUnlock m k).1.mutex = k.mutex := by
  simp only [mutexUnlock]
  split
  · split <;> rfl
  · rfl

theorem mutexUnlock_owner (m : Nat) (k : Kernel T) :
    (((mutexUnlock m k).1.mutex m).owner = (k.mutex m).owner ∨
      (k.mutex m).owner = some k.currentThread ∧ ((mutexUnlock m k).1.mutex m).owner = none) ∧
      ((mutexUnlock m k).1.mutex m).attr.type = (k.mutex m).attr.type := by
  by_cases foreign : (k.mutex m).owner ≠ some k.currentThread
  · rw [mutexUnlock_foreign m k foreign]
    exact ⟨Or.inl rfl, rfl⟩
  · have mine : (k.mutex m).owner = some k.currentThread := not_not.mp foreign
    simp only [mutexUnlock]
    simp only [mine, reduceCtorEq, if_false, not_true, ne_eq]
    split
    · split
      · exact ⟨Or.inl (by simp [setMutex]), by simp [setMutex]⟩
      · rw [releaseMutex_mutex]
        exact ⟨Or.inr ⟨trivial, by simp⟩, by simp [setMutex]⟩
    · rw [releaseMutex_mutex]
      exact ⟨Or.inr ⟨trivial, by simp⟩, by simp⟩

end

theorem pthreadMutexTrylockSys_other (m n : Nat) (k : Kernel T) (other : n ≠ m) :
    (pthreadMutexTrylockSys m k).1.mutex n = k.mutex n := by
  obtain ⟨p, eq⟩ := raiseToCeiling_mutex m
    (setMutex m { k.mutex m with owner := some k.currentThread } k)
  simp only [pthreadMutexTrylockSys]
  split
  · split
    · rename_i x v here
      rw [here] at eq
      simp only at eq ⊢
      rw [eq]
      simp [setMutex, other]
    · rename_i x step _ here
      rw [here] at eq
      simp only at eq ⊢
      rw [eq]
      simp [setMutex, other]
  · split
    · simp [setMutex, other]
    · rfl

theorem pthreadMutexTrylockSys_owner (m : Nat) (k : Kernel T) :
    OwnerAfterLock k.currentThread (k.mutex m) ((pthreadMutexTrylockSys m k).1.mutex m) := by
  obtain ⟨p, eq⟩ := raiseToCeiling_mutex m
    (setMutex m { k.mutex m with owner := some k.currentThread } k)
  unfold OwnerAfterLock
  simp only [pthreadMutexTrylockSys]
  split
  · rename_i free
    split
    · rename_i x v here
      rw [here] at eq
      simp only at eq ⊢
      rw [eq]
      simp [setMutex, free]
    · rename_i x step _ here
      rw [here] at eq
      simp only at eq ⊢
      rw [eq]
      simp [setMutex, free]
  · rename_i owned
    split
    · simp [setMutex, owned]
    · exact ⟨fun free => absurd free owned, fun _ => rfl, rfl⟩

theorem pthreadMutexTrylockSys_taken (m : Nat) (k : Kernel T)
    (plain : (k.mutex m).attr.type ≠ .recursive)
    (ends : (pthreadMutexTrylockSys m k).2 = .ret 0 ∨ (pthreadMutexTrylockSys m k).2 = .sched .done) :
    (k.mutex m).owner = none := by
  by_contra owned
  simp only [pthreadMutexTrylockSys] at ends
  simp only [owned, plain, and_false, if_false] at ends
  rcases ends with ends | ends <;> cases ends

end L4ertl
