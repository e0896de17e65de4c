import L4ertl.Core.WaitQueue

/-!
Each family of calls keeps to its own objects: a mutex call changes mutexes, a
condition variable call condition variables and a semaphore call semaphores.
Beside them they only use the scheduler.
-/
namespace L4ertl
open Intrusive
variable {T : Type}

def MutexOnly (k w : Kernel T) : Prop :=
  w = { k with
    threadFlags := w.threadFlags
    schedParam := w.schedParam
    activeThreads := w.activeThreads
    kstackFlag := w.kstackFlag
    errno := w.errno
    mutexNode := w.mutexNode
    mutex := w.mutex }

def CondOnly (k w : Kernel T) : Prop :=
  w = { k with
    threadFlags := w.threadFlags
    schedParam := w.schedParam
    activeThreads := w.activeThreads
    kstackFlag := w.kstackFlag
    errno := w.errno
    condNode := w.condNode
    cond := w.cond }

def SemOnly (k w : Kernel T) : Prop :=
  w = { k with
    threadFlags := w.threadFlags
    schedParam := w.schedParam
    activeThreads := w.activeThreads
    kstackFlag := w.kstackFlag
    errno := w.errno
    semNode := w.semNode
    sem := w.sem }

theorem MutexOnly.trans {k w x : Kernel T} (first : MutexOnly k w) (second : MutexOnly w x) :
    MutexOnly k x := by
  unfold MutexOnly at *
  rw [second, first]

theorem CondOnly.trans {k w x : Kernel T} (first : CondOnly k w) (second : CondOnly w x) :
    CondOnly k x := by
  unfold CondOnly at *
  rw [second, first]

theorem SemOnly.trans {k w x : Kernel T} (first : SemOnly k w) (second : SemOnly w x) :
    SemOnly k x := by
  unfold SemOnly at *
  rw [second, first]

theorem SchedOnly.mutexOnly {k w : Kernel T} (only : SchedOnly k w) : MutexOnly k w := by
  unfold SchedOnly at only
  unfold MutexOnly
  rw [only]

theorem SchedOnly.condOnly {k w : Kernel T} (only : SchedOnly k w) : CondOnly k w := by
  unfold SchedOnly at only
  unfold CondOnly
  rw [only]

theorem SchedOnly.semOnly {k w : Kernel T} (only : SchedOnly k w) : SemOnly k w := by
  unfold SchedOnly at only
  unfold SemOnly
  rw [only]

theorem MutexOnly.others {k w : Kernel T} (only : MutexOnly k w) :
    w.cond = k.cond ∧ w.condNode = k.condNode ∧ w.sem = k.sem ∧ w.semNode = k.semNode ∧
      w.currentThread = k.currentThread := by
  have conds := congrArg Kernel.cond only
  have condNodes := congrArg Kernel.condNode only
  have sems := congrArg Kernel.sem only
  have semNodes := congrArg Kernel.semNode only
  have current := congrArg Kernel.currentThread only
  exact ⟨conds, condNodes, sems, semNodes, current⟩

theorem CondOnly.others {k w : Kernel T} (only : CondOnly k w) :
    w.mutex = k.mutex ∧ w.mutexNode = k.mutexNode ∧ w.sem = k.sem ∧ w.semNode = k.semNode ∧
      w.currentThread = k.currentThread := by
  have mutexes := congrArg Kernel.mutex only
  have mutexNodes := congrArg Kernel.mutexNode only
  have sems := congrArg Kernel.sem only
  have semNodes := congrArg Kernel.semNode only
  have current := congrArg Kernel.currentThread only
  exact ⟨mutexes, mutexNodes, sems, semNodes, current⟩

theorem SemOnly.others {k w : Kernel T} (only : SemOnly k w) :
    w.mutex = k.mutex ∧ w.mutexNode = k.mutexNode ∧ w.cond = k.cond ∧ w.condNode = k.condNode ∧
      w.currentThread = k.currentThread := by
  have mutexes := congrArg Kernel.mutex only
  have mutexNodes := congrArg Kernel.mutexNode only
  have conds := congrArg Kernel.cond only
  have condNodes := congrArg Kernel.condNode only
  have current := congrArg Kernel.currentThread only
  exact ⟨mutexes, mutexNodes, conds, condNodes, current⟩

theorem QuietOnly.objects {k w : Kernel T} (only : QuietOnly k w) :
    w.mutex = k.mutex ∧ w.mutexNode = k.mutexNode ∧ w.cond = k.cond ∧ w.condNode = k.condNode ∧
      w.sem = k.sem ∧ w.semNode = k.semNode ∧ w.live = k.live ∧ w.idleThread = k.idleThread := by
  have mutexes := congrArg Kernel.mutex only
  have mutexNodes := congrArg Kernel.mutexNode only
  have conds := congrArg Kernel.cond only
  have condNodes := congrArg Kernel.condNode only
  have sems := congrArg Kernel.sem only
  have semNodes := congrArg Kernel.semNode only
  have alive := congrArg Kernel.live only
  have idle := congrArg Kernel.idleThread only
  exact ⟨mutexes, mutexNodes, conds, condNodes, sems, semNodes, alive, idle⟩

variable [DecidableEq T]

theorem activateAll_only (ts : List T) (k : Kernel T) : SchedOnly k (activateAll ts k) := by
  induction ts generalizing k with
  | nil => exact .refl k
  | cons t ts ih => exact (activateThread_only t k).trans (ih (activateThread t k))

omit [DecidableEq T] in
theorem setMutex_only (m : Nat) (x : Mutex T) (k : Kernel T) : MutexOnly k (setMutex m x k) := rfl

theorem blockOn_mutexOnly (m : Nat) (k : Kernel T) : MutexOnly k (blockOn (mutexWaiters m) k) :=
  (suspendThread_only k.currentThread k).mutexOnly.trans rfl

theorem raiseToCeiling_only (m : Nat) (k : Kernel T) : MutexOnly k (raiseToCeiling m k).1 := by
  simp only [raiseToCeiling]
  split
  · split
    · exact (setMutex_only m _ k).trans (changeThreadPrio_only _ _ _).mutexOnly
    · exact setMutex_only m _ k
  · rfl

theorem mutexLockLoop_only (m : Nat) (k : Kernel T) : MutexOnly k (mutexLockLoop m k).1 := by
  simp only [mutexLockLoop]
  split
  · exact (setMutex_only m _ k).trans (raiseToCeiling_only m _)
  · split
    · rfl
    · split
      · exact setMutex_only m _ k
      · exact blockOn_mutexOnly m k

theorem pthreadMutexLockSys_kernel (m : Nat) (k : Kernel T) :
    (pthreadMutexLockSys m k).1 = (mutexLockLoop m k).1 := by
  unfold pthreadMutexLockSys
  split <;> rename_i here <;> rw [here]

theorem condRelock_kernel (m : Nat) (k : Kernel T) :
    (condRelock m k).1 = (mutexLockLoop m k).1 := by
  unfold condRelock
  split <;> rename_i here <;> rw [here]

theorem pthreadMutexTrylockSys_only (m : Nat) (k : Kernel T) :
    MutexOnly k (pthreadMutexTrylockSys m k).1 := by
  have raised := (setMutex_only m { k.mutex m with owner := some k.currentThread } k).trans
    (raiseToCeiling_only m _)
  simp only [pthreadMutexTrylockSys]
  split
  · split <;> rename_i here <;> rw [here] at raised <;> exact raised
  · split
    · exact setMutex_only m _ k
    · rfl

theorem condSignal_only (c : Nat) (k : Kernel T) : CondOnly k (pthreadCondSignalSys c k).1 := by
  unfold pthreadCondSignalSys WaitList.removeHead
  obtain ⟨n, h, taken⟩ := removeHeadPthreadList ((condWaiters c).nodes k) ((condWaiters c).head k)
  have stored : CondOnly k ((condWaiters c).store n h k) := rfl
  cases taken with
  | none => exact stored
  | some t => exact stored.trans (activateThread_only t _).condOnly

theorem blockOn_condOnly (c : Nat) (k : Kernel T) : CondOnly k (blockOn (condWaiters c) k) :=
  (suspendThread_only k.currentThread k).condOnly.trans rfl

theorem blockOn_semOnly (s : Nat) (k : Kernel T) : SemOnly k (blockOn (semWaiters s) k) :=
  (suspendThread_only k.currentThread k).semOnly.trans rfl

omit [DecidableEq T] in
theorem semTake_only (s : Nat) (k : Kernel T) : SemOnly k (semTake s k).1 := rfl

theorem semGive_only (s : Nat) (k : Kernel T) : SemOnly k (semGive s k).1 := by
  unfold semGive
  split <;> rfl

theorem semWaitSys_only (s : Nat) (k : Kernel T) : SemOnly k (semWaitSys s k).1 := by
  unfold semWaitSys
  split
  · exact blockOn_semOnly s k
  · rfl

theorem semTrywaitSys_only (s : Nat) (k : Kernel T) : SemOnly k (semTrywaitSys s k).1 := by
  unfold semTrywaitSys
  split <;> rfl

theorem semPostSys_only (s : Nat) (k : Kernel T) : SemOnly k (semPostSys s k).1 := by
  unfold semPostSys WaitList.removeHead
  split
  · obtain ⟨n, h, taken⟩ := removeHeadPthreadList ((semWaiters s).nodes k) ((semWaiters s).head k)
    have stored : SemOnly k ((semWaiters s).store n h k) := rfl
    cases taken with
    | none => exact stored.trans (semGive_only s _)
    | some t => exact stored.trans (activateThread_only t _).semOnly
  · exact semGive_only s k

variable [Fintype T]

theorem drain_mutexOnly (m : Nat) (k : Kernel T) : MutexOnly k (drain (mutexWaiters m) k) := by
  unfold drain
  rw [WaitList.wakeAll_eq]
  exact (activateAll_only _ k).mutexOnly.trans rfl

theorem drain_condOnly (c : Nat) (k : Kernel T) : CondOnly k (drain (condWaiters c) k) := by
  unfold drain
  rw [WaitList.wakeAll_eq]
  exact (activateAll_only _ k).condOnly.trans rfl

theorem releaseMutex_only (m : Nat) (k : Kernel T) : MutexOnly k (releaseMutex m k).1 := by
  have drained := (drain_mutexOnly m k).trans (setMutex_only m
    { (drain (mutexWaiters m) k).mutex m with mutexList := none, owner := none, counter := 0 } _)
  simp only [releaseMutex]
  split
  · exact drained.trans (changeThreadPrio_only _ _ _).mutexOnly
  · exact drained

theorem mutexUnlock_only (m : Nat) (k : Kernel T) : MutexOnly k (mutexUnlock m k).1 := by
  simp only [mutexUnlock]
  split
  · split <;> rfl
  · split
    · rfl
    · split
      · split
        · exact setMutex_only m _ k
        · exact (setMutex_only m _ k).trans (releaseMutex_only m _)
      · exact releaseMutex_only m k

theorem pthreadMutexUnlockSys_kernel (m : Nat) (k : Kernel T) :
    (pthreadMutexUnlockSys m k).1 = (mutexUnlock m k).1 := by
  unfold pthreadMutexUnlockSys
  split <;> rename_i here <;> rw [here]

theorem pthreadCondWaitSys_cases (c m : Nat) (k : Kernel T) :
    ((k.mutex m).owner ≠ some k.currentThread ∧
      pthreadCondWaitSys c m k = (setErrno eperm k, .ret (-1))) ∨
    ((k.mutex m).owner = some k.currentThread ∧ ∃ v, (mutexUnlock m k).2 = .ret v ∧
      pthreadCondWaitSys c m k = (blockOn (condWaiters c) (mutexUnlock m k).1, .sched (.condWoken m))) ∨
    ((k.mutex m).owner = some k.currentThread ∧ (mutexUnlock m k).2 = .lowered ∧
      pthreadCondWaitSys c m k = ((mutexUnlock m k).1, .sched (.condUnlocked c m))) := by
  unfold pthreadCondWaitSys
  split
  · rename_i foreign
    exact Or.inl ⟨foreign, rfl⟩
  · rename_i mine
    have owner := not_not.mp mine
    right
    split
    · rename_i w v here
      rw [here]
      exact Or.inl ⟨owner, v, rfl, rfl⟩
    · rename_i w here
      rw [here]
      exact Or.inr ⟨owner, rfl, rfl⟩

end L4ertl
