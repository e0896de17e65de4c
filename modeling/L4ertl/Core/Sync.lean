import L4ertl.Core.Time

/-!
Mutexes, condition variables and semaphores (pthread.c, semaphore.c). A call
runs until it returns or calls `scheduling`; in the second case it says at which
`Point` it goes on when its thread runs again.
-/
namespace L4ertl
open Intrusive

/-- Where a thread is inside the kernel, after a call of `scheduling`. -/
inductive Point where
  | done
  | lockLoop (m : Nat)
  | condUnlocked (c m : Nat)
  | condWoken (m : Nat)
  | condLock (m : Nat)
  | semWait (s : Nat)
  | semPost (s : Nat)
  | slept (d : Duration)
  -- back in the entry code, with this many calls of do_signals to make
  | leave (rounds : Nat)
  | signals (oldSigmask : Word) (signal : Nat) (sigpend : Word) (rounds : Nat)
  deriving DecidableEq, Repr

inductive Progress where
  | ret (v : Int)
  | sched (p : Point)
  deriving DecidableEq, Repr

variable {T : Type} [DecidableEq T]

def setMutex (m : Nat) (x : Mutex T) (k : Kernel T) : Kernel T :=
  { k with mutex := Function.update k.mutex m x }

def setSem (s : Nat) (x : Sem T) (k : Kernel T) : Kernel T :=
  { k with sem := Function.update k.sem s x }

/-- `w` is `k` but for the synchronisation objects and the nodes of their lists. -/
def ObjOnly (k w : Kernel T) : Prop :=
  w = { k with
    mutexNode := w.mutexNode
    condNode := w.condNode
    semNode := w.semNode
    mutex := w.mutex
    cond := w.cond
    sem := w.sem }

/-- One wait list of the kernel: the node field it runs through and its head,
    two variables that the scheduler does not know of. -/
structure WaitList (T : Type) [DecidableEq T] where
  nodes : Kernel T → Links T
  head : Kernel T → Option T
  store : Links T → Option T → Kernel T → Kernel T
  nodes_store : ∀ n h k, nodes (store n h k) = n
  head_store : ∀ n h k, head (store n h k) = h
  store_store : ∀ n h n' h' k, store n h (store n' h' k) = store n h k
  store_self : ∀ k, store (nodes k) (head k) k = k
  store_only : ∀ n h k, ObjOnly k (store n h k)
  nodes_activate : ∀ t k, nodes (activateThread t k) = nodes k
  head_activate : ∀ t k, head (activateThread t k) = head k
  store_activate : ∀ t n h k, activateThread t (store n h k) = store n h (activateThread t k)

theorem activateThread_mutexNode (t : T) (k : Kernel T) :
    (activateThread t k).mutexNode = k.mutexNode ∧ (activateThread t k).mutex = k.mutex := by
  have nodes := congrArg Kernel.mutexNode (activateThread_only t k)
  have objects := congrArg Kernel.mutex (activateThread_only t k)
  exact ⟨nodes, objects⟩

theorem activateThread_condNode (t : T) (k : Kernel T) :
    (activateThread t k).condNode = k.condNode ∧ (activateThread t k).cond = k.cond := by
  have nodes := congrArg Kernel.condNode (activateThread_only t k)
  have objects := congrArg Kernel.cond (activateThread_only t k)
  exact ⟨nodes, objects⟩

theorem activateThread_semNode (t : T) (k : Kernel T) :
    (activateThread t k).semNode = k.semNode ∧ (activateThread t k).sem = k.sem := by
  have nodes := congrArg Kernel.semNode (activateThread_only t k)
  have objects := congrArg Kernel.sem (activateThread_only t k)
  exact ⟨nodes, objects⟩

theorem activateThread_wakes {t : T} {k : Kernel T}
    (wake : k.state t ≠ finishedThread ∧ k.state t ≠ readyThread) :
    activateThread t k = setState t readyThread
      { k with activeThreads := insertSs t (k.prio t) k.activeThreads } := if_pos wake

theorem activateThread_keeps {t : T} {k : Kernel T}
    (still : ¬(k.state t ≠ finishedThread ∧ k.state t ≠ readyThread)) :
    activateThread t k = k := if_neg still

theorem activateThread_comm {t : T} {k : Kernel T} (f : Kernel T → Kernel T)
    (state : (f k).state t = k.state t)
    (commutes : setState t readyThread
        { f k with activeThreads := insertSs t ((f k).prio t) (f k).activeThreads } =
      f (setState t readyThread { k with activeThreads := insertSs t (k.prio t) k.activeThreads })) :
    activateThread t (f k) = f (activateThread t k) := by
  by_cases wake : k.state t ≠ finishedThread ∧ k.state t ≠ readyThread
  · rw [activateThread_wakes wake, activateThread_wakes (by rw [state]; exact wake), commutes]
  · rw [activateThread_keeps wake, activateThread_keeps (by rw [state]; exact wake)]

def mutexWaiters (m : Nat) : WaitList T where
  nodes := Kernel.mutexNode
  head := fun k => (k.mutex m).mutexList
  store := fun nodes head k =>
    setMutex m { k.mutex m with mutexList := head } { k with mutexNode := nodes }
  nodes_store _ _ _ := rfl
  head_store _ _ _ := by simp [setMutex]
  store_store _ _ _ _ _ := by simp [setMutex]
  store_self _ := by simp [setMutex]
  store_only _ _ _ := rfl
  nodes_activate t k := (activateThread_mutexNode t k).1
  head_activate t k := by rw [(activateThread_mutexNode t k).2]
  store_activate t n h _ := activateThread_comm
    (fun k => setMutex m { k.mutex m with mutexList := h } { k with mutexNode := n }) rfl rfl

def condWaiters (c : Nat) : WaitList T where
  nodes := Kernel.condNode
  head := fun k => k.cond c
  store := fun nodes head k =>
    { k with
      condNode := nodes
      cond := Function.update k.cond c head }
  nodes_store _ _ _ := rfl
  head_store _ _ _ := by simp
  store_store _ _ _ _ _ := by simp
  store_self _ := by simp
  store_only _ _ _ := rfl
  nodes_activate t k := (activateThread_condNode t k).1
  head_activate t k := by rw [(activateThread_condNode t k).2]
  store_activate t n h _ := activateThread_comm
    (fun k => { k with condNode := n, cond := Function.update k.cond c h }) rfl rfl

def semWaiters (s : Nat) : WaitList T where
  nodes := Kernel.semNode
  head := fun k => (k.sem s).semList
  store := fun nodes head k =>
    setSem s { k.sem s with semList := head } { k with semNode := nodes }
  nodes_store _ _ _ := rfl
  head_store _ _ _ := by simp [setSem]
  store_store _ _ _ _ _ := by simp [setSem]
  store_self _ := by simp [setSem]
  store_only _ _ _ := rfl
  nodes_activate t k := (activateThread_semNode t k).1
  head_activate t k := by rw [(activateThread_semNode t k).2]
  store_activate t n h _ := activateThread_comm
    (fun k => setSem s { k.sem s with semList := h } { k with semNode := n }) rfl rfl

def WaitList.insert (l : WaitList T) (thread : T) (k : Kernel T) : Kernel T :=
  let (nodes, head) := insertPthreadList (l.nodes k) (l.head k) thread
  l.store nodes head k

def WaitList.removeHead (l : WaitList T) (k : Kernel T) : Kernel T × Option T :=
  let (nodes, head, thread) := removeHeadPthreadList (l.nodes k) (l.head k)
  (l.store nodes head k, thread)

/-- `while ((thread = remove_head_pthread_list (l))) activate_thread (thread);` -/
def WaitList.wakeAll (l : WaitList T) : Nat → Kernel T → Kernel T
  | 0, k => k
  | fuel + 1, k =>
    match l.removeHead k with
    | (k, some thread) => l.wakeAll fuel (activateThread thread k)
    | (k, none) => k

def blockOn (l : WaitList T) (k : Kernel T) : Kernel T :=
  l.insert k.currentThread (suspendThread k.currentThread k)

inductive LockStep where
  | ret (v : Int)
  | blocked
  | raised
  deriving DecidableEq, Repr

/-- The new owner notes its priority and takes the ceiling's, which calls `scheduling`. -/
def raiseToCeiling (m : Nat) (k : Kernel T) : Kernel T × LockStep :=
  let x := k.mutex m
  let t := k.currentThread
  if x.attr.prioProtection = .protect then
    let k := setMutex m { x with attr := { x.attr with ownerPrio := k.prio t } } k
    if x.attr.prio < k.prio t then (changeThreadPrio t x.attr.prio k, .raised)
    else (k, .ret 0)
  else (k, .ret 0)

/-- From the test of the lock loop to the next `scheduling` or the end. -/
def mutexLockLoop (m : Nat) (k : Kernel T) : Kernel T × LockStep :=
  let x := k.mutex m
  let t := k.currentThread
  if x.owner = none then
    raiseToCeiling m (setMutex m { x with owner := some t, counter := 1 } k)
  else if x.owner = some t ∧ x.attr.type = .errorcheck then (setErrno edeadlk k, .ret (-1))
  else if x.owner = some t ∧ x.attr.type = .recursive then
    (setMutex m { x with counter := x.counter + 1 } k, .ret 0)
  else (blockOn (mutexWaiters m) k, .blocked)

def pthreadMutexLockSys (m : Nat) (k : Kernel T) : Kernel T × Progress :=
  match mutexLockLoop m k with
  | (k, .ret v) => (k, .ret v)
  | (k, .blocked) => (k, .sched (.lockLoop m))
  | (k, .raised) => (k, .sched .done)

/-- Unlike the lock call this one leaves the counter alone. -/
def pthreadMutexTrylockSys (m : Nat) (k : Kernel T) : Kernel T × Progress :=
  let x := k.mutex m
  let t := k.currentThread
  if x.owner = none then
    match raiseToCeiling m (setMutex m { x with owner := some t } k) with
    | (k, .ret v) => (k, .ret v)
    | (k, _) => (k, .sched .done)
  else if x.owner = some t ∧ x.attr.type = .recursive then
    (setMutex m { x with counter := x.counter + 1 } k, .ret 0)
  else (setErrno ebusy k, .ret (-1))

inductive UnlockStep where
  | ret (v : Int)
  | lowered
  deriving DecidableEq, Repr

section
variable [Fintype T]

/-- Each round that does not end the loop takes one node off the list for good,
    so one more round than there are threads is enough. -/
def drain (l : WaitList T) (k : Kernel T) : Kernel T := l.wakeAll (Fintype.card T + 1) k

/-- The waiters are woken, then the mutex is free and the ceiling is given back. -/
def releaseMutex (m : Nat) (k : Kernel T) : Kernel T × UnlockStep :=
  let k := drain (mutexWaiters m) k
  let x := k.mutex m
  let t := k.currentThread
  let k := setMutex m { x with mutexList := none, owner := none, counter := 0 } k
  if x.attr.prioProtection = .protect ∧ x.attr.ownerPrio ≠ k.prio t then
    (changeThreadPrio t x.attr.ownerPrio k, .lowered)
  else (k, .ret 0)

def mutexUnlock (m : Nat) (k : Kernel T) : Kernel T × UnlockStep :=
  let x := k.mutex m
  if x.owner = none then
    if x.attr.type = .errorcheck then (setErrno eperm k, .ret (-1)) else (k, .ret 0)
  else if x.owner ≠ some k.currentThread then (setErrno eperm k, .ret (-1))
  else if x.attr.type = .recursive then
    let k := setMutex m { x with counter := x.counter - 1 } k
    if 0 < x.counter - 1 then (k, .ret 0) else releaseMutex m k
  else releaseMutex m k

def pthreadMutexUnlockSys (m : Nat) (k : Kernel T) : Kernel T × Progress :=
  match mutexUnlock m k with
  | (k, .ret v) => (k, .ret v)
  | (k, .lowered) => (k, .sched .done)

def pthreadCondSignalSys (c : Nat) (k : Kernel T) : Kernel T × Progress :=
  match (condWaiters c).removeHead k with
  | (k, some thread) => (activateThread thread k, .sched .done)
  | (k, none) => (k, .sched .done)

def pthreadCondBroadcastSys (c : Nat) (k : Kernel T) : Kernel T × Progress :=
  (drain (condWaiters c) k, .sched .done)

def condBlock (c m : Nat) (k : Kernel T) : Kernel T × Progress :=
  (blockOn (condWaiters c) k, .sched (.condWoken m))

def pthreadCondWaitSys (c m : Nat) (k : Kernel T) : Kernel T × Progress :=
  if (k.mutex m).owner ≠ some k.currentThread then (setErrno eperm k, .ret (-1))
  else
    match mutexUnlock m k with
    | (k, .ret _) => condBlock c m k
    | (k, .lowered) => (k, .sched (.condUnlocked c m))

/-- The nested lock at the end of a wait; its result is not looked at. -/
def condRelock (m : Nat) (k : Kernel T) : Kernel T × Progress :=
  match mutexLockLoop m k with
  | (k, .ret _) => (k, .ret 0)
  | (k, .blocked) => (k, .sched (.condLock m))
  | (k, .raised) => (k, .sched .done)

end

def semValueMax : Int := 2147483647

/-- The unsigned argument is stored in an int. -/
def semInitSys (s : Nat) (pshared : Int) (value : Word) (k : Kernel T) : Kernel T × Int :=
  if pshared ≠ 0 then (setErrno 38 k, -1)
  else (setSem s ⟨value.toInt, none⟩ k, 0)

/-- The decrement at the end of sem_wait_sys, without another look at the value. -/
def semTake (s : Nat) (k : Kernel T) : Kernel T × Progress :=
  (setSem s { k.sem s with value := (k.sem s).value - 1 } k, .ret 0)

def semWaitSys (s : Nat) (k : Kernel T) : Kernel T × Progress :=
  if (k.sem s).value = 0 then (blockOn (semWaiters s) k, .sched (.semWait s))
  else semTake s k

def semTrywaitSys (s : Nat) (k : Kernel T) : Kernel T × Progress :=
  if (k.sem s).value = 0 then (setErrno eagain k, .ret (-1)) else semTake s k

def semGive (s : Nat) (k : Kernel T) : Kernel T × Progress :=
  if (k.sem s).value < semValueMax then
    (setSem s { k.sem s with value := (k.sem s).value + 1 } k, .ret 0)
  else (setErrno erange k, .ret (-1))

def semPostSys (s : Nat) (k : Kernel T) : Kernel T × Progress :=
  if (k.sem s).value = 0 then
    match (semWaiters s).removeHead k with
    | (k, some thread) => (activateThread thread k, .sched (.semPost s))
    | (k, none) => semGive s k
  else semGive s k

end L4ertl
