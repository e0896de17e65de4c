import L4ertl.Core.CallSound

/-!
Joining, detaching and deleting threads (pthread.c, rtl.c), and the list of all
thread structures. Deleting a structure takes it off the ready lists and off
thread_list, and nothing else.
-/
namespace L4ertl
open Intrusive
variable {T : Type} [DecidableEq T]

def setThreadCancelState (flags : Word) (state : Bool) : Word :=
  if state then flags ||| 0x10#32 else flags &&& ~~~0x10#32

def setThreadCancelType (flags : Word) (state : Bool) : Word :=
  if state then flags ||| 0x20#32 else flags &&& ~~~0x20#32

def setFlags (thread : T) (flags : Word) (k : Kernel T) : Kernel T :=
  { k with threadFlags := Function.update k.threadFlags thread flags }

def setJoining (thread : T) (joiner : Option T) (k : Kernel T) : Kernel T :=
  { k with joiningThread := Function.update k.joiningThread thread joiner }

inductive JoinStep where
  | ret (v : Int)
  | blocked
  | deleted
  deriving DecidableEq, Repr

/-- From the test of the join loop to the next `scheduling` or the end. -/
def joinLoop (thread : T) (k : Kernel T) : Kernel T × JoinStep :=
  if k.state thread ≠ finishedThread then
    let k := setJoining thread (some k.currentThread) k
    (suspendThread k.currentThread k, .blocked)
  else (deletePthreadStruct thread k, .deleted)

def pthreadJoinSys (thread : T) (k : Kernel T) : Kernel T × JoinStep :=
  if k.magicNumber thread ≠ pthreadMagicNumber then (setErrno esrch k, .ret (-1))
  else if getThreadDetachState (k.threadFlags thread) ≠ 0#32 then (setErrno einval k, .ret (-1))
  else joinLoop thread k

def joinWoken (thread : T) (k : Kernel T) : Kernel T × JoinStep :=
  if getThreadDetachState (k.threadFlags thread) ≠ 0#32 then (setErrno einval k, .ret (-1))
  else joinLoop thread k

/-- It is the joiner of the caller that is woken, not the one of `thread`, and
    activate_thread does not expect NULL. -/
def pthreadDetachSys (thread : T) (k : Kernel T) : Except Fault (Kernel T × Progress) :=
  if k.magicNumber thread ≠ pthreadMagicNumber then .ok (setErrno esrch k, .ret (-1))
  else if getThreadDetachState (k.threadFlags thread) ≠ 0#32 then .ok (setErrno einval k, .ret (-1))
  else
    let k := setFlags thread (setThreadDetachState (k.threadFlags thread) true) k
    match k.joiningThread k.currentThread with
    | none => .error .nullDeref
    | some joiner =>
      let k := activateThread joiner k
      .ok (setJoining k.currentThread none k, .sched .done)

def pthreadDeleteNpSys (thread : T) (k : Kernel T) : Kernel T :=
  let flags := setThreadCancelState (k.threadFlags thread) true
  let flags := setThreadCancelType flags true
  let k := setFlags thread flags k
  deletePthreadStruct thread (finishThread thread k)

section
variable {n : Links T} {h : Option T} {xs : List T} {t : T}

theorem removePthreadList_eq (n : Links T) (h : Option T) (t : T) :
    removePthreadList n h t =
      (Function.update (bypass n t) t detached, if h = some t then (n t).next else h) := by
  have cell : patchPrev n (n t).next (n t).prev t = n t := by
    rw [patchPrev_apply]
    split <;> rfl
  simp only [removePthreadList, cell]
  rw [← bypass, bypass_self]

theorem removePthreadList_chain (chain : Chain n h xs) (nodup : xs.Nodup) (member : t ∈ xs) :
    Chain (removePthreadList n h t).1 (removePthreadList n h t).2 (xs.erase t) := by
  obtain ⟨as, bs, rfl⟩ := List.append_of_mem member
  have apart := List.nodup_append.mp nodup
  have before : t ∉ as := fun inside => apart.2.2 t inside t List.mem_cons_self rfl
  have after : t ∉ bs := (List.nodup_cons.mp apart.2.1).1
  rw [List.erase_append_right _ before, List.erase_cons_head, removePthreadList_eq]
  refine segment_congr ?_ (chain_bypass chain nodup)
  intro y inside
  have other : y ≠ t := by
    rintro rfl
    exact (List.mem_append.mp inside).elim before after
  exact Function.update_of_ne other _ _

theorem insertPthreadList_chain (chain : Chain n h xs) (nodup : xs.Nodup) (new : t ∉ xs) :
    Chain (insertPthreadList (Function.update n t detached) h t).1
      (insertPthreadList (Function.update n t detached) h t).2 (t :: xs) := by
  have same : ∀ x ∈ xs, Function.update n t detached x = n x := by
    intro x inside
    rw [Function.update_of_ne]
    rintro rfl
    exact new inside
  have head : h ≠ some t := by
    intro first
    rw [segment_head chain] at first
    exact new (List.mem_of_head? first)
  apply chain_cons (segment_congr same chain) nodup
  · simp [insertPthreadList, setNext_apply, patchPrev_apply, head, detached]
  · intro y inside
    have other : y ≠ t := by
      rintro rfl
      exact new inside
    simp [insertPthreadList, setNext_apply, other]

end

def Tabled (k : Kernel T) (xs : List T) : Prop := Chain k.threadNode k.threadList xs ∧ xs.Nodup

theorem Tabled.delete {k : Kernel T} {xs : List T} (table : Tabled k xs) {t : T} (member : t ∈ xs) :
    Tabled (deletePthreadStruct t k) (xs.erase t) :=
  ⟨removePthreadList_chain table.1 table.2 member, table.2.erase t⟩

theorem Tabled.create {k : Kernel T} {xs : List T} (table : Tabled k xs) {a : T} (new : a ∉ xs) :
    Tabled (createPthreadStruct (some a) k).1 (a :: xs) :=
  ⟨insertPthreadList_chain table.1 table.2 new, List.nodup_cons.mpr ⟨new, table.2⟩⟩

omit [DecidableEq T] in
theorem Tabled.same {k w : Kernel T} {xs : List T} (table : Tabled k xs)
    (nodes : w.threadNode = k.threadNode) (head : w.threadList = k.threadList) : Tabled w xs := by
  unfold Tabled
  rw [nodes, head]
  exact table

@[simp] theorem getThreadState_cancelled (flags : Word) :
    getThreadState (setThreadCancelType (setThreadCancelState flags true) true) =
      getThreadState flags := by
  have first := getThreadState_keep flags (BitVec.allOnes 32) 0x10#32 (by decide) (by decide)
  have second := getThreadState_keep (flags ||| 0x10#32) (BitVec.allOnes 32) 0x20#32 (by decide) (by decide)
  rw [BitVec.and_allOnes] at first second
  exact second.trans first

omit [DecidableEq T] in
/-- The words of a structure given back are still there. -/
def Kernel.keepWords (k w : Kernel T) : Kernel T := { w with live := k.live }

section
variable {k : Kernel T} {t u : T}

theorem setFlags_only (t : T) (flags : Word) (k : Kernel T) : SchedOnly k (setFlags t flags k) := rfl

theorem KernelOk.flags (ok : KernelOk k) {flags : Word}
    (same : getThreadState flags = getThreadState (k.threadFlags t)) :
    Sound u k (setFlags t flags k) := by
  obtain ⟨r, inv⟩ := ok.ready
  have states : ∀ v, (setFlags t flags k).state v = k.state v := by
    intro v
    by_cases self : v = t
    · subst self
      simp [Kernel.state, setFlags, same]
    · simp [Kernel.state, setFlags, self]
  exact ok.sched rfl ⟨r, inv.alike rfl rfl fun v => ⟨states v, rfl⟩⟩ fun v _ _ => Or.inl (states v)

theorem KernelOk.joining (ok : KernelOk k) {joiner : Option T}
    (alive : ∀ v, joiner = some v → k.live v = true) : Sound u k (setJoining t joiner k) := by
  obtain ⟨r, inv⟩ := ok.ready
  refine ⟨⟨⟨r, inv.congr rfl rfl rfl rfl⟩, ?_, ok.current, ok.idle, ok.irq⟩, fun _ alive => alive,
    rfl, rfl, fun _ _ _ => Or.inl rfl⟩
  refine ⟨ok.refs.mutexes, ok.refs.conds, ok.refs.sems, ok.refs.owners, ?_⟩
  intro v w joins
  simp only [setJoining, Function.update_apply] at joins
  split at joins
  · exact alive w joins
  · exact ok.refs.joiners v w joins

theorem KernelOk.reap (ok : KernelOk k) (alive : k.live t = true) (out : k.state t ≠ readyThread) :
    Sound u k (k.keepWords (deletePthreadStruct t k)) := by
  obtain ⟨r, inv⟩ := ok.ready
  refine ⟨⟨⟨_, inv.remove alive rfl (Or.inr out) fun v _ => ⟨rfl, rfl, rfl⟩⟩, ?_, ok.current, ok.idle,
    ok.irq⟩, fun _ alive => alive, rfl, rfl, fun _ _ _ => Or.inl rfl⟩
  exact ⟨ok.refs.mutexes, ok.refs.conds, ok.refs.sems, ok.refs.owners, ok.refs.joiners⟩

theorem joinLoop_blocked (ok : KernelOk k) (t : T) :
    Sound k.currentThread k
      (suspendThread k.currentThread (setJoining t (some k.currentThread) k)) := by
  have joining : Sound k.currentThread k (setJoining t (some k.currentThread) k) :=
    ok.joining fun v self => by cases self; exact ok.current
  exact joining.trans (joining.ok.suspend ok.current)

theorem pthreadDetachSys_sound (ok : KernelOk k) {w : Kernel T} {pr : Progress}
    (ran : pthreadDetachSys t k = .ok (w, pr)) : Sound u k w := by
  unfold pthreadDetachSys at ran
  split at ran
  · cases ran
    exact ok.errno esrch
  · split at ran
    · cases ran
      exact ok.errno einval
    · have detached : Sound u k (setFlags t (setThreadDetachState (k.threadFlags t) true) k) :=
        ok.flags (getThreadState_detach _ _)
      simp only at ran
      split at ran
      · cases ran
      · rename_i joiner joins
        cases ran
        have woken := detached.trans (detached.ok.activate (ok.refs.joiners _ _ joins))
        exact woken.trans (woken.ok.joining nofun)

def endThread (t : T) (k : Kernel T) : Kernel T :=
  finishThread t
    (setFlags t (setThreadCancelType (setThreadCancelState (k.threadFlags t) true) true) k)

theorem pthreadDeleteNpSys_eq (t : T) (k : Kernel T) :
    pthreadDeleteNpSys t k = deletePthreadStruct t (endThread t k) := rfl

theorem endThread_only (t : T) (k : Kernel T) : SchedOnly k (endThread t k) :=
  (setFlags_only t _ k).trans (finishThread_only t _)

theorem endThread_state (t : T) (k : Kernel T) : (endThread t k).state t = finishedThread := by
  rw [endThread, finishThread_state, if_pos rfl]

theorem endThread_sound (ok : KernelOk k) (alive : k.live t = true) : Sound t k (endThread t k) := by
  have cancelled : Sound t k
      (setFlags t (setThreadCancelType (setThreadCancelState (k.threadFlags t) true) true) k) :=
    ok.flags (getThreadState_cancelled _)
  exact cancelled.trans (cancelled.ok.finish alive)

theorem endThread_live (t : T) (k : Kernel T) : (endThread t k).live = k.live := by
  have live := congrArg Kernel.live (endThread_only t k)
  exact live

theorem pthreadDeleteNpSys_sound (ok : KernelOk k) (alive : k.live t = true) :
    Sound t k (k.keepWords (pthreadDeleteNpSys t k)) := by
  have ended := endThread_sound ok alive
  have reaped := ended.ok.reap (t := t) (u := t) (by rw [endThread_live]; exact alive)
    (by rw [endThread_state]; exact finished_ne_ready)
  have sound := ended.trans reaped
  rw [Kernel.keepWords, endThread_live] at sound
  exact sound

end

end L4ertl
