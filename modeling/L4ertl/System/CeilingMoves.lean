import L4ertl.Core.Ceiling
import L4ertl.Core.SchedParams
import L4ertl.System.LockHistory

/-!
What the move of a thread does to its own state, to the mutexes and to the
priorities. Only five calls change the priority of a thread that exists, and only
a few can stop their caller from being READY.
-/
namespace L4ertl
open Intrusive

section
variable {T : Type}

structure LevelsKept (k x : Kernel T) : Prop where
  mutexes : ∀ m, (x.mutex m).owner = (k.mutex m).owner ∧ (x.mutex m).attr = (k.mutex m).attr
  prios : ∀ t, k.live t = true → x.prio t = k.prio t

theorem LevelsKept.of_same {k x : Kernel T} (mutex : x.mutex = k.mutex)
    (param : x.schedParam = k.schedParam) : LevelsKept k x where
  mutexes m := by rw [mutex]; exact ⟨rfl, rfl⟩
  prios t _ := by simp only [Kernel.prio, param]

theorem LevelsKept.trans {k w x : Kernel T} (first : LevelsKept k w) (second : LevelsKept w x)
    (live : ∀ t, k.live t = true → w.live t = true) : LevelsKept k x where
  mutexes m := ⟨(second.mutexes m).1.trans (first.mutexes m).1,
    (second.mutexes m).2.trans (first.mutexes m).2⟩
  prios t alive := (second.prios t (live t alive)).trans (first.prios t alive)

/-- What the move of thread `t` does to the mutexes and the levels, and which
    mutex it locks or unlocks. -/
inductive LevelMove (t : T) (k x : Kernel T) : Option Nat → Prop where
  | kept (about : Option Nat) (kept : LevelsKept k x) : LevelMove t k x about
  | taken (m : Nat) (free : (k.mutex m).owner = none) (raised : Raised t m k x)
      (others : ∀ u, u ≠ t → x.prio u = k.prio u) : LevelMove t k x (some m)
  | given (m : Nat) (mine : (k.mutex m).owner = some t) (free : (x.mutex m).owner = none)
      (lowered : Lowered t m k x) (others : ∀ u, u ≠ t → x.prio u = k.prio u) :
      LevelMove t k x (some m)

/-- What the rules leave open: a lock finds the mutex free, an unlock by the owner
    frees it, and no other call changes a priority. -/
def Call.Level (k : Kernel T) : Call T → Prop
  | .mutexLock m | .mutexTrylock m => Lockable k m
  | .mutexUnlock m | .condWait _ m => (k.mutex m).owner = some k.currentThread →
    (k.mutex m).attr.prioProtection = .protect ∧ HeldOnce k m
  | .setschedparam t _ param => ∀ p, param = some p → p.schedPriority = k.prio t
  | _ => True

def Work.Level (k : Kernel T) : Work T → Prop
  | .call c => c.Level k
  | .irq => True

end

variable {T : Type} [DecidableEq T]

theorem changeThreadPrio_others {t u : T} (other : u ≠ t) (p : Int) (k : Kernel T) :
    (changeThreadPrio t p k).prio u = k.prio u := by
  rw [changeThreadPrio_prio, if_neg other]

theorem suspendThread_prio (t : T) (k : Kernel T) (u : T) : (suspendThread t k).prio u = k.prio u :=
  congrArg (fun f => (f u).schedPriority) (suspendThread_frame t k).2.2

theorem raiseToCeiling_others {m : Nat} {k : Kernel T} {u : T} (other : u ≠ k.currentThread) :
    (raiseToCeiling m k).1.prio u = k.prio u := by
  simp only [raiseToCeiling]
  split
  · split
    · rw [changeThreadPrio_others other]
      rfl
    · rfl
  · rfl

theorem mutexLockLoop_level {m : Nat} {k : Kernel T} (free : Lockable k m) :
    LevelMove k.currentThread k (mutexLockLoop m k).1 (some m) := by
  have raised := pthreadMutexLockSys_raised (t := k.currentThread) rfl free
  rw [pthreadMutexLockSys_kernel] at raised
  refine .taken m free.1 raised fun u other => ?_
  simp only [mutexLockLoop, free.1, if_true]
  exact raiseToCeiling_others (k := setMutex m _ k) other

theorem pthreadMutexTrylockSys_level {m : Nat} {k : Kernel T} (free : Lockable k m) :
    LevelMove k.currentThread k (pthreadMutexTrylockSys m k).1 (some m) := by
  refine .taken m free.1 (pthreadMutexTrylockSys_raised rfl free) fun u other => ?_
  have others := raiseToCeiling_others (m := m)
    (k := setMutex m { k.mutex m with owner := some k.currentThread } k) other
  simp only [pthreadMutexTrylockSys, free.1, if_true]
  split
  · rename_i eq
    rw [eq] at others
    exact others
  · rename_i eq
    rw [eq] at others
    exact others

theorem mutexLockLoop_free {m : Nat} {k : Kernel T} (free : (k.mutex m).owner = none) :
    (mutexLockLoop m k).2 ≠ .blocked ∧ ∀ u, (mutexLockLoop m k).1.state u = k.state u := by
  simp only [mutexLockLoop, free, if_true, raiseToCeiling]
  split
  · split
    · exact ⟨(fun same => by cases same), fun u => Kernel.state_of_flags (changeThreadPrio_flags _ _ _) u⟩
    · exact ⟨(fun same => by cases same), fun u => rfl⟩
  · exact ⟨(fun same => by cases same), fun u => rfl⟩

section
variable [Fintype T]

theorem releaseMutex_others {m : Nat} {k : Kernel T} {u : T} (other : u ≠ k.currentThread) :
    (releaseMutex m k).1.prio u = k.prio u := by
  obtain ⟨current, param, _⟩ := drain_frame (mutexWaiters m) k
  have same : (drain (mutexWaiters m) k).prio u = k.prio u := by simp only [Kernel.prio, param]
  unfold releaseMutex
  simp only
  split
  · rw [changeThreadPrio_others (by rw [current]; exact other)]
    exact same
  · exact same

theorem mutexUnlock_refused {m : Nat} {k : Kernel T}
    (foreign : (k.mutex m).owner ≠ some k.currentThread) : LevelsKept k (mutexUnlock m k).1 := by
  apply LevelsKept.of_same (mutexUnlock_foreign m k foreign)
  unfold mutexUnlock
  simp only
  split
  · split <;> rfl
  · rfl

theorem mutexUnlock_frees {m : Nat} {k : Kernel T} (mine : (k.mutex m).owner = some k.currentThread)
    (last : HeldOnce k m) : ((mutexUnlock m k).1.mutex m).owner = none := by
  simp only [mutexUnlock, mine, reduceCtorEq, if_false, ne_eq, not_true]
  split
  · rename_i recursive
    rw [if_neg (by have := last recursive; omega), releaseMutex_mutex]
    simp
  · rw [releaseMutex_mutex]
    simp

theorem pthreadCondWaitSys_frees {c m : Nat} {k : Kernel T}
    (mine : (k.mutex m).owner = some k.currentThread) (last : HeldOnce k m) :
    ((pthreadCondWaitSys c m k).1.mutex m).owner = none := by
  have frees := mutexUnlock_frees mine last
  rcases pthreadCondWaitSys_cases c m k with ⟨foreign, _⟩ | ⟨_, v, _, eq⟩ | ⟨_, _, eq⟩
  · exact absurd mine foreign
  · rw [eq, (blockOn_condOnly c (mutexUnlock m k).1).others.1]
    exact frees
  · rw [eq]
    exact frees

theorem mutexUnlock_level {m : Nat} {k : Kernel T}
    (may : (k.mutex m).owner = some k.currentThread →
      (k.mutex m).attr.prioProtection = .protect ∧ HeldOnce k m) :
    LevelMove k.currentThread k (mutexUnlock m k).1 (some m) := by
  by_cases mine : (k.mutex m).owner = some k.currentThread
  · obtain ⟨guarded, last⟩ := may mine
    have lowered := pthreadMutexUnlockSys_lowered rfl mine guarded last
    rw [pthreadMutexUnlockSys_kernel] at lowered
    refine .given m mine (mutexUnlock_frees mine last) lowered fun u other => ?_
    simp only [mutexUnlock, mine, reduceCtorEq, if_false, ne_eq, not_true]
    split
    · rename_i recursive
      rw [if_neg (by have := last recursive; omega)]
      exact releaseMutex_others (k := setMutex m _ k) other
    · exact releaseMutex_others other
  · exact .kept _ (mutexUnlock_refused mine)

theorem pthreadCondWaitSys_level {c m : Nat} {k : Kernel T}
    (may : (k.mutex m).owner = some k.currentThread →
      (k.mutex m).attr.prioProtection = .protect ∧ HeldOnce k m) :
    LevelMove k.currentThread k (pthreadCondWaitSys c m k).1 (some m) := by
  have unlocked := mutexUnlock_level may
  rcases pthreadCondWaitSys_cases c m k with ⟨_, eq⟩ | ⟨_, v, _, eq⟩ | ⟨_, _, eq⟩
  · rw [eq]
    exact .kept _ (.of_same rfl rfl)
  · rw [eq]
    have only := blockOn_condOnly c (mutexUnlock m k).1
    have mutex : (blockOn (condWaiters c) (mutexUnlock m k).1).mutex = (mutexUnlock m k).1.mutex :=
      only.others.1
    have prio : ∀ u, (blockOn (condWaiters c) (mutexUnlock m k).1).prio u = (mutexUnlock m k).1.prio u :=
      suspendThread_prio (mutexUnlock m k).1.currentThread _
    cases unlocked with
    | kept about kept =>
      refine .kept _ ⟨fun n => ?_, fun u alive => ?_⟩
      · rw [mutex]
        exact kept.mutexes n
      · rw [prio]
        exact kept.prios u alive
    | taken m free raised others =>
      refine .taken m free ⟨?_, ?_, ?_, ?_⟩ fun u other => ?_
      · rw [prio]; exact raised.prio
      · rw [mutex]; exact raised.others
      · rw [mutex]; exact raised.owner
      · rw [mutex]; exact raised.attr
      · rw [prio]; exact others u other
    | given m mine free lowered others =>
      refine .given m mine ?_ ⟨?_, ?_, ?_⟩ fun u other => ?_
      · rw [mutex]; exact free
      · rw [prio]; exact lowered.prio
      · rw [mutex]; exact lowered.others
      · rw [mutex]; exact lowered.attr
      · rw [prio]; exact others u other
  · rw [eq]
    exact unlocked

end

def createdPrio (attr : Option PthreadAttr) : Int :=
  (attr.map fun a => a.schedParam.schedPriority).getD minSchedPriority

theorem pthreadCreateSys_prio {a : T} {stack : Bool} {attr : Option PthreadAttr} {k : Kernel T} (t : T)
    (alive : (pthreadCreateSys (some a) stack attr k).1.live t = true) :
    (k.live t = true ∧ (pthreadCreateSys (some a) stack attr k).1.prio t = k.prio t) ∨
      (t = a ∧ (pthreadCreateSys (some a) stack attr k).1.prio t = createdPrio attr) := by
  unfold pthreadCreateSys at alive ⊢
  split at alive
  · rename_i refused
    rw [if_pos refused]
    exact Or.inl ⟨alive, rfl⟩
  · rename_i accepted
    rw [if_neg accepted]
    have configured : (configureThread a attr (createPthreadStruct (some a) k).1).live t = true →
        (k.live t = true ∧ (configureThread a attr (createPthreadStruct (some a) k).1).prio t = k.prio t) ∨
        (t = a ∧ (configureThread a attr (createPthreadStruct (some a) k).1).prio t = createdPrio attr) := by
      intro there
      rw [congrArg Kernel.live (configureThread_only a attr _)] at there
      by_cases self : t = a
      · right
        refine ⟨self, ?_⟩
        subst self
        cases attr <;> simp [configureThread, Kernel.prio, createdPrio]
      · left
        have prio := ((configureThread_same a attr (createPthreadStruct (some a) k).1).others t self).2
        rw [prio]
        constructor
        · simpa [createPthreadStruct, self] using there
        · simp [createPthreadStruct, Kernel.prio, self]
    have shape : createPthreadStruct (some a) k = ((createPthreadStruct (some a) k).1, some a) := rfl
    rw [shape] at alive ⊢
    simp only at alive ⊢
    split at alive
    · rename_i starved
      rw [if_pos starved]
      exact configured alive
    · rename_i fed
      rw [if_neg fed]
      rw [congrArg Kernel.live (activateThread_only a _)] at alive
      have param := congrArg (fun f => (f t).schedPriority)
        (activateThread_schedParam a (configureThread a attr (createPthreadStruct (some a) k).1))
      have prio : (activateThread a (configureThread a attr (createPthreadStruct (some a) k).1)).prio t =
          (configureThread a attr (createPthreadStruct (some a) k).1).prio t := param
      rw [prio]
      exact configured alive

/-! Everything else leaves the parameters and the mutexes alone. -/
section
variable {k x : Kernel T}

theorem Woken.levels {P : T → Prop} (woken : Woken P k x) : LevelsKept k x := by
  have mutex := congrArg Kernel.mutex woken.only
  have param := congrArg Kernel.schedParam woken.only
  exact .of_same mutex param

theorem pthreadExitSys_levels (exited : pthreadExitSys k = .ok x) : LevelsKept k x := by
  obtain ⟨freed, only, _, _, woken⟩ := pthreadExitSys_woken exited
  have mutex := congrArg Kernel.mutex (finishThread_only k.currentThread freed)
  have param := (finishThread_frame k.currentThread freed).2.2.1
  have finished : LevelsKept freed (finishThread k.currentThread freed) := .of_same mutex param
  have live := congrArg Kernel.live only
  have alive := congrArg Kernel.live (finishThread_only k.currentThread freed)
  have first : LevelsKept k freed := (Woken.book (P := fun _ => False) only).levels
  refine (first.trans finished fun t here => ?_).trans woken.levels fun t here => ?_
  · rw [live]
    exact here
  · rw [alive, live]
    exact here

theorem Stopped.levels (stopped : Stopped k x) : LevelsKept k x := by
  cases stopped with
  | exited exited => exact pthreadExitSys_levels exited
  | slept =>
    have mutex := congrArg Kernel.mutex (suspendThread_only k.currentThread k)
    exact .of_same mutex (suspendThread_frame k.currentThread k).2.2

theorem Delivered.levels {rounds : Nat} {p : Option Point} (delivered : Delivered rounds k x p) :
    LevelsKept k x := by
  cases delivered with
  | ended sig => exact (Woken.book (P := fun _ => False) sig.book).levels
  | @stopped w _ _ _ _ sig stop =>
    have first : LevelsKept k w := (Woken.book (P := fun _ => False) sig.book).levels
    have live := congrArg Kernel.live sig.book
    refine first.trans stop.levels fun t here => ?_
    rw [live]
    exact here

theorem sleepFor_levels {fuel : Nat} {now : Nat → Clocks} {d : Duration}
    (slept : sleepFor fuel now d k = .ok x) : LevelsKept k x := by
  obtain ⟨armed, only, _, woken, _⟩ := sleepFor_woken slept
  have first : LevelsKept k armed := (Woken.book (P := fun _ => False) only).levels
  have asleep := (Stopped.slept (k := armed)).levels
  have current := congrArg Kernel.currentThread only
  have live := congrArg Kernel.live only
  have alive := (suspendThread_frame k.currentThread armed).2.1
  rw [current] at asleep
  refine (first.trans asleep fun t here => ?_).trans woken.levels fun t here => ?_
  · rw [live]
    exact here
  · rw [alive, live]
    exact here

theorem pthreadSetschedparamSys_levels {t : T} {policy : Int} {param : Option SchedParam}
    (same : ∀ p, param = some p → p.schedPriority = k.prio t) :
    LevelsKept k (pthreadSetschedparamSys t policy param k).1 := by
  unfold pthreadSetschedparamSys
  split
  · exact .of_same rfl rfl
  · cases param with
    | none => exact .of_same rfl rfl
    | some p =>
      constructor
      · intro m
        simp only
        rw [changeThreadPrio_mutex]
        exact ⟨rfl, rfl⟩
      · intro u _
        simp only
        rw [changeThreadPrio_prio]
        split
        · rename_i self
          rw [self]
          exact same p rfl
        · rename_i other
          simp [Kernel.prio, other]

omit [DecidableEq T] in
theorem CondOnly.levels (only : CondOnly k x) (param : x.schedParam = k.schedParam) :
    LevelsKept k x := .of_same only.others.1 param

omit [DecidableEq T] in
theorem SemOnly.levels (only : SemOnly k x) (param : x.schedParam = k.schedParam) :
    LevelsKept k x := .of_same only.others.1 param

theorem pthreadCondSignalSys_levels (c : Nat) : LevelsKept k (pthreadCondSignalSys c k).1 := by
  apply (condSignal_only c k).levels
  unfold pthreadCondSignalSys
  split
  · rename_i w t removed
    rw [activateThread_schedParam]
    exact congrArg (fun r => r.1.schedParam) removed.symm
  · rename_i w removed
    exact congrArg (fun r => r.1.schedParam) removed.symm

theorem semGive_param (s : Nat) : (semGive s k).1.schedParam = k.schedParam := by
  unfold semGive
  split <;> rfl

theorem semPostSys_levels (s : Nat) : LevelsKept k (semPostSys s k).1 := by
  apply (semPostSys_only s k).levels
  unfold semPostSys
  split
  · split
    · rename_i w t removed
      rw [activateThread_schedParam]
      exact congrArg (fun r => r.1.schedParam) removed.symm
    · rename_i w removed
      rw [semGive_param]
      exact congrArg (fun r => r.1.schedParam) removed.symm
  · exact semGive_param s

theorem semWaitSys_levels (s : Nat) : LevelsKept k (semWaitSys s k).1 := by
  apply (semWaitSys_only s k).levels
  unfold semWaitSys
  split
  · exact (suspendThread_frame k.currentThread k).2.2
  · rfl

theorem semTrywaitSys_levels (s : Nat) : LevelsKept k (semTrywaitSys s k).1 := by
  apply (semTrywaitSys_only s k).levels
  unfold semTrywaitSys
  split <;> rfl

end

section
variable [Fintype T] {k x : Kernel T}

omit [Fintype T] in
theorem doIrq_levels {fuel : Nat} {now : Nat → Clocks} {pr : Progress} (ok : KernelOk k)
    (ran : doIrq fuel now k = .ok (x, pr)) : LevelsKept k x := by
  obtain ⟨y, woken, _, only, _⟩ := doIrq_cases ok.irq ran
  rw [only]
  have kept := woken.levels
  exact ⟨kept.mutexes, kept.prios⟩

omit [Fintype T] in
theorem pthreadCreateSys_levels {addr : Option T} (unused : ∀ a, addr = some a → k.live a = false)
    (ok : KernelOk k) (stack : Bool) (attr : Option PthreadAttr) :
    LevelsKept k (pthreadCreateSys addr stack attr k).1 := by
  have mutex := (pthreadCreateSys_objects addr stack attr k).1
  refine ⟨fun m => by rw [mutex]; exact ⟨rfl, rfl⟩, fun t alive => ?_⟩
  cases addr with
  | none =>
    unfold pthreadCreateSys
    split <;> rfl
  | some a =>
    have live := (pthreadCreateSys_at ok (Or.inl (unused a rfl)) stack attr).live t alive
    rcases pthreadCreateSys_prio t live with ⟨_, same⟩ | ⟨self, _⟩
    · exact same
    · rw [self, unused a rfl] at alive
      cases alive

theorem Work.run_level {w : Work T} {env : Env} {pr : Progress} (ok : KernelOk k)
    (legal : w.Legal k = true) (rules : w.Level k) (ran : w.run env k = .ok (x, pr)) :
    LevelMove k.currentThread k x w.locks := by
  cases w with
  | irq => exact .kept _ (doIrq_levels ok ran)
  | call c =>
    cases c with
    | mutexLock m =>
      obtain ⟨rfl, _⟩ := ran_pair ran
      rw [pthreadMutexLockSys_kernel]
      exact mutexLockLoop_level rules
    | mutexTrylock m =>
      obtain ⟨rfl, _⟩ := ran_pair ran
      exact pthreadMutexTrylockSys_level rules
    | mutexUnlock m =>
      obtain ⟨rfl, _⟩ := ran_pair ran
      rw [pthreadMutexUnlockSys_kernel]
      exact mutexUnlock_level rules
    | condWait c m =>
      obtain ⟨rfl, _⟩ := ran_pair ran
      exact pthreadCondWaitSys_level rules
    | condSignal c =>
      obtain ⟨rfl, _⟩ := ran_pair ran
      exact .kept _ (pthreadCondSignalSys_levels c)
    | condBroadcast c =>
      obtain ⟨rfl, _⟩ := ran_pair ran
      exact .kept _ ((drain_condOnly c k).levels (drain_frame _ k).2.1)
    | semWait s =>
      obtain ⟨rfl, _⟩ := ran_pair ran
      exact .kept _ (semWaitSys_levels s)
    | semTrywait s =>
      obtain ⟨rfl, _⟩ := ran_pair ran
      exact .kept _ (semTrywaitSys_levels s)
    | semPost s =>
      obtain ⟨rfl, _⟩ := ran_pair ran
      exact .kept _ (semPostSys_levels s)
    | kill t sig =>
      obtain ⟨rfl, _⟩ := ran_pair ran
      exact .kept _ (pthreadKillSys_woken t sig k).levels
    | cancel t =>
      obtain ⟨rfl, _⟩ := ran_pair ran
      exact .kept _ (pthreadCancelSys_woken t k).levels
    | create addr stack attr =>
      obtain ⟨rfl, _⟩ := ran_pair ran
      refine .kept _ (pthreadCreateSys_levels ?_ ok stack attr)
      intro a here
      subst here
      simpa [Work.Legal, Call.Legal] using legal
    | setschedparam t policy param =>
      obtain ⟨rfl, _⟩ := ran_pair ran
      exact .kept _ (pthreadSetschedparamSys_levels rules)
    | yield =>
      obtain ⟨rfl, _⟩ := ran_pair ran
      exact .kept _ (.of_same rfl rfl)
    | exit =>
      obtain ⟨exited, _⟩ := ran_exit ran
      exact .kept _ (pthreadExitSys_levels exited)
    | timerCreate clockid evp =>
      obtain ⟨v, created, _⟩ := ran_timerCreate ran
      exact .kept _ (Woken.book (P := fun _ => False) (timerCreateSys_book created)).levels
    | timerDelete id =>
      obtain ⟨v, deleted, _⟩ := ran_timerDelete ran
      exact .kept _ (Woken.book (P := fun _ => False) (timerDeleteSys_book deleted)).levels
    | timerSettime id flags value =>
      obtain ⟨v, o, set, _⟩ := ran_timerSettime ran
      exact .kept _ (timerSettimeSys_woken set).1.levels
    | usleep usec =>
      obtain ⟨slept, _⟩ := ran_usleep ran
      exact .kept _ (sleepFor_levels slept)

omit [Fintype T] in
theorem Point.run_level {p : Point} {env : Env} {outcome : Outcome}
    (free : ∀ m, p.locks = some m → Lockable k m) (ran : p.run env k = .ok (x, outcome)) :
    LevelMove k.currentThread k x p.locks := by
  cases p with
  | done =>
    cases ran
    exact .kept _ (.of_same rfl rfl)
  | lockLoop m =>
    cases ran
    rw [pthreadMutexLockSys_kernel]
    exact mutexLockLoop_level (free m rfl)
  | condUnlocked c m =>
    cases ran
    exact .kept _ ((blockOn_condOnly c k).levels (suspendThread_frame k.currentThread k).2.2)
  | condWoken m =>
    cases ran
    rw [condRelock_kernel]
    exact mutexLockLoop_level (free m rfl)
  | condLock m =>
    cases ran
    rw [condRelock_kernel]
    exact mutexLockLoop_level (free m rfl)
  | semWait s =>
    cases ran
    exact .kept _ (.of_same rfl rfl)
  | semPost s =>
    cases ran
    exact .kept _ ((semGive_only s k).levels (semGive_param s))
  | slept d =>
    obtain ⟨pr, finished, _⟩ := ran_slept ran
    exact .kept _ (Woken.book (P := fun _ => False) (usleepDone_book finished).1).levels
  | leave rounds =>
    cases rounds with
    | zero =>
      cases ran
      exact .kept _ (.of_same rfl rfl)
    | succ rounds =>
      obtain ⟨q, signals, _⟩ := ran_leave ran
      exact .kept _ (doSignals_delivered signals).levels
  | signals mask signal pend rounds =>
    obtain ⟨q, signals, _⟩ := ran_signals ran
    exact .kept _ (signalLoop_delivered _ signals).levels

/-- A lock call waits unless the mutex is free or its type gives the owner an answer. -/
def MutexBusy (k : Kernel T) (m : Nat) : Prop :=
  (k.mutex m).owner ≠ none ∧
    ((k.mutex m).owner = some k.currentThread → (k.mutex m).attr.type = .normal)

def Call.Sleeps (k : Kernel T) : Call T → Prop
  | .mutexLock m => MutexBusy k m
  | .condWait _ m => (k.mutex m).owner = some k.currentThread
  | .semWait s => (k.sem s).value = 0
  | .usleep _ | .exit => True
  | _ => False

def Work.Sleeps (k : Kernel T) : Work T → Prop
  | .call c => c.Sleeps k
  | .irq => False

omit [Fintype T] in
theorem mutexLockLoop_open {m : Nat} (open_ : ¬MutexBusy k m) :
    (mutexLockLoop m k).2 ≠ .blocked ∧ ∀ u, (mutexLockLoop m k).1.state u = k.state u := by
  by_cases free : (k.mutex m).owner = none
  · exact mutexLockLoop_free free
  · have answered : (k.mutex m).owner = some k.currentThread ∧ (k.mutex m).attr.type ≠ .normal := by
      by_contra other
      refine open_ ⟨free, fun mine => ?_⟩
      by_contra special
      exact other ⟨mine, special⟩
    obtain ⟨mine, special⟩ := answered
    simp only [mutexLockLoop]
    rw [if_neg free]
    cases kind : (k.mutex m).attr.type with
    | normal => exact absurd kind special
    | recursive =>
      rw [if_neg (fun both => by cases both.2), if_pos ⟨mine, rfl⟩]
      exact ⟨(fun same => by cases same), fun u => rfl⟩
    | errorcheck =>
      rw [if_pos ⟨mine, rfl⟩]
      exact ⟨(fun same => by cases same), fun u => rfl⟩

omit [Fintype T] in
theorem pthreadMutexTrylockSys_state (m : Nat) (k : Kernel T) (u : T) :
    (pthreadMutexTrylockSys m k).1.state u = k.state u := by
  have raise : ∀ w : Kernel T, (raiseToCeiling m w).1.state u = w.state u := by
    intro w
    simp only [raiseToCeiling]
    split
    · split
      · exact Kernel.state_of_flags (changeThreadPrio_flags _ _ _) u
      · rfl
    · rfl
  simp only [pthreadMutexTrylockSys]
  split
  · have raised := raise (setMutex m { k.mutex m with owner := some k.currentThread } k)
    split
    · rename_i eq
      rw [eq] at raised
      exact raised
    · rename_i eq
      rw [eq] at raised
      exact raised
  · split <;> rfl

omit [Fintype T] in
theorem activateThread_ready {t u : T} (ready : k.state u = readyThread) :
    (activateThread t k).state u = readyThread := by
  rw [activateThread_state]
  split
  · rfl
  · exact ready

theorem Work.run_outside {w : Work T} {env : Env} {p : Point} (ran : w.run env k = .ok (x, .sched p))
    (leaves : p.leaving) : w = .irq := by
  cases w with
  | irq => rfl
  | call c =>
    exfalso
    cases c with
    | mutexLock m =>
      have same : pthreadMutexLockSys m k = (x, .sched p) := Except.ok.inj ran
      unfold pthreadMutexLockSys at same
      split at same <;> cases same <;> cases leaves
    | mutexTrylock m =>
      have same : pthreadMutexTrylockSys m k = (x, .sched p) := Except.ok.inj ran
      simp only [pthreadMutexTrylockSys] at same
      split at same
      · split at same <;> cases same
        cases leaves
      · split at same <;> cases same
    | mutexUnlock m =>
      have same : pthreadMutexUnlockSys m k = (x, .sched p) := Except.ok.inj ran
      unfold pthreadMutexUnlockSys at same
      split at same <;> cases same
      cases leaves
    | condSignal c =>
      have same : pthreadCondSignalSys c k = (x, .sched p) := Except.ok.inj ran
      unfold pthreadCondSignalSys at same
      split at same <;> cases same <;> cases leaves
    | condBroadcast c =>
      cases ran
      cases leaves
    | condWait c m =>
      have same : pthreadCondWaitSys c m k = (x, .sched p) := Except.ok.inj ran
      rcases pthreadCondWaitSys_cases c m k with ⟨_, eq⟩ | ⟨_, v, _, eq⟩ | ⟨_, _, eq⟩ <;>
        rw [eq] at same <;> cases same <;> cases leaves
    | semWait s =>
      have same : semWaitSys s k = (x, .sched p) := Except.ok.inj ran
      unfold semWaitSys at same
      split at same <;> cases same
      cases leaves
    | semTrywait s =>
      have same : semTrywaitSys s k = (x, .sched p) := Except.ok.inj ran
      unfold semTrywaitSys at same
      split at same <;> cases same
    | semPost s =>
      have same : semPostSys s k = (x, .sched p) := Except.ok.inj ran
      simp only [semPostSys, semGive] at same
      split at same
      · split at same
        · cases same
          cases leaves
        · split at same <;> cases same
      · split at same <;> cases same
    | create addr stack attr =>
      have same : pthreadCreateSys addr stack attr k = (x, .sched p) := Except.ok.inj ran
      unfold pthreadCreateSys at same
      split at same
      · cases same
      · split at same
        · cases same
        · simp only at same
          split at same <;> cases same
          cases leaves
    | setschedparam t policy param =>
      have same : pthreadSetschedparamSys t policy param k = (x, .sched p) := Except.ok.inj ran
      unfold pthreadSetschedparamSys at same
      split at same
      · cases same
      · cases param with
        | none => cases same
        | some q =>
          cases same
          cases leaves
    | yield =>
      cases ran
      cases leaves
    | exit =>
      cases (ran_exit ran).2
      cases leaves
    | usleep usec =>
      cases (ran_usleep ran).2
      cases leaves
    | kill t sig => cases ran
    | cancel t => cases ran
    | timerCreate clockid evp =>
      obtain ⟨v, _, eq⟩ := ran_timerCreate ran
      cases eq
    | timerDelete id =>
      obtain ⟨v, _, eq⟩ := ran_timerDelete ran
      cases eq
    | timerSettime id flags value =>
      obtain ⟨v, o, _, eq⟩ := ran_timerSettime ran
      cases eq

theorem Work.run_awake {w : Work T} {env : Env} {pr : Progress} (ok : KernelOk k)
    (ready : k.state k.currentThread = readyThread) (legal : w.Legal k = true)
    (awake : ¬w.Sleeps k) (ran : w.run env k = .ok (x, pr)) :
    x.state k.currentThread = readyThread := by
  have call := Work.run_ok ok ready legal ran
  cases pr with
  | ret v => exact call.stays v rfl
  | sched p =>
    cases w with
    | irq =>
      obtain ⟨y, woken, _, only, _⟩ := doIrq_cases ok.irq ran
      rw [only]
      rcases woken.state k.currentThread with same | ⟨_, _, woke⟩
      · exact same.trans ready
      · exact woke
    | call c =>
      cases c with
      | mutexLock m =>
        obtain ⟨rfl, _⟩ := ran_pair ran
        rw [pthreadMutexLockSys_kernel, (mutexLockLoop_open awake).2]
        exact ready
      | mutexTrylock m =>
        obtain ⟨rfl, _⟩ := ran_pair ran
        rw [pthreadMutexTrylockSys_state]
        exact ready
      | mutexUnlock m =>
        obtain ⟨rfl, _⟩ := ran_pair ran
        rw [pthreadMutexUnlockSys_kernel]
        exact (mutexUnlock_sound ok m).2 ready
      | condSignal c =>
        obtain ⟨rfl, _⟩ := ran_pair ran
        unfold pthreadCondSignalSys
        split
        · rename_i w t removed
          apply activateThread_ready
          rw [← ready]
          exact congrArg (fun r => Kernel.state r.1 k.currentThread) removed.symm
        · rename_i w removed
          rw [← ready]
          exact congrArg (fun r => Kernel.state r.1 k.currentThread) removed.symm
      | condBroadcast c =>
        obtain ⟨rfl, _⟩ := ran_pair ran
        exact drain_ready ready
      | condWait c m =>
        -- a wait by another thread than the owner comes back at once
        obtain ⟨_, progress⟩ := ran_pair ran
        have foreign : (k.mutex m).owner ≠ some k.currentThread := awake
        unfold pthreadCondWaitSys at progress
        rw [if_pos foreign] at progress
        cases progress
      | semWait s =>
        obtain ⟨_, progress⟩ := ran_pair ran
        have left : (k.sem s).value ≠ 0 := awake
        unfold semWaitSys at progress
        rw [if_neg left] at progress
        cases progress
      | semTrywait s =>
        obtain ⟨_, progress⟩ := ran_pair ran
        unfold semTrywaitSys at progress
        split at progress <;> cases progress
      | semPost s =>
        obtain ⟨rfl, progress⟩ := ran_pair ran
        unfold semPostSys at progress ⊢
        split at progress
        · rename_i empty
          rw [if_pos empty]
          split at progress
          · rename_i w t removed
            apply activateThread_ready
            rw [← ready]
            exact congrArg (fun r => Kernel.state r.1 k.currentThread) removed.symm
          · unfold semGive at progress
            split at progress <;> cases progress
        · unfold semGive at progress
          split at progress <;> cases progress
      | kill t sig => cases ran
      | cancel t => cases ran
      | create addr stack attr =>
        obtain ⟨rfl, _⟩ := ran_pair ran
        apply pthreadCreateSys_ready ok ready
        intro a here
        subst here
        simpa [Work.Legal, Call.Legal] using legal
      | setschedparam t policy param =>
        obtain ⟨rfl, _⟩ := ran_pair ran
        unfold pthreadSetschedparamSys
        split
        · exact ready
        · cases param with
          | none => exact (setPolicy_state t policy k k.currentThread).trans ready
          | some p =>
            simp only [Kernel.state, changeThreadPrio_flags]
            exact (setPolicy_state t policy k k.currentThread).trans ready
      | yield =>
        obtain ⟨rfl, _⟩ := ran_pair ran
        exact ready
      | exit => exact absurd trivial awake
      | usleep usec => exact absurd trivial awake
      | timerCreate clockid evp =>
        obtain ⟨v, _, same⟩ := ran_timerCreate ran
        cases same
      | timerDelete id =>
        obtain ⟨v, _, same⟩ := ran_timerDelete ran
        cases same
      | timerSettime id flags value =>
        obtain ⟨v, o, _, same⟩ := ran_timerSettime ran
        cases same

end

end L4ertl
