import L4ertl.Core.Calls
import L4ertl.Lib.Lts

/-!
The whole system: the kernel, and for every thread the point inside the kernel
at which it goes on (`none` in user mode). Only the current thread moves, and
another one becomes current only in `scheduling`.
-/
namespace L4ertl
open Intrusive

/-- The system calls, with their arguments; what the memory pool answers to
    `create` comes with it. -/
inductive Call (T : Type) where
  | mutexLock (m : Nat)
  | mutexTrylock (m : Nat)
  | mutexUnlock (m : Nat)
  | condSignal (c : Nat)
  | condBroadcast (c : Nat)
  | condWait (c m : Nat)
  | semWait (s : Nat)
  | semTrywait (s : Nat)
  | semPost (s : Nat)
  | kill (thread : T) (sig : Int)
  | cancel (thread : T)
  | create (addr : Option T) (stack : Bool) (attr : Option PthreadAttr)
  | setschedparam (thread : T) (policy : Int) (param : Option SchedParam)
  | yield
  | exit
  | timerCreate (clockid : Int) (evp : Option Int)
  | timerDelete (timerid : Int)
  | timerSettime (timerid : Int) (flags : Word) (value : Option Itimerspec)
  | usleep (usec : Word)
  deriving DecidableEq, Repr

/-- What brings a thread into the kernel: a call of its own or the clock interrupt. -/
inductive Work (T : Type) where
  | call (c : Call T)
  | irq
  deriving DecidableEq, Repr

/-- The clocks at the readings of one step, in turn, and a bound on the rounds
    of update_hwtimer in it. -/
structure Env where
  sched : Duration
  now : Nat → Clocks
  fuel : Nat

inductive Event (T : Type) where
  | start (thread : T) (work : Work T)
  | ret (thread : T) (work : Work T) (v : Int)
  deriving DecidableEq, Repr

structure System (T : Type) where
  kernel : Kernel T
  cont : T → Option (Work T × Point)

inductive Label (T : Type) where
  | enter (work : Work T) (env : Env)
  | resume (env : Env)

inductive Outcome where
  | ret (v : Int)
  | sched (p : Point)
  | next (p : Option Point)
  deriving DecidableEq, Repr

def Outcome.onward : Outcome → Option Point
  | .ret _ => none
  | .sched p => some p
  | .next p => p

def Progress.outcome : Progress → Outcome
  | .ret v => .ret v
  | .sched p => .sched p

def signalOutcome (rounds : Nat) : Option Point → Outcome
  | some p => .sched p
  | none => .next (if rounds = 0 then none else some (.leave rounds))

variable {T : Type} [DecidableEq T] [Fintype T]

def Call.run (env : Env) (k : Kernel T) : Call T → Except Fault (Kernel T × Progress)
  | .mutexLock m => .ok (pthreadMutexLockSys m k)
  | .mutexTrylock m => .ok (pthreadMutexTrylockSys m k)
  | .mutexUnlock m => .ok (pthreadMutexUnlockSys m k)
  | .condSignal c => .ok (pthreadCondSignalSys c k)
  | .condBroadcast c => .ok (pthreadCondBroadcastSys c k)
  | .condWait c m => .ok (pthreadCondWaitSys c m k)
  | .semWait s => .ok (semWaitSys s k)
  | .semTrywait s => .ok (semTrywaitSys s k)
  | .semPost s => .ok (semPostSys s k)
  | .kill t sig => .ok ((pthreadKillSys t sig k).1, .ret (pthreadKillSys t sig k).2)
  | .cancel t => .ok ((pthreadCancelSys t k).1, .ret (pthreadCancelSys t k).2)
  | .create addr stack attr => .ok (pthreadCreateSys addr stack attr k)
  | .setschedparam t policy param => .ok (pthreadSetschedparamSys t policy param k)
  | .yield => .ok (pthreadYieldSys k)
  | .exit => do return (← pthreadExitSys k, .sched .done)
  | .timerCreate clockid evp => do
    let (k, v) ← timerCreateSys clockid evp k
    return (k, .ret v)
  | .timerDelete id => do
    let (k, v) ← timerDeleteSys id k
    return (k, .ret v)
  | .timerSettime id flags value => do
    let (k, v, _) ← timerSettimeSys env.fuel env.now id flags value k
    return (k, .ret v)
  | .usleep usec => do
    let d := (usec * 1000#32).setWidth 64
    return (← sleepFor env.fuel env.now d k, .sched (.slept d))

def Work.run (env : Env) (k : Kernel T) : Work T → Except Fault (Kernel T × Progress)
  | .call c => c.run env k
  | .irq => doIrq env.fuel env.now k

omit [DecidableEq T] [Fintype T] in
/-- How often do_signals runs before the thread is back in user mode. -/
def Work.rounds : Work T → Nat
  | .call _ => 1
  | .irq => 2

def Point.run (env : Env) (k : Kernel T) : Point → Except Fault (Kernel T × Outcome)
  | .done => .ok (k, .ret 0)
  | .lockLoop m => .ok ((pthreadMutexLockSys m k).1, (pthreadMutexLockSys m k).2.outcome)
  | .condUnlocked c m => .ok ((condBlock c m k).1, (condBlock c m k).2.outcome)
  | .condWoken m | .condLock m => .ok ((condRelock m k).1, (condRelock m k).2.outcome)
  | .semWait s => .ok ((semTake s k).1, (semTake s k).2.outcome)
  | .semPost s => .ok ((semGive s k).1, (semGive s k).2.outcome)
  | .slept d => do
    let (k, progress) ← usleepDone (env.now 0) d k
    return (k, progress.outcome)
  | .leave 0 => .ok (k, .next none)
  | .leave (rounds + 1) => do
    let (k, p) ← doSignals rounds k
    return (k, signalOutcome rounds p)
  | .signals oldSigmask signal sigpend rounds => do
    let (k, p) ← signalLoop oldSigmask rounds (32 - signal) signal sigpend k
    return (k, signalOutcome rounds p)

/-- The memory pool hands out free memory only; a thread argument is a handle
    that pthread_create returned; and the idle thread runs its own loop. -/
def Call.Legal (k : Kernel T) (c : Call T) : Bool :=
  (match c with
    | .create (some a) _ _ => !k.live a
    | .kill t _ | .cancel t | .setschedparam t _ _ => k.live t && t != k.idleThread
    | _ => true) &&
  (match c with
    | .create _ _ _ | .yield => true
    | _ => k.currentThread != k.idleThread)

def Work.Legal (k : Kernel T) : Work T → Bool
  | .call c => c.Legal k
  | .irq => true

def System.settle (s : System T) (w : Work T) (env : Env) (k : Kernel T) :
    Outcome → System T × List (Event T)
  | .ret v =>
    (⟨k, Function.update s.cont s.kernel.currentThread (some (w, .leave w.rounds))⟩,
      [.ret s.kernel.currentThread w v])
  | .sched p =>
    (⟨scheduling env.sched k, Function.update s.cont s.kernel.currentThread (some (w, p))⟩, [])
  | .next p =>
    (⟨k, Function.update s.cont s.kernel.currentThread (p.map fun p => (w, p))⟩, [])

/-- Control passes from thread to thread in `scheduling` only, and an interrupt
    finds its thread in user mode; those that come between two statements are
    steps of `IrqSystem.next`, and of `DividedSystem.step` for the join. -/
def System.step (s : System T) : Label T → Option (System T × List (Event T))
  | .enter w env =>
    match s.cont s.kernel.currentThread, w.Legal s.kernel, w.run env s.kernel with
    | none, true, .ok (k, progress) =>
      let (x, es) := s.settle w env k progress.outcome
      some (x, .start s.kernel.currentThread w :: es)
    | _, _, _ => none
  | .resume env =>
    match s.cont s.kernel.currentThread with
    | none => none
    | some (w, p) =>
      match p.run env s.kernel with
      | .ok (k, outcome) => some (s.settle w env k outcome)
      | .error _ => none

abbrev System.exec (s : System T) (ls : List (Label T)) : Option (System T × List (Event T)) :=
  Lts.exec System.step s ls

def spawn (k : Kernel T) (x : T × Int) : Kernel T :=
  activateThread x.1 (changeThreadPrio x.1 x.2 (createPthreadStruct (some x.1) k).1)

def startSystem (idle : T) (threads : List (T × Int)) : System T :=
  ⟨scheduling 0 (threads.foldl spawn (bootKernel idle)), fun _ => none⟩

def stillEnv : Env := ⟨0, fun _ => ⟨0, 0⟩, 1⟩

theorem step_cases {s x : System T} {l : Label T} {es : List (Event T)}
    (taken : s.step l = some (x, es)) :
    (∃ w env k progress, l = .enter w env ∧ s.cont s.kernel.currentThread = none ∧
      w.Legal s.kernel = true ∧ w.run env s.kernel = .ok (k, progress) ∧
      x = (s.settle w env k progress.outcome).1 ∧
      es = .start s.kernel.currentThread w :: (s.settle w env k progress.outcome).2) ∨
    (∃ w p env k outcome, l = .resume env ∧ s.cont s.kernel.currentThread = some (w, p) ∧
      p.run env s.kernel = .ok (k, outcome) ∧
      x = (s.settle w env k outcome).1 ∧ es = (s.settle w env k outcome).2) := by
  unfold System.step at taken
  cases l with
  | enter w env =>
    left
    simp only at taken
    split at taken
    · rename_i k progress idle legal ran
      cases taken
      exact ⟨w, env, k, progress, rfl, idle, legal, ran, rfl, rfl⟩
    · cases taken
  | resume env =>
    right
    simp only at taken
    split at taken
    · cases taken
    · rename_i w p here
      split at taken
      · rename_i k outcome ran
        have eq : s.settle w env k outcome = (x, es) := Option.some.inj taken
        exact ⟨w, p, env, k, outcome, rfl, here, ran, by rw [eq], by rw [eq]⟩
      · cases taken

omit [Fintype T] in
theorem settle_cont {s : System T} {w : Work T} {env : Env} {k : Kernel T} {outcome : Outcome}
    {t : T} {v : Work T} {p : Point} (here : (s.settle w env k outcome).1.cont t = some (v, p)) :
    (t ≠ s.kernel.currentThread ∧ s.cont t = some (v, p)) ∨
    (t = s.kernel.currentThread ∧ v = w ∧
      (outcome.onward = some p ∨ ∃ r, outcome = .ret r ∧ p = .leave w.rounds)) := by
  by_cases self : t = s.kernel.currentThread
  · right
    subst self
    cases outcome with
    | ret r =>
      simp only [System.settle, Function.update_self, Option.some.injEq, Prod.mk.injEq] at here
      exact ⟨rfl, here.1.symm, Or.inr ⟨r, rfl, here.2.symm⟩⟩
    | sched q =>
      simp only [System.settle, Function.update_self, Option.some.injEq, Prod.mk.injEq] at here
      exact ⟨rfl, here.1.symm, Or.inl (by rw [Outcome.onward, here.2])⟩
    | next q =>
      simp only [System.settle, Function.update_self, Option.map_eq_some_iff, Prod.mk.injEq] at here
      obtain ⟨r, eq, same, point⟩ := here
      exact ⟨rfl, same.symm, Or.inl (by rw [Outcome.onward, eq, point])⟩
  · left
    refine ⟨self, ?_⟩
    cases outcome <;> simpa [System.settle, self] using here

omit [Fintype T] in
theorem settle_events {s : System T} {w : Work T} {env : Env} {k : Kernel T} {outcome : Outcome}
    {e : Event T} (member : e ∈ (s.settle w env k outcome).2) :
    ∃ v, outcome = .ret v ∧ e = .ret s.kernel.currentThread w v := by
  cases outcome with
  | ret v => exact ⟨v, rfl, by simpa [System.settle] using member⟩
  | sched p => cases member
  | next p => cases member

end L4ertl
