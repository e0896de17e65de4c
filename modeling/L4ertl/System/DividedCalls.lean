import L4ertl.System.Interrupts
import L4ertl.System.JoinRendezvous

/-!
System calls that interrupts divide. hw_sti precedes dispatch_syscalls and
hw_save_flags_and_cli masks nothing, so do_irq, and scheduling in it, may come
between any two statements of pthread_join_sys, pthread_exit_sys and
pthread_detach_sys, and of the functions of sched.c that they call. Each thread
has a stack of unfinished calls beside its stack of activations of do_irq and of
scheduling.
-/
namespace L4ertl
open Intrusive

inductive SchedStmt (T : Type) where
  | removeSs (thread : T)
  | insertSs (thread : T)
  | insertSsTail (thread : T)
  -- unless it is FINISHED
  | setSuspended (thread : T)
  | setReady (thread : T)
  | setFinished (thread : T)
  | freeKstack (thread : T)
  | setPrio (thread : T) (prio : Int)
  | setParam (thread : T) (param : SchedParam)
  deriving DecidableEq, Repr

/-- The next statement of pthread_join_sys; `cState` is its local variable, and
    `value` what it has stored through value_ptr. -/
inductive JoinPoint where
  -- the two tests of `thread`
  | start
  | look
  | loop (cState : Word)
  | register
  | suspend
  | call
  -- back from scheduling
  | relook
  | reattached (cState : Word)
  | value
  | delete (value : Word)
  | ret (value : Word)
  deriving DecidableEq, Repr

inductive ExitPoint where
  | timer
  | finish
  | value
  | wake
  deriving DecidableEq, Repr

inductive DetachPoint where
  | start
  | wake
  | clear
  deriving DecidableEq, Repr

inductive DeletePoint where
  | finish
  | delete
  deriving DecidableEq, Repr

/-- A call under way. `ops` is what is left of a function of sched.c, `block` any
    other call that puts its thread to sleep, SLEEP_THREAD_handler among them, and
    `leave` the end that calls have in common, scheduling () and the return. -/
inductive Ongoing (T : Type) where
  | ops (rest : List (SchedStmt T))
  | join (thread : T) (at_ : JoinPoint)
  | exit (value : Word) (at_ : ExitPoint)
  | detach (thread : T) (at_ : DetachPoint)
  | deleteNp (thread : T) (at_ : DeletePoint)
  | block
  | leave
  deriving DecidableEq, Repr

/-- `depth` is the number of activations of do_irq and scheduling below the call. -/
structure Frame (T : Type) where
  depth : Nat
  activity : Ongoing T
  deriving DecidableEq, Repr

/-- `freed` are the structures given back to the memory pool; their words stay. -/
structure DividedSystem (T : Type) where
  irq : IrqSystem T
  frames : T → List (Frame T)
  exitValue : T → Word
  freed : T → Bool

inductive DividedLabel (T : Type) where
  -- do_irq and scheduling, and what else handlers and calls do to the kernel
  | irq (l : IrqLabel T)
  -- the next statement of the innermost call
  | next
  | join (thread : T)
  | exit (value : Word)
  | detach (thread : T)
  | deleteNp (thread : T)
  | block
  -- the functions of sched.c as other calls and the handlers use them
  | activate (thread : T)
  | changePrio (thread : T) (prio : Int)
  | setschedparam (thread : T) (param : SchedParam)
  | yield
  | create (addr : T) (attr : Option PthreadAttr)

variable {T : Type} [DecidableEq T]

def SchedStmt.run [Fintype T] (k : Kernel T) : SchedStmt T → Kernel T
  | .removeSs t => { k with activeThreads := L4ertl.removeSs t k.activeThreads }
  | .insertSs t => { k with activeThreads := L4ertl.insertSs t (k.prio t) k.activeThreads }
  | .insertSsTail t => { k with activeThreads := L4ertl.insertSsTail t (k.prio t) k.activeThreads }
  | .setSuspended t => if k.state t ≠ finishedThread then setState t suspendedThread k else k
  | .setReady t => setState t readyThread k
  | .setFinished t => setState t finishedThread k
  | .freeKstack t => L4ertl.freeKstack t k
  | .setPrio t p =>
    { k with schedParam := Function.update k.schedParam t { k.schedParam t with schedPriority := p } }
  | .setParam t param => { k with schedParam := Function.update k.schedParam t param }

def runStmts [Fintype T] (k : Kernel T) (stmts : List (SchedStmt T)) : Kernel T :=
  stmts.foldl SchedStmt.run k

section
omit [DecidableEq T]

def suspendStmts (t : T) : List (SchedStmt T) := [.removeSs t, .setSuspended t]

/-- The test of activate_thread has been made in `k`. -/
def activateStmts (t : T) (k : Kernel T) : List (SchedStmt T) :=
  if k.state t ≠ finishedThread ∧ k.state t ≠ readyThread then [.insertSs t, .setReady t] else []

def finishStmts (t : T) : List (SchedStmt T) := [.removeSs t, .freeKstack t, .setFinished t]

/-- `prev_state` has been read in `k`. -/
def changePrioStmts (t : T) (p : Int) (k : Kernel T) : List (SchedStmt T) :=
  [.removeSs t, .setPrio t p] ++ if k.state t = readyThread then [.insertSs t] else []

/-- pthread_setschedparam_sys from its assignment to sched_param on. -/
def setschedparamStmts (t : T) (param : SchedParam) (k : Kernel T) : List (SchedStmt T) :=
  .setParam t param :: changePrioStmts t param.schedPriority k

def yieldStmts (t : T) : List (SchedStmt T) := [.removeSs t, .insertSsTail t]

end

section
variable [Fintype T]

theorem suspendStmts_run (t : T) (k : Kernel T) : runStmts k (suspendStmts t) = suspendThread t k := rfl

theorem activateStmts_run (t : T) (k : Kernel T) :
    runStmts k (activateStmts t k) = activateThread t k := by
  unfold activateStmts activateThread
  split
  · rfl
  · rfl

theorem finishStmts_run (t : T) (k : Kernel T) : runStmts k (finishStmts t) = finishThread t k := rfl

theorem changePrioStmts_run (t : T) (p : Int) (k : Kernel T) :
    runStmts k (changePrioStmts t p k) = changeThreadPrio t p k := by
  unfold changePrioStmts changeThreadPrio
  by_cases ready : k.state t = readyThread
  · simp only [ready, ↓reduceIte]
    rfl
  · simp only [ready, ↓reduceIte]
    rfl

theorem setschedparamStmts_run (t : T) (param : SchedParam) (k : Kernel T) :
    runStmts k (setschedparamStmts t param k) =
      changeThreadPrio t param.schedPriority
        { k with schedParam := Function.update k.schedParam t param } :=
  changePrioStmts_run t param.schedPriority { k with schedParam := Function.update k.schedParam t param }

theorem yieldStmts_run (k : Kernel T) : runStmts k (yieldStmts k.currentThread) = yieldThread k := rfl

end

/-- The rest of the kernel writes neither the ready structure nor what threads have
    to do with each other, and of the flags only those above the first four. -/
def elsewhere (code : Kernel T → Kernel T) (k : Kernel T) : Kernel T :=
  { code k with
    live := k.live
    threadFlags := fun t => (k.threadFlags t &&& 0xf#32) ||| ((code k).threadFlags t &&& ~~~0xf#32)
    schedParam := k.schedParam
    magicNumber := k.magicNumber
    kentrySp := k.kentrySp
    joiningThread := k.joiningThread
    activeThreads := k.activeThreads
    currentThread := k.currentThread
    idleThread := k.idleThread
    irqNestingCounter := k.irqNestingCounter
    kstackFlag := k.kstackFlag }

abbrev DividedSystem.kernel (s : DividedSystem T) : Kernel T := s.irq.kernel

def DividedSystem.here (s : DividedSystem T) : List (Frame T) := s.frames s.kernel.currentThread

/-- The innermost call goes on, with no interrupt or scheduling above it. -/
def DividedSystem.active (s : DividedSystem T) : Bool :=
  match s.here with
  | f :: _ => f.depth = s.irq.here.length
  | [] => false

def DividedSystem.calls (s : DividedSystem T) : Bool := s.here.isEmpty && s.irq.here.isEmpty

/-- do_signals may run a handler: at the end of a system call or of do_irq. -/
def DividedSystem.signals (s : DividedSystem T) : Bool :=
  match s.irq.here with
  | f :: _ => !s.active && f.phase == .signals
  | [] => s.calls

def DividedSystem.handle (s : DividedSystem T) (t : T) : Bool :=
  s.kernel.live t && !s.freed t && t != s.kernel.idleThread

def DividedSystem.setHere (fs : List (Frame T)) (s : DividedSystem T) : DividedSystem T :=
  { s with frames := Function.update s.frames s.kernel.currentThread fs }

def DividedSystem.setKernel (k : Kernel T) (s : DividedSystem T) : DividedSystem T :=
  { s with irq := { s.irq with kernel := k } }

def DividedSystem.operate (ops : List (SchedStmt T)) (depth : Nat) (fs : List (Frame T))
    (s : DividedSystem T) : DividedSystem T :=
  s.setHere (if ops = [] then fs else ⟨depth, .ops ops⟩ :: fs)

def DividedSystem.schedule (fs : List (Frame T)) (s : DividedSystem T) : Option (DividedSystem T) :=
  (s.irq.next .call).map fun w =>
    { s with irq := w, frames := Function.update s.frames s.kernel.currentThread fs }

/-- delete_pthread_struct. What happens to a structure that has been given back
    before, or is in use again, is not known. -/
def DividedSystem.reap (t : T) (s : DividedSystem T) : Option (DividedSystem T) :=
  if !s.freed t && s.kernel.state t == finishedThread then
    some { s.setKernel (s.kernel.keepWords (deletePthreadStruct t s.kernel)) with
      freed := Function.update s.freed t true }
  else none

def DividedSystem.fails (e : Int) (fs : List (Frame T)) (s : DividedSystem T) : DividedSystem T :=
  (s.setKernel (setErrno e s.kernel)).setHere fs

/-- pthread_join_sys, called with a value_ptr that is not NULL; `d` is its depth
    and `fs` are the calls below it. -/
def DividedSystem.joinNext (s : DividedSystem T) (d : Nat) (fs : List (Frame T)) (t : T) :
    JoinPoint → Option (DividedSystem T × List (JoinEvent T))
  | .start =>
    if s.kernel.magicNumber t ≠ pthreadMagicNumber then some (s.fails esrch fs, [])
    else if getThreadDetachState (s.kernel.threadFlags t) ≠ 0#32 then some (s.fails einval fs, [])
    else some (s.setHere (⟨d, .join t .look⟩ :: fs), [])
  | .look => some (s.setHere (⟨d, .join t (.loop (s.kernel.state t))⟩ :: fs), [])
  | .loop cState =>
    some (s.setHere (⟨d, .join t (if cState ≠ finishedThread then .register else .value)⟩ :: fs), [])
  | .register =>
    some ((s.setKernel (setJoining t (some s.kernel.currentThread) s.kernel)).setHere
      (⟨d, .join t .suspend⟩ :: fs), [])
  | .suspend =>
    some (s.operate (suspendStmts s.kernel.currentThread) d (⟨d, .join t .call⟩ :: fs), [])
  | .call => (s.schedule (⟨d, .join t .relook⟩ :: fs)).map fun w => (w, [])
  | .relook => some (s.setHere (⟨d, .join t (.reattached (s.kernel.state t))⟩ :: fs), [])
  | .reattached cState =>
    if getThreadDetachState (s.kernel.threadFlags t) ≠ 0#32 then some (s.fails einval fs, [])
    else some (s.setHere (⟨d, .join t (.loop cState)⟩ :: fs), [])
  | .value => some (s.setHere (⟨d, .join t (.delete (s.exitValue t))⟩ :: fs), [])
  | .delete value =>
    (s.reap t).map fun w => (w.setHere (⟨d, .join t (.ret value)⟩ :: fs), [.deleted t])
  | .ret value => some (s.setHere fs, [.joined s.kernel.currentThread t value])

/-- pthread_exit_sys. The cleanup loop, whose CALL_CANCEL_HANDLER is empty, and
    mainapp_thread, which is assigned nowhere, are left out. -/
def DividedSystem.exitNext (s : DividedSystem T) (d : Nat) (fs : List (Frame T)) (value : Word) :
    ExitPoint → Option (DividedSystem T × List (JoinEvent T))
  | .timer =>
    match freeKtimer (s.kernel.sleepKtimer s.kernel.currentThread) s.kernel with
    | .ok k => some ((s.setKernel k).setHere (⟨d, .exit value .finish⟩ :: fs), [])
    | .error _ => none
  | .finish =>
    some (s.operate (finishStmts s.kernel.currentThread) d (⟨d, .exit value .value⟩ :: fs), [])
  | .value =>
    some ({ s.setHere (⟨d, .exit value .wake⟩ :: fs) with
      exitValue := Function.update s.exitValue s.kernel.currentThread value },
      [.exited s.kernel.currentThread value])
  | .wake =>
    match s.kernel.joiningThread s.kernel.currentThread with
    | some joiner =>
      if getThreadDetachState (s.kernel.threadFlags s.kernel.currentThread) = 0#32 then
        some (s.operate (activateStmts joiner s.kernel) d (⟨d, .leave⟩ :: fs), [])
      else some (s.setHere (⟨d, .leave⟩ :: fs), [])
    | none => some (s.setHere (⟨d, .leave⟩ :: fs), [])

/-- pthread_detach_sys: it is the joiner of the caller that is woken and forgotten. -/
def DividedSystem.detachNext (s : DividedSystem T) (d : Nat) (fs : List (Frame T)) (t : T) :
    DetachPoint → Option (DividedSystem T × List (JoinEvent T))
  | .start =>
    if s.kernel.magicNumber t ≠ pthreadMagicNumber then some (s.fails esrch fs, [])
    else if getThreadDetachState (s.kernel.threadFlags t) ≠ 0#32 then some (s.fails einval fs, [])
    else
      some ((s.setKernel (setFlags t (setThreadDetachState (s.kernel.threadFlags t) true) s.kernel)).setHere
        (⟨d, .detach t .wake⟩ :: fs), [])
  | .wake =>
    match s.kernel.joiningThread s.kernel.currentThread with
    | some joiner => some (s.operate (activateStmts joiner s.kernel) d (⟨d, .detach t .clear⟩ :: fs), [])
    | none => none
  | .clear =>
    some ((s.setKernel (setJoining s.kernel.currentThread none s.kernel)).setHere (⟨d, .leave⟩ :: fs), [])

/-- pthread_delete_np_sys, past the cancel flags. -/
def DividedSystem.deleteNext (s : DividedSystem T) (d : Nat) (fs : List (Frame T)) (t : T) :
    DeletePoint → Option (DividedSystem T × List (JoinEvent T))
  | .finish => some (s.operate (finishStmts t) d (⟨d, .deleteNp t .delete⟩ :: fs), [])
  | .delete => (s.reap t).map fun w => (w.setHere (⟨d, .leave⟩ :: fs), [.deleted t])

def DividedSystem.activityNext [Fintype T] (s : DividedSystem T) (d : Nat) (fs : List (Frame T)) :
    Ongoing T → Option (DividedSystem T × List (JoinEvent T))
  | .ops [] => some (s.setHere fs, [])
  | .ops (stmt :: rest) => some ((s.setKernel (stmt.run s.kernel)).operate rest d fs, [])
  | .join t p => s.joinNext d fs t p
  | .exit value p => s.exitNext d fs value p
  | .detach t p => s.detachNext d fs t p
  | .deleteNp t p => s.deleteNext d fs t p
  | .block => some (s.operate (suspendStmts s.kernel.currentThread) d (⟨d, .leave⟩ :: fs), [])
  | .leave => (s.schedule fs).map fun w => (w, [])

/-- What an interrupt or other code may do where the running thread stands. -/
def DividedSystem.irqLabel (s : DividedSystem T) : IrqLabel T → Option (IrqLabel T)
  | .enter => some .enter
  | .work code => if s.active then none else some (.work (elsewhere code))
  | l => if s.active then none else some l

def DividedSystem.begin_ (s : DividedSystem T) (a : Ongoing T) : DividedSystem T :=
  s.setHere (⟨s.irq.here.length, a⟩ :: s.here)

def DividedSystem.operation (s : DividedSystem T) (ops : List (SchedStmt T)) : DividedSystem T :=
  s.operate ops s.irq.here.length s.here

/-- The structure at `a` is made and filled in; what was known of the thread that
    had it before is gone. -/
def DividedSystem.created (s : DividedSystem T) (a : T) (attr : Option PthreadAttr) : DividedSystem T :=
  { s.setKernel (configureThread a attr (createPthreadStruct (some a) s.kernel).1) with
    frames := Function.update s.frames a []
    exitValue := Function.update s.exitValue a 0#32
    freed := Function.update s.freed a false }

/-- Whatever is under way goes on by `next`; calls begin in user mode, and
    CANCEL_THREAD_handler and SLEEP_THREAD_handler also in do_signals. The idle thread
    runs its own loop. -/
def DividedSystem.step [Fintype T] (s : DividedSystem T) :
    DividedLabel T → Option (DividedSystem T × List (JoinEvent T))
  | .irq l => ((s.irqLabel l).bind s.irq.next).map fun w => ({ s with irq := w }, [])
  | .next =>
    match s.here with
    | f :: fs => if s.active then s.activityNext f.depth fs f.activity else none
    | [] => none
  | .join t =>
    if s.calls && s.handle t && s.kernel.currentThread != s.kernel.idleThread then
      some (s.begin_ (.join t .start), [])
    else none
  | .exit value =>
    if (s.calls || s.signals && value == 0#32) && s.kernel.currentThread != s.kernel.idleThread then
      some (s.begin_ (.exit value .timer), [])
    else none
  | .detach t =>
    if s.calls && s.handle t && s.kernel.currentThread != s.kernel.idleThread then
      some (s.begin_ (.detach t .start), [])
    else none
  | .deleteNp t =>
    if s.calls && s.handle t && s.kernel.currentThread != s.kernel.idleThread then
      some (s.begin_ (.deleteNp t .finish), [])
    else none
  | .block =>
    if s.signals && s.kernel.currentThread != s.kernel.idleThread then some (s.begin_ .block, []) else none
  | .activate t =>
    if !s.active && mayCall s.irq.here && s.kernel.live t then
      some (s.operation (activateStmts t s.kernel), [])
    else none
  | .changePrio t p =>
    if s.calls && s.kernel.live t then some (s.operation (changePrioStmts t p s.kernel), []) else none
  | .setschedparam t param =>
    if s.calls && s.kernel.live t then some (s.operation (setschedparamStmts t param s.kernel), [])
    else none
  | .yield => if s.calls then some (s.operation (yieldStmts s.kernel.currentThread), []) else none
  | .create a attr =>
    if s.calls && (s.freed a || !s.kernel.live a) then some (s.created a attr, []) else none

/-- The steps there are, each with its guard. -/
inductive DividedMove [Fintype T] (s : DividedSystem T) :
    DividedLabel T → DividedSystem T → List (JoinEvent T) → Prop where
  | irq {l m : IrqLabel T} {q : IrqSystem T} (label : s.irqLabel l = some m) (next : s.irq.next m = some q) :
      DividedMove s (.irq l) { s with irq := q } []
  | next {d : Nat} {a : Ongoing T} {fs : List (Frame T)} {w : DividedSystem T} {es : List (JoinEvent T)}
      (here : s.here = ⟨d, a⟩ :: fs) (active : s.active = true)
      (taken : s.activityNext d fs a = some (w, es)) : DividedMove s .next w es
  | join (t : T) (calls : s.calls = true) (handle : s.handle t = true)
      (busy : s.kernel.currentThread ≠ s.kernel.idleThread) :
      DividedMove s (.join t) (s.begin_ (.join t .start)) []
  | exit (value : Word) (user : (s.calls || s.signals && value == 0#32) = true)
      (busy : s.kernel.currentThread ≠ s.kernel.idleThread) :
      DividedMove s (.exit value) (s.begin_ (.exit value .timer)) []
  | detach (t : T) (calls : s.calls = true) (handle : s.handle t = true)
      (busy : s.kernel.currentThread ≠ s.kernel.idleThread) :
      DividedMove s (.detach t) (s.begin_ (.detach t .start)) []
  | deleteNp (t : T) (calls : s.calls = true) (handle : s.handle t = true)
      (busy : s.kernel.currentThread ≠ s.kernel.idleThread) :
      DividedMove s (.deleteNp t) (s.begin_ (.deleteNp t .finish)) []
  | block (signals : s.signals = true) (busy : s.kernel.currentThread ≠ s.kernel.idleThread) :
      DividedMove s .block (s.begin_ .block) []
  | activate (t : T) (within : (!s.active && mayCall s.irq.here) = true) (alive : s.kernel.live t = true) :
      DividedMove s (.activate t) (s.operation (activateStmts t s.kernel)) []
  | changePrio (t : T) (p : Int) (calls : s.calls = true) (alive : s.kernel.live t = true) :
      DividedMove s (.changePrio t p) (s.operation (changePrioStmts t p s.kernel)) []
  | setschedparam (t : T) (param : SchedParam) (calls : s.calls = true) (alive : s.kernel.live t = true) :
      DividedMove s (.setschedparam t param) (s.operation (setschedparamStmts t param s.kernel)) []
  | yield (calls : s.calls = true) :
      DividedMove s .yield (s.operation (yieldStmts s.kernel.currentThread)) []
  | create (a : T) (attr : Option PthreadAttr) (calls : s.calls = true)
      (unused : (s.freed a || !s.kernel.live a) = true) : DividedMove s (.create a attr) (s.created a attr) []

theorem DividedSystem.step_move [Fintype T] {s w : DividedSystem T} {l : DividedLabel T}
    {es : List (JoinEvent T)} (taken : s.step l = some (w, es)) : DividedMove s l w es := by
  have allowed : ∀ {c : Bool} {x : DividedSystem T},
      (if c = true then some (x, ([] : List (JoinEvent T))) else none) = some (w, es) →
        c = true ∧ x = w ∧ es = [] := by
    intro c x taken
    split at taken
    · rename_i may
      cases taken
      exact ⟨may, rfl, rfl⟩
    · cases taken
  cases l with
  | irq l =>
    simp only [DividedSystem.step, Option.map_eq_some_iff, Option.bind_eq_some_iff] at taken
    obtain ⟨q, ⟨m, label, next⟩, same⟩ := taken
    cases same
    exact .irq label next
  | next =>
    simp only [DividedSystem.step] at taken
    split at taken
    · rename_i here
      split at taken
      · rename_i active
        exact .next here active taken
      · cases taken
    · cases taken
  | join t =>
    obtain ⟨may, rfl, rfl⟩ := allowed taken
    simp only [Bool.and_eq_true, bne_iff_ne] at may
    exact .join t may.1.1 may.1.2 may.2
  | exit value =>
    obtain ⟨may, rfl, rfl⟩ := allowed taken
    rw [Bool.and_eq_true, bne_iff_ne] at may
    exact .exit value may.1 may.2
  | detach t =>
    obtain ⟨may, rfl, rfl⟩ := allowed taken
    simp only [Bool.and_eq_true, bne_iff_ne] at may
    exact .detach t may.1.1 may.1.2 may.2
  | deleteNp t =>
    obtain ⟨may, rfl, rfl⟩ := allowed taken
    simp only [Bool.and_eq_true, bne_iff_ne] at may
    exact .deleteNp t may.1.1 may.1.2 may.2
  | block =>
    obtain ⟨may, rfl, rfl⟩ := allowed taken
    simp only [Bool.and_eq_true, bne_iff_ne] at may
    exact .block may.1 may.2
  | activate t =>
    obtain ⟨may, rfl, rfl⟩ := allowed taken
    rw [Bool.and_eq_true] at may
    exact .activate t may.1 may.2
  | changePrio t p =>
    obtain ⟨may, rfl, rfl⟩ := allowed taken
    rw [Bool.and_eq_true] at may
    exact .changePrio t p may.1 may.2
  | setschedparam t param =>
    obtain ⟨may, rfl, rfl⟩ := allowed taken
    rw [Bool.and_eq_true] at may
    exact .setschedparam t param may.1 may.2
  | yield =>
    obtain ⟨may, rfl, rfl⟩ := allowed taken
    exact .yield may
  | create a attr =>
    obtain ⟨may, rfl, rfl⟩ := allowed taken
    rw [Bool.and_eq_true] at may
    exact .create a attr may.1 may.2

def DividedSystem.start (idle : T) (threads : List (T × Int)) : DividedSystem T :=
  ⟨.start (startSystem idle threads).kernel, fun _ => [], fun _ => 0#32, fun _ => false⟩

end L4ertl
