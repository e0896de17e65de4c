import Mathlib.Data.Fintype.Card
import L4ertl.Core.SchedStruct
import L4ertl.Core.PthreadList
import L4ertl.Core.TimerTable

/-!
The kernel state and the scheduler proper (sched.c, pthread.h). A pthread_t is
an element of a finite type `T` of addresses at which thread structures can
live; the fields of struct pthread_struct are maps from the thread, so that
`k.sigmask t` reads `t -> sigmask`. Kernel objects (mutexes, condition
variables, semaphores) are named by numbers, never NULL.

Only the fields that a modelled function reads or writes are kept.
-/
namespace L4ertl
open Intrusive

def readyThread : Word := 0x0#32
def suspendedThread : Word := 0x1#32
def finishedThread : Word := 0x2#32

def getThreadState (flags : Word) : Word := flags &&& 0x7#32

def setThreadState (flags state : Word) : Word := (flags &&& ~~~0x7#32) ||| (state &&& 0x7#32)

def getThreadDetachState (flags : Word) : Word := flags &&& 0x8#32

def setThreadDetachState (flags : Word) (state : Bool) : Word :=
  if state then flags ||| 0x8#32 else flags &&& ~~~0x8#32

def getThreadCancelState (flags : Word) : Word := flags &&& 0x10#32

def setThreadPolicy (flags policy : Word) : Word :=
  (flags &&& ~~~0x3c0#32) ||| ((policy &&& 0xf#32) <<< 6)

def getThreadActivateOnSignal (flags : Word) : Word := flags &&& 0x400#32

def otherFlags (flags : Word) : Word := flags &&& ~~~0x7#32

def pthreadMagicNumber : Word := 0xA5A55A5A#32

def idleSchedPriority : Int := 1023
def minSchedPriority : Int := 1022
def maxSchedPriority : Int := 0

def eperm : Int := 1
def esrch : Int := 3
def eintr : Int := 4
def eagain : Int := 11
def efault : Int := 14
def ebusy : Int := 16
def einval : Int := 22
def erange : Int := 34
def edeadlk : Int := 35

structure SchedParam where
  policy : Int
  schedPriority : Int
  deadline : Duration
  period : Duration
  deriving DecidableEq, Repr

inductive MutexType where
  | normal
  | recursive
  | errorcheck
  deriving DecidableEq, Repr

inductive PrioProtection where
  | none
  | protect
  deriving DecidableEq, Repr

structure MutexAttr where
  prioProtection : PrioProtection
  prio : Int
  type : MutexType
  ownerPrio : Int
  deriving DecidableEq, Repr

structure Mutex (T : Type) where
  counter : Int
  attr : MutexAttr
  owner : Option T
  mutexList : Option T
  deriving DecidableEq, Repr

structure Sem (T : Type) where
  value : Int
  semList : Option T
  deriving DecidableEq, Repr

structure Kernel (T : Type) where
  -- one struct pthread_struct for each allocated address
  live : T → Bool
  threadFlags : T → Word
  schedParam : T → SchedParam
  magicNumber : T → Word
  errno : T → Int
  sleepKtimer : T → Int
  usedTime : T → Duration
  startingTime : T → Duration
  sigpending : T → Word
  sigmask : T → Word
  kentrySp : T → Option Nat
  joiningThread : T → Option T
  threadNode : Links T
  mutexNode : Links T
  condNode : Links T
  semNode : Links T
  -- globals of the kernel
  activeThreads : ActiveThreads T
  threadList : Option T
  currentThread : T
  idleThread : T
  irqNestingCounter : Word
  kstackFlag : Word
  timerArray : Nat → Ktimer T
  timerHeap : TimerHeap
  -- the hardware timer: its limits, and the interval programmed last
  minInterval : Duration
  maxInterval : Duration
  hwtimer : Duration
  -- objects in application memory
  mutex : Nat → Mutex T
  cond : Nat → Option T
  sem : Nat → Sem T

variable {T : Type} [DecidableEq T]

def Kernel.state (k : Kernel T) (t : T) : Word := getThreadState (k.threadFlags t)
def Kernel.prio (k : Kernel T) (t : T) : Int := (k.schedParam t).schedPriority

def setErrno (e : Int) (k : Kernel T) : Kernel T :=
  { k with errno := Function.update k.errno k.currentThread e }

def setState (t : T) (state : Word) (k : Kernel T) : Kernel T :=
  { k with threadFlags := Function.update k.threadFlags t (setThreadState (k.threadFlags t) state) }

def changeThreadPrio (thread : T) (prio : Int) (k : Kernel T) : Kernel T :=
  let prevState := k.state thread
  let k := { k with
    activeThreads := removeSs thread k.activeThreads
    schedParam := Function.update k.schedParam thread { k.schedParam thread with schedPriority := prio } }
  if prevState = readyThread then
    { k with activeThreads := insertSs thread (k.prio thread) k.activeThreads }
  else k

def suspendThread (thread : T) (k : Kernel T) : Kernel T :=
  let k := { k with activeThreads := removeSs thread k.activeThreads }
  if k.state thread ≠ finishedThread then setState thread suspendedThread k else k

def activateThread (thread : T) (k : Kernel T) : Kernel T :=
  if k.state thread ≠ finishedThread ∧ k.state thread ≠ readyThread then
    setState thread readyThread
      { k with activeThreads := insertSs thread (k.prio thread) k.activeThreads }
  else k

/-- Kernel stack `i` is named by its number; 0 in the source is `none`. -/
def freeKstack (thread : T) (k : Kernel T) : Kernel T :=
  match k.kentrySp thread with
  | some i => { k with kstackFlag := clearbit k.kstackFlag i }
  | none => k

/-- Past the 32 stacks the source prints an error and goes on with number 32,
    whose bit does not exist. -/
def allocKstack (thread : T) (k : Kernel T) : Kernel T :=
  let i := ((List.range 32).find? (fun i => !isbitset k.kstackFlag i)).getD 32
  { k with
    kentrySp := Function.update k.kentrySp thread (some i)
    kstackFlag := setbit k.kstackFlag i }

def finishThread (thread : T) (k : Kernel T) : Kernel T :=
  let k := { k with activeThreads := removeSs thread k.activeThreads }
  let k := freeKstack thread k
  setState thread finishedThread k

/-- `addr` is what malloc_ex returns. The sleep timer is taken before the thread
    is linked; with no timer left it is the entry before the array. -/
def createPthreadStruct (addr : Option T) (k : Kernel T) : Kernel T × Option T :=
  match addr with
  | none => (k, none)
  | some t =>
    let (timers, id) := allocKtimer .monotonic t .wakeup k.timerArray
    let (nodes, head) := insertPthreadList (Function.update k.threadNode t detached) k.threadList t
    ({ k with
      live := Function.update k.live t true
      threadFlags := Function.update k.threadFlags t (setThreadState 0#32 suspendedThread)
      schedParam := Function.update k.schedParam t ⟨0, 0, 0, 0⟩
      magicNumber := Function.update k.magicNumber t pthreadMagicNumber
      errno := Function.update k.errno t 0
      sleepKtimer := Function.update k.sleepKtimer t id
      usedTime := Function.update k.usedTime t 0
      startingTime := Function.update k.startingTime t 0
      sigpending := Function.update k.sigpending t 0#32
      sigmask := Function.update k.sigmask t (k.sigmask k.currentThread)
      kentrySp := Function.update k.kentrySp t none
      joiningThread := Function.update k.joiningThread t none
      threadNode := nodes
      mutexNode := Function.update k.mutexNode t detached
      condNode := Function.update k.condNode t detached
      semNode := Function.update k.semNode t detached
      activeThreads := zeroSs t k.activeThreads
      threadList := head
      timerArray := timers }, some t)

def deletePthreadStruct (thread : T) (k : Kernel T) : Kernel T :=
  let k := { k with activeThreads := removeSs thread k.activeThreads }
  let (nodes, head) := removePthreadList k.threadNode k.threadList thread
  { k with
    threadNode := nodes
    threadList := head
    live := Function.update k.live thread false }

def outsideIrqs : Word := 0x7fffffff#32
def schedPending : Word := 0x80000000#32

/-- A thread without a kernel stack starts in user mode; any other one comes
    back from its own call of context_switch_to and finishes `scheduling`. -/
def contextSwitchTo (now : Duration) (new : T) (k : Kernel T) : Kernel T :=
  match k.kentrySp new with
  | none => allocKstack new { k with currentThread := new }
  | some _ =>
    { k with
      currentThread := new
      startingTime := Function.update k.startingTime new now
      irqNestingCounter := 0#32 }

/-- `now` is the monotonic clock. Inside an interrupt the call is only recorded. -/
def scheduling (now : Duration) (k : Kernel T) : Kernel T :=
  if k.irqNestingCounter &&& outsideIrqs ≠ 0#32 then
    { k with irqNestingCounter := k.irqNestingCounter ||| schedPending }
  else
    let new := (getHeadSs k.activeThreads).1.getD k.idleThread
    if new ≠ k.currentThread then
      let old := k.currentThread
      contextSwitchTo now new { k with
        usedTime := Function.update k.usedTime old (k.usedTime old + (now - k.startingTime old)) }
    else { k with irqNestingCounter := 0#32 }

def yieldThread [Fintype T] (k : Kernel T) : Kernel T :=
  let t := k.currentThread
  { k with activeThreads := insertSsTail t (k.prio t) (removeSs t k.activeThreads) }

/-- The static data as the loader leaves it, all zero, and init_sched run on it. -/
def bootKernel (idle : T) : Kernel T where
  live := fun _ => false
  threadFlags := fun _ => 0#32
  schedParam := fun _ => ⟨0, 0, 0, 0⟩
  magicNumber := fun _ => 0#32
  errno := fun _ => 0
  sleepKtimer := fun _ => 0
  usedTime := fun _ => 0
  startingTime := fun _ => 0
  sigpending := fun _ => 0#32
  sigmask := fun _ => 0#32
  kentrySp := fun _ => none
  joiningThread := fun _ => none
  threadNode := fun _ => detached
  mutexNode := fun _ => detached
  condNode := fun _ => detached
  semNode := fun _ => detached
  activeThreads := initSs zeroedThreads
  threadList := none
  currentThread := idle
  idleThread := idle
  irqNestingCounter := 0#32
  kstackFlag := 0#32
  timerArray := fun _ => Ktimer.zero
  timerHeap := heapInit
  minInterval := 26
  maxInterval := 111848106640
  hwtimer := 0
  mutex := fun _ => ⟨0, ⟨.none, 0, .normal, 0⟩, none, none⟩
  cond := fun _ => none
  sem := fun _ => ⟨0, none⟩

/-- Systems of two and of three threads, whose threads the concrete runs name by numerals. -/
instance (priority := high) twoThreadsNonempty : NeZero 2 := ⟨by decide⟩

instance (priority := high) threeThreadsNonempty : NeZero 3 := ⟨by decide⟩

end L4ertl
