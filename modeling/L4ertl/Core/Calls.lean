import L4ertl.Core.Sync

/-!
The remaining system calls: creating and ending threads, scheduling parameters,
timers and sleeping, and the delivery of signals on the way back to user mode
with the handlers that init_signals installs.
-/
namespace L4ertl
open Intrusive
variable {T : Type} [DecidableEq T]

def schedFifo : Int := 0

/-- `stackAddr` says whether the application brings its own stack. -/
structure PthreadAttr where
  policy : Int
  schedParam : SchedParam
  detachstate : Bool
  stackAddr : Bool
  deriving DecidableEq, Repr

def PthreadAttr.accepted (attr : PthreadAttr) : Bool :=
  attr.policy = schedFifo && decide (attr.schedParam.schedPriority ≤ minSchedPriority) &&
    decide (maxSchedPriority ≤ attr.schedParam.schedPriority)

def configureThread (thread : T) (attr : Option PthreadAttr) (k : Kernel T) : Kernel T :=
  let flags := k.threadFlags thread
  match attr with
  | some a =>
    { k with
      schedParam := Function.update k.schedParam thread a.schedParam
      threadFlags := Function.update k.threadFlags thread
        (setThreadPolicy (setThreadDetachState flags a.detachstate) (BitVec.ofInt 32 a.policy)) }
  | none =>
    { k with
      schedParam := Function.update k.schedParam thread
        { k.schedParam thread with schedPriority := minSchedPriority }
      threadFlags := Function.update k.threadFlags thread
        (setThreadPolicy (setThreadDetachState flags false) (BitVec.ofInt 32 schedFifo)) }

/-- `addr` and `stack` are what the memory pool has for the structure and for
    the stack, which is only asked for when the attributes bring none. -/
def pthreadCreateSys (addr : Option T) (stack : Bool) (attr : Option PthreadAttr) (k : Kernel T) :
    Kernel T × Progress :=
  if (attr.map PthreadAttr.accepted).getD true = false then (setErrno einval k, .ret (-1))
  else
    match createPthreadStruct addr k with
    | (k, none) => (setErrno eagain k, .ret (-1))
    | (k, some thread) =>
      let k := configureThread thread attr k
      if (attr.map PthreadAttr.stackAddr).getD false = false ∧ stack = false then
        (setErrno eagain k, .ret (-1))
      else (activateThread thread k, .sched .done)

def pthreadSetschedparamSys (thread : T) (policy : Int) (param : Option SchedParam) (k : Kernel T) :
    Kernel T × Progress :=
  if k.magicNumber thread ≠ pthreadMagicNumber then (setErrno esrch k, .ret (-1))
  else
    let k := { k with
      threadFlags := Function.update k.threadFlags thread
        (setThreadPolicy (k.threadFlags thread) (BitVec.ofInt 32 policy)) }
    match param with
    | none => (setErrno einval k, .ret (-1))
    | some p =>
      let k := { k with schedParam := Function.update k.schedParam thread p }
      (changeThreadPrio thread p.schedPriority k, .sched .done)

def pthreadYieldSys [Fintype T] (k : Kernel T) : Kernel T × Progress := (yieldThread k, .sched .done)

/-- No cleanup handler is ever pushed by the calls modelled here, and the
    kernel's mainapp_thread is never assigned. -/
def pthreadExitSys (k : Kernel T) : Except Fault (Kernel T) := do
  let t := k.currentThread
  let k ← freeKtimer (k.sleepKtimer t) k
  let k := finishThread t k
  match k.joiningThread t with
  | some joiner =>
    return if getThreadDetachState (k.threadFlags t) = 0#32 then activateThread joiner k else k
  | none => return k

structure Timespec where
  tvSec : Word
  tvNsec : Word
  deriving DecidableEq, Repr

structure Itimerspec where
  itInterval : Timespec
  itValue : Timespec
  deriving DecidableEq, Repr

def nsecsPerSec : Duration := 1000000000

def Timespec.nsecs (x : Timespec) : Duration :=
  x.tvSec.signExtend 64 * nsecsPerSec + x.tvNsec.signExtend 64

def timespecOf (d : Duration) : Timespec :=
  ⟨(d / nsecsPerSec).setWidth 32, (d % nsecsPerSec).setWidth 32⟩

def sigalarm : Int := 8

def clockOf (clockid : Int) : Option Clockid :=
  if clockid = 0 then some .realtime
  else if clockid = 1 then some .monotonic
  else if clockid = 2 then some .threadCputime
  else none

/-- The signal number of `evp` when it is given. With no timer left the index is
    -1, which the source takes for a valid one. -/
def timerCreateSys (clockid : Int) (evp : Option Int) (k : Kernel T) :
    Except Fault (Kernel T × Int) := do
  match clockOf clockid with
  | none => return (setErrno einval k, -1)
  | some clock =>
    let (timers, id) := allocKtimer clock k.currentThread .kill k.timerArray
    let k := { k with timerArray := timers }
    if (maxTimers : Int) ≤ id then return (setErrno eagain k, -1)
    else
      let i ← timerAt id
      return (setTimer i { k.timerArray i with signo := evp.getD sigalarm } k, 0)

def timerUnused (timerid : Int) (k : Kernel T) : Except Fault Bool := do
  if (maxTimers : Int) ≤ timerid then return true
  else
    let i ← timerAt timerid
    return decide (((k.timerArray i).flags &&& timerInUse) = 0#32)

def timerDeleteSys (timerid : Int) (k : Kernel T) : Except Fault (Kernel T × Int) := do
  if ← timerUnused timerid k then return (setErrno eagain k, -1)
  else
    let k ← freeKtimer timerid k
    return (k, 0)

def setAbstime (i : Nat) (flags : Word) (k : Kernel T) : Kernel T :=
  let x := k.timerArray i
  setTimer i { x with
    flags := (x.flags &&& ~~~timerAbstime) ||| (flags &&& timerAbstime) } k

def disarmIfArmed (timerid : Int) (x : Ktimer T) (k : Kernel T) : Except Fault (Kernel T) :=
  if (x.flags &&& timerArmed) ≠ 0#32 then disarmTimer timerid k else .ok k

/-- `now 0` is the reading that arms the timer, the later ones are for
    update_hwtimer. The last component is what is stored through ovalue. -/
def timerSettimeSys (fuel : Nat) (now : Nat → Clocks) (timerid : Int) (flags : Word)
    (value : Option Itimerspec) (k : Kernel T) :
    Except Fault (Kernel T × Int × Option Itimerspec) := do
  if ← timerUnused timerid k then return (setErrno eagain k, -1, none)
  else
    let i ← timerAt timerid
    let x := k.timerArray i
    let k ← disarmIfArmed timerid x k
    let ovalue :=
      if (x.flags &&& timerArmed) ≠ 0#32 then
        some ⟨timespecOf x.timerInterval, timespecOf x.timerValue⟩
      else none
    let k := setAbstime i flags k
    match value with
    | none => return (k, 0, ovalue)
    | some v =>
      if v.itValue.tvSec ||| v.itValue.tvNsec = 0#32 then return (k, 0, ovalue)
      else
        let (k, _) ← armTimer (now 0) timerid v.itValue.nsecs v.itInterval.nsecs k
        let r ← updateHwtimer fuel (fun n => now (n + 1)) k
        return (r.kernel, 0, ovalue)

/-- `wanted` says whether there is a place for the value. -/
def timerGettimeSys (now : Clocks) (timerid : Int) (wanted : Bool) (k : Kernel T) :
    Except Fault (Kernel T × Int × Option Itimerspec) := do
  if ← timerUnused timerid k then return (setErrno eagain k, -1, none)
  else if wanted then
    let i ← timerAt timerid
    let x := k.timerArray i
    if (x.flags &&& timerArmed) = timerArmed then
      let ctime ← readClock now k x
      return (k, 0, some ⟨timespecOf x.timerInterval, timespecOf (x.timerValue - ctime)⟩)
    else return (k, 0, some ⟨⟨0, 0⟩, ⟨0, 0⟩⟩)
  else return (k, 0, none)

/-- Not implemented in the source beyond the check of the index. -/
def timerGetoverrunSys (timerid : Int) (k : Kernel T) : Except Fault (Kernel T × Int) := do
  if ← timerUnused timerid k then return (setErrno eagain k, -1)
  else return (k, 0)

/-- sleep_for up to its `scheduling`. -/
def sleepFor (fuel : Nat) (now : Nat → Clocks) (d : Duration) (k : Kernel T) :
    Except Fault (Kernel T) := do
  let t := k.currentThread
  let (k, _) ← armTimer (now 0) (k.sleepKtimer t) d 0 k
  let k := suspendThread t k
  let r ← updateHwtimer fuel (fun n => now (n + 1)) k
  return r.kernel

def sleepRest (now : Clocks) (d : Duration) (k : Kernel T) : Except Fault Duration := do
  let i ← timerAt (k.sleepKtimer k.currentThread)
  let ctime ← readClock now k (k.timerArray i)
  return if ctime < d then d - ctime else 0

def usleepDone (now : Clocks) (d : Duration) (k : Kernel T) : Except Fault (Kernel T × Progress) := do
  let rest ← sleepRest now d k
  return if rest ≠ 0 then (setErrno eintr k, .ret (-1)) else (k, .ret 0)

/-- clock_handler inside do_irq: a request for scheduling is left pending. -/
def clockHandler (fuel : Nat) (now : Nat → Clocks) (k : Kernel T) : Except Fault (Kernel T) := do
  let r ← updateHwtimer fuel now k
  return if r.action = needReesched then scheduling (now 0).monotonic r.kernel else r.kernel

/-- do_irq up to its `scheduling`, if that is needed; do_signals follows, and
    once more in the entry code. -/
def doIrq (fuel : Nat) (now : Nat → Clocks) (k : Kernel T) : Except Fault (Kernel T × Progress) := do
  let k ← clockHandler fuel now { k with irqNestingCounter := k.irqNestingCounter + 1#32 }
  let k := { k with irqNestingCounter := k.irqNestingCounter - 1#32 }
  return (k, if k.irqNestingCounter = schedPending then .sched (.leave 2) else .ret 0)

def runHandler (signal : Nat) (k : Kernel T) : Except Fault (Kernel T × Bool) :=
  if signal = 1 then do
    let k ← pthreadExitSys k
    return (k, true)
  else if signal = 2 then .ok (suspendThread k.currentThread k, true)
  else .ok (k, false)

/-- The loop of do_signals from `signal` on, with `n` signals to go; `none` once
    the mask is restored. Each handler blocks its own signal only. -/
def signalLoop (oldSigmask : Word) (rounds : Nat) :
    Nat → Nat → Word → Kernel T → Except Fault (Kernel T × Option Point)
  | 0, _, _, k =>
    .ok ({ k with sigmask := Function.update k.sigmask k.currentThread oldSigmask }, none)
  | n + 1, signal, sigpend, k =>
    if sigpend = 0#32 then
      .ok ({ k with sigmask := Function.update k.sigmask k.currentThread oldSigmask }, none)
    else
      let k := { k with
        sigmask := Function.update k.sigmask k.currentThread (oldSigmask ||| (1#32 <<< signal)) }
      if sigpend &&& 1#32 ≠ 0#32 then do
        let (k, switch) ← runHandler signal k
        if switch then
          return (k, some (.signals oldSigmask (signal + 1) (sigpend >>> 1) rounds))
        else signalLoop oldSigmask rounds n (signal + 1) (sigpend >>> 1) k
      else signalLoop oldSigmask rounds n (signal + 1) (sigpend >>> 1) k

def takeSignals (k : Kernel T) : Kernel T × Word :=
  let t := k.currentThread
  let pending := k.sigpending t
  let sigpend := unblocked (k.sigmask t) pending
  let held := if getThreadCancelState (k.threadFlags t) ≠ 0#32 then sigpend &&& 2#32 else 0#32
  ({ k with sigpending := Function.update k.sigpending t ((pending &&& ~~~sigpend) ||| held) },
    sigpend &&& ~~~held)

/-- `rounds` further calls of do_signals follow this one. -/
def doSignals (rounds : Nat) (k : Kernel T) : Except Fault (Kernel T × Option Point) :=
  let (w, sigpend) := takeSignals k
  signalLoop (k.sigmask k.currentThread) rounds 32 0 sigpend w

end L4ertl
