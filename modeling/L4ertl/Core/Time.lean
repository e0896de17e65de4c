import L4ertl.Core.Signal

/-!
Timers (heap.c, time.c). Reads and writes of the heap array, of the timer table
and through timer pointers are checked: a run that leaves the array, follows a
NULL pointer or does not come to an end is a `Fault`.
-/
namespace L4ertl
open Intrusive

inductive Fault where
  | heapIndex
  | timerIndex
  | nullDeref
  | outOfFuel
  deriving DecidableEq, Repr

def TimerHeap.get (h : TimerHeap) (i : Nat) : Except Fault (Option Nat) :=
  if i < heapMaxNelem then .ok (h.array i) else .error .heapIndex

def TimerHeap.set (h : TimerHeap) (i : Nat) (p : Option Nat) : Except Fault TimerHeap :=
  if i < heapMaxNelem then .ok { h with array := Function.update h.array i p }
  else .error .heapIndex

section
variable {T : Type}

def deref (timers : Nat → Ktimer T) (p : Option Nat) : Except Fault (Ktimer T) :=
  match p with
  | some i => .ok (timers i)
  | none => .error .nullDeref

def isMin (timers : Nat → Ktimer T) (p q : Option Nat) : Except Fault Bool := do
  let x ← deref timers p
  let y ← deref timers q
  return x.timerValue < y.timerValue

def heapMin (h : TimerHeap) : Except Fault (Option Nat) :=
  if 0 < h.nelem then h.get 1 else .ok none

def lesserChild (timers : Nat → Ktimer T) (h : TimerHeap) (child : Nat) : Except Fault Nat := do
  if child + 1 ≤ h.nelem then
    let right ← h.get (child + 1)
    let left ← h.get child
    let less ← isMin timers right left
    return if less then child + 1 else child
  else return child

def heapifyLoop (timers : Nat → Ktimer T) (tempvalue : Option Nat) :
    Nat → Nat → TimerHeap → Except Fault TimerHeap
  | 0, _, _ => .error .outOfFuel
  | fuel + 1, top, h => do
    if 2 * top ≤ h.nelem then
      let child ← lesserChild timers h (2 * top)
      let below ← h.get child
      let stop ← isMin timers tempvalue below
      if stop then return h
      else
        let h ← h.set top below
        let h ← h.set child tempvalue
        heapifyLoop timers tempvalue fuel child h
    else return h

/-- `top` at least doubles in each round, so `nelem + 1` rounds are enough. -/
def heapify (timers : Nat → Ktimer T) (h : TimerHeap) (top : Nat) : Except Fault TimerHeap := do
  let tempvalue ← h.get top
  heapifyLoop timers tempvalue (h.nelem + 1) top h

def heapRemoveMin (timers : Nat → Ktimer T) (h : TimerHeap) :
    Except Fault (TimerHeap × Option Nat) := do
  if 0 < h.nelem then
    let min ← h.get 1
    let last ← h.get h.nelem
    let h ← h.set 1 last
    let h ← heapify timers { h with nelem := h.nelem - 1 } 1
    return (h, min)
  else return (h, none)

def heapInsertLoop (timers : Nat → Ktimer T) (k : Nat) : Nat → Nat → TimerHeap → Except Fault TimerHeap
  | 0, _, _ => .error .outOfFuel
  | fuel + 1, i, h => do
    if 1 < i then
      let above ← h.get (i / 2)
      let less ← isMin timers (some k) above
      if less then
        let h ← h.set i above
        heapInsertLoop timers k fuel (i / 2) h
      else h.set i (some k)
    else h.set i (some k)

def heapInsert (timers : Nat → Ktimer T) (h : TimerHeap) (k : Nat) :
    Except Fault (TimerHeap × Int) := do
  if heapMaxNelem < h.nelem + 1 then return (h, -1)
  else
    let h := { h with nelem := h.nelem + 1 }
    let h ← heapInsertLoop timers k (h.nelem + 1) h.nelem h
    return (h, 0)

def heapLookup (h : TimerHeap) (k : Nat) : Nat → Nat → Except Fault (Option Nat)
  | 0, _ => .ok none
  | n + 1, i => do
    let here ← h.get i
    if here = some k then return some i else heapLookup h k n (i + 1)

def heapRemoveElement (timers : Nat → Ktimer T) (h : TimerHeap) (k : Nat) :
    Except Fault (TimerHeap × Int) := do
  match ← heapLookup h k h.nelem 1 with
  | some i =>
    if 1 < h.nelem then
      let last ← h.get h.nelem
      let h ← h.set i last
      let h ← heapify timers { h with nelem := h.nelem - 1 } i
      return (h, 0)
    else
      let h ← { h with nelem := 0 }.set i none
      return (h, 0)
  | none => return (h, -1)

end

variable {T : Type} [DecidableEq T]

/-- One reading of the two hardware clocks. -/
structure Clocks where
  monotonic : Duration
  realtime : Duration
  deriving DecidableEq, Repr

/-- What the read_clock function of a timer returns for its owner. -/
def readClock (now : Clocks) (k : Kernel T) (x : Ktimer T) : Except Fault Duration :=
  match x.clock with
  | .monotonic => .ok now.monotonic
  | .realtime => .ok now.realtime
  | .threadCputime =>
    match x.owner with
    | some t => .ok (k.usedTime t + now.monotonic - k.startingTime t)
    | none => .error .nullDeref

/-- A pointer into the table, from an index that may lie outside it. -/
def timerAt (id : Int) : Except Fault Nat :=
  if 0 ≤ id ∧ id < maxTimers then .ok id.toNat else .error .timerIndex

def setTimer (i : Nat) (x : Ktimer T) (k : Kernel T) : Kernel T :=
  { k with timerArray := Function.update k.timerArray i x }

def freeKtimer (id : Int) (k : Kernel T) : Except Fault (Kernel T) := do
  let i ← timerAt id
  let (h, _) ← heapRemoveElement k.timerArray k.timerHeap i
  return setTimer i { k.timerArray i with flags := 0#32 } { k with timerHeap := h }

/-- A relative time is made absolute with the timer's own clock. -/
def expiryTime (now : Clocks) (x : Ktimer T) (value : Duration) (k : Kernel T) :
    Except Fault Duration :=
  if (x.flags &&& timerAbstime) ≠ timerAbstime then do
    let ctime ← readClock now k x
    return value + ctime
  else .ok value

def armTimer (now : Clocks) (id : Int) (value interval : Duration) (k : Kernel T) :
    Except Fault (Kernel T × Int) := do
  let i ← timerAt id
  let x := k.timerArray i
  if (x.flags &&& timerInUse) = 0#32 then return (k, -1)
  else
    let expiry ← expiryTime now x value k
    let k := setTimer i { x with
      timerValue := expiry
      timerInterval := interval
      flags := x.flags ||| timerArmed } k
    let (h, _) ← heapInsert k.timerArray k.timerHeap i
    return ({ k with timerHeap := h }, 0)

def disarmTimer (id : Int) (k : Kernel T) : Except Fault (Kernel T) := do
  let i ← timerAt id
  let (h, _) ← heapRemoveElement k.timerArray k.timerHeap i
  return setTimer i { k.timerArray i with flags := (k.timerArray i).flags &&& ~~~timerArmed }
    { k with timerHeap := h }

def needReesched : Int := 1

def timerAct (x : Ktimer T) (k : Kernel T) : Except Fault (Kernel T × Int) :=
  match x.action, x.owner with
  | .wakeup, some t => .ok (activateThread t k, needReesched)
  | .wakeup, none => .error .nullDeref
  | .kill, some t => .ok ((pthreadKillSys t x.signo k).1, needReesched)
  | .kill, none => .ok (setErrno esrch k, needReesched)

def hiWord (d : Duration) : Word := (d >>> 32).setWidth 32
def lowWord (d : Duration) : Word := d.setWidth 32

/-- The loop test of update_hwtimer: the differences of the halves, as ints. -/
def judgedDue (timerValue ctime : Duration) : Bool :=
  let hi := (hiWord timerValue - hiWord ctime).toInt
  let low := (lowWord timerValue - lowWord ctime).toInt
  0 < hi || (hi = 0 && low ≤ 0)

def repeats (x : Ktimer T) (k : Kernel T) : Except Fault Bool :=
  if 0 < x.timerInterval then
    match x.owner with
    | some t => .ok (decide (k.state t ≠ finishedThread))
    | none => .error .nullDeref
  else .ok false

def rearmTimer (ctime : Duration) (i : Nat) (k : Kernel T) : Except Fault (Kernel T) := do
  let x := k.timerArray i
  let again ← repeats x k
  if again then
    let k := setTimer i { x with timerValue := x.timerInterval + ctime } k
    let (h, _) ← heapInsert k.timerArray k.timerHeap i
    return { k with timerHeap := h }
  else return setTimer i { x with flags := x.flags &&& ~~~timerArmed } k

/-- One pass through the loop body for the timer at the top: its action, its
    removal and its reprogramming. The action runs first. -/
def serveTimer (ctime : Duration) (i : Nat) (k : Kernel T) : Except Fault (Kernel T × Int) := do
  let (k, action) ← timerAct (k.timerArray i) k
  let (h, _) ← heapRemoveMin k.timerArray k.timerHeap
  let k ← rearmTimer ctime i { k with timerHeap := h }
  return (k, action)

def nextTimer (now : Clocks) (k : Kernel T) : Except Fault (Option (Nat × Duration)) := do
  match ← heapMin k.timerHeap with
  | some i => return some (i, ← readClock now k (k.timerArray i))
  | none => return none

structure TimerRound (T : Type) where
  kernel : Kernel T
  top : Option (Nat × Duration)
  action : Int
  -- the timers served so far, in order
  served : List Nat

/-- `now n` are the clocks at the end of round `n` from here. -/
def updateLoop : Nat → (Nat → Clocks) → TimerRound T → Except Fault (TimerRound T)
  | 0, _, _ => .error .outOfFuel
  | fuel + 1, now, r =>
    match r.top with
    | none => .ok r
    | some (i, ctime) =>
      if judgedDue (r.kernel.timerArray i).timerValue ctime then do
        let (k, action) ← serveTimer ctime i r.kernel
        let top ← nextTimer (now 0) k
        updateLoop fuel (fun n => now (n + 1)) ⟨k, top, action, r.served ++ [i]⟩
      else .ok r

def clampInterval (k : Kernel T) (d : Duration) : Duration :=
  if d < k.minInterval then k.minInterval
  else if k.maxInterval < d then k.maxInterval
  else d

/-- The half differences are computed once before the loop, also when there is
    no timer to take them from. -/
def updateHwtimer (fuel : Nat) (now : Nat → Clocks) (k : Kernel T) : Except Fault (TimerRound T) := do
  match ← nextTimer (now 0) k with
  | none => throw .nullDeref
  | some top =>
    let r ← updateLoop fuel (fun n => now (n + 1)) ⟨k, some top, 0, []⟩
    match r.top with
    | none => return r
    | some (i, ctime) =>
      let k := r.kernel
      let next := clampInterval k ((k.timerArray i).timerValue - ctime)
      return { r with kernel := { k with hwtimer := next } }

end L4ertl
