import Mathlib.Data.List.Basic
import L4ertl.Core.Bitop

/-!
The data of time.c: the ktimer entries of timer_array, identified by their
index, and the heap of pointers to the armed ones. A pointer into timer_array
is the index it points at.
-/
namespace L4ertl

abbrev Duration := BitVec 64

def maxTimers : Nat := 32

def heapMaxNelem : Nat := maxTimers + 1

def timerAbstime : Word := 0x1#32
def timerInUse : Word := 0x100#32
def timerArmed : Word := 0x200#32

inductive Clockid where
  | realtime
  | monotonic
  | threadCputime
  deriving DecidableEq, Repr

inductive TimerAction where
  | wakeup
  | kill
  deriving DecidableEq, Repr

/-- `clock` stands for the read_clock pointer, `action` for the action pointer
    and `signo` for sigevent.sigev_signo. The pointers of an entry that is not
    in use are NULL in the source; nothing reads them there. -/
structure Ktimer (T : Type) where
  owner : Option T
  timerValue : Duration
  timerInterval : Duration
  flags : Word
  clock : Clockid
  action : TimerAction
  signo : Int
  deriving DecidableEq, Repr

def Ktimer.zero {T : Type} : Ktimer T := ⟨none, 0, 0, 0#32, .monotonic, .wakeup, 0⟩

def Ktimer.inUse {T : Type} (x : Ktimer T) : Bool := (x.flags &&& timerInUse) != 0#32
def Ktimer.armed {T : Type} (x : Ktimer T) : Bool := (x.flags &&& timerArmed) != 0#32

/-- NULL entries are `none`. Index 0 is never used. -/
structure TimerHeap where
  array : Nat → Option Nat
  nelem : Nat

def heapInit : TimerHeap := ⟨fun _ => none, 0⟩

/-- The first entry not in use; -1 when all are. -/
def freeTimer {T : Type} (timers : Nat → Ktimer T) : Int :=
  match (List.range maxTimers).find? (fun i => !(timers i).inUse) with
  | some i => i
  | none => -1

/-- The entry is chosen, zeroed and claimed; the clock is the one asked for,
    monotonic by default. -/
def allocKtimer {T : Type} (clockid : Clockid) (thread : T) (act : TimerAction)
    (timers : Nat → Ktimer T) : (Nat → Ktimer T) × Int :=
  let id := freeTimer timers
  if id = -1 then (timers, -1)
  else
    (Function.update timers id.toNat
      { owner := some thread, timerValue := 0, timerInterval := 0, flags := timerInUse,
        clock := clockid, action := act, signo := 0 }, id)

end L4ertl
