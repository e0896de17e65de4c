import L4ertl.Core.ThreadState

/-!
Posting a signal to a thread (signal.c). The target may be woken, whatever it
waits for, and it stays linked in the list it was waiting on.
-/
namespace L4ertl
open Intrusive
variable {T : Type} [DecidableEq T]

def nrsignals : Int := 32
def cancelSignal : Int := 1

def nonMaskableSignals : Word := 0x3f#32

def unblocked (mask pending : Word) : Word := ~~~(mask &&& ~~~nonMaskableSignals) &&& pending

def signalWakes (k : Kernel T) (thread : T) : Bool :=
  unblocked (k.sigmask thread) (k.sigpending thread) != 0#32 ||
    getThreadActivateOnSignal (k.threadFlags thread) != 0#32

def postSignal (thread : T) (sig : Int) (k : Kernel T) : Kernel T :=
  { k with
    sigpending := Function.update k.sigpending thread
      (k.sigpending thread ||| (1#32 <<< sig.toNat)) }

def pthreadKillSys (thread : T) (sig : Int) (k : Kernel T) : Kernel T × Int :=
  if k.magicNumber thread ≠ pthreadMagicNumber then (setErrno esrch k, -1)
  else if sig < 0 ∨ nrsignals ≤ sig then (setErrno einval k, -1)
  else
    let k := postSignal thread sig k
    (if signalWakes k thread then activateThread thread k else k, 0)

def pthreadCancelSys (thread : T) (k : Kernel T) : Kernel T × Int :=
  if k.magicNumber thread ≠ pthreadMagicNumber then (setErrno esrch k, -1)
  else ((pthreadKillSys thread cancelSignal k).1, 0)

end L4ertl
