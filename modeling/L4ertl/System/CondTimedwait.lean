import L4ertl.Core.MutexEffect
import L4ertl.Core.TimerService
import L4ertl.Core.TimerWakes
import L4ertl.System.TimedWait

/-!
Waiting on a condition variable with a timeout (pthread.c). Whether the time is over
is deduced afterwards, from what sleep_for has returned and from the monotonic clock,
so that a thread that has been signalled is told that its time is over as soon as the
system has been up for longer than the time it has asked for; and its sleep timer
stays armed.
-/
namespace L4ertl
open Intrusive BinaryHeap
variable {T : Type} [DecidableEq T]

def Alone (i : Nat) (t : T) (k : Kernel T) : Prop :=
  ∀ j, InHeap k j → j ≠ i → ¬(k.timerArray j).Wakes k t

/-- The timer `i` of a sleep of `t`, which does not repeat: it has been served, or the
    thread is not READY and nothing else wakes it. -/
structure Sleeps (i : Nat) (t : T) (k : Kernel T) : Prop where
  clock : (k.timerArray i).clock = .monotonic
  once : (k.timerArray i).timerInterval = 0
  served : (k.timerArray i).armed = false ∨ (k.state t ≠ readyThread ∧ Alone i t k)

section
variable {i j : Nat} {t : T} {k w : Kernel T}

theorem suspendThread_alike (t u : T) (k : Kernel T) : Alike u k (suspendThread t k) := by
  have only := suspendThread_only t k
  have magic := congrArg Kernel.magicNumber only
  have mask := congrArg Kernel.sigmask only
  have pending := congrArg Kernel.sigpending only
  refine ⟨fun ended => ?_, congrFun magic u, congrFun mask u, congrFun pending u, ?_⟩
  · rw [suspendThread_state]
    split
    · rename_i both
      exact absurd (both.1 ▸ ended) both.2
    · exact ended
  · simp only [suspendThread]
    split
    · rw [setState_activate]
    · rfl

theorem serveTimer_once {ctime : Duration} {v : Int} (once : (k.timerArray i).timerInterval = 0)
    (ran : serveTimer ctime j k = .ok (w, v)) :
    (w.timerArray i).clock = (k.timerArray i).clock ∧ (w.timerArray i).timerInterval = 0 ∧
      ((j = i ∧ (w.timerArray i).armed = false) ∨ (j ≠ i ∧ w.timerArray i = k.timerArray i)) := by
  obtain ⟨again, asked, table, _⟩ := serveTimer_entry ran
  by_cases same : j = i
  · subst same
    have never : again = false := by
      have off : repeats (k.timerArray j) k = .ok false := by
        unfold repeats
        rw [once]
        rfl
      rw [off] at asked
      exact (Except.ok.inj asked).symm
    rw [table, Function.update_self, never]
    exact ⟨rfl, once, Or.inl ⟨rfl, armed_clear _⟩⟩
  · rw [table, Function.update_of_ne (Ne.symm same)]
    exact ⟨rfl, once, Or.inr ⟨same, rfl⟩⟩

theorem Sleeps.serve {ctime : Duration} {v : Int} (sleeps : Sleeps i t k) (held : InHeap k j)
    (ran : serveTimer ctime j k = .ok (w, v)) : Sleeps i t w := by
  obtain ⟨clock, once, here⟩ := serveTimer_once sleeps.once ran
  refine ⟨clock.trans sleeps.clock, once, ?_⟩
  rcases here with ⟨_, off⟩ | ⟨same, entry⟩
  · exact Or.inl off
  · rw [entry]
    rcases sleeps.served with off | ⟨asleep, alone⟩
    · exact Or.inl off
    · right
      obtain ⟨acted, x, h, act, shape, owner, action, signo, inside⟩ := serveTimer_shape held ran
      have spared : Woken (fun u => u ≠ t) k acted := by
        refine timerAct_wakes (fun u wakes eq => ?_) act
        subst eq
        exact alone j held same wakes
      have state : w.state t = acted.state t := by rw [shape]; rfl
      refine ⟨?_, fun l there other wakes => ?_⟩
      · rw [state]
        rcases spared.state t with kept | ⟨woken, _⟩
        · rw [kept]
          exact asleep
        · exact absurd rfl woken
      · have before : InHeap k l := by
          rw [shape] at there
          exact inside l there
        have wakes' : (k.timerArray l).Wakes acted t := by
          rw [shape] at wakes
          exact written_wakes owner action signo wakes
        rcases timerAct_others act wakes' with own | first
        · exact alone l before other own
        · exact alone j held same first

theorem Sleeps.update {fuel : Nat} {now : Nat → Clocks} {r : TimerRound T} (sleeps : Sleeps i t k)
    (ran : updateHwtimer fuel now k = .ok r) : Sleeps i t r.kernel := by
  obtain ⟨top, q, d, found, looped, rfl⟩ := updateHwtimer_loop ran
  have kept := updateLoop_invariant (P := fun q => Sleeps i t q.kernel ∧
    ∀ j c, q.top = some (j, c) → InHeap q.kernel j) fuel ?_ ⟨sleeps, ?_⟩ looped
  · exact ⟨kept.1.clock, kept.1.once, kept.1.served⟩
  · intro q n j ctime k action next inv here due served looked
    refine ⟨inv.1.serve (inv.2 j ctime here) served, fun l c first => ?_⟩
    obtain ⟨busy, root, _⟩ := nextTimer_ok looked first
    exact ⟨1, le_refl 1, busy, root⟩
  · intro j c here
    obtain ⟨busy, root, _⟩ := nextTimer_ok found here
    exact ⟨1, le_refl 1, busy, root⟩

theorem updateHwtimer_off {fuel : Nat} {now : Nat → Clocks} {r : TimerRound T}
    (once : (k.timerArray i).timerInterval = 0) (off : (k.timerArray i).armed = false)
    (ran : updateHwtimer fuel now k = .ok r) :
    (r.kernel.timerArray i).timerInterval = 0 ∧ (r.kernel.timerArray i).armed = false := by
  obtain ⟨top, q, d, _, looped, rfl⟩ := updateHwtimer_loop ran
  have kept := updateLoop_invariant (P := fun q => (q.kernel.timerArray i).timerInterval = 0 ∧
    (q.kernel.timerArray i).armed = false) fuel ?_ ⟨once, off⟩ looped
  · exact kept
  · intro q n j ctime w action next inv _ _ served _
    obtain ⟨_, once', here⟩ := serveTimer_once inv.1 served
    refine ⟨once', ?_⟩
    rcases here with ⟨_, off'⟩ | ⟨_, entry⟩
    · exact off'
    · rw [entry]
      exact inv.2

theorem updateHwtimer_inUse {fuel : Nat} {now : Nat → Clocks} {r : TimerRound T}
    (ran : updateHwtimer fuel now k = .ok r) :
    (r.kernel.timerArray i).clock = (k.timerArray i).clock ∧
      (r.kernel.timerArray i).inUse = (k.timerArray i).inUse := by
  obtain ⟨top, q, d, _, looped, rfl⟩ := updateHwtimer_loop ran
  have kept := updateLoop_invariant (P := fun q => (q.kernel.timerArray i).clock = (k.timerArray i).clock ∧
    (q.kernel.timerArray i).inUse = (k.timerArray i).inUse) fuel ?_ ⟨rfl, rfl⟩ looped
  · exact kept
  · intro q n j ctime w action next inv _ _ served _
    obtain ⟨again, _, table, _⟩ := serveTimer_entry served
    rw [table]
    by_cases same : i = j
    · subst same
      rw [Function.update_self]
      refine ⟨(servedTimer_keeps again ctime _).2.1.trans inv.1, ?_⟩
      cases again with
      | true => exact inv.2
      | false =>
        rw [← inv.2]
        have apart : ~~~timerArmed &&& timerInUse = timerInUse := by decide
        simp [servedTimer, Ktimer.inUse, BitVec.and_assoc, apart]
    · rw [Function.update_of_ne same]
      exact inv

theorem sleepFor_sleeps {fuel : Nat} {now : Nat → Clocks} {d : Duration}
    (at_ : timerAt (k.sleepKtimer k.currentThread) = .ok i) (inUse : (k.timerArray i).inUse = true)
    (clock : (k.timerArray i).clock = .monotonic) (alone : Alone i k.currentThread k)
    (ran : sleepFor fuel now d k = .ok w) : Sleeps i k.currentThread w := by
  simp only [sleepFor, bind, bind_ok, pure, Except.pure, Prod.exists] at ran
  obtain ⟨armed, _, arm, r, update, eq⟩ := ran
  cases eq
  refine Sleeps.update ?_ update
  rcases armTimer_retimed at_ arm with unused | ⟨e, f, _, only, inside⟩
  · simp [Ktimer.inUse, unused] at inUse
  · obtain ⟨table, heap⟩ := suspendThread_timers k.currentThread armed
    have entry : armed.timerArray =
        Function.update k.timerArray i { k.timerArray i with timerValue := e, timerInterval := 0, flags := f } := by
      have same := congrArg Kernel.timerArray only
      exact same
    refine ⟨?_, ?_, Or.inr ⟨?_, fun j there other wakes => ?_⟩⟩
    · rw [table, entry, Function.update_self]
      exact clock
    · rw [table, entry, Function.update_self]
    · rw [suspendThread_state]
      split
      · exact suspended_ne_ready
      · rename_i ended
        rw [not_and_not_right] at ended
        rw [ended rfl]
        exact ready_ne_finished.symm
    · have before : InHeap k j := by
        unfold InHeap at there
        rw [heap] at there
        exact (inside j there).resolve_right other
      rw [table, entry, Function.update_of_ne other] at wakes
      have first := (suspendThread_alike k.currentThread k.currentThread armed).wakes wakes
      rw [only] at first
      exact alone j before other first

/-- The sleep timer of `t`, armed for the reading at its arming, is served at once: it
    comes first on the heap, and passes the test. -/
structure FiresAtOnce (now : Nat → Clocks) (i : Nat) (t : T) (k : Kernel T) : Prop where
  table : k.TimersOk
  off : (k.timerArray i).armed = false
  action : (k.timerArray i).action = .wakeup
  owner : (k.timerArray i).owner = some t
  relative : (k.timerArray i).flags &&& timerAbstime ≠ timerAbstime
  first : ∀ j, InHeap k j → (now 0).monotonic < (k.timerArray j).timerValue
  passes : judgedDue (now 0).monotonic (now 1).monotonic = true

omit [DecidableEq T] in
theorem armTimer_held {now : Clocks} {id : Int} {value interval : Duration} {v : Int}
    (at_ : timerAt id = .ok i) (inUse : (k.timerArray i).inUse = true) (table : w.TimersOk)
    (ran : armTimer now id value interval k = .ok (w, v)) : InHeap w i := by
  rw [inHeap_iff table]
  simp only [armTimer, at_, bind, bind_ok, pure, Except.pure] at ran
  obtain ⟨j, same, ran⟩ := ran
  cases same
  have used : ¬(k.timerArray i).flags &&& timerInUse = 0#32 := by simpa [Ktimer.inUse] using inUse
  simp only [if_neg used, bind_ok, Except.ok.injEq, Prod.mk.injEq, Prod.exists] at ran
  obtain ⟨expiry, _, h, _, _, rfl, _⟩ := ran
  simp only [setTimer, Function.update_self, inUse_armed, armed_set, and_true]
  exact ⟨timerAt_ok at_, inUse⟩

theorem updateHwtimer_fires {fuel : Nat} {now : Nat → Clocks} {r : TimerRound T} (table : k.TimersOk)
    (held : InHeap k i) (clock : (k.timerArray i).clock = .monotonic) (owner : (k.timerArray i).owner = some t)
    (action : (k.timerArray i).action = .wakeup)
    (first : ∀ j, InHeap k j → j ≠ i → (k.timerArray i).timerValue < (k.timerArray j).timerValue)
    (passes : judgedDue (k.timerArray i).timerValue (now 0).monotonic = true)
    (ran : updateHwtimer fuel now k = .ok r) : r.kernel.state t ≠ suspendedThread := by
  obtain ⟨⟨j, ctime⟩, q, d, found, looped, rfl⟩ := updateHwtimer_loop ran
  obtain ⟨busy, root, read⟩ := nextTimer_ok found rfl
  have top : j = i := by
    by_contra other
    have later := first j ⟨1, le_refl 1, busy, root⟩ other
    obtain ⟨p, low, high, here⟩ := held
    have order := table.ordered.root low high
    rw [root, here] at order
    exact absurd later (BitVec.not_lt.mpr (BitVec.le_def.mpr order))
  subst top
  have reading : ctime = (now 0).monotonic := by
    simp only [readClock, clock] at read
    exact (Except.ok.inj read).symm
  subst reading
  cases fuel with
  | zero => cases looped
  | succ fuel =>
    simp only [updateLoop, passes, if_true, bind, bind_ok, Prod.exists] at looped
    obtain ⟨w, v, served, next, looked, rest⟩ := looped
    obtain ⟨acted, h, _, act, _, rearm⟩ := serveTimer_parts served
    have woken : acted = activateThread t k := by
      simp only [timerAct, owner, action, Except.ok.injEq, Prod.mk.injEq] at act
      exact act.1.symm
    have state : w.state t = (activateThread t k).state t := by
      have flags := congrArg Kernel.threadFlags (rearmTimer_book rearm).1
      rw [← woken]
      exact Kernel.state_of_flags flags t
    have awake : w.state t ≠ suspendedThread := by
      rw [state, activateThread_state]
      split
      · exact suspended_ne_ready.symm
      · rename_i ended
        rw [not_and_not_right] at ended
        rw [ended rfl]
        exact finished_ne_suspended
    rcases (updateLoop_woken fuel rest).1.state t with same | ⟨_, _, ready⟩
    · exact same ▸ awake
    · exact fun asleep => suspended_ne_ready (asleep.symm.trans ready)

theorem sleepFor_fires {fuel : Nat} {now : Nat → Clocks} (fires : FiresAtOnce now i k.currentThread k)
    (at_ : timerAt (k.sleepKtimer k.currentThread) = .ok i) (inUse : (k.timerArray i).inUse = true)
    (clock : (k.timerArray i).clock = .monotonic) (ran : sleepFor fuel now 0 k = .ok w) :
    w.state k.currentThread ≠ suspendedThread := by
  simp only [sleepFor, bind, bind_ok, pure, Except.pure, Prod.exists] at ran
  obtain ⟨armed, _, arm, r, update, eq⟩ := ran
  cases eq
  have table : armed.TimersOk := by
    refine armTimer_timersOk fires.table (fun j same => ?_) arm
    rw [at_] at same
    cases same
    rw [fires.off]
    exact fun both => Bool.false_ne_true both.2
  have held := armTimer_held at_ inUse table arm
  rcases armTimer_retimed at_ arm with unused | ⟨e, f, expiry, only, inside⟩
  · simp [Ktimer.inUse, unused] at inUse
  · have value : e = (now 0).monotonic := by
      simp only [expiryTime, if_pos fires.relative, readClock, clock, bind, Except.bind, pure, Except.pure,
        Except.ok.injEq] at expiry
      rw [← expiry]
      exact BitVec.zero_add _
    have entry : armed.timerArray =
        Function.update k.timerArray i { k.timerArray i with timerValue := e, timerInterval := 0, flags := f } := by
      have same := congrArg Kernel.timerArray only
      exact same
    obtain ⟨timers, heap⟩ := suspendThread_timers k.currentThread armed
    apply updateHwtimer_fires (i := i) _ _ _ _ _ _ _ update
    · unfold Kernel.TimersOk
      rw [timers, heap]
      exact table
    · unfold InHeap
      rw [heap]
      exact held
    · rw [timers, entry, Function.update_self]
      exact clock
    · rw [timers, entry, Function.update_self]
      exact fires.owner
    · rw [timers, entry, Function.update_self]
      exact fires.action
    · intro j there other
      unfold InHeap at there
      rw [heap] at there
      rw [timers, entry, Function.update_self, Function.update_of_ne other, value]
      exact fires.first j ((inside j there).resolve_right other)
    · rw [timers, entry, Function.update_self, value]
      exact fires.passes

end

def Timespec.time (x : Timespec) : Int := x.tvSec.toInt * 1000000000 + x.tvNsec.toInt

inductive TimedStage where
  | inside (p : TimedPoint)
  | returned (v : Int)
  deriving DecidableEq, Repr

def TimedStage.asleep : TimedStage → Bool
  | .inside (.asleep _) => true
  | _ => false

def TimedProgress.stage : TimedProgress → TimedStage
  | .ret v => .returned v
  | .sched p => .inside p

/-- A call of pthread_cond_timedwait_sys under way: the reading of the realtime clock at
    its start, whether its thread was suspended when sleep_for called `scheduling`, and
    when a wake-up took it off the list and when it ran again, if they did. -/
structure TimedRun (T : Type) where
  kernel : Kernel T
  stage : TimedStage
  entry : Duration
  waited : Bool
  taken : Option Clocks
  woken : Option Clocks

def TimedRun.goes (t : T) (s : TimedRun T) (r : Kernel T × TimedProgress) : TimedRun T :=
  { s with
    kernel := r.1
    stage := r.2.stage
    waited := if r.2.stage.asleep then decide (r.1.state t = suspendedThread) else s.waited }

def TimedRun.begin (t : T) (now : Clocks) (r : Kernel T × TimedProgress) : TimedRun T :=
  (⟨r.1, r.2.stage, now.realtime, false, none, none⟩ : TimedRun T).goes t r

/-- The caller goes on, timers expire, other threads signal and broadcast, wait, come
    back from timed waits, and do anything else. -/
inductive TimedTurn (T : Type) where
  | proceed (fuel : Nat) (now : Nat → Clocks)
  | tick (fuel : Nat) (now : Nat → Clocks)
  | signal (now : Clocks)
  | broadcast (now : Clocks)
  | link (m : Nat)
  | leave
  | rest (w : Kernel T)

section
variable [Fintype T]

def condTaken (c : Nat) (k : Kernel T) : List T :=
  (unlinkAll (Fintype.card T + 1) k.condNode (k.cond c)).2.2

def TimedRun.step (c m : Nat) (t : T) (s : TimedRun T) (l : TimedTurn T) :
    Option (TimedRun T × List Unit) :=
  match s.stage, l with
  | .returned _, _ => none
  | .inside p, .proceed fuel now =>
    if s.kernel.currentThread = t then
      match p.run fuel now c m s.kernel with
      | .ok r => some ({ s.goes t r with woken := if s.stage.asleep then some (now 0) else s.woken }, [])
      | .error _ => none
    else none
  | .inside _, .tick fuel now =>
    match updateHwtimer fuel now s.kernel with
    | .ok r => some ({ s with kernel := r.kernel }, [])
    | .error _ => none
  | .inside _, .signal now =>
    some ({ s with
      kernel := (pthreadCondSignalSys c s.kernel).1
      taken := if s.kernel.cond c = some t then some now else s.taken }, [])
  | .inside _, .broadcast now =>
    some ({ s with
      kernel := (pthreadCondBroadcastSys c s.kernel).1
      taken := if t ∈ condTaken c s.kernel then some now else s.taken }, [])
  | .inside _, .link n => some ({ s with kernel := (condBlock c n s.kernel).1 }, [])
  | .inside _, .leave =>
    some ({ s with kernel := (condWaiters c).remove s.kernel.currentThread s.kernel }, [])
  | .inside _, .rest w => some ({ s with kernel := w }, [])

end

/-- What other threads leave alone: the list, the sleep timer `i`, and a mutex that the
    caller owns; and they do not wake it from its sleep. -/
structure TimedAside (c m i : Nat) (t : T) (s : TimedRun T) (w : Kernel T) : Prop where
  head : w.cond c = s.kernel.cond c
  nodes : ∀ u, u = t ∨ Linked s.kernel.condNode (s.kernel.cond c) u → w.condNode u = s.kernel.condNode u
  handle : w.sleepKtimer t = s.kernel.sleepKtimer t
  timer : w.timerArray i = s.kernel.timerArray i
  asleep : s.stage.asleep = true → w.state t = readyThread → s.kernel.state t = readyThread
  owner : (s.kernel.mutex m).owner = some t → (w.mutex m).owner = some t

/-- A thread that runs is READY, a thread waits once, and what wakes the caller from its
    sleep is its sleep timer or a wake-up on the condition variable. -/
def TimedTurn.Legal (c m i : Nat) (t : T) (s : TimedRun T) : TimedTurn T → Prop
  | .proceed _ _ => s.kernel.state t = readyThread ∧
      ∀ d, s.stage = .inside (.unlocked d) → Alone i t s.kernel
  | .tick _ _ => s.stage.asleep = true → s.kernel.state t = readyThread ∨ Alone i t s.kernel
  | .signal _ | .broadcast _ => s.kernel.currentThread ≠ t
  | .link _ => s.kernel.currentThread ≠ t ∧ (condWaiters c).Free s.kernel s.kernel.currentThread
  | .leave => s.kernel.currentThread ≠ t ∧
      (Linked s.kernel.condNode (s.kernel.cond c) s.kernel.currentThread ∨
        s.kernel.condNode s.kernel.currentThread = detached)
  | .rest w => TimedAside c m i t s w

def TimedRun.Late (abstime : Timespec) (t : T) (s : TimedRun T) (now : Clocks) : Prop :=
  s.kernel.state t = readyThread ∧ abstime.time ≤ now.realtime.toNat

/-- What a sleep for `d` begins with: the time is still to come, or it has come and the
    sleep timer is served at once. -/
def TimedAhead (i : Nat) (abstime : Timespec) (t : T) (entry d : Duration) (now : Nat → Clocks)
    (k : Kernel T) : Prop :=
  (entry.toNat : Int) < abstime.time ∨ (d = 0 ∧ FiresAtOnce now i t k)

/-- No wake-up comes before the end of the time, and the clocks have come to it when the
    caller runs again: the monotonic one stands at the time asked for, or after it. -/
def TimedTurn.Clear [Fintype T] (c i : Nat) (abstime : Timespec) (t : T) (s : TimedRun T) :
    TimedTurn T → Prop
  | .proceed _ now =>
    match s.stage with
    | .inside (.unlocked d) => TimedAhead i abstime t s.entry d now s.kernel
    | .inside (.asleep d) => d ≤ (now 0).monotonic ∧ abstime.time ≤ (now 0).realtime.toNat ∧
        0 < (now 1).monotonic
    | .inside (.relock _) | .inside (.raised _) => 0 < (now 0).monotonic
    | _ => True
  | .signal now => s.kernel.cond c = some t → s.Late abstime t now
  | .broadcast now => t ∈ condTaken c s.kernel → s.Late abstime t now
  | _ => True

/-- The caller owns the mutex, is on no list, and has its sleep timer; and when it goes to
    sleep no other timer wakes it. -/
structure TimedStart [Fintype T] (c m i : Nat) (k : Kernel T) : Prop where
  owner : (k.mutex m).owner = some k.currentThread
  free : (condWaiters c).Free k k.currentThread
  listed : ∃ xs, Queued (condWaiters c) k.currentThread k xs
  handle : timerAt (k.sleepKtimer k.currentThread) = .ok i
  inUse : (k.timerArray i).inUse = true
  clock : (k.timerArray i).clock = .monotonic
  alone : Alone i k.currentThread (mutexUnlock m k).1

def TimedRun.TakenBefore (abstime : Timespec) (s : TimedRun T) : Prop :=
  ∃ e, s.taken = some e ∧ (e.realtime.toNat : Int) < abstime.time

structure TimedRight (c m : Nat) (abstime : Timespec) (t : T) (s : TimedRun T) (v : Int) : Prop where
  signalled : s.TakenBefore abstime → v = 0
  timedOut : (v = -1 ∧ s.kernel.errno t = etimedout) ↔
    ¬s.TakenBefore abstime ∧ ∃ e, s.woken = some e ∧ abstime.time ≤ e.realtime.toNat
  prompt : abstime.time ≤ s.entry.toNat → s.waited = false
  owner : (s.kernel.mutex m).owner = some t
  off : ¬Linked s.kernel.condNode (s.kernel.cond c) t
  disarmed : ∀ i, timerAt (s.kernel.sleepKtimer t) = .ok i → (s.kernel.timerArray i).armed = false

structure TimedRun.Ended (i : Nat) (abstime : Timespec) (s : TimedRun T) : Prop where
  clock : (s.kernel.timerArray i).clock = .monotonic
  once : (s.kernel.timerArray i).timerInterval = 0
  off : (s.kernel.timerArray i).armed = false
  woken : ∃ e, s.woken = some e ∧ abstime.time ≤ e.realtime.toNat

structure Dozes (i : Nat) (t : T) (k : Kernel T) : Prop where
  clock : (k.timerArray i).clock = .monotonic
  once : (k.timerArray i).timerInterval = 0
  served : (k.timerArray i).armed = false ∨ k.state t ≠ readyThread

def TimedAt (m i : Nat) (abstime : Timespec) (t : T) (s : TimedRun T) : Prop :=
  match s.stage with
  | .inside (.unlocked _) => (s.kernel.timerArray i).clock = .monotonic ∧ (s.kernel.timerArray i).inUse = true
  | .inside (.asleep _) => Dozes i t s.kernel
  | .inside (.relock r) => r = 0 ∧ s.Ended i abstime
  | .inside (.raised r) => r = 0 ∧ s.Ended i abstime ∧ (s.kernel.mutex m).owner = some t
  | .returned v => v = -1 ∧ s.kernel.errno t = etimedout ∧ s.Ended i abstime ∧ (s.kernel.mutex m).owner = some t

structure TimedInv (c m i : Nat) (abstime : Timespec) (t : T) (s : TimedRun T) : Prop where
  handle : timerAt (s.kernel.sleepKtimer t) = .ok i
  listed : ∃ xs, Queued (condWaiters c) t s.kernel xs ∧ (s.stage.asleep = false → t ∉ xs)
  late : ∀ e, s.taken = some e → abstime.time ≤ e.realtime.toNat
  prompt : abstime.time ≤ s.entry.toNat → s.waited = false
  point : TimedAt m i abstime t s

theorem TimedInv.right {c m i : Nat} {abstime : Timespec} {t : T} {s : TimedRun T} {v : Int}
    (inv : TimedInv c m i abstime t s) (returned : s.stage = .returned v) : TimedRight c m abstime t s v := by
  have point := inv.point
  simp only [TimedAt, returned] at point
  obtain ⟨failed, errno, ended, owner⟩ := point
  have never : ¬s.TakenBefore abstime := by
    intro before
    obtain ⟨e, taken, early⟩ := before
    have late := inv.late e taken
    omega
  refine ⟨fun before => absurd before never, ?_, inv.prompt, owner, ?_, fun j at_ => ?_⟩
  · exact iff_of_true ⟨failed, errno⟩ ⟨never, ended.woken⟩
  · obtain ⟨xs, queued, out⟩ := inv.listed
    exact queued.off (out (by rw [returned]; rfl))
  · rw [inv.handle] at at_
    cases at_
    exact ended.off

structure TimedKept (c m i : Nat) (t : T) (s : TimedRun T) (w : Kernel T) : Prop where
  handle : w.sleepKtimer t = s.kernel.sleepKtimer t
  listed : ∀ xs, Queued (condWaiters c) t s.kernel xs →
    ∃ ys, Queued (condWaiters c) t w ys ∧ (t ∉ xs → t ∉ ys)
  clock : (w.timerArray i).clock = (s.kernel.timerArray i).clock
  inUse : (w.timerArray i).inUse = (s.kernel.timerArray i).inUse
  once : (s.kernel.timerArray i).clock = .monotonic → (s.kernel.timerArray i).timerInterval = 0 →
    (s.kernel.timerArray i).armed = false → Dozes i t w ∧ (w.timerArray i).armed = false
  dozes : s.stage.asleep = true → Dozes i t s.kernel → Dozes i t w
  owner : (s.kernel.mutex m).owner = some t → (w.mutex m).owner = some t

section
variable {c m i : Nat} {abstime : Timespec} {t u : T} {s x : TimedRun T} {k w : Kernel T} {xs : List T}

theorem TimedKept.untouched (handle : w.sleepKtimer t = s.kernel.sleepKtimer t)
    (timer : w.timerArray i = s.kernel.timerArray i)
    (asleep : s.stage.asleep = true → (s.kernel.timerArray i).armed = false ∨
      (w.state t = readyThread → s.kernel.state t = readyThread))
    (owner : (s.kernel.mutex m).owner = some t → (w.mutex m).owner = some t)
    (listed : ∀ xs, Queued (condWaiters c) t s.kernel xs →
      ∃ ys, Queued (condWaiters c) t w ys ∧ (t ∉ xs → t ∉ ys)) : TimedKept c m i t s w where
  handle := handle
  listed := listed
  clock := by rw [timer]
  inUse := by rw [timer]
  once clock once off := by
    rw [← timer] at clock once off
    exact ⟨⟨clock, once, Or.inl off⟩, off⟩
  dozes sleeping dozes := by
    refine ⟨by rw [timer]; exact dozes.clock, by rw [timer]; exact dozes.once, ?_⟩
    rw [timer]
    rcases dozes.served with off | awake
    · exact Or.inl off
    · exact (asleep sleeping).imp_right fun back ready => awake (back ready)
  owner := owner

theorem TimedInv.others {p : TimedPoint} {tk : Option Clocks} (inv : TimedInv c m i abstime t s)
    (inside : s.stage = .inside p) (kept : TimedKept c m i t s w)
    (late : ∀ e, tk = some e → abstime.time ≤ e.realtime.toNat) :
    TimedInv c m i abstime t { s with kernel := w, taken := tk } := by
  obtain ⟨xs, queued, out⟩ := inv.listed
  obtain ⟨ys, queued', out'⟩ := kept.listed xs queued
  refine ⟨by rw [kept.handle]; exact inv.handle, ⟨ys, queued', fun off => out' (out off)⟩, late, inv.prompt, ?_⟩
  have point := inv.point
  have ended : ∀ stage, s.Ended i abstime →
      TimedRun.Ended i abstime ⟨w, stage, s.entry, s.waited, tk, s.woken⟩ := by
    intro stage ended
    obtain ⟨dozes, off⟩ := kept.once ended.clock ended.once ended.off
    exact ⟨dozes.clock, dozes.once, off, ended.woken⟩
  simp only [TimedAt, inside] at point ⊢
  cases p with
  | unlocked d => exact ⟨kept.clock.trans point.1, kept.inUse.trans point.2⟩
  | asleep d => exact kept.dozes (by rw [inside]; rfl) point
  | relock r => exact ⟨point.1, ended _ point.2⟩
  | raised r => exact ⟨point.1, ended _ point.2.1, kept.owner point.2.2⟩

theorem TimedKept.condOnly (only : CondOnly s.kernel w)
    (asleep : s.stage.asleep = true → (s.kernel.timerArray i).armed = false ∨
      (w.state t = readyThread → s.kernel.state t = readyThread))
    (listed : ∀ xs, Queued (condWaiters c) t s.kernel xs →
      ∃ ys, Queued (condWaiters c) t w ys ∧ (t ∉ xs → t ∉ ys)) : TimedKept c m i t s w := by
  have handles := congrArg Kernel.sleepKtimer only
  have timers := congrArg Kernel.timerArray only
  refine .untouched (congrFun handles t) (congrFun timers i) asleep (fun owner => ?_) listed
  rw [congrFun only.others.1 m]
  exact owner

theorem Queued.isFree {l : WaitList T} (queued : Queued l t k xs) (out : t ∉ xs) : l.Free k t := by
  refine ⟨queued.free out, fun head => ?_⟩
  rw [segment_head queued.chain] at head
  exact out (List.mem_of_head? head)

omit [DecidableEq T] in
theorem Dozes.off (dozes : Dozes i t k) (ready : k.state t = readyThread) :
    (k.timerArray i).armed = false := by
  rcases dozes.served with off | asleep
  · exact off
  · exact absurd ready asleep

theorem TimedInv.late_off {p : TimedPoint} {now : Clocks} (inv : TimedInv c m i abstime t s)
    (inside : s.stage = .inside p) (sleeping : s.stage.asleep = true) (late : s.Late abstime t now) :
    (s.kernel.timerArray i).armed = false := by
  have point := inv.point
  cases p with
  | asleep d =>
    simp only [TimedAt, inside] at point
    exact point.off late.1
  | unlocked d => rw [inside] at sleeping; cases sleeping
  | relock r => rw [inside] at sleeping; cases sleeping
  | raised r => rw [inside] at sleeping; cases sleeping

theorem TimedInv.taken_late {now : Clocks} {takes : Prop} [Decidable takes]
    (inv : TimedInv c m i abstime t s) (clear : takes → s.Late abstime t now) (e : Clocks)
    (taken : (if takes then some now else s.taken) = some e) : abstime.time ≤ e.realtime.toNat := by
  split at taken
  · rename_i it
    cases taken
    exact (clear it).2
  · exact inv.late e taken

variable [Fintype T]

omit [Fintype T] in
theorem TimedInv.signal {now : Clocks} {p : TimedPoint} (inv : TimedInv c m i abstime t s)
    (inside : s.stage = .inside p) (clear : s.kernel.cond c = some t → s.Late abstime t now) :
    TimedInv c m i abstime t { s with
      kernel := (pthreadCondSignalSys c s.kernel).1
      taken := if s.kernel.cond c = some t then some now else s.taken } := by
  apply inv.others inside _ (inv.taken_late clear)
  apply TimedKept.condOnly (condSignal_only c s.kernel)
  · intro sleeping
    by_cases first : s.kernel.cond c = some t
    · exact Or.inl (inv.late_off inside sleeping (clear first))
    · right
      cases head : s.kernel.cond c with
      | none =>
        rw [pthreadCondSignalSys_empty head]
        exact id
      | some u =>
        have other : t ≠ u := fun same => first (same ▸ head)
        rw [pthreadCondSignalSys_first head]
        intro ready
        rw [activateThread_state, if_neg (fun both => other both.1), (condWaiters c).removeHead_state] at ready
        exact ready
  · intro xs queued
    cases xs with
    | nil =>
      rw [pthreadCondSignalSys_empty queued.chain]
      exact ⟨[], queued, id⟩
    | cons y ys =>
      rw [pthreadCondSignalSys_first queued.chain.1]
      exact ⟨ys, queued.removeHead.1.activate y, fun out inside => out (List.mem_cons_of_mem y inside)⟩

theorem TimedInv.broadcast {now : Clocks} {p : TimedPoint} (inv : TimedInv c m i abstime t s)
    (inside : s.stage = .inside p) (clear : t ∈ condTaken c s.kernel → s.Late abstime t now) :
    TimedInv c m i abstime t { s with
      kernel := (pthreadCondBroadcastSys c s.kernel).1
      taken := if t ∈ condTaken c s.kernel then some now else s.taken } := by
  apply inv.others inside _ (inv.taken_late clear)
  apply TimedKept.condOnly (drain_condOnly c s.kernel)
  · intro sleeping
    by_cases first : t ∈ condTaken c s.kernel
    · exact Or.inl (inv.late_off inside sleeping (clear first))
    · right
      intro ready
      rw [drain_state, if_neg (fun both => first both.1)] at ready
      exact ready
  · intro xs queued
    exact ⟨[], queued.drain, fun _ => List.not_mem_nil⟩

omit [Fintype T] in
theorem TimedInv.link {p : TimedPoint} (inv : TimedInv c m i abstime t s) (inside : s.stage = .inside p)
    (other : s.kernel.currentThread ≠ t) (free : (condWaiters c).Free s.kernel s.kernel.currentThread) :
    TimedInv c m i abstime t { s with kernel := blockOn (condWaiters c) s.kernel } := by
  apply inv.others inside _ inv.late
  apply TimedKept.condOnly (blockOn_condOnly c s.kernel)
  · intro _
    right
    intro ready
    rw [blockOn_state, suspendThread_state, if_neg (fun both => other both.1.symm)] at ready
    exact ready
  · intro xs queued
    refine ⟨_, queued.blockOn (suspendThread_condLists c _ _) free, fun out inside => ?_⟩
    rcases List.mem_cons.mp inside with same | member
    · exact other same.symm
    · exact out member

omit [Fintype T] in
theorem TimedInv.leave {p : TimedPoint} (inv : TimedInv c m i abstime t s) (inside : s.stage = .inside p)
    (either : Linked s.kernel.condNode (s.kernel.cond c) u ∨ s.kernel.condNode u = detached) :
    TimedInv c m i abstime t { s with kernel := (condWaiters c).remove u s.kernel } := by
  apply inv.others inside _ inv.late
  apply TimedKept.condOnly
  · rfl
  · intro _
    right
    exact id
  · intro xs queued
    obtain ⟨ys, after, _, out⟩ := queued.leave (u := u) either
    exact ⟨ys, after, out⟩

omit [Fintype T] in
theorem TimedInv.rest {p : TimedPoint} (inv : TimedInv c m i abstime t s) (inside : s.stage = .inside p)
    (aside : TimedAside c m i t s w) : TimedInv c m i abstime t { s with kernel := w } := by
  apply inv.others inside _ inv.late
  refine .untouched aside.handle aside.timer (fun sleeping => Or.inr (aside.asleep sleeping)) aside.owner ?_
  intro xs queued
  refine ⟨xs, queued.congr aside.head fun u either => aside.nodes u ?_, id⟩
  exact either.imp_right fun member => Linked.of_mem member queued.chain

omit [Fintype T] in
theorem TimedInv.tick {fuel : Nat} {now : Nat → Clocks} {r : TimerRound T} {p : TimedPoint}
    (inv : TimedInv c m i abstime t s) (inside : s.stage = .inside p)
    (alone : s.stage.asleep = true → s.kernel.state t = readyThread ∨ Alone i t s.kernel)
    (ran : updateHwtimer fuel now s.kernel = .ok r) :
    TimedInv c m i abstime t { s with kernel := r.kernel } := by
  apply inv.others inside _ inv.late
  have only := (updateHwtimer_woken ran).1.only
  have handles := congrArg Kernel.sleepKtimer only
  have nodes := congrArg Kernel.condNode only
  have heads := congrArg Kernel.cond only
  have mutexes := congrArg Kernel.mutex only
  have use := updateHwtimer_inUse (i := i) ran
  have dozes : ∀ {k : Kernel T}, Sleeps i t k → Dozes i t k := fun sleeps =>
    ⟨sleeps.clock, sleeps.once, sleeps.served.imp_right And.left⟩
  refine ⟨congrFun handles t, ?_, use.1, use.2, ?_, ?_, ?_⟩
  · intro xs queued
    exact ⟨xs, queued.same (congrFun heads c) nodes, id⟩
  · intro clock once off
    have done := updateHwtimer_off once off ran
    exact ⟨⟨use.1.trans clock, done.1, Or.inl done.2⟩, done.2⟩
  · intro sleeping here
    have start : Sleeps i t s.kernel := by
      refine ⟨here.clock, here.once, ?_⟩
      rcases here.served with off | asleep
      · exact Or.inl off
      · rcases alone sleeping with ready | spared
        · exact absurd ready asleep
        · exact Or.inr ⟨asleep, spared⟩
    exact dozes (start.update ran)
  · intro owner
    exact (congrArg Mutex.owner (congrFun mutexes m)).trans owner

end

section
variable {c m i : Nat} {abstime : Timespec} {t : T} {s x : TimedRun T} {k w : Kernel T} {xs : List T}
  {entry : Duration} {waited : Bool} {taken woken : Option Clocks}

theorem timedSleep_asleep {fuel : Nat} {now : Nat → Clocks} {d : Duration} {r : Kernel T × TimedProgress}
    (queued : Queued (condWaiters c) t k xs) (out : t ∉ xs) (current : k.currentThread = t)
    (handle : timerAt (k.sleepKtimer t) = .ok i) (clock : (k.timerArray i).clock = .monotonic)
    (inUse : (k.timerArray i).inUse = true) (alone : Alone i t k)
    (ahead : TimedAhead i abstime t entry d now k) (ran : timedSleep (condWaiters c) fuel now d k = .ok r) :
    r.2 = .sched (.asleep d) ∧ timerAt (r.1.sleepKtimer t) = .ok i ∧
      (∃ ys, Queued (condWaiters c) t r.1 ys) ∧ Dozes i t r.1 ∧
      (abstime.time ≤ entry.toNat → r.1.state t ≠ suspendedThread) := by
  simp only [timedSleep, bind, bind_ok, pure, Except.pure] at ran
  obtain ⟨y, slept, eq⟩ := ran
  cases eq
  subst current
  have linked := queued.insert (queued.isFree out)
  have quiet := sleepFor_quiet slept
  have nodes := congrArg Kernel.condNode quiet
  have heads := congrArg Kernel.cond quiet
  have handles := congrArg Kernel.sleepKtimer quiet
  have sleeps := sleepFor_sleeps (k := (condWaiters c).insert k.currentThread k) handle inUse clock alone slept
  refine ⟨rfl, ?_, ⟨_, linked.same (congrFun heads c) nodes⟩,
    ⟨sleeps.clock, sleeps.once, sleeps.served.imp_right And.left⟩, fun past => ?_⟩
  · exact (congrArg timerAt (congrFun handles _)).trans handle
  · rcases ahead with later | ⟨rfl, fires⟩
    · omega
    · exact sleepFor_fires (k := (condWaiters c).insert k.currentThread k)
        ⟨fires.table, fires.off, fires.action, fires.owner, fires.relative, fires.first, fires.passes⟩
        handle inUse clock slept

theorem timedSleep_inv {fuel : Nat} {now : Nat → Clocks} {d : Duration} {r : Kernel T × TimedProgress}
    (queued : Queued (condWaiters c) t k xs) (out : t ∉ xs) (current : k.currentThread = t)
    (handle : timerAt (k.sleepKtimer t) = .ok i) (clock : (k.timerArray i).clock = .monotonic)
    (inUse : (k.timerArray i).inUse = true) (alone : Alone i t k)
    (ahead : TimedAhead i abstime t s.entry d now k) (ran : timedSleep (condWaiters c) fuel now d k = .ok r)
    (kernel : s.kernel = r.1) (stage : s.stage = r.2.stage)
    (waited : r.2.stage.asleep = true → s.waited = decide (r.1.state t = suspendedThread))
    (late : ∀ e, s.taken = some e → abstime.time ≤ e.realtime.toNat) : TimedInv c m i abstime t s := by
  obtain ⟨asleep, handle', ⟨ys, listed⟩, dozes, wakes⟩ :=
    timedSleep_asleep queued out current handle clock inUse alone ahead ran
  rw [asleep] at stage waited
  refine ⟨?_, ⟨ys, ?_, fun off => ?_⟩, late, fun past => ?_, ?_⟩
  · rw [kernel]
    exact handle'
  · rw [kernel]
    exact listed
  · rw [stage] at off
    cases off
  · rw [waited rfl]
    exact decide_eq_false (wakes past)
  · simp only [TimedAt, stage, TimedProgress.stage]
    rw [kernel]
    exact dozes

theorem mutexLockLoop_held (m : Nat) (k : Kernel T) (goes : (mutexLockLoop m k).2 ≠ .blocked) :
    ((mutexLockLoop m k).1.mutex m).owner = some k.currentThread := by
  obtain ⟨taken, kept, _⟩ := mutexLockLoop_owner m k
  by_cases free : (k.mutex m).owner = none
  · exact taken free
  · rw [kept free]
    by_contra other
    apply goes
    simp only [mutexLockLoop]
    rw [if_neg free, if_neg (fun both => other both.1), if_neg (fun both => other both.1)]

theorem condTimedRelock_inv {now : Clocks} (current : k.currentThread = t)
    (handle : timerAt (k.sleepKtimer t) = .ok i) (queued : Queued (condWaiters c) t k xs) (out : t ∉ xs)
    (ended : TimedRun.Ended i abstime ⟨k, .returned 0, entry, waited, taken, woken⟩)
    (late : ∀ e, taken = some e → abstime.time ≤ e.realtime.toNat)
    (prompt : abstime.time ≤ entry.toNat → waited = false) (positive : 0 < now.monotonic) :
    TimedInv c m i abstime t
      ((⟨k, .returned 0, entry, waited, taken, woken⟩ : TimedRun T).goes t (condTimedRelock now m 0 k)) := by
  have only := mutexLockLoop_only m k
  have handles := congrArg Kernel.sleepKtimer only
  have timers := congrArg Kernel.timerArray only
  have nodes := congrArg Kernel.condNode only
  have heads := congrArg Kernel.cond only
  have runs := congrArg Kernel.currentThread only
  have handle' : timerAt ((mutexLockLoop m k).1.sleepKtimer t) = .ok i :=
    (congrArg timerAt (congrFun handles t)).trans handle
  have queued' : Queued (condWaiters c) t (mutexLockLoop m k).1 xs :=
    queued.same (congrFun heads c) nodes
  have timer : (mutexLockLoop m k).1.timerArray i = k.timerArray i := congrFun timers i
  have clock := ended.clock
  have once := ended.once
  have off := ended.off
  simp only [← timer] at clock once off
  have held := mutexLockLoop_held m k
  rw [current] at held
  rcases eq : mutexLockLoop m k with ⟨w, step⟩
  rw [eq] at handle' queued' clock once off held runs
  cases step with
  | ret v =>
    have ends : condTimedRelock now m 0 k = (setErrno etimedout w, .ret (-1)) := by
      simp only [condTimedRelock, eq]
      exact if_pos positive
    have mine : w.currentThread = t := runs.trans current
    rw [ends]
    refine ⟨handle', ⟨xs, queued'.same rfl rfl, fun _ => out⟩, late, prompt, rfl, ?_, ?_, ?_⟩
    · rw [← mine]
      exact setErrno_self etimedout w
    · exact ⟨clock, once, off, ended.woken⟩
    · exact held (by simp)
  | blocked =>
    have ends : condTimedRelock now m 0 k = (w, .sched (.relock 0)) := by simp only [condTimedRelock, eq]
    rw [ends]
    exact ⟨handle', ⟨xs, queued', fun _ => out⟩, late, prompt, rfl, ⟨clock, once, off, ended.woken⟩⟩
  | raised =>
    have ends : condTimedRelock now m 0 k = (w, .sched (.raised 0)) := by simp only [condTimedRelock, eq]
    rw [ends]
    exact ⟨handle', ⟨xs, queued', fun _ => out⟩, late, prompt, rfl, ⟨clock, once, off, ended.woken⟩,
      held (by simp)⟩

theorem TimedInv.proceed [Fintype T] {fuel : Nat} {now : Nat → Clocks} {p : TimedPoint}
    {r : Kernel T × TimedProgress} (inv : TimedInv c m i abstime t s) (inside : s.stage = .inside p)
    (current : s.kernel.currentThread = t) (legal : (TimedTurn.proceed fuel now).Legal c m i t s)
    (clear : (TimedTurn.proceed fuel now).Clear c i abstime t s) (ran : p.run fuel now c m s.kernel = .ok r) :
    TimedInv c m i abstime t
      { s.goes t r with woken := if s.stage.asleep then some (now 0) else s.woken } := by
  obtain ⟨xs, queued, out⟩ := inv.listed
  obtain ⟨ready, alone⟩ := legal
  have point := inv.point
  simp only [TimedTurn.Clear, inside] at clear
  simp only [TimedAt, inside] at point
  simp only [inside] at out alone ⊢
  cases p with
  | unlocked d =>
    exact timedSleep_inv queued (out rfl) current inv.handle point.1 point.2 (alone d rfl) clear ran rfl rfl
      (fun asleep => if_pos asleep) inv.late
  | asleep d =>
    obtain ⟨reached, passed, positive⟩ := clear
    simp only [TimedPoint.run, condTimedWoken, bind, bind_ok, pure, Except.pure] at ran
    obtain ⟨rest, read, eq⟩ := ran
    cases eq
    have zero : rest = 0 := by
      simp only [sleepRest, current, inv.handle, bind, Except.bind, readClock, point.clock, pure,
        Except.pure, if_neg (BitVec.not_lt.mpr reached)] at read
      exact (Except.ok.inj read).symm
    subst zero
    obtain ⟨ys, after, gone, _⟩ := queued.leave queued.either
    rw [current]
    refine condTimedRelock_inv (k := (condWaiters c).remove t s.kernel) current ?_ after gone ?_ inv.late
      inv.prompt positive
    · exact inv.handle
    · exact ⟨point.clock, point.once, point.off ready, ⟨now 0, rfl, passed⟩⟩
  | relock rest =>
    cases ran
    obtain ⟨rfl, ended⟩ := point
    refine condTimedRelock_inv current inv.handle queued (out rfl) ?_ inv.late inv.prompt clear
    exact ⟨ended.clock, ended.once, ended.off, ended.woken⟩
  | raised rest =>
    cases ran
    obtain ⟨rfl, ended, owner⟩ := point
    have ends : condTimedEnd (now 0) 0 s.kernel = (setErrno etimedout s.kernel, .ret (-1)) := if_pos clear
    rw [ends]
    refine ⟨inv.handle, ⟨xs, queued.same rfl rfl, fun _ => out rfl⟩, inv.late, inv.prompt, rfl, ?_,
      ⟨ended.clock, ended.once, ended.off, ended.woken⟩, owner⟩
    rw [← current]
    exact setErrno_self etimedout s.kernel

variable [Fintype T]

theorem TimedInv.step {l : TimedTurn T} {es : List Unit} (inv : TimedInv c m i abstime t s)
    (legal : l.Legal c m i t s) (clear : l.Clear c i abstime t s)
    (taken : TimedRun.step c m t s l = some (x, es)) : TimedInv c m i abstime t x := by
  obtain ⟨k, stage, entry, waited, tk, woken⟩ := s
  cases stage with
  | returned v => cases taken
  | inside p =>
    cases l with
    | proceed fuel now =>
      simp only [TimedRun.step] at taken
      split at taken
      · rename_i current
        split at taken
        · rename_i r ran
          cases taken
          exact inv.proceed rfl current legal clear ran
        · cases taken
      · cases taken
    | tick fuel now =>
      simp only [TimedRun.step] at taken
      split at taken
      · rename_i r ran
        cases taken
        exact inv.tick rfl legal ran
      · cases taken
    | signal now =>
      cases taken
      exact inv.signal rfl clear
    | broadcast now =>
      cases taken
      exact inv.broadcast rfl clear
    | link n =>
      cases taken
      exact inv.link rfl legal.1 legal.2
    | leave =>
      cases taken
      exact inv.leave rfl legal.2
    | rest w =>
      cases taken
      exact inv.rest rfl legal

theorem TimedStart.begins {fuel : Nat} {now : Nat → Clocks} {r : Kernel T × TimedProgress}
    (start : TimedStart c m i k)
    (ahead : TimedAhead i abstime k.currentThread (now 0).realtime (abstime.nsecs - (now 0).realtime)
      (fun n => now (n + 1)) (mutexUnlock m k).1)
    (called : pthreadCondTimedwaitSys fuel now (some c) (some m) (some abstime) k = .ok r) :
    TimedInv c m i abstime k.currentThread (.begin k.currentThread (now 0) r) := by
  obtain ⟨xs, queued⟩ := start.listed
  have out := start.free.not_mem queued
  have only := mutexUnlock_only m k
  have handles := congrArg Kernel.sleepKtimer only
  have timers := congrArg Kernel.timerArray only
  have nodes := congrArg Kernel.condNode only
  have heads := congrArg Kernel.cond only
  have runs : (mutexUnlock m k).1.currentThread = k.currentThread := only.others.2.2.2.2
  have handle : timerAt ((mutexUnlock m k).1.sleepKtimer k.currentThread) = .ok i :=
    (congrArg timerAt (congrFun handles _)).trans start.handle
  have queued' : Queued (condWaiters c) k.currentThread (mutexUnlock m k).1 xs :=
    queued.same (congrFun heads c) nodes
  have timer : (mutexUnlock m k).1.timerArray i = k.timerArray i := congrFun timers i
  have clock := start.clock
  have inUse := start.inUse
  rw [← timer] at clock inUse
  have alone := start.alone
  simp only [pthreadCondTimedwaitSys] at called
  rw [if_neg (not_not.mpr start.owner)] at called
  split at called
  · rename_i w v eq
    rw [eq] at handle queued' clock inUse alone runs ahead
    exact timedSleep_inv queued' out runs handle clock inUse alone ahead called rfl rfl
      (fun asleep => if_pos asleep) fun e never => by cases never
  · rename_i w eq
    rw [eq] at handle queued' clock inUse
    cases called
    exact ⟨handle, ⟨xs, queued', fun _ => out⟩, (fun e never => by cases never), fun _ => rfl, clock, inUse⟩

theorem cond_timedwait_right (c m i : Nat) (abstime : Timespec) (k : Kernel T) (start : TimedStart c m i k)
    (fuel : Nat) (now : Nat → Clocks) (r : Kernel T × TimedProgress)
    (called : pthreadCondTimedwaitSys fuel now (some c) (some m) (some abstime) k = .ok r)
    (ahead : TimedAhead i abstime k.currentThread (now 0).realtime (abstime.nsecs - (now 0).realtime)
      (fun n => now (n + 1)) (mutexUnlock m k).1) (ls : List (TimedTurn T)) (x : TimedRun T)
    (es : List Unit)
    (legal : Lts.Along (TimedRun.step c m k.currentThread) (fun s l => l.Legal c m i k.currentThread s)
      (.begin k.currentThread (now 0) r) ls)
    (clear : Lts.Along (TimedRun.step c m k.currentThread) (fun s l => l.Clear c i abstime k.currentThread s)
      (.begin k.currentThread (now 0) r) ls)
    (run : Lts.exec (TimedRun.step c m k.currentThread) (.begin k.currentThread (now 0) r) ls = some (x, es))
    (v : Int) (returned : x.stage = .returned v) : TimedRight c m abstime k.currentThread x v := by
  have inv := Lts.exec_keeps (fun s => TimedInv c m i abstime k.currentThread s)
    (fun s l w first inv ok taken => TimedInv.step inv ok.1 ok.2 taken) ls
    (start.begins ahead called) (legal.and clear) run
  exact inv.right returned

end

theorem scheduling_aside (c m i : Nat) (t : T) (s : TimedRun T) (now : Duration) :
    TimedAside c m i t s (scheduling now s.kernel) := by
  have only := scheduling_only now s.kernel
  have heads := congrArg Kernel.cond only
  have nodes := congrArg Kernel.condNode only
  have handles := congrArg Kernel.sleepKtimer only
  have timers := congrArg Kernel.timerArray only
  have flags := congrArg Kernel.threadFlags only
  have mutexes := congrArg Kernel.mutex only
  refine ⟨congrFun heads c, fun u _ => congrFun nodes u, congrFun handles t, congrFun timers i, fun _ ready => ?_,
    fun owner => ?_⟩
  · exact (Kernel.state_of_flags flags _).symm.trans ready
  · exact (congrArg Mutex.owner (congrFun mutexes m)).trans owner

def ownsMutex : Kernel (Fin 2) := (mutexLockLoop 0 twoThreads).1

theorem ownsMutex_start : TimedStart 0 0 1 ownsMutex where
  owner := by decide
  free := by decide
  listed := ⟨[], rfl, List.nodup_nil, fun _ => by decide⟩
  handle := by decide
  inUse := by decide
  clock := by decide
  alone := by
    intro j held
    obtain ⟨p, low, high, _⟩ := held
    have empty : (mutexUnlock 0 ownsMutex).1.timerHeap.nelem = 0 := by decide +kernel
    omega

theorem TimedRun.ticked [Fintype T] {c m fuel : Nat} {now : Nat → Clocks} {t : T} {s x : TimedRun T}
    {es : List Unit} (taken : TimedRun.step c m t s (.tick fuel now) = some (x, es)) :
    ∃ r, updateHwtimer fuel now s.kernel = .ok r ∧ x = { s with kernel := r.kernel } := by
  simp only [TimedRun.step] at taken
  split at taken
  · cases taken
  · rename_i stage turn
    cases turn
  · rename_i p fuel' now' stage turn
    cases turn
    split at taken
    · rename_i r ran
      cases taken
      exact ⟨r, ran, rfl⟩
    · cases taken
  all_goals
    rename_i turn
    cases turn

def timerServed (x : Kernel (Fin 2)) : Kernel (Fin 2) :=
  ((updateHwtimer 3 (fun _ => ⟨1010, 10⟩) (scheduling 0 x)).toOption.map TimerRound.kernel).getD x

/-- Thread 0 runs, an interrupt comes after 10 ns and wakes thread 1, and thread 0
    signals it once more before it goes on. -/
def outOfTime (x : Kernel (Fin 2)) : List (TimedTurn (Fin 2)) :=
  [.rest (scheduling 0 x), .tick 3 (fun _ => ⟨1010, 10⟩), .signal ⟨1012, 12⟩,
    .rest (scheduling 0 (pthreadCondSignalSys 0 (timerServed x)).1), .proceed 3 (fun _ => ⟨1014, 14⟩)]

theorem cond_timedwait_right_ten :
    ∃ r x es, pthreadCondTimedwaitSys 3 callClocks (some 0) (some 0) (some ⟨0, 10⟩) ownsMutex = .ok r ∧
      r.1.state 1 = suspendedThread ∧
      Lts.exec (TimedRun.step 0 0 1) (.begin 1 (callClocks 0) r) (outOfTime r.1) = some (x, es) ∧
      x.kernel.errno 1 = etimedout ∧ TimedRight 0 0 ⟨0, 10⟩ 1 x (-1) := by
  obtain ⟨⟨w, p⟩, called, rest⟩ := Option.bind_eq_some_iff.mp
    (by decide +kernel : ((pthreadCondTimedwaitSys 3 callClocks (some 0) (some 0) (some ⟨0, 10⟩)
      ownsMutex).toOption.bind fun r : Kernel (Fin 2) × TimedProgress =>
        (Lts.exec (TimedRun.step 0 0 1) (.begin 1 (callClocks 0) r) (outOfTime r.1)).map
          fun q : TimedRun (Fin 2) × List Unit => decide (r.2 = .sched (.asleep 10) ∧ r.1.state 1 = suspendedThread ∧
            (scheduling 0 r.1).timerHeap.nelem = 1 ∧ (scheduling 0 r.1).timerHeap.array 1 = some 1 ∧
            (timerServed r.1).currentThread ≠ 1 ∧ (timerServed r.1).state 1 = readyThread ∧
            (scheduling 0 (pthreadCondSignalSys 0 (timerServed r.1)).1).state 1 = readyThread ∧
            q.1.stage = .returned (-1) ∧ q.1.kernel.errno 1 = etimedout)) = some true)
  obtain ⟨⟨x, es⟩, run, facts⟩ := Option.map_eq_some_iff.mp rest
  obtain ⟨asleep, suspended, one, top, other, served, ready, returned, errno⟩ := of_decide_eq_true facts
  cases asleep
  have alone : Alone 1 1 (scheduling 0 w) := by
    intro j held apart
    obtain ⟨p, low, high, here⟩ := held
    have first : p = 1 := le_antisymm (high.trans_eq one) low
    rw [first, top] at here
    exact absurd (Option.some.inj here).symm apart
  refine ⟨_, x, es, ok_of_toOption called, suspended, run, errno, ?_⟩
  have along : Lts.Along (TimedRun.step 0 0 1)
      (fun s l => l.Legal 0 0 1 1 s ∧ l.Clear 0 1 ⟨0, 10⟩ 1 s) (.begin 1 (callClocks 0) (w, .sched (.asleep 10)))
      (outOfTime w) := by
    refine ⟨⟨scheduling_aside 0 0 1 1 _ 0, trivial⟩, fun s es took => ?_⟩
    cases took
    refine ⟨⟨fun _ => Or.inr alone, trivial⟩, fun s es took => ?_⟩
    obtain ⟨r, ran, rfl⟩ := TimedRun.ticked took
    have same : r.kernel = timerServed w := by
      simp only [timerServed, ran]
      rfl
    rw [same]
    refine ⟨⟨other, fun _ => ⟨served, by decide⟩⟩, fun s es took => ?_⟩
    cases took
    refine ⟨⟨scheduling_aside 0 0 1 1 _ 0, trivial⟩, fun s es took => ?_⟩
    cases took
    refine ⟨⟨⟨ready, fun d same => ?_⟩, by decide, by decide, by decide⟩, fun _ _ _ => trivial⟩
    cases same
  exact cond_timedwait_right 0 0 1 ⟨0, 10⟩ ownsMutex ownsMutex_start 3 callClocks _ (ok_of_toOption called)
    (Or.inl (by decide)) _ x es (along.mono fun _ _ both => both.1) (along.mono fun _ _ both => both.2) run (-1) returned

def signalledBack (x : Kernel (Fin 2)) : List (TimedTurn (Fin 2)) :=
  let y := scheduling 0 x
  [.rest y, .signal ⟨1001, 1⟩, .rest (scheduling 0 (pthreadCondSignalSys 0 y).1), .proceed 3 (fun _ => ⟨1001, 1⟩)]

/-- The wake-up comes after 1 ns of 10, and the caller is told that its time is over; and
    its timer is still armed. -/
theorem cond_timedwait_signalled :
    ∃ r x es, pthreadCondTimedwaitSys 3 callClocks (some 0) (some 0) (some ⟨0, 10⟩) ownsMutex = .ok r ∧
      TimedStart 0 0 1 ownsMutex ∧
      Lts.Along (TimedRun.step 0 0 1) (fun s l => l.Legal 0 0 1 1 s) (.begin 1 (callClocks 0) r)
        (signalledBack r.1) ∧
      Lts.exec (TimedRun.step 0 0 1) (.begin 1 (callClocks 0) r) (signalledBack r.1) = some (x, es) ∧
      x.stage = .returned (-1) ∧ x.TakenBefore ⟨0, 10⟩ ∧ (x.kernel.timerArray 1).armed = true ∧
      ¬TimedRight 0 0 ⟨0, 10⟩ 1 x (-1) := by
  obtain ⟨⟨w, p⟩, called, rest⟩ := Option.bind_eq_some_iff.mp
    (by decide +kernel : ((pthreadCondTimedwaitSys 3 callClocks (some 0) (some 0) (some ⟨0, 10⟩)
      ownsMutex).toOption.bind fun r : Kernel (Fin 2) × TimedProgress =>
        (Lts.exec (TimedRun.step 0 0 1) (.begin 1 (callClocks 0) r) (signalledBack r.1)).map
          fun q : TimedRun (Fin 2) × List Unit => decide (r.2 = .sched (.asleep 10) ∧
            (scheduling 0 r.1).currentThread ≠ 1 ∧
            (scheduling 0 (pthreadCondSignalSys 0 (scheduling 0 r.1)).1).state 1 = readyThread ∧
            q.1.stage = .returned (-1) ∧ q.1.taken = some ⟨1001, 1⟩ ∧ (q.1.kernel.timerArray 1).armed = true)) =
      some true)
  obtain ⟨⟨x, es⟩, run, facts⟩ := Option.map_eq_some_iff.mp rest
  obtain ⟨asleep, other, ready, returned, taken, armed⟩ := of_decide_eq_true facts
  cases asleep
  have before : x.TakenBefore ⟨0, 10⟩ := ⟨⟨1001, 1⟩, taken, by decide⟩
  refine ⟨_, x, es, ok_of_toOption called, ownsMutex_start, ?_, run, returned, before, armed, fun right => ?_⟩
  · refine ⟨scheduling_aside 0 0 1 1 _ 0, fun s es took => ?_⟩
    cases took
    refine ⟨other, fun s es took => ?_⟩
    cases took
    refine ⟨scheduling_aside 0 0 1 1 _ 0, fun s es took => ?_⟩
    cases took
    refine ⟨⟨ready, fun d same => ?_⟩, fun _ _ _ => trivial⟩
    cases same
  · have zero := right.signalled before
    cases zero

end L4ertl
