import L4ertl.System.DividedRuns

/-!
A thread and the one thread that joins it, with interrupts between their statements.
pthread_join_sys looks at the state of the thread, puts itself on record and goes to
sleep in separate steps, and pthread_exit_sys looks for the joiner after it has left
the ready lists, so that the two can miss each other. They do not if the thread stays
out of the window between the look and the sleep, and gets through its own exit.
-/
namespace L4ertl
open Intrusive
variable {T : Type} [DecidableEq T]

def Frame.joining (t : T) (f : Frame T) : Option JoinPoint :=
  match f.activity with
  | .join u p => if u = t then some p else none
  | _ => none

def Frame.exiting (f : Frame T) : Option (Word × ExitPoint) :=
  match f.activity with
  | .exit value p => some (value, p)
  | _ => none

def Ongoing.removes : Ongoing T → Option T
  | .detach t _ | .deleteNp t _ => some t
  | _ => none

def joinsIn (t : T) (fs : List (Frame T)) : List JoinPoint := fs.filterMap (Frame.joining t)

def exitsIn (fs : List (Frame T)) : List (Word × ExitPoint) := fs.filterMap Frame.exiting

def DividedSystem.joins (s : DividedSystem T) (t u : T) : List JoinPoint := joinsIn t (s.frames u)

def DividedSystem.exits (s : DividedSystem T) (u : T) : List (Word × ExitPoint) := exitsIn (s.frames u)

/-- Between a look that has found the thread active and the end of suspend_thread. -/
def JoinPoint.deciding : JoinPoint → Bool
  | .loop cState | .reattached cState => cState != finishedThread
  | .register | .suspend => true
  | _ => false

/-- In the call of scheduling, or back from it and not looking yet. -/
def JoinPoint.sleeping : JoinPoint → Bool
  | .call | .relook => true
  | _ => false

def DividedSystem.Deciding (s : DividedSystem T) (t j : T) : Prop :=
  ∃ p ∈ s.joins t j, p.deciding = true

def DividedSystem.Asleep (s : DividedSystem T) (t j : T) : Prop :=
  s.kernel.state j = suspendedThread ∧ ∃ p ∈ s.joins t j, p.sleeping = true

instance (s : DividedSystem T) (t j : T) : Decidable (s.Deciding t j) :=
  inferInstanceAs (Decidable (∃ p ∈ s.joins t j, p.deciding = true))

instance (s : DividedSystem T) (t j : T) : Decidable (s.Asleep t j) :=
  inferInstanceAs (Decidable (_ ∧ ∃ p ∈ s.joins t j, p.sleeping = true))

/-- Only `j` joins `t`, nobody detaches or deletes it, its structure is not used for
    another thread, and it exits once. -/
def DividedSystem.OneJoiner [Fintype T] (s : DividedSystem T) (t j : T) : DividedLabel T → Prop
  | .join u => u = t → s.kernel.currentThread = j
  | .detach u | .deleteNp u | .create u _ => u ≠ t
  | .exit _ => s.kernel.currentThread = t → s.exits t = [] ∧ s.settled.state t ≠ finishedThread
  | _ => True

def Ongoing.isWake : Ongoing T → Bool
  | .exit _ .wake => true
  | _ => false

def Ongoing.isClear : Ongoing T → Bool
  | .detach _ .clear => true
  | _ => false

def Ongoing.isBlock : Ongoing T → Bool
  | .block => true
  | _ => false

def DividedSystem.before (s : DividedSystem T) (q : Ongoing T → Bool) : Bool :=
  s.here.head?.any fun f => q f.activity

/-- `t` does not look for its joiner while `j` is about to go to sleep, and does not
    forget a joiner that sleeps or is about to; nor is `j` put to sleep once more inside
    the call when `t` is FINISHED or has forgotten it. -/
structure DividedSystem.NoMiss (s : DividedSystem T) (t j : T) : Prop where
  looks : s.kernel.currentThread = t → s.before Ongoing.isWake = true → ¬s.Deciding t j
  forgets : s.kernel.currentThread = t → s.before Ongoing.isClear = true →
    JoinPoint.suspend ∉ s.joins t j ∧ ¬s.Asleep t j
  sleeps : s.kernel.currentThread = j → s.before Ongoing.isBlock = true →
    (∃ p ∈ s.joins t j, p.sleeping = true) →
    s.kernel.state t ≠ finishedThread ∧ s.kernel.joiningThread t = some j

/-- `t` is not switched away from between finish_thread and the store of exit_value, nor
    before it has looked for its joiner if that sleeps or is about to. -/
def DividedSystem.ThroughExit (s : DividedSystem T) (t j : T) : Prop :=
  ∀ new ∈ chosen s.irq.here, new ≠ s.kernel.currentThread → s.kernel.currentThread = t →
    ∀ x ∈ s.exits t, x.2 ≠ .value ∧ (x.2 = .wake → ¬s.Deciding t j ∧ ¬s.Asleep t j)

def DividedSystem.Meeting [Fintype T] (s : DividedSystem T) (t j : T) : DividedLabel T → Prop
  | .next => s.NoMiss t j
  | .irq (.switch _) => s.ThroughExit t j
  | l => s.OneJoiner t j l

instance [Fintype T] (s : DividedSystem T) (t j : T) : (l : DividedLabel T) → Decidable (s.OneJoiner t j l)
  | .join u => inferInstanceAs (Decidable (u = t → s.kernel.currentThread = j))
  | .detach u | .deleteNp u | .create u _ => inferInstanceAs (Decidable (u ≠ t))
  | .exit _ => inferInstanceAs (Decidable (s.kernel.currentThread = t →
      s.exits t = [] ∧ s.settled.state t ≠ finishedThread))
  | .irq _ | .next | .block | .activate _ | .changePrio _ _ | .setschedparam _ _ | .yield => isTrue trivial

instance (s : DividedSystem T) (t j : T) : Decidable (s.NoMiss t j) :=
  decidable_of_iff
    ((s.kernel.currentThread = t → s.before Ongoing.isWake = true → ¬s.Deciding t j) ∧
      (s.kernel.currentThread = t → s.before Ongoing.isClear = true →
        JoinPoint.suspend ∉ s.joins t j ∧ ¬s.Asleep t j) ∧
      (s.kernel.currentThread = j → s.before Ongoing.isBlock = true →
        (∃ p ∈ s.joins t j, p.sleeping = true) →
        s.kernel.state t ≠ finishedThread ∧ s.kernel.joiningThread t = some j))
    ⟨fun ok => ⟨ok.1, ok.2.1, ok.2.2⟩, fun ok => ⟨ok.looks, ok.forgets, ok.sleeps⟩⟩

instance (s : DividedSystem T) (t j : T) : Decidable (s.ThroughExit t j) :=
  inferInstanceAs (Decidable (∀ new ∈ chosen s.irq.here, new ≠ s.kernel.currentThread →
    s.kernel.currentThread = t →
    ∀ x ∈ s.exits t, x.2 ≠ .value ∧ (x.2 = .wake → ¬s.Deciding t j ∧ ¬s.Asleep t j)))

instance [Fintype T] (s : DividedSystem T) (t j : T) : (l : DividedLabel T) → Decidable (s.Meeting t j l)
  | .next => inferInstanceAs (Decidable (s.NoMiss t j))
  | .irq (.switch _) => inferInstanceAs (Decidable (s.ThroughExit t j))
  | .irq .enter | .irq .leave | .irq .check | .irq .ret | .irq .call | .irq .pick | .irq .finish
  | .irq (.work _) | .block | .activate _ | .changePrio _ _ | .setschedparam _ _ | .yield => isTrue trivial
  | .join u => inferInstanceAs (Decidable (s.OneJoiner t j (.join u)))
  | .detach u => inferInstanceAs (Decidable (s.OneJoiner t j (.detach u)))
  | .deleteNp u => inferInstanceAs (Decidable (s.OneJoiner t j (.deleteNp u)))
  | .create u attr => inferInstanceAs (Decidable (s.OneJoiner t j (.create u attr)))
  | .exit value => inferInstanceAs (Decidable (s.OneJoiner t j (.exit value)))

/-- A thread is in one call that is about another thread at a time. -/
def DividedSystem.Single (s : DividedSystem T) : Prop :=
  ∀ u, (s.frames u).countP (fun f => f.activity.target.isSome) ≤ 1

structure Awaited (t j : T) (s : DividedSystem T) : Prop where
  alive : s.kernel.live t = true
  there : s.freed t = false
  magic : s.kernel.magicNumber t = pthreadMagicNumber
  flag : getThreadDetachState (s.kernel.threadFlags t) = 0#32
  mine : ∀ u, ∀ p ∈ s.joins t u, u = j
  kept : ∀ u, ∀ f ∈ s.frames u, f.activity.removes ≠ some t

/-- How far the call may be while `t` is active. -/
def JoinPoint.open_ : JoinPoint → Prop
  | .loop cState | .reattached cState => cState ≠ finishedThread
  | .value | .delete _ | .ret _ => False
  | _ => True

/-- How far it may be once `t` has left its exit with this value: it has not looked yet, or
    has seen that `t` is FINISHED. -/
def JoinPoint.past (value : Word) : JoinPoint → Prop
  | .loop cState | .reattached cState => cState = finishedThread
  | .register | .suspend | .ret _ => False
  | .delete v => v = value
  | _ => True

structure DividedSystem.Waits [Fintype T] (s : DividedSystem T) (t j : T) : Prop where
  place : ∀ p ∈ s.joins t j, p.open_
  record : JoinPoint.suspend ∈ s.joins t j → s.kernel.joiningThread t = some j
  asleep : ∀ p ∈ s.joins t j, p.sleeping = true →
    (s.settled.state j = suspendedThread ∧ s.kernel.joiningThread t = some j) ∨
      s.settled.state j = readyThread ∨ s.settled.state j = finishedThread

/-- The life of a thread, with the events about it so far. From finish_thread to the look
    for the joiner it runs by itself; after that it does not come back. -/
inductive DividedLife [Fintype T] (t j : T) (s : DividedSystem T) : List (JoinEvent T) → Prop where
  | running (here : Awaited t j s) (active : s.settled.state t ≠ finishedThread)
      (exits : s.exits t = [] ∨ ∃ v p, s.exits t = [(v, p)] ∧ (p = .timer ∨ p = .finish))
      (waits : s.Waits t j) : DividedLife t j s []
  | quitting (value : Word) (here : Awaited t j s) (ended : s.settled.state t = finishedThread)
      (self : s.kernel.currentThread = t) (exits : s.exits t = [(value, .value)])
      (waits : s.Waits t j) : DividedLife t j s []
  | stored (value : Word) (here : Awaited t j s) (ended : s.settled.state t = finishedThread)
      (self : s.kernel.currentThread = t) (exits : s.exits t = [(value, .wake)])
      (waits : s.Waits t j) : DividedLife t j s [.exited t (s.exitValue t)]
  | ended (here : Awaited t j s) (ended : s.settled.state t = finishedThread)
      (left : s.kernel.currentThread = t → s.exits t = [])
      (place : ∀ p ∈ s.joins t j, p.past (s.exitValue t))
      (woken : ∀ p ∈ s.joins t j, p.sleeping = true →
        s.settled.state j = readyThread ∨ s.settled.state j = finishedThread) :
      DividedLife t j s [.exited t (s.exitValue t)]
  | reaped (value : Word) (gone : s.freed t = true) (away : s.kernel.currentThread ≠ t)
      (kept : ∀ u, ∀ f ∈ s.frames u, f.activity.removes ≠ some t)
      (mine : ∀ u, ∀ p ∈ s.joins t u, u = j) (place : ∀ p ∈ s.joins t j, p = .ret value) :
      DividedLife t j s [.exited t value, .deleted t]
  | joined (value : Word) (gone : s.freed t = true) (away : s.kernel.currentThread ≠ t)
      (kept : ∀ u, ∀ f ∈ s.frames u, f.activity.removes ≠ some t)
      (left : ∀ u, s.joins t u = []) :
      DividedLife t j s [.exited t value, .deleted t, .joined j t value]

structure Untouched [Fintype T] (t : T) (s w : DividedSystem T) : Prop where
  alive : s.kernel.live t = true → w.kernel.live t = true
  there : w.freed t = s.freed t
  magic : w.kernel.magicNumber t = s.kernel.magicNumber t
  flag : getThreadDetachState (w.kernel.threadFlags t) = getThreadDetachState (s.kernel.threadFlags t)
  ended : w.settled.state t = finishedThread ↔ s.settled.state t = finishedThread
  kept : ∀ u, ∀ f ∈ w.frames u, f.activity.removes = some t → ∃ g ∈ s.frames u, g.activity.removes = some t

/-- A step that neither takes `t` through its exit nor `j` through its call. `t` may
    forget its joiner and `j` be put to sleep where that does no harm. -/
structure Aside [Fintype T] (t j : T) (s w : DividedSystem T) : Prop extends Untouched t s w where
  value : w.exitValue t = s.exitValue t
  exits : w.exits t = s.exits t
  current : w.kernel.currentThread = s.kernel.currentThread
  joins : ∀ u, ∀ p ∈ w.joins t u, p ∈ s.joins t u
  record : w.kernel.joiningThread t = s.kernel.joiningThread t ∨
    s.kernel.currentThread = t ∧ JoinPoint.suspend ∉ s.joins t j ∧
      ∀ p ∈ s.joins t j, p.sleeping = true → s.settled.state j ≠ suspendedThread
  joiner : ∀ p ∈ w.joins t j, p.sleeping = true →
    w.settled.state j = s.settled.state j ∨ w.settled.state j = readyThread ∨
      w.settled.state j = finishedThread ∨
      s.kernel.currentThread = j ∧ w.settled.state j = suspendedThread ∧
        s.settled.state t ≠ finishedThread ∧ s.kernel.joiningThread t = some j

section
variable [Fintype T] {t j : T} {s w : DividedSystem T}

theorem Awaited.untouched (here : Awaited t j s) (same : Untouched t s w)
    (mine : ∀ u, ∀ p ∈ w.joins t u, u = j) : Awaited t j w := by
  refine ⟨same.alive here.alive, same.there.trans here.there, same.magic.trans here.magic,
    same.flag.trans here.flag, mine, fun u f member removes => ?_⟩
  obtain ⟨g, before, also⟩ := same.kept u f member removes
  exact here.kept u g before also

theorem Awaited.aside (here : Awaited t j s) (aside : Aside t j s w) : Awaited t j w :=
  here.untouched aside.toUntouched fun u p member => here.mine u p (aside.joins u p member)

theorem DividedSystem.Waits.aside (waits : s.Waits t j) (other : j ≠ t) (aside : Aside t j s w) :
    w.Waits t j := by
  refine ⟨fun p member => waits.place p (aside.joins j p member), fun member => ?_, fun p member sleeping => ?_⟩
  · have before := aside.joins j _ member
    rcases aside.record with same | ⟨_, none_, _⟩
    · rw [same]
      exact waits.record before
    · exact absurd before none_
  · have before := aside.joins j p member
    have recorded : s.kernel.joiningThread t = some j → s.settled.state j = suspendedThread →
        w.kernel.joiningThread t = some j := by
      intro joins asleep
      rcases aside.record with same | ⟨_, _, awake⟩
      · rw [same]
        exact joins
      · exact absurd asleep (awake p before sleeping)
    rcases aside.joiner p member sleeping with same | ready | stopped | ⟨self, asleep, safe⟩
    · rw [same]
      rcases waits.asleep p before sleeping with ⟨asleep, joins⟩ | awake
      · exact Or.inl ⟨asleep, recorded joins asleep⟩
      · exact Or.inr awake
    · exact Or.inr (Or.inl ready)
    · exact Or.inr (Or.inr stopped)
    · rcases aside.record with same | ⟨mine, _⟩
      · rw [same]
        exact Or.inl ⟨asleep, safe.2⟩
      · exact absurd (self.symm.trans mine) other

theorem DividedLife.aside {es : List (JoinEvent T)} (life : DividedLife t j s es) (other : j ≠ t)
    (aside : Aside t j s w) : DividedLife t j w es := by
  have kept : (∀ u, ∀ f ∈ s.frames u, f.activity.removes ≠ some t) →
      ∀ u, ∀ f ∈ w.frames u, f.activity.removes ≠ some t := by
    intro before u f member removes
    obtain ⟨g, there, also⟩ := aside.kept u f member removes
    exact before u g there also
  cases life with
  | running here active exits waits =>
    rw [← aside.exits] at exits
    exact .running (here.aside aside) (fun ended => active (aside.ended.mp ended)) exits
      (waits.aside other aside)
  | quitting value here ended self exits waits =>
    exact .quitting value (here.aside aside) (aside.ended.mpr ended) (aside.current.trans self)
      (aside.exits.trans exits) (waits.aside other aside)
  | stored value here ended self exits waits =>
    rw [← aside.value]
    exact .stored value (here.aside aside) (aside.ended.mpr ended) (aside.current.trans self)
      (aside.exits.trans exits) (waits.aside other aside)
  | ended here ended left place woken =>
    rw [← aside.value] at place ⊢
    refine .ended (here.aside aside) (aside.ended.mpr ended) ?_ ?_ ?_
    · rw [aside.current, aside.exits]
      exact left
    · exact fun p member => place p (aside.joins j p member)
    · intro p member sleeping
      rcases aside.joiner p member sleeping with same | ready | stopped | ⟨_, _, active, _⟩
      · rw [same]
        exact woken p (aside.joins j p member) sleeping
      · exact Or.inl ready
      · exact Or.inr stopped
      · exact absurd ended active
  | reaped value gone away before mine place =>
    refine .reaped value (aside.there.trans gone) (aside.current ▸ away) (kept before) ?_ ?_
    · exact fun u p member => mine u p (aside.joins u p member)
    · exact fun p member => place p (aside.joins j p member)
  | joined value gone away before left =>
    refine .joined value (aside.there.trans gone) (aside.current ▸ away) (kept before) fun u => ?_
    apply List.eq_nil_iff_forall_not_mem.mpr
    intro p member
    have there := aside.joins u p member
    rw [left u] at there
    cases there

end

end L4ertl
