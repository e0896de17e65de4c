import L4ertl.System.DividedCalls

/-!
What divided calls keep as long as the functions of sched.c do not overlap and
scheduling switches to no thread that has stopped being READY since it was chosen.
The kernel is seen as it will be once the function under way is done: what is left
of it does not depend on what interrupts do in between.
-/
namespace L4ertl
open Intrusive
variable {T : Type} [DecidableEq T]

structure ReadyAlike (k w : Kernel T) : Prop where
  lists : w.activeThreads = k.activeThreads
  live : w.live = k.live
  param : w.schedParam = k.schedParam
  states : ∀ t, w.state t = k.state t

section
variable {k w x : Kernel T}

omit [DecidableEq T] in
theorem ReadyAlike.trans (first : ReadyAlike k w) (second : ReadyAlike w x) : ReadyAlike k x :=
  ⟨second.lists.trans first.lists, second.live.trans first.live, second.param.trans first.param,
    fun t => (second.states t).trans (first.states t)⟩

omit [DecidableEq T] in
theorem ReadyAlike.of_flags (lists : w.activeThreads = k.activeThreads) (live : w.live = k.live)
    (param : w.schedParam = k.schedParam) (flags : w.threadFlags = k.threadFlags) : ReadyAlike k w :=
  ⟨lists, live, param, fun _ => by rw [Kernel.state, flags]; rfl⟩

omit [DecidableEq T] in
theorem ReadyAlike.prio (same : ReadyAlike k w) (t : T) : w.prio t = k.prio t := by
  rw [Kernel.prio, same.param]
  rfl

omit [DecidableEq T] in
theorem ReadyAlike.readyInv (same : ReadyAlike k w) {r : ReadyModel T} (inv : ReadyInv k r) : ReadyInv w r :=
  inv.alike same.lists same.live fun t => ⟨same.states t, same.prio t⟩

theorem setState_alike (same : ReadyAlike k w) (t : T) (state : Word) :
    ReadyAlike (setState t state k) (setState t state w) := by
  refine ⟨same.lists, same.live, same.param, fun u => ?_⟩
  rw [setState_state, setState_state, getThreadState_set, getThreadState_set, same.states u]

omit [DecidableEq T] in
theorem freeKstack_alike (same : ReadyAlike k w) (t : T) : ReadyAlike (freeKstack t k) (freeKstack t w) := by
  have own : ∀ y : Kernel T, ReadyAlike y (freeKstack t y) := by
    intro y
    unfold freeKstack
    split
    · exact .of_flags rfl rfl rfl rfl
    · exact .of_flags rfl rfl rfl rfl
  have back : ReadyAlike (freeKstack t k) k := by
    have there := own k
    exact ⟨there.lists.symm, there.live.symm, there.param.symm, fun u => (there.states u).symm⟩
  exact (back.trans same).trans (own w)

variable [Fintype T]

theorem SchedStmt.run_alike (same : ReadyAlike k w) (stmt : SchedStmt T) :
    ReadyAlike (stmt.run k) (stmt.run w) := by
  cases stmt with
  | removeSs t =>
    refine ⟨?_, same.live, same.param, same.states⟩
    simp only [SchedStmt.run, same.lists]
  | insertSs t =>
    refine ⟨?_, same.live, same.param, same.states⟩
    simp only [SchedStmt.run, same.lists, same.prio t]
  | insertSsTail t =>
    refine ⟨?_, same.live, same.param, same.states⟩
    simp only [SchedStmt.run, same.lists, same.prio t]
  | setSuspended t =>
    simp only [SchedStmt.run, same.states t]
    split
    · exact setState_alike same t suspendedThread
    · exact same
  | setReady t => exact setState_alike same t readyThread
  | setFinished t => exact setState_alike same t finishedThread
  | freeKstack t => exact freeKstack_alike same t
  | setPrio t p =>
    refine ⟨same.lists, same.live, ?_, same.states⟩
    simp only [SchedStmt.run, same.param]
  | setParam t param =>
    refine ⟨same.lists, same.live, ?_, same.states⟩
    simp only [SchedStmt.run, same.param]

theorem runStmts_alike (stmts : List (SchedStmt T)) (same : ReadyAlike k w) :
    ReadyAlike (runStmts k stmts) (runStmts w stmts) := by
  induction stmts generalizing k w with
  | nil => exact same
  | cons stmt rest ih => exact ih (stmt.run_alike same)

theorem SchedStmt.run_only (stmt : SchedStmt T) (k : Kernel T) : SchedOnly k (stmt.run k) := by
  cases stmt with
  | setSuspended t =>
    simp only [SchedStmt.run, setState]
    split
    · rfl
    · rfl
  | freeKstack t =>
    simp only [SchedStmt.run, L4ertl.freeKstack]
    split
    · rfl
    · rfl
  | _ => rfl

theorem runStmts_only (stmts : List (SchedStmt T)) (k : Kernel T) :
    SchedOnly k (runStmts k stmts) := by
  induction stmts generalizing k with
  | nil => exact .refl k
  | cons stmt rest ih => exact (stmt.run_only k).trans (ih (stmt.run k))

omit [Fintype T] in
theorem setState_detach (t u : T) (state : Word) (k : Kernel T) :
    getThreadDetachState ((setState t state k).threadFlags u) = getThreadDetachState (k.threadFlags u) := by
  simp only [setState, Function.update_apply]
  split
  · rename_i self
    rw [getThreadDetachState_set, self]
  · rfl

theorem SchedStmt.run_detach (stmt : SchedStmt T) (k : Kernel T) (u : T) :
    getThreadDetachState ((stmt.run k).threadFlags u) = getThreadDetachState (k.threadFlags u) := by
  cases stmt with
  | setSuspended t =>
    simp only [SchedStmt.run]
    split
    · exact setState_detach t u suspendedThread k
    · rfl
  | setReady t => exact setState_detach t u readyThread k
  | setFinished t => exact setState_detach t u finishedThread k
  | freeKstack t =>
    simp only [SchedStmt.run, L4ertl.freeKstack]
    split
    · rfl
    · rfl
  | _ => rfl

end

def Frame.rest (f : Frame T) : List (SchedStmt T) :=
  match f.activity with
  | .ops rest => rest
  | _ => []

def restOf (fs : List (Frame T)) : List (SchedStmt T) := fs.flatMap Frame.rest

/-- The statements that the functions of sched.c under way have still to execute. -/
def DividedSystem.rest (s : DividedSystem T) : List (SchedStmt T) := restOf s.here

/-- The kernel once they have. -/
def DividedSystem.settled [Fintype T] (s : DividedSystem T) : Kernel T := runStmts s.kernel s.rest

/-- The step is the first of a function of sched.c, or of a handler that calls one,
    or it reads or leaves the ready structure in scheduling. -/
def DividedSystem.begins (s : DividedSystem T) : DividedLabel T → Bool
  | .irq .pick | .irq (.switch _) | .activate _ => true
  | .next =>
    match s.here with
    | f :: _ => f.rest.isEmpty
    | [] => true
  | _ => false

def chosen : List (Activation T) → Option T
  | ⟨.picked new, _⟩ :: _ => some new
  | _ => none

def DividedSystem.Current (s : DividedSystem T) : DividedLabel T → Prop
  | .irq (.switch _) => ∀ new ∈ chosen s.irq.here,
    new = s.kernel.currentThread ∨ new = s.kernel.idleThread ∨ s.kernel.state new = readyThread
  | _ => True

def DividedSystem.Shallow [Fintype T] (s : DividedSystem T) : DividedLabel T → Prop
  | .irq l => s.irq.Shallow l
  | _ => True

/-- The functions of sched.c do not overlap, scheduling switches to no thread that
    has stopped being READY, and interrupts nest less than 2^31 - 1 deep. -/
structure DividedSystem.Orderly [Fintype T] (s : DividedSystem T) (l : DividedLabel T) : Prop where
  apart : s.begins l = true → s.rest = []
  current : s.Current l
  shallow : s.Shallow l

instance (s : DividedSystem T) : (l : DividedLabel T) → Decidable (s.Current l)
  | .irq (.switch _) => inferInstanceAs (Decidable (∀ new ∈ chosen s.irq.here,
      new = s.kernel.currentThread ∨ new = s.kernel.idleThread ∨ s.kernel.state new = readyThread))
  | .irq .enter | .irq .leave | .irq .check | .irq .ret | .irq .call | .irq .pick | .irq .finish
  | .irq (.work _) | .next | .join _ | .exit _ | .detach _ | .deleteNp _ | .block | .activate _
  | .changePrio _ _ | .setschedparam _ _ | .yield | .create _ _ => isTrue trivial

instance [Fintype T] (s : DividedSystem T) : (l : DividedLabel T) → Decidable (s.Shallow l)
  | .irq l => inferInstanceAs (Decidable (s.irq.Shallow l))
  | .next | .join _ | .exit _ | .detach _ | .deleteNp _ | .block | .activate _
  | .changePrio _ _ | .setschedparam _ _ | .yield | .create _ _ => isTrue trivial

instance [Fintype T] (s : DividedSystem T) (l : DividedLabel T) : Decidable (s.Orderly l) :=
  decidable_of_iff ((s.begins l = true → s.rest = []) ∧ s.Current l ∧ s.Shallow l)
    ⟨fun ok => ⟨ok.1, ok.2.1, ok.2.2⟩, fun ok => ⟨ok.apart, ok.current, ok.shallow⟩⟩

/-- What a step does to the settled kernel, as far as the ready structure goes: `slept`
    is put to sleep in it, `ended` is finished. -/
structure Turned (slept ended : Option T) (k w : Kernel T) : Prop where
  ready : ∀ r, ReadyInv k r → ∃ x, ReadyInv w x
  live : w.live = k.live
  states : ∀ u, w.state u = k.state u ∨ (k.state u ≠ finishedThread ∧ w.state u = readyThread) ∨
    (slept = some u ∧ k.state u ≠ finishedThread ∧ w.state u = suspendedThread) ∨
    (ended = some u ∧ w.state u = finishedThread)

section
variable {k w : Kernel T} {t : T} {slept ended : Option T}

omit [DecidableEq T] in
theorem Turned.of_alike (same : ReadyAlike k w) : Turned slept ended k w :=
  ⟨fun r inv => ⟨r, same.readyInv inv⟩, same.live, fun u => Or.inl (same.states u)⟩

theorem Turned.suspend (alive : k.live t = true) : Turned (some t) ended k (suspendThread t k) := by
  refine ⟨fun r inv => ⟨_, suspendThread_readyInv inv alive⟩, (suspendThread_frame t k).2.1, fun u => ?_⟩
  rw [suspendThread_state]
  split
  · rename_i both
    obtain ⟨rfl, active⟩ := both
    exact Or.inr (Or.inr (Or.inl ⟨rfl, active, rfl⟩))
  · exact Or.inl rfl

theorem Turned.activate (alive : k.live t = true) : Turned slept ended k (activateThread t k) := by
  have live := congrArg Kernel.live (activateThread_only t k)
  refine ⟨fun r inv => ?_, live, fun u => ?_⟩
  · obtain ⟨x, next, _⟩ := activateThread_readyInv inv alive
    exact ⟨x, next⟩
  · rw [activateThread_state]
    split
    · rename_i both
      obtain ⟨rfl, active⟩ := both
      exact Or.inr (Or.inl ⟨active, rfl⟩)
    · exact Or.inl rfl

theorem Turned.finish (alive : k.live t = true) : Turned slept (some t) k (finishThread t k) := by
  refine ⟨fun r inv => ⟨_, finishThread_readyInv inv alive⟩, (finishThread_frame t k).2.1, fun u => ?_⟩
  rw [finishThread_state]
  split
  · rename_i self
    exact Or.inr (Or.inr (Or.inr ⟨congrArg some self.symm, rfl⟩))
  · exact Or.inl rfl

theorem Turned.changePrio (alive : k.live t = true) {x : Kernel T} (same : SameBut t k x) (p : Int)
    (flags : x.threadFlags = k.threadFlags) :
    Turned slept ended k (changeThreadPrio t p x) := by
  refine ⟨fun r inv => ?_, ?_, fun u => Or.inl ?_⟩
  · obtain ⟨y, next, _⟩ := changeThreadPrio_adjusted inv alive same p
    exact ⟨y, next⟩
  · rw [congrArg Kernel.live (changeThreadPrio_only t p x), same.live]
  · rw [Kernel.state, changeThreadPrio_flags, flags]
    rfl

theorem Turned.yield [Fintype T] (alive : k.live k.currentThread = true)
    (running : k.state k.currentThread = readyThread) : Turned slept ended k (yieldThread k) :=
  ⟨fun _ inv => ⟨_, yieldThread_readyInv inv alive running⟩, rfl, fun _ => Or.inl rfl⟩

theorem Turned.reap (alive : k.live t = true) (stopped : k.state t = finishedThread) :
    Turned slept ended k (k.keepWords (deletePthreadStruct t k)) := by
  refine ⟨fun r inv => ⟨_, inv.remove alive rfl (Or.inr ?_) fun u _ => ⟨rfl, rfl, rfl⟩⟩, rfl,
    fun _ => Or.inl rfl⟩
  rw [show (k.keepWords (deletePthreadStruct t k)).state t = k.state t from rfl, stopped]
  exact finished_ne_ready

end

/-- The thread is in front of a scheduling (), and stays there until it calls it. -/
def Ongoing.bars : Ongoing T → Bool
  | .join _ .call | .exit _ .value | .exit _ .wake | .deleteNp _ .delete | .leave => true
  | _ => false

def Ongoing.ends : Ongoing T → Bool
  | .exit _ .value | .exit _ .wake => true
  | _ => false

def Ongoing.target : Ongoing T → Option T
  | .join t _ | .detach t _ | .deleteNp t _ => some t
  | _ => none

def Ongoing.isOps : Ongoing T → Bool
  | .ops _ => true
  | _ => false

def Phase.leads (t : T) : Phase T → Prop
  | .tested => True
  | .picked new => new ≠ t
  | _ => False

def HeldBack (t : T) (fs : List (Activation T)) : Prop :=
  (∃ f, fs.getLast? = some f ∧ f.owes) ∨ ∃ f ∈ fs, f.phase.leads t

/-- The running thread does not get back to user mode before it has been switched away
    from. -/
inductive DividedSystem.Barred (s : DividedSystem T) : Prop where
  | call (f : Frame T) (member : f ∈ s.here) (bars : f.activity.bars = true)
  | held (held : HeldBack s.kernel.currentThread s.irq.here)

/-- What holds between any two statements of an orderly run. -/
structure DividedSystem.Sane [Fintype T] (s : DividedSystem T) : Prop where
  nested : Nested s.irq
  ready : ∃ r, ReadyInv s.settled r
  alive : s.kernel.live s.kernel.currentThread = true
  idle : s.kernel.live s.kernel.idleThread = true
  idling : s.settled.state s.kernel.idleThread = readyThread
  quiet : ∀ u, u ≠ s.kernel.currentThread → restOf (s.frames u) = []
  fits : s.settled.state s.kernel.currentThread = readyThread ∨ s.Barred
  gone : ∀ u, s.freed u = true → s.kernel.live u = true ∧ s.settled.state u = finishedThread
  ended : ∀ u, ∀ f ∈ s.frames u, f.activity.ends = true → s.settled.state u = finishedThread
  targets : ∀ u, ∀ f ∈ s.frames u, ∀ v, f.activity.target = some v →
    s.kernel.live v = true ∧ v ≠ s.kernel.idleThread
  idler : ∀ f ∈ s.frames s.kernel.idleThread, f.activity.isOps = true
  joiners : ∀ u v, s.kernel.joiningThread u = some v → s.kernel.live v = true
  choices : ∀ u, ∀ f ∈ s.irq.stack u, ∀ new, f.phase = .picked new → s.kernel.live new = true

section
variable [Fintype T] {s w : DividedSystem T}

theorem DividedSystem.settled_only (s : DividedSystem T) : SchedOnly s.kernel s.settled :=
  runStmts_only s.rest s.kernel

theorem DividedSystem.settled_live (s : DividedSystem T) : s.settled.live = s.kernel.live := by
  have live := congrArg Kernel.live s.settled_only
  exact live

theorem DividedSystem.settled_done (done : s.rest = []) : s.settled = s.kernel := by
  rw [settled, done]
  rfl

omit [DecidableEq T] [Fintype T] in
theorem restOf_cons (f : Frame T) (fs : List (Frame T)) : restOf (f :: fs) = f.rest ++ restOf fs := rfl

omit [Fintype T] in
theorem DividedSystem.setHere_here (fs : List (Frame T)) : (s.setHere fs).here = fs :=
  Function.update_self ..

omit [Fintype T] in
theorem DividedSystem.operate_here (ops : List (SchedStmt T)) (d : Nat) (fs : List (Frame T)) :
    (s.operate ops d fs).here = if ops = [] then fs else ⟨d, .ops ops⟩ :: fs := s.setHere_here _

theorem DividedSystem.operate_settled (ops : List (SchedStmt T)) (d : Nat) (fs : List (Frame T)) :
    (s.operate ops d fs).settled = runStmts s.kernel (ops ++ restOf fs) := by
  rw [settled, rest, operate_here]
  split
  · rename_i none
    rw [none]
    rfl
  · rfl

omit [DecidableEq T] [Fintype T] in
theorem Turned.stopped {k x : Kernel T} {slept ended : Option T} (turned : Turned slept ended k x) {u : T}
    (stopped : k.state u = finishedThread) : x.state u = finishedThread := by
  rcases turned.states u with same | ⟨active, _⟩ | ⟨_, active, _⟩ | ⟨_, finished⟩
  · exact same.trans stopped
  · exact absurd stopped active
  · exact absurd stopped active
  · exact finished

omit [DecidableEq T] [Fintype T] in
theorem Turned.stays_ready {k x : Kernel T} {slept ended : Option T} (turned : Turned slept ended k x)
    {u : T} (awake : slept ≠ some u) (going : ended ≠ some u) (ready : k.state u = readyThread) :
    x.state u = readyThread := by
  rcases turned.states u with same | ⟨_, woken⟩ | ⟨self, _⟩ | ⟨self, _⟩
  · exact same.trans ready
  · exact woken
  · exact absurd self awake
  · exact absurd self going

/-- A step of the running thread that leaves the activations of do_irq and scheduling
    as they are. -/
structure Advance (s w : DividedSystem T) (slept ended : Option T) : Prop where
  turned : Turned slept ended s.settled w.settled
  stack : w.irq.stack = s.irq.stack
  counter : w.kernel.irqNestingCounter = s.kernel.irqNestingCounter
  current : w.kernel.currentThread = s.kernel.currentThread
  idle : w.kernel.idleThread = s.kernel.idleThread
  awake : slept ≠ some s.kernel.idleThread
  going : ended ≠ some s.kernel.idleThread
  others : ∀ u, u ≠ s.kernel.currentThread → w.frames u = s.frames u
  freed : ∀ u, w.freed u = true →
    s.freed u = true ∨ s.kernel.live u = true ∧ s.settled.state u = finishedThread
  bars : ∀ f ∈ s.here, f.activity.bars = true → ∃ g ∈ w.here, g.activity.bars = true
  falls : slept = some s.kernel.currentThread ∨ ended = some s.kernel.currentThread →
    ∃ g ∈ w.here, g.activity.bars = true
  own : ∀ f ∈ w.here, f ∈ s.here ∨
    (f.activity.ends = true → w.settled.state s.kernel.currentThread = finishedThread) ∧
    (∀ v, f.activity.target = some v → s.kernel.live v = true ∧ v ≠ s.kernel.idleThread) ∧
    (s.kernel.currentThread = s.kernel.idleThread → f.activity.isOps = true)
  joiners : ∀ u v, w.kernel.joiningThread u = some v →
    s.kernel.joiningThread u = some v ∨ v = s.kernel.currentThread

omit [DecidableEq T] [Fintype T] in
theorem Nested.same [DecidableEq T] {p q : IrqSystem T} (ok : Nested p) (stack : q.stack = p.stack)
    (counter : q.kernel.irqNestingCounter = p.kernel.irqNestingCounter)
    (current : q.kernel.currentThread = p.kernel.currentThread) : Nested q := by
  have here : q.here = p.here := by rw [IrqSystem.here, IrqSystem.here, stack, current]
  refine ⟨?_, ?_, ?_, ?_, ?_⟩
  · rw [here, counter]
    exact ok.counter
  · rw [here, counter]
    exact ok.pending
  · rw [here]
    exact ok.covered
  · rw [stack]
    exact ok.synced
  · rw [stack, current]
    exact ok.waiting

theorem DividedSystem.Sane.fits_advance (sane : s.Sane) {slept ended : Option T}
    (advance : Advance s w slept ended) :
    w.settled.state w.kernel.currentThread = readyThread ∨ w.Barred := by
  have irqHere : w.irq.here = s.irq.here := by
    rw [IrqSystem.here, IrqSystem.here, advance.stack, advance.current]
  rcases sane.fits with ready | barred
  · by_cases falls : slept = some s.kernel.currentThread ∨ ended = some s.kernel.currentThread
    · obtain ⟨g, member, bars⟩ := advance.falls falls
      exact Or.inr (.call g member bars)
    · left
      rw [advance.current]
      exact advance.turned.stays_ready (fun same => falls (Or.inl same))
        (fun same => falls (Or.inr same)) ready
  · right
    cases barred with
    | call f member bars =>
      obtain ⟨g, there, also⟩ := advance.bars f member bars
      exact .call g there also
    | held held =>
      rw [← irqHere, ← advance.current] at held
      exact .held held

theorem DividedSystem.Sane.advance (sane : s.Sane) {slept ended : Option T}
    (advance : Advance s w slept ended) : w.Sane := by
  have live : w.kernel.live = s.kernel.live := by
    rw [← w.settled_live, ← s.settled_live]
    exact advance.turned.live
  have here : ∀ u, u = s.kernel.currentThread → w.frames u = w.here := by
    intro u self
    rw [DividedSystem.here, advance.current, self]
  constructor
  · exact sane.nested.same advance.stack advance.counter advance.current
  · obtain ⟨r, inv⟩ := sane.ready
    exact advance.turned.ready r inv
  · rw [live, advance.current]
    exact sane.alive
  · rw [live, advance.idle]
    exact sane.idle
  · rw [advance.idle]
    exact advance.turned.stays_ready advance.awake advance.going sane.idling
  · intro u other
    rw [advance.current] at other
    rw [advance.others u other]
    exact sane.quiet u other
  · exact sane.fits_advance advance
  · intro u gone
    rw [live]
    rcases advance.freed u gone with before | ⟨alive, stopped⟩
    · exact ⟨(sane.gone u before).1, advance.turned.stopped (sane.gone u before).2⟩
    · exact ⟨alive, advance.turned.stopped stopped⟩
  · intro u f member ends
    by_cases self : u = s.kernel.currentThread
    · rw [here u self] at member
      rcases advance.own f member with before | ⟨stopped, _⟩
      · rw [self]
        exact advance.turned.stopped (sane.ended _ f before ends)
      · rw [self]
        exact stopped ends
    · rw [advance.others u self] at member
      exact advance.turned.stopped (sane.ended u f member ends)
  · intro u f member v target
    rw [live, advance.idle]
    by_cases self : u = s.kernel.currentThread
    · rw [here u self] at member
      rcases advance.own f member with before | ⟨_, targets, _⟩
      · exact sane.targets _ f before v target
      · exact targets v target
    · rw [advance.others u self] at member
      exact sane.targets u f member v target
  · intro f member
    rw [advance.idle] at member
    by_cases self : s.kernel.idleThread = s.kernel.currentThread
    · rw [here _ self] at member
      rcases advance.own f member with before | ⟨_, _, idler⟩
      · rw [DividedSystem.here, ← self] at before
        exact sane.idler f before
      · exact idler self.symm
    · rw [advance.others _ self] at member
      exact sane.idler f member
  · intro u v joins
    rw [live]
    rcases advance.joiners u v joins with before | rfl
    · exact sane.joiners u v before
    · exact sane.alive
  · intro u f member new picked
    rw [advance.stack] at member
    rw [live]
    exact sane.choices u f member new picked

theorem Advance.of_operate {k : Kernel T} (ops : List (SchedStmt T)) {d : Nat} (fs : List (Frame T))
    {slept ended : Option T} (irq : w.irq = { s.irq with kernel := k })
    (frames : w.frames = Function.update s.frames s.kernel.currentThread
      (if ops = [] then fs else ⟨d, .ops ops⟩ :: fs))
    (counter : k.irqNestingCounter = s.kernel.irqNestingCounter)
    (current : k.currentThread = s.kernel.currentThread) (idle : k.idleThread = s.kernel.idleThread)
    (turned : Turned slept ended s.settled (runStmts k (ops ++ restOf fs)))
    (awake : slept ≠ some s.kernel.idleThread) (going : ended ≠ some s.kernel.idleThread)
    (freed : ∀ u, w.freed u = true →
      s.freed u = true ∨ s.kernel.live u = true ∧ s.settled.state u = finishedThread)
    (bars : ∀ f ∈ s.here, f.activity.bars = true → ∃ g ∈ fs, g.activity.bars = true)
    (falls : slept = some s.kernel.currentThread ∨ ended = some s.kernel.currentThread →
      ∃ g ∈ fs, g.activity.bars = true)
    (own : ∀ f ∈ fs, f ∈ s.here ∨
      (f.activity.ends = true →
        (runStmts k (ops ++ restOf fs)).state s.kernel.currentThread = finishedThread) ∧
      (∀ v, f.activity.target = some v → s.kernel.live v = true ∧ v ≠ s.kernel.idleThread) ∧
      (s.kernel.currentThread = s.kernel.idleThread → f.activity.isOps = true))
    (joiners : ∀ u v, k.joiningThread u = some v →
      s.kernel.joiningThread u = some v ∨ v = s.kernel.currentThread) : Advance s w slept ended := by
  have kernel : w.kernel = k := by rw [DividedSystem.kernel, irq]
  have here : w.here = if ops = [] then fs else ⟨d, .ops ops⟩ :: fs := by
    rw [DividedSystem.here, kernel, current, frames, Function.update_self]
  have settled : w.settled = runStmts k (ops ++ restOf fs) := by
    rw [DividedSystem.settled, DividedSystem.rest, here, kernel]
    split
    · rename_i none
      rw [none]
      rfl
    · rfl
  have below : ∀ g ∈ fs, g ∈ w.here := by
    intro g member
    rw [here]
    split
    · exact member
    · exact List.mem_cons_of_mem _ member
  refine ⟨settled ▸ turned, by rw [irq], kernel ▸ counter, kernel ▸ current, kernel ▸ idle, awake, going,
    fun u other => ?_, freed, fun f member is => ?_, fun some_ => ?_, fun f member => ?_, fun u v => ?_⟩
  · rw [frames, Function.update_of_ne other]
  · obtain ⟨g, there, also⟩ := bars f member is
    exact ⟨g, below g there, also⟩
  · obtain ⟨g, there, also⟩ := falls some_
    exact ⟨g, below g there, also⟩
  · rw [settled]
    rw [here] at member
    split at member
    · exact own f member
    · rcases List.mem_cons.mp member with rfl | member
      · exact Or.inr ⟨fun ends => (by cases ends), fun v target => (by cases target), fun _ => rfl⟩
      · exact own f member
  · rw [kernel]
    exact joiners u v

theorem DividedSystem.Sane.call_advance (sane : s.Sane) {d : Nat} {a : Ongoing T} {fs : List (Frame T)}
    (here : s.here = ⟨d, a⟩ :: fs) (call : a.isOps = false) (done : s.rest = []) {k : Kernel T}
    (ops : List (SchedStmt T)) {b : Option (Ongoing T)} {slept ended : Option T}
    (irq : w.irq = { s.irq with kernel := k })
    (frames : w.frames = Function.update s.frames s.kernel.currentThread
      (if ops = [] then (b.map (Frame.mk d)).toList ++ fs
        else ⟨d, .ops ops⟩ :: ((b.map (Frame.mk d)).toList ++ fs)))
    (counter : k.irqNestingCounter = s.kernel.irqNestingCounter)
    (current : k.currentThread = s.kernel.currentThread) (idle : k.idleThread = s.kernel.idleThread)
    (turned : Turned slept ended s.kernel (runStmts k ops))
    (awake : slept ≠ some s.kernel.idleThread) (going : ended ≠ some s.kernel.idleThread)
    (freed : ∀ u, w.freed u = true →
      s.freed u = true ∨ s.kernel.live u = true ∧ s.kernel.state u = finishedThread)
    (bars : a.bars = true → ∃ x ∈ b, x.bars = true)
    (falls : slept = some s.kernel.currentThread ∨ ended = some s.kernel.currentThread →
      ∃ x ∈ b, x.bars = true)
    (own : ∀ x ∈ b, x.isOps = false ∧ (∀ v, x.target = some v → a.target = some v) ∧
      (x.ends = true → a.ends = true ∨ (runStmts k ops).state s.kernel.currentThread = finishedThread))
    (joiners : ∀ u v, k.joiningThread u = some v →
      s.kernel.joiningThread u = some v ∨ v = s.kernel.currentThread) : Advance s w slept ended := by
  have settled : s.settled = s.kernel := s.settled_done done
  have top : ⟨d, a⟩ ∈ s.here := by
    rw [here]
    exact List.mem_cons_self
  have awayIdle : s.kernel.currentThread ≠ s.kernel.idleThread := by
    intro self
    have ops := sane.idler ⟨d, a⟩ (self ▸ top)
    rw [call] at ops
    cases ops
  have restNew : restOf (b.map (Frame.mk d)).toList = [] := by
    cases b with
    | none => rfl
    | some x =>
      have plain := (own x rfl).1
      cases x with
      | ops rest => cases plain
      | _ => rfl
  have restBelow : restOf fs = [] := by
    have all := done
    rw [DividedSystem.rest, here, restOf_cons] at all
    exact (List.append_eq_nil_iff.mp all).2
  have restAll : restOf ((b.map (Frame.mk d)).toList ++ fs) = [] := by
    rw [restOf, List.flatMap_append, ← restOf, ← restOf, restNew, restBelow]
    rfl
  have final : ops ++ restOf ((b.map (Frame.mk d)).toList ++ fs) = ops := by
    rw [restAll, List.append_nil]
  have placed : ∀ x ∈ b, ⟨d, x⟩ ∈ (b.map (Frame.mk d)).toList ++ fs := by
    intro x is
    rw [Option.mem_def] at is
    rw [is]
    exact List.mem_cons_self
  refine Advance.of_operate (d := d) ops _ irq frames counter current idle ?_ awake going ?_ ?_ ?_
    ?_ joiners
  · rw [final, settled]
    exact turned
  · rw [settled]
    exact freed
  · intro f member is
    rw [here, List.mem_cons] at member
    rcases member with rfl | below
    · obtain ⟨x, new, also⟩ := bars is
      exact ⟨⟨d, x⟩, placed x new, also⟩
    · exact ⟨f, List.mem_append_right _ below, is⟩
  · intro some_
    obtain ⟨x, new, also⟩ := falls some_
    exact ⟨⟨d, x⟩, placed x new, also⟩
  · intro f member
    rw [final]
    rcases List.mem_append.mp member with new | below
    · right
      obtain ⟨x, is, rfl⟩ : ∃ x ∈ b, Frame.mk d x = f := by
        rw [Option.mem_toList, Option.map_eq_some_iff] at new
        exact new
      obtain ⟨_, target, ends⟩ := own x is
      refine ⟨fun stopped => ?_, fun v aimed => ?_, fun self => absurd self awayIdle⟩
      · rcases ends stopped with before | finished
        · have ended := sane.ended _ _ top before
          rw [settled] at ended
          exact turned.stopped ended
        · exact finished
      · exact sane.targets _ _ top v (target v aimed)
    · left
      rw [here]
      exact List.mem_cons_of_mem _ below

theorem DividedSystem.Sane.call_quiet (sane : s.Sane) {d : Nat} {a : Ongoing T} {fs : List (Frame T)}
    (here : s.here = ⟨d, a⟩ :: fs) (call : a.isOps = false) (done : s.rest = []) {k : Kernel T}
    {b : Option (Ongoing T)} (irq : w.irq = { s.irq with kernel := k })
    (frames : w.frames = Function.update s.frames s.kernel.currentThread ((b.map (Frame.mk d)).toList ++ fs))
    (freed : w.freed = s.freed) (counter : k.irqNestingCounter = s.kernel.irqNestingCounter)
    (current : k.currentThread = s.kernel.currentThread) (idle : k.idleThread = s.kernel.idleThread)
    (alike : ReadyAlike s.kernel k) (bars : a.bars = true → ∃ x ∈ b, x.bars = true)
    (own : ∀ x ∈ b, x.isOps = false ∧ (∀ v, x.target = some v → a.target = some v) ∧
      (x.ends = true → a.ends = true))
    (joiners : ∀ u v, k.joiningThread u = some v →
      s.kernel.joiningThread u = some v ∨ v = s.kernel.currentThread) : Advance s w none none := by
  refine sane.call_advance (b := b) here call done [] irq frames counter current idle (.of_alike alike)
    (by simp) (by simp) ?_ bars (by simp) ?_ joiners
  · intro u gone
    rw [freed] at gone
    exact Or.inl gone
  · intro x is
    obtain ⟨plain, target, ends⟩ := own x is
    exact ⟨plain, target, fun stopped => Or.inl (ends stopped)⟩

theorem DividedSystem.Sane.call_moves (sane : s.Sane) {d : Nat} {a b : Ongoing T} {fs : List (Frame T)}
    (here : s.here = ⟨d, a⟩ :: fs) (call : a.isOps = false) (done : s.rest = [])
    (irq : w.irq = s.irq)
    (frames : w.frames = Function.update s.frames s.kernel.currentThread (⟨d, b⟩ :: fs))
    (freed : w.freed = s.freed) (plain : b.isOps = false)
    (target : ∀ v, b.target = some v → a.target = some v) (ends : b.ends = true → a.ends = true)
    (bars : a.bars = true → b.bars = true) : Advance s w none none := by
  refine sane.call_quiet (k := s.kernel) (b := some b) here call done irq frames freed rfl rfl rfl
    (.of_flags rfl rfl rfl rfl) (fun is => ⟨b, rfl, bars is⟩) ?_ fun _ _ joins => Or.inl joins
  intro x is
  cases is
  exact ⟨plain, target, ends⟩

theorem DividedSystem.Sane.call_fails (sane : s.Sane) {d : Nat} {a : Ongoing T} {fs : List (Frame T)}
    (here : s.here = ⟨d, a⟩ :: fs) (call : a.isOps = false) (done : s.rest = []) (free : a.bars = false)
    (e : Int) : Advance s (s.fails e fs) none none := by
  refine sane.call_quiet (k := setErrno e s.kernel) (b := none) here call done rfl rfl rfl rfl rfl rfl
    (.of_flags rfl rfl rfl rfl) (fun is => ?_) (by simp) fun _ _ joins => Or.inl joins
  rw [free] at is
  cases is

theorem DividedSystem.Sane.call_reaps (sane : s.Sane) {d : Nat} {a b : Ongoing T} {fs : List (Frame T)}
    (here : s.here = ⟨d, a⟩ :: fs) (call : a.isOps = false) (done : s.rest = []) {t : T}
    {x : DividedSystem T} (reaped : s.reap t = some x) (target : a.target = some t)
    (plain : b.isOps = false) (same : ∀ v, b.target = some v → a.target = some v) (ends : b.ends = false)
    (bars : a.bars = true → b.bars = true) :
    Advance s (x.setHere (⟨d, b⟩ :: fs)) none none := by
  unfold DividedSystem.reap at reaped
  split at reaped
  · rename_i may
    cases reaped
    have stopped : s.kernel.state t = finishedThread := by
      rw [Bool.and_eq_true, beq_iff_eq] at may
      exact may.2
    have alive : s.kernel.live t = true := by
      refine (sane.targets s.kernel.currentThread ⟨d, a⟩ ?_ t target).1
      rw [← DividedSystem.here, here]
      exact List.mem_cons_self
    refine sane.call_advance (b := some b) here call done
      (k := s.kernel.keepWords (deletePthreadStruct t s.kernel)) [] rfl rfl rfl rfl rfl (.reap alive stopped)
      (by simp) (by simp) ?_ (fun is => ⟨b, rfl, bars is⟩) (by simp) ?_ fun _ _ joins => Or.inl joins
    · intro u gone
      simp only [DividedSystem.setHere, Function.update_apply] at gone
      split at gone
      · rename_i self
        rw [self]
        exact Or.inr ⟨alive, stopped⟩
      · exact Or.inl gone
    · intro y is
      cases is
      refine ⟨plain, same, fun stopped => ?_⟩
      rw [ends] at stopped
      cases stopped
  · cases reaped

theorem DividedSystem.Sane.call_operates (sane : s.Sane) {d : Nat} {a b : Ongoing T} {fs : List (Frame T)}
    (here : s.here = ⟨d, a⟩ :: fs) (call : a.isOps = false) (done : s.rest = [])
    {ops : List (SchedStmt T)} {slept ended : Option T}
    (turned : Turned slept ended s.kernel (runStmts s.kernel ops))
    (awake : slept ≠ some s.kernel.idleThread) (going : ended ≠ some s.kernel.idleThread)
    (plain : b.isOps = false) (target : ∀ v, b.target = some v → a.target = some v)
    (ends : b.ends = true → (runStmts s.kernel ops).state s.kernel.currentThread = finishedThread)
    (bars : a.bars = true → b.bars = true)
    (falls : slept = some s.kernel.currentThread ∨ ended = some s.kernel.currentThread → b.bars = true) :
    Advance s (s.operate ops d (⟨d, b⟩ :: fs)) slept ended := by
  refine sane.call_advance (k := s.kernel) (b := some b) here call done ops rfl rfl rfl rfl rfl turned
    awake going (fun _ gone => Or.inl gone) (fun is => ⟨b, rfl, bars is⟩) (fun is => ⟨b, rfl, falls is⟩) ?_
    fun _ _ joins => Or.inl joins
  intro x is
  cases is
  exact ⟨plain, target, fun stopped => Or.inr (ends stopped)⟩

omit [Fintype T] in
theorem DividedSystem.Sane.busy [Fintype T] (sane : s.Sane) {f : Frame T} (member : f ∈ s.here)
    (call : f.activity.isOps = false) : s.kernel.currentThread ≠ s.kernel.idleThread := by
  intro self
  have ops := sane.idler f (self ▸ member)
  rw [call] at ops
  cases ops

theorem DividedSystem.Sane.join_advance (sane : s.Sane) {d : Nat} {t : T} {p : JoinPoint}
    {fs : List (Frame T)} (here : s.here = ⟨d, .join t p⟩ :: fs) (done : s.rest = []) (other : p ≠ .call)
    {es : List (JoinEvent T)} (taken : s.joinNext d fs t p = some (w, es)) :
    Advance s w (if p = .suspend then some s.kernel.currentThread else none) none := by
  have top : ⟨d, .join t p⟩ ∈ s.here := by
    rw [here]
    exact List.mem_cons_self
  have busy := sane.busy top rfl
  cases p with
  | start =>
    simp only [DividedSystem.joinNext] at taken
    split at taken
    · cases taken
      exact sane.call_fails here rfl done rfl esrch
    · split at taken
      · cases taken
        exact sane.call_fails here rfl done rfl einval
      · cases taken
        exact sane.call_moves here rfl done rfl rfl rfl rfl (fun _ aimed => aimed) (fun stopped => by cases stopped)
          (fun is => by cases is)
  | reattached cState =>
    simp only [DividedSystem.joinNext] at taken
    split at taken
    · cases taken
      exact sane.call_fails here rfl done rfl einval
    · cases taken
      exact sane.call_moves here rfl done rfl rfl rfl rfl (fun _ aimed => aimed) (fun stopped => by cases stopped)
        (fun is => by cases is)
  | register =>
    cases taken
    refine sane.call_quiet (b := some (.join t .suspend)) here rfl done rfl rfl rfl rfl rfl rfl
      (.of_flags rfl rfl rfl rfl) (fun is => by cases is) ?_ ?_
    · intro x is
      cases is
      exact ⟨rfl, fun _ aimed => aimed, fun stopped => by cases stopped⟩
    · intro u v joins
      simp only [setJoining, Function.update_apply] at joins
      split at joins
      · cases joins
        exact Or.inr rfl
      · exact Or.inl joins
  | suspend =>
    cases taken
    exact sane.call_operates here rfl done (.suspend sane.alive) (fun same => busy (Option.some.inj same))
      (fun same => by cases same) rfl (fun _ aimed => aimed) (fun stopped => by cases stopped) (fun is => by cases is)
      fun _ => rfl
  | call => exact absurd rfl other
  | delete value =>
    simp only [DividedSystem.joinNext, Option.map_eq_some_iff] at taken
    obtain ⟨x, reaped, same⟩ := taken
    cases same
    exact sane.call_reaps here rfl done reaped rfl rfl (fun _ aimed => aimed) rfl fun is => by cases is
  | ret value =>
    cases taken
    exact sane.call_quiet (k := s.kernel) (b := none) here rfl done rfl rfl rfl rfl rfl rfl
      (.of_flags rfl rfl rfl rfl) (fun is => by cases is) (fun x is => by cases is)
      fun _ _ joins => Or.inl joins
  | loop cState =>
    cases taken
    refine sane.call_moves here rfl done rfl rfl rfl rfl (fun _ aimed => aimed) (fun stopped => ?_)
      (fun is => by cases is)
    cases stopped
  | _ =>
    cases taken
    exact sane.call_moves here rfl done rfl rfl rfl rfl (fun _ aimed => aimed) (fun stopped => by cases stopped)
      (fun is => by cases is)

theorem DividedSystem.Sane.exit_advance (sane : s.Sane) {d : Nat} {value : Word} {p : ExitPoint}
    {fs : List (Frame T)} (here : s.here = ⟨d, .exit value p⟩ :: fs) (done : s.rest = [])
    {es : List (JoinEvent T)} (taken : s.exitNext d fs value p = some (w, es)) :
    Advance s w none (if p = .finish then some s.kernel.currentThread else none) := by
  have top : ⟨d, .exit value p⟩ ∈ s.here := by
    rw [here]
    exact List.mem_cons_self
  have busy := sane.busy top rfl
  cases p with
  | timer =>
    simp only [DividedSystem.exitNext] at taken
    split at taken
    · rename_i k freed
      cases taken
      have only := (freeKtimer_book freed).1
      have counter := congrArg Kernel.irqNestingCounter only
      have current := congrArg Kernel.currentThread only
      have idle := congrArg Kernel.idleThread only
      have lists := congrArg Kernel.activeThreads only
      have live := congrArg Kernel.live only
      have param := congrArg Kernel.schedParam only
      have flags := congrArg Kernel.threadFlags only
      have joining := congrArg Kernel.joiningThread only
      have frames : ((s.setKernel k).setHere (⟨d, .exit value .finish⟩ :: fs)).frames =
          Function.update s.frames s.kernel.currentThread (⟨d, .exit value .finish⟩ :: fs) :=
        congrArg (fun c => Function.update s.frames c _) current
      refine sane.call_quiet (b := some (.exit value .finish)) here rfl done rfl frames rfl counter current idle
        (.of_flags lists live param flags) (fun is => by cases is) ?_ ?_
      · intro x is
        cases is
        refine ⟨rfl, fun _ aimed => ?_, fun stopped => ?_⟩
        · cases aimed
        · cases stopped
      · intro u v joins
        exact Or.inl ((congrFun joining u) ▸ joins)
    · cases taken
  | finish =>
    cases taken
    have stopped : (runStmts s.kernel (finishStmts s.kernel.currentThread)).state s.kernel.currentThread =
        finishedThread := by
      rw [finishStmts_run, finishThread_state, if_pos rfl]
    exact sane.call_operates here rfl done (.finish sane.alive) (fun same => by cases same)
      (fun same => busy (Option.some.inj same)) rfl (fun _ aimed => by cases aimed) (fun _ => stopped)
      (fun is => by cases is) fun _ => rfl
  | value =>
    cases taken
    exact sane.call_moves here rfl done rfl rfl rfl rfl (fun _ aimed => by cases aimed) (fun _ => rfl)
      (fun _ => rfl)
  | wake =>
    simp only [DividedSystem.exitNext] at taken
    split at taken
    · rename_i joiner joins
      split at taken
      · cases taken
        have turned : Turned (none : Option T) none s.kernel
            (runStmts s.kernel (activateStmts joiner s.kernel)) := by
          rw [activateStmts_run]
          exact .activate (sane.joiners _ _ joins)
        exact sane.call_operates here rfl done turned (fun same => by cases same)
          (fun same => by cases same) rfl (fun _ aimed => by cases aimed) (fun stopped => by cases stopped)
          (fun _ => rfl) fun _ => rfl
      · cases taken
        exact sane.call_moves here rfl done rfl rfl rfl rfl (fun _ aimed => by cases aimed)
          (fun stopped => by cases stopped) (fun _ => rfl)
    · cases taken
      exact sane.call_moves here rfl done rfl rfl rfl rfl (fun _ aimed => by cases aimed)
        (fun stopped => by cases stopped) (fun _ => rfl)

omit [Fintype T] in
theorem setFlags_alike {t : T} {flags : Word} {k : Kernel T}
    (same : getThreadState flags = getThreadState (k.threadFlags t)) :
    ReadyAlike k (setFlags t flags k) :=
  ⟨rfl, rfl, rfl, setFlags_state same⟩

theorem DividedSystem.Sane.detach_advance (sane : s.Sane) {d : Nat} {t : T} {p : DetachPoint}
    {fs : List (Frame T)} (here : s.here = ⟨d, .detach t p⟩ :: fs) (done : s.rest = [])
    {es : List (JoinEvent T)} (taken : s.detachNext d fs t p = some (w, es)) : Advance s w none none := by
  cases p with
  | start =>
    simp only [DividedSystem.detachNext] at taken
    split at taken
    · cases taken
      exact sane.call_fails here rfl done rfl esrch
    · split at taken
      · cases taken
        exact sane.call_fails here rfl done rfl einval
      · cases taken
        refine sane.call_quiet (b := some (.detach t .wake)) here rfl done rfl rfl rfl rfl rfl rfl
          (setFlags_alike (getThreadState_detach _ _)) (fun is => by cases is) ?_ fun _ _ joins => Or.inl joins
        intro x is
        cases is
        exact ⟨rfl, fun _ aimed => aimed, fun stopped => by cases stopped⟩
  | wake =>
    simp only [DividedSystem.detachNext] at taken
    split at taken
    · rename_i joiner joins
      cases taken
      have turned : Turned (none : Option T) none s.kernel
          (runStmts s.kernel (activateStmts joiner s.kernel)) := by
        rw [activateStmts_run]
        exact .activate (sane.joiners _ _ joins)
      exact sane.call_operates here rfl done turned (fun same => by cases same) (fun same => by cases same) rfl
        (fun _ aimed => aimed) (fun stopped => by cases stopped) (fun is => by cases is)
        fun falls => by rcases falls with same | same <;> cases same
    · cases taken
  | clear =>
    cases taken
    refine sane.call_quiet (b := some .leave) here rfl done rfl rfl rfl rfl rfl rfl
      (.of_flags rfl rfl rfl rfl) (fun is => by cases is) ?_ ?_
    · intro x is
      cases is
      refine ⟨rfl, fun _ aimed => ?_, fun stopped => ?_⟩
      · cases aimed
      · cases stopped
    · intro u v joins
      simp only [setJoining, Function.update_apply] at joins
      split at joins
      · cases joins
      · exact Or.inl joins

theorem DividedSystem.Sane.deleteNp_advance (sane : s.Sane) {d : Nat} {t : T} {p : DeletePoint}
    {fs : List (Frame T)} (here : s.here = ⟨d, .deleteNp t p⟩ :: fs) (done : s.rest = [])
    {es : List (JoinEvent T)} (taken : s.deleteNext d fs t p = some (w, es)) :
    Advance s w none (if p = .finish then some t else none) := by
  have top : ⟨d, .deleteNp t p⟩ ∈ s.here := by
    rw [here]
    exact List.mem_cons_self
  have target := sane.targets _ _ top t rfl
  cases p with
  | finish =>
    cases taken
    exact sane.call_operates here rfl done (.finish target.1) (fun same => by cases same)
      (fun same => target.2 (Option.some.inj same)) rfl (fun _ aimed => aimed) (fun stopped => by cases stopped)
      (fun is => by cases is) fun _ => rfl
  | delete =>
    simp only [DividedSystem.deleteNext, Option.map_eq_some_iff] at taken
    obtain ⟨x, reaped, same⟩ := taken
    cases same
    exact sane.call_reaps here rfl done reaped rfl rfl (fun _ aimed => by cases aimed) rfl fun _ => rfl

theorem DividedSystem.Sane.block_advance (sane : s.Sane) {d : Nat} {fs : List (Frame T)}
    (here : s.here = ⟨d, .block⟩ :: fs) (done : s.rest = []) :
    Advance s (s.operate (suspendStmts s.kernel.currentThread) d (⟨d, .leave⟩ :: fs))
      (some s.kernel.currentThread) none := by
  have top : ⟨d, .block⟩ ∈ s.here := by
    rw [here]
    exact List.mem_cons_self
  exact sane.call_operates here rfl done (.suspend sane.alive)
    (fun same => sane.busy top rfl (Option.some.inj same)) (fun same => by cases same) rfl
    (fun _ aimed => by cases aimed) (fun stopped => by cases stopped) (fun is => by cases is) fun _ => rfl

theorem DividedSystem.ops_advance {d : Nat} {stmt : SchedStmt T} {rest : List (SchedStmt T)}
    {fs : List (Frame T)} (here : s.here = ⟨d, .ops (stmt :: rest)⟩ :: fs) :
    Advance s ((s.setKernel (stmt.run s.kernel)).operate rest d fs) none none := by
  have only := stmt.run_only s.kernel
  have counter := congrArg Kernel.irqNestingCounter only
  have current := congrArg Kernel.currentThread only
  have idle := congrArg Kernel.idleThread only
  have joining := congrArg Kernel.joiningThread only
  have settled : s.settled = runStmts (stmt.run s.kernel) (rest ++ restOf fs) := by
    rw [DividedSystem.settled, DividedSystem.rest, here]
    rfl
  refine Advance.of_operate (d := d) rest fs rfl
    (congrArg (fun c => Function.update s.frames c _) current) counter current idle
    (.of_alike (settled ▸ .of_flags rfl rfl rfl rfl)) (fun same => by cases same) (fun same => by cases same)
    (fun _ gone => Or.inl gone) ?_ (fun falls => by rcases falls with same | same <;> cases same) ?_ ?_
  · intro f member is
    rw [here, List.mem_cons] at member
    rcases member with rfl | below
    · cases is
    · exact ⟨f, below, is⟩
  · intro f member
    left
    rw [here]
    exact List.mem_cons_of_mem _ member
  · intro u v joins
    exact Or.inl ((congrFun joining u) ▸ joins)

theorem DividedSystem.ops_end {d : Nat} {fs : List (Frame T)} (here : s.here = ⟨d, .ops []⟩ :: fs) :
    Advance s (s.setHere fs) none none := by
  have settled : s.settled = runStmts s.kernel ([] ++ restOf fs) := by
    rw [DividedSystem.settled, DividedSystem.rest, here]
    rfl
  refine Advance.of_operate (d := d) (k := s.kernel) [] fs rfl rfl rfl rfl rfl
    (.of_alike (settled ▸ .of_flags rfl rfl rfl rfl)) (fun same => by cases same) (fun same => by cases same)
    (fun _ gone => Or.inl gone) ?_ (fun falls => by rcases falls with same | same <;> cases same) ?_
    fun _ _ joins => Or.inl joins
  · intro f member is
    rw [here, List.mem_cons] at member
    rcases member with rfl | below
    · cases is
    · exact ⟨f, below, is⟩
  · intro f member
    left
    rw [here]
    exact List.mem_cons_of_mem _ member

theorem DividedSystem.begin_advance {a : Ongoing T} (call : a.isOps = false) (ends : a.ends = false)
    (target : ∀ v, a.target = some v → s.kernel.live v = true ∧ v ≠ s.kernel.idleThread)
    (busy : s.kernel.currentThread ≠ s.kernel.idleThread) : Advance s (s.begin_ a) none none := by
  have rest : restOf (⟨s.irq.here.length, a⟩ :: s.here) = s.rest := by
    cases a with
    | ops rest => cases call
    | _ => rfl
  refine Advance.of_operate (d := 0) (k := s.kernel) [] (⟨s.irq.here.length, a⟩ :: s.here)
    rfl rfl rfl rfl rfl (.of_alike ?_) (fun same => by cases same) (fun same => by cases same)
    (fun _ gone => Or.inl gone) (fun f member is => ⟨f, List.mem_cons_of_mem _ member, is⟩)
    (fun falls => by rcases falls with same | same <;> cases same) ?_ fun _ _ joins => Or.inl joins
  · rw [List.nil_append, rest]
    exact .of_flags rfl rfl rfl rfl
  · intro f member
    rcases List.mem_cons.mp member with rfl | below
    · refine Or.inr ⟨fun stopped => ?_, target, fun self => absurd self busy⟩
      rw [ends] at stopped
      cases stopped
    · exact Or.inl below

theorem DividedSystem.operation_advance (done : s.rest = []) {ops : List (SchedStmt T)}
    (turned : Turned none none s.kernel (runStmts s.kernel ops)) :
    Advance s (s.operation ops) none none := by
  have final : runStmts s.kernel (ops ++ restOf s.here) = runStmts s.kernel ops := by
    rw [show restOf s.here = [] from done, List.append_nil]
  refine Advance.of_operate (d := s.irq.here.length) (k := s.kernel) ops s.here
    rfl rfl rfl rfl rfl ?_ (fun same => by cases same) (fun same => by cases same)
    (fun _ gone => Or.inl gone) (fun f member is => ⟨f, member, is⟩)
    (fun falls => by rcases falls with same | same <;> cases same) (fun f member => Or.inl member)
    fun _ _ joins => Or.inl joins
  rw [final, s.settled_done done]
  exact turned

end

end L4ertl
