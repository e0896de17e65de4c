import Mathlib.Algebra.BigOperators.Fin
import L4ertl.Core.CallSound
import L4ertl.System.Step

/-!
Nested interrupts (irqs-l4.c, sched.c). Each thread has a stack of unfinished
activations of do_irq and of scheduling; an interrupt may come between any two
of their statements, since hw_save_flags_and_cli masks nothing. Only
context_switch_to disables interrupts, so the switch is one step.
-/
namespace L4ertl
open Intrusive

/-- Where an activation stands. do_irq: between its increment and its decrement,
    before its test, about to call scheduling, in do_signals. scheduling: past its
    test, with its choice made, inside context_switch_to, before its last
    assignment. -/
inductive Phase (T : Type) where
  | handling
  | unchecked
  | calling
  | signals
  | tested
  | picked (new : T)
  | away
  | ending
  deriving DecidableEq, Repr

/-- A call of scheduling that was only recorded, or one that went on. -/
inductive SchedCall where
  | deferred
  | executed
  deriving DecidableEq, Repr

/-- `calls` are the calls of scheduling during the activation, in order. -/
structure Activation (T : Type) where
  phase : Phase T
  calls : List SchedCall
  deriving DecidableEq, Repr

structure IrqSystem (T : Type) where
  kernel : Kernel T
  stack : T → List (Activation T)

inductive IrqLabel (T : Type) where
  -- do_irq: its increment, its decrement, its test, its return
  | enter
  | leave
  | check
  | ret
  -- scheduling: its test, the choice of a thread, the switch, its last assignment
  | call
  | pick
  | switch (now : Duration)
  | finish
  -- whatever else handlers and system calls do to the kernel
  | work (code : Kernel T → Kernel T)

variable {T : Type}

def Phase.isHandling : Phase T → Bool
  | .handling => true
  | _ => false

def Phase.isOpen : Phase T → Bool
  | .handling | .unchecked | .calling => true
  | _ => false

def handlings (fs : List (Activation T)) : Nat := fs.countP fun f => f.phase.isHandling

def IrqSystem.depth [Fintype T] (s : IrqSystem T) : Nat := ∑ t, handlings (s.stack t)

def Activation.note (call : SchedCall) (f : Activation T) : Activation T :=
  { f with calls := f.calls ++ [call] }

/-- After a call of scheduling do_irq goes on to do_signals. -/
def pastCall : List (Activation T) → List (Activation T)
  | ⟨.calling, calls⟩ :: rest => ⟨.signals, calls⟩ :: rest
  | fs => fs

def resumed : List (Activation T) → List (Activation T)
  | f :: rest => { f with phase := .ending } :: rest
  | [] => []

/-- The running code may call scheduling here: a system call, an interrupt or a
    signal handler, or do_irq itself. -/
def mayCall : List (Activation T) → Bool
  | [] => true
  | f :: _ =>
    match f.phase with
    | .handling | .signals | .calling => true
    | _ => false

variable [DecidableEq T]

def deferring (k : Kernel T) : Prop := k.irqNestingCounter &&& outsideIrqs ≠ 0#32

instance (k : Kernel T) : Decidable (deferring k) := inferInstanceAs (Decidable (_ ≠ _))

/-- From the choice of another thread to its own way back out of context_switch_to. -/
def switchTo (now : Duration) (new : T) (k : Kernel T) : Kernel T :=
  let old := k.currentThread
  let k := { k with
    usedTime := Function.update k.usedTime old (k.usedTime old + (now - k.startingTime old)) }
  match k.kentrySp new with
  | none => allocKstack new { k with currentThread := new }
  | some _ =>
    { k with
      currentThread := new
      startingTime := Function.update k.startingTime new now }

def IrqSystem.here (s : IrqSystem T) : List (Activation T) := s.stack s.kernel.currentThread

def IrqSystem.setHere (fs : List (Activation T)) (s : IrqSystem T) : IrqSystem T :=
  { s with stack := Function.update s.stack s.kernel.currentThread fs }

def IrqSystem.setCounter (c : Word) (s : IrqSystem T) : IrqSystem T :=
  { s with kernel := { s.kernel with irqNestingCounter := c } }

def IrqSystem.switchAway (now : Duration) (new : T) (calls : List SchedCall)
    (rest : List (Activation T)) (s : IrqSystem T) : IrqSystem T :=
  let left := (s.setHere (⟨.away, calls⟩ :: rest)).stack
  ⟨switchTo now new s.kernel, Function.update left new
    (if s.kernel.kentrySp new = none then [] else resumed (left new))⟩

/-- Only the running thread moves. -/
def IrqSystem.next (s : IrqSystem T) : IrqLabel T → Option (IrqSystem T)
  | .enter =>
    some ((s.setHere (⟨.handling, []⟩ :: s.here)).setCounter (s.kernel.irqNestingCounter + 1#32))
  | .leave =>
    match s.here with
    | ⟨.handling, calls⟩ :: rest =>
      some ((s.setHere (⟨.unchecked, calls⟩ :: rest)).setCounter (s.kernel.irqNestingCounter - 1#32))
    | _ => none
  | .check =>
    match s.here with
    | ⟨.unchecked, calls⟩ :: rest =>
      let after : Phase T := if s.kernel.irqNestingCounter = schedPending then .calling else .signals
      some (s.setHere (⟨after, calls⟩ :: rest))
    | _ => none
  | .ret =>
    match s.here with
    | ⟨.signals, _⟩ :: rest => some (s.setHere rest)
    | _ => none
  | .call =>
    if mayCall s.here then
      if deferring s.kernel then
        some ((s.setHere ((pastCall s.here).map (Activation.note .deferred))).setCounter
          (s.kernel.irqNestingCounter ||| schedPending))
      else
        some (s.setHere (⟨.tested, []⟩ :: (pastCall s.here).map (Activation.note .executed)))
    else none
  | .pick =>
    match s.here with
    | ⟨.tested, calls⟩ :: rest =>
      let new := (getHeadSs s.kernel.activeThreads).1.getD s.kernel.idleThread
      some (s.setHere (⟨.picked new, calls⟩ :: rest))
    | _ => none
  | .switch now =>
    match s.here with
    | ⟨.picked new, calls⟩ :: rest =>
      if new ≠ s.kernel.currentThread then some (s.switchAway now new calls rest)
      else some (s.setHere (⟨.ending, calls⟩ :: rest))
    | _ => none
  | .finish =>
    match s.here with
    | ⟨.ending, _⟩ :: rest => some ((s.setHere rest).setCounter 0#32)
    | _ => none
  | .work code =>
    -- irq_nesting_counter and current_thread are written nowhere else
    let w := code s.kernel
    if w.irqNestingCounter = s.kernel.irqNestingCounter ∧ w.currentThread = s.kernel.currentThread then
      some { s with kernel := w }
    else none

def IrqSystem.step (s : IrqSystem T) (l : IrqLabel T) : Option (IrqSystem T × List Unit) :=
  (s.next l).map fun w => (w, [])

/-- One thread runs, in user mode; the others are inside scheduling or new. -/
def IrqSystem.start (k : Kernel T) : IrqSystem T :=
  ⟨k, fun t => if t = k.currentThread then [] else [⟨.away, []⟩]⟩

section
omit [DecidableEq T]

theorem outside_toNat (c : Word) : (c &&& outsideIrqs).toNat = c.toNat % 2 ^ 31 := by
  rw [BitVec.toNat_and, show outsideIrqs.toNat = 2 ^ 31 - 1 from rfl, Nat.and_two_pow_sub_one_eq_mod]

theorem pending_toNat (c : Word) : (c ||| schedPending).toNat = 2 ^ 31 + c.toNat % 2 ^ 31 := by
  have bits := c.isLt
  have or : 2 ^ 31 + c.toNat % 2 ^ 31 = 2 ^ 31 ||| c.toNat % 2 ^ 31 := by
    have all := Nat.two_pow_add_eq_or_of_lt (Nat.mod_lt c.toNat (by decide : 0 < 2 ^ 31)) 1
    rwa [Nat.mul_one] at all
  rw [BitVec.toNat_or, show schedPending.toNat = 2 ^ 31 from rfl, Nat.or_comm]
  by_cases set : c.toNat < 2 ^ 31
  · rw [or, Nat.mod_eq_of_lt set]
  · have high : c.toNat = 2 ^ 31 ||| c.toNat % 2 ^ 31 := by omega
    rw [or, ← high]
    nth_rewrite 1 [high]
    rw [← Nat.or_assoc, Nat.or_self]
    exact high.symm

def Activation.owes (f : Activation T) : Prop := f.calls.getLast? = some .deferred

def Phase.isSched : Phase T → Bool
  | .tested | .picked _ | .away | .ending => true
  | _ => false

/-- From the top down, a do_irq that will still call scheduling comes before any
    activation that waits for it. -/
def Covered : List (Activation T) → Prop
  | [] => True
  | f :: below => f.phase.isOpen = true ∨ ¬f.owes ∧ Covered below

/-- scheduling goes on with no do_irq between increment and decrement, and serves
    all that lies below it. -/
def Synced : List (Activation T) → Prop
  | [] => True
  | f :: below =>
    (f.phase.isSched = true → handlings below = 0 ∧ (¬f.owes → ∀ g ∈ below, ¬g.owes)) ∧ Synced below

structure Waiting (fs : List (Activation T)) : Prop where
  away : ∃ calls rest, fs = ⟨.away, calls⟩ :: rest
  none : handlings fs = 0
  calm : ∀ f ∈ fs, ¬f.owes

theorem covered_of_calm {fs : List (Activation T)} (calm : ∀ f ∈ fs, ¬f.owes) : Covered fs := by
  induction fs with
  | nil => trivial
  | cons f below ih =>
    rw [List.forall_mem_cons] at calm
    exact Or.inr ⟨calm.1, ih calm.2⟩

theorem handlings_cons (f : Activation T) (fs : List (Activation T)) :
    handlings (f :: fs) = handlings fs + if f.phase.isHandling then 1 else 0 := by
  rw [handlings, handlings, List.countP_cons]

theorem note_owes (call : SchedCall) (f : Activation T) : (f.note call).owes ↔ call = .deferred := by
  simp [Activation.owes, Activation.note]

theorem handlings_note (call : SchedCall) (fs : List (Activation T)) :
    handlings (fs.map (Activation.note call)) = handlings fs := by
  rw [handlings, List.countP_map]
  rfl

theorem handlings_pastCall (fs : List (Activation T)) : handlings (pastCall fs) = handlings fs := by
  unfold pastCall
  split
  · rfl
  · rfl

theorem Synced.note {fs : List (Activation T)} (synced : Synced fs) (call : SchedCall) :
    Synced (fs.map (Activation.note call)) := by
  induction fs with
  | nil => trivial
  | cons f below ih =>
    refine ⟨?_, ih synced.2⟩
    intro sched
    refine ⟨?_, ?_⟩
    · rw [handlings_note]
      exact (synced.1 sched).1
    · intro served g member
      obtain ⟨h, _, rfl⟩ := List.mem_map.mp member
      rw [note_owes] at served ⊢
      exact served

theorem Synced.pastCall {fs : List (Activation T)} (synced : Synced fs) : Synced (pastCall fs) := by
  unfold L4ertl.pastCall
  split
  · exact ⟨fun sched => by simp [Phase.isSched] at sched, synced.2⟩
  · exact synced

end

structure Nested (s : IrqSystem T) : Prop where
  counter : s.kernel.irqNestingCounter.toNat % 2 ^ 31 = handlings s.here
  pending : ∀ f ∈ s.here, f.owes → 2 ^ 31 ≤ s.kernel.irqNestingCounter.toNat
  covered : handlings s.here = 0 → Covered s.here
  synced : ∀ t, Synced (s.stack t)
  waiting : ∀ t, t ≠ s.kernel.currentThread → Waiting (s.stack t)

omit [DecidableEq T] in
theorem deferring_iff {s : IrqSystem T} (ok : Nested s) : deferring s.kernel ↔ 0 < handlings s.here := by
  have low := outside_toNat s.kernel.irqNestingCounter
  rw [ok.counter] at low
  rw [deferring, ne_eq, ← BitVec.toNat_inj, low]
  exact Nat.pos_iff_ne_zero.symm

omit [DecidableEq T] in
theorem Nested.top {s : IrqSystem T} (ok : Nested s) {f : Activation T} {rest : List (Activation T)}
    (here : s.here = f :: rest) (sched : f.phase.isSched = true) :
    handlings s.here = 0 ∧ ∀ g ∈ s.here, ¬g.owes := by
  have synced : Synced s.here := ok.synced _
  have covered := ok.covered
  rw [here] at synced covered ⊢
  have counts : f.phase.isHandling = false ∧ f.phase.isOpen = false := by
    cases phase : f.phase <;> simp_all [Phase.isSched, Phase.isHandling, Phase.isOpen]
  have none : handlings (f :: rest) = 0 := by
    rw [handlings_cons, (synced.1 sched).1, counts.1]
    rfl
  rcases covered none with opened | ⟨served, _⟩
  · rw [counts.2] at opened
    cases opened
  · exact ⟨none, List.forall_mem_cons.mpr ⟨served, (synced.1 sched).2 served⟩⟩

theorem here_moved (s : IrqSystem T) (fs : List (Activation T)) (c : Word) :
    ((s.setHere fs).setCounter c).here = fs := Function.update_self ..

theorem Nested.move {s : IrqSystem T} (ok : Nested s) {fs : List (Activation T)} {c : Word}
    (counter : c.toNat % 2 ^ 31 = handlings fs) (pending : ∀ f ∈ fs, f.owes → 2 ^ 31 ≤ c.toNat)
    (covered : handlings fs = 0 → Covered fs) (synced : Synced fs) :
    Nested ((s.setHere fs).setCounter c) := by
  have here := here_moved s fs c
  constructor
  · rw [here]
    exact counter
  · rw [here]
    exact pending
  · rw [here]
    exact covered
  · intro t
    by_cases self : t = s.kernel.currentThread
    · subst self
      have own : Synced ((s.setHere fs).setCounter c).here := by rwa [here]
      exact own
    · have same : ((s.setHere fs).setCounter c).stack t = s.stack t := Function.update_of_ne self ..
      rw [same]
      exact ok.synced t
  · intro t other
    have same : ((s.setHere fs).setCounter c).stack t = s.stack t := Function.update_of_ne other ..
    rw [same]
    exact ok.waiting t other

theorem Nested.enter {s : IrqSystem T} (ok : Nested s) (shallow : handlings s.here + 1 < 2 ^ 31 - 1) :
    Nested ((s.setHere (⟨.handling, []⟩ :: s.here)).setCounter (s.kernel.irqNestingCounter + 1#32)) := by
  have low := ok.counter
  have bits := s.kernel.irqNestingCounter.isLt
  have more : (s.kernel.irqNestingCounter + 1#32).toNat = s.kernel.irqNestingCounter.toNat + 1 := by
    rw [BitVec.toNat_add, BitVec.toNat_ofNat]
    omega
  apply ok.move
  · rw [more, handlings_cons]
    simp only [Phase.isHandling, if_true]
    omega
  · intro f member owes
    rw [List.mem_cons] at member
    rcases member with rfl | below
    · cases owes
    · have pending := ok.pending f below owes
      omega
  · intro none
    rw [handlings_cons] at none
    simp [Phase.isHandling] at none
  · exact ⟨fun sched => (nomatch sched), ok.synced _⟩

theorem Nested.leave {s : IrqSystem T} (ok : Nested s) {calls : List SchedCall}
    {rest : List (Activation T)} (here : s.here = ⟨.handling, calls⟩ :: rest) :
    Nested ((s.setHere (⟨.unchecked, calls⟩ :: rest)).setCounter
      (s.kernel.irqNestingCounter - 1#32)) := by
  have low := ok.counter
  have bits := s.kernel.irqNestingCounter.isLt
  have synced : Synced s.here := ok.synced _
  rw [here, handlings_cons] at low
  rw [here] at synced
  simp only [Phase.isHandling, if_true] at low
  have less : (s.kernel.irqNestingCounter - 1#32).toNat = s.kernel.irqNestingCounter.toNat - 1 := by
    rw [BitVec.toNat_sub, BitVec.toNat_ofNat]
    omega
  apply ok.move
  · rw [less, handlings_cons]
    simp only [Phase.isHandling, Bool.false_eq_true, if_false]
    omega
  · intro f member owes
    -- the activation itself keeps its calls, so both cases were owed before
    have before : ∃ g ∈ s.here, g.owes := by
      rw [here]
      rw [List.mem_cons] at member
      rcases member with rfl | below
      · exact ⟨⟨.handling, calls⟩, List.mem_cons_self, owes⟩
      · exact ⟨f, List.mem_cons_of_mem _ below, owes⟩
    obtain ⟨g, held, asked⟩ := before
    have pending := ok.pending g held asked
    omega
  · intro _
    exact Or.inl rfl
  · exact ⟨fun sched => (nomatch sched), synced.2⟩

theorem Nested.rephase {s : IrqSystem T} (ok : Nested s) {p q : Phase T} {calls : List SchedCall}
    {rest : List (Activation T)} (here : s.here = ⟨p, calls⟩ :: rest)
    (handles : q.isHandling = p.isHandling) (sched : q.isSched = p.isSched)
    (covered : handlings rest = 0 → Covered (⟨p, calls⟩ :: rest) → Covered (⟨q, calls⟩ :: rest)) :
    Nested (s.setHere (⟨q, calls⟩ :: rest)) := by
  have counts : handlings (⟨q, calls⟩ :: rest) = handlings s.here := by
    rw [here, handlings_cons, handlings_cons, handles]
  have synced : Synced s.here := ok.synced _
  apply ok.move (c := s.kernel.irqNestingCounter)
  · rw [counts]
    exact ok.counter
  · intro f member owes
    rw [List.mem_cons] at member
    rcases member with rfl | below
    · exact ok.pending ⟨p, calls⟩ (here ▸ List.mem_cons_self) owes
    · exact ok.pending f (here ▸ List.mem_cons_of_mem _ below) owes
  · intro none
    have empty : handlings rest = 0 := by
      rw [handlings_cons] at none
      omega
    rw [counts] at none
    exact covered empty (here ▸ ok.covered none)
  · rw [here] at synced
    exact ⟨fun is => synced.1 (sched ▸ is), synced.2⟩

theorem Nested.check {s : IrqSystem T} (ok : Nested s) {calls : List SchedCall}
    {rest : List (Activation T)} (here : s.here = ⟨.unchecked, calls⟩ :: rest) :
    Nested (s.setHere (⟨if s.kernel.irqNestingCounter = schedPending then .calling else .signals,
      calls⟩ :: rest)) := by
  by_cases asked : s.kernel.irqNestingCounter = schedPending
  · rw [if_pos asked]
    exact ok.rephase here rfl rfl fun _ _ => Or.inl rfl
  · rw [if_neg asked]
    refine ok.rephase here rfl rfl ?_
    intro none _
    have low := ok.counter
    have bits := s.kernel.irqNestingCounter.isLt
    rw [here, handlings_cons, none] at low
    simp only [Phase.isHandling, Bool.false_eq_true, if_false] at low
    have clear : s.kernel.irqNestingCounter.toNat < 2 ^ 31 := by
      rw [← BitVec.toNat_inj, show schedPending.toNat = 2 ^ 31 from rfl] at asked
      omega
    have calm : ∀ f ∈ s.here, ¬f.owes := by
      intro f member owes
      have pending := ok.pending f member owes
      omega
    rw [here, List.forall_mem_cons] at calm
    exact Or.inr ⟨calm.1, covered_of_calm calm.2⟩

theorem Nested.ret {s : IrqSystem T} (ok : Nested s) {calls : List SchedCall}
    {rest : List (Activation T)} (here : s.here = ⟨.signals, calls⟩ :: rest) :
    Nested (s.setHere rest) := by
  have counts : handlings rest = handlings s.here := by
    rw [here, handlings_cons]
    rfl
  have synced : Synced s.here := ok.synced _
  apply ok.move (c := s.kernel.irqNestingCounter)
  · rw [counts]
    exact ok.counter
  · intro f member owes
    exact ok.pending f (here ▸ List.mem_cons_of_mem _ member) owes
  · intro none
    rw [counts] at none
    have covered := ok.covered none
    rw [here] at covered
    rcases covered with opened | ⟨_, rest⟩
    · cases opened
    · exact rest
  · rw [here] at synced
    exact synced.2

theorem Nested.defer {s : IrqSystem T} (ok : Nested s) (inside : deferring s.kernel) :
    Nested ((s.setHere ((pastCall s.here).map (Activation.note .deferred))).setCounter
      (s.kernel.irqNestingCounter ||| schedPending)) := by
  have low := ok.counter
  have bits := s.kernel.irqNestingCounter.isLt
  rw [deferring_iff ok] at inside
  apply ok.move
  · rw [handlings_note, handlings_pastCall, pending_toNat]
    omega
  · intro f _ _
    rw [pending_toNat]
    omega
  · intro none
    rw [handlings_note, handlings_pastCall] at none
    omega
  · exact (ok.synced _).pastCall.note .deferred

theorem Nested.execute {s : IrqSystem T} (ok : Nested s) (outside : ¬deferring s.kernel) :
    Nested (s.setHere (⟨.tested, []⟩ :: (pastCall s.here).map (Activation.note .executed))) := by
  rw [deferring_iff ok, Nat.pos_iff_ne_zero, not_not] at outside
  have counts : handlings ((pastCall s.here).map (Activation.note .executed)) = 0 := by
    rw [handlings_note, handlings_pastCall, outside]
  have calm : ∀ f ∈ (pastCall s.here).map (Activation.note .executed), ¬f.owes := by
    intro f member
    obtain ⟨g, _, rfl⟩ := List.mem_map.mp member
    rw [note_owes]
    decide
  have fresh : ¬(⟨.tested, []⟩ : Activation T).owes := by
    intro owes
    cases owes
  have all := (List.forall_mem_cons (p := fun f : Activation T => ¬f.owes)).mpr ⟨fresh, calm⟩
  apply ok.move (c := s.kernel.irqNestingCounter)
  · rw [ok.counter, outside, handlings_cons, counts]
    rfl
  · intro f member owes
    exact absurd owes (all f member)
  · intro _
    exact covered_of_calm all
  · exact ⟨fun _ => ⟨counts, fun _ => calm⟩, (ok.synced _).pastCall.note .executed⟩

theorem Nested.finish {s : IrqSystem T} (ok : Nested s) {calls : List SchedCall}
    {rest : List (Activation T)} (here : s.here = ⟨.ending, calls⟩ :: rest) :
    Nested ((s.setHere rest).setCounter 0#32) := by
  obtain ⟨none, calm⟩ := ok.top here rfl
  have synced : Synced s.here := ok.synced _
  rw [here] at none calm synced
  rw [List.forall_mem_cons] at calm
  have counts : handlings rest = 0 := by
    rw [handlings_cons] at none
    omega
  apply ok.move
  · rw [counts]
    rfl
  · intro f member owes
    exact absurd owes (calm.2 f member)
  · intro _
    exact covered_of_calm calm.2
  · exact synced.2

theorem switchTo_current (now : Duration) (new : T) (k : Kernel T) :
    (switchTo now new k).currentThread = new := by
  simp only [switchTo, allocKstack]
  split <;> rfl

theorem switchTo_counter (now : Duration) (new : T) (k : Kernel T) :
    (switchTo now new k).irqNestingCounter = k.irqNestingCounter := by
  simp only [switchTo, allocKstack]
  split <;> rfl

omit [DecidableEq T] in
theorem Waiting.resumed {fs : List (Activation T)} (waiting : Waiting fs) (synced : Synced fs) :
    handlings (resumed fs) = 0 ∧ (∀ f ∈ resumed fs, ¬f.owes) ∧ Synced (resumed fs) := by
  obtain ⟨calls, rest, rfl⟩ := waiting.away
  have none := waiting.none
  have calm := waiting.calm
  refine ⟨?_, ?_, ?_⟩
  · rw [handlings_cons] at none
    simpa [L4ertl.resumed, handlings_cons, Phase.isHandling] using none
  · rw [List.forall_mem_cons] at calm
    intro f member
    rcases List.mem_cons.mp member with rfl | below
    · exact calm.1
    · exact calm.2 f below
  · exact ⟨fun _ => synced.1 rfl, synced.2⟩

omit [DecidableEq T] in
theorem Nested.incoming {s : IrqSystem T} (ok : Nested s) {new : T} (other : new ≠ s.kernel.currentThread)
    (fs : List (Activation T))
    (eq : fs = if s.kernel.kentrySp new = none then [] else resumed (s.stack new)) :
    handlings fs = 0 ∧ (∀ f ∈ fs, ¬f.owes) ∧ Synced fs := by
  rw [eq]
  split
  · exact ⟨rfl, fun f member => (nomatch member), trivial⟩
  · exact (ok.waiting new other).resumed (ok.synced new)

theorem Nested.switchAway {s : IrqSystem T} (ok : Nested s) {new : T} {calls : List SchedCall}
    {rest : List (Activation T)} (here : s.here = ⟨.picked new, calls⟩ :: rest)
    (other : new ≠ s.kernel.currentThread) (now : Duration) :
    Nested (s.switchAway now new calls rest) := by
  obtain ⟨none, calm⟩ := ok.top here rfl
  have synced : Synced s.here := ok.synced _
  have counter := ok.counter
  rw [none] at counter
  rw [here] at none calm synced
  have left : ∀ t, t ≠ s.kernel.currentThread →
      (s.setHere (⟨.away, calls⟩ :: rest)).stack t = s.stack t :=
    fun t away => Function.update_of_ne away ..
  obtain ⟨count, still, shape⟩ := ok.incoming other _ rfl
  have top : (s.switchAway now new calls rest).here =
      if s.kernel.kentrySp new = .none then [] else resumed (s.stack new) := by
    simp only [IrqSystem.here, IrqSystem.switchAway, switchTo_current, Function.update_self,
      left new other]
  have stays : ∀ t, t ≠ new → (s.switchAway now new calls rest).stack t =
      (s.setHere (⟨.away, calls⟩ :: rest)).stack t :=
    fun t away => Function.update_of_ne away ..
  have old : (s.setHere (⟨.away, calls⟩ :: rest)).stack s.kernel.currentThread = ⟨.away, calls⟩ :: rest :=
    Function.update_self ..
  have word : (s.switchAway now new calls rest).kernel.irqNestingCounter =
      s.kernel.irqNestingCounter := switchTo_counter now new s.kernel
  have running : (s.switchAway now new calls rest).kernel.currentThread = new :=
    switchTo_current now new s.kernel
  have gone : Waiting (⟨.away, calls⟩ :: rest) := by
    rw [handlings_cons] at none
    rw [List.forall_mem_cons] at calm
    refine ⟨⟨calls, rest, rfl⟩, ?_, ?_⟩
    · rw [handlings_cons]
      exact none
    · exact (List.forall_mem_cons (p := fun f : Activation T => ¬f.owes)).mpr calm
  constructor
  · rw [word, top, counter, count]
  · intro f member owes
    rw [top] at member
    exact absurd owes (still f member)
  · intro _
    rw [top]
    exact covered_of_calm still
  · intro t
    by_cases self : t = new
    · subst self
      have own : Synced (s.switchAway now t calls rest).here := by
        rw [top]
        exact shape
      rw [IrqSystem.here, running] at own
      exact own
    · rw [stays t self]
      by_cases was : t = s.kernel.currentThread
      · rw [was, old]
        exact ⟨fun _ => synced.1 rfl, synced.2⟩
      · rw [left t was]
        exact ok.synced t
  · intro t away
    rw [running] at away
    rw [stays t away]
    by_cases was : t = s.kernel.currentThread
    · rw [was, old]
      exact gone
    · rw [left t was]
      exact ok.waiting t was

omit [DecidableEq T] in
theorem Nested.depth [Fintype T] {s : IrqSystem T} (ok : Nested s) : s.depth = handlings s.here := by
  apply Finset.sum_eq_single
  · intro t _ other
    exact (ok.waiting t other).none
  · intro absent
    exact absurd (Finset.mem_univ _) absent

def IrqSystem.Shallow [Fintype T] (s : IrqSystem T) : IrqLabel T → Prop
  | .enter => s.depth + 1 < 2 ^ 31 - 1
  | _ => True

instance [Fintype T] (s : IrqSystem T) : ∀ l, Decidable (s.Shallow l)
  | .enter => inferInstanceAs (Decidable (s.depth + 1 < 2 ^ 31 - 1))
  | .leave | .check | .ret | .call | .pick | .switch _ | .finish | .work _ => isTrue trivial

theorem Nested.next [Fintype T] {s w : IrqSystem T} {l : IrqLabel T} (ok : Nested s)
    (shallow : s.Shallow l) (taken : s.next l = some w) : Nested w := by
  cases l with
  | enter =>
    cases taken
    rw [IrqSystem.Shallow, ok.depth] at shallow
    exact ok.enter shallow
  | leave =>
    simp only [IrqSystem.next] at taken
    split at taken
    · rename_i calls rest here
      cases taken
      exact ok.leave here
    · cases taken
  | check =>
    simp only [IrqSystem.next] at taken
    split at taken
    · rename_i calls rest here
      cases taken
      exact ok.check here
    · cases taken
  | ret =>
    simp only [IrqSystem.next] at taken
    split at taken
    · rename_i calls rest here
      cases taken
      exact ok.ret here
    · cases taken
  | call =>
    simp only [IrqSystem.next] at taken
    split at taken
    · split at taken
      · rename_i inside
        cases taken
        exact ok.defer inside
      · rename_i outside
        cases taken
        exact ok.execute outside
    · cases taken
  | pick =>
    simp only [IrqSystem.next] at taken
    split at taken
    · rename_i calls rest here
      cases taken
      exact ok.rephase here rfl rfl fun _ covered => covered
    · cases taken
  | switch now =>
    simp only [IrqSystem.next] at taken
    split at taken
    · rename_i new calls rest here
      split at taken
      · rename_i other
        cases taken
        exact ok.switchAway here other now
      · cases taken
        exact ok.rephase here rfl rfl fun _ covered => covered
    · cases taken
  | finish =>
    simp only [IrqSystem.next] at taken
    split at taken
    · rename_i calls rest here
      cases taken
      exact ok.finish here
    · cases taken
  | work code =>
    simp only [IrqSystem.next] at taken
    split at taken
    · rename_i same
      cases taken
      have here : IrqSystem.here { s with kernel := code s.kernel } = s.here := by
        rw [IrqSystem.here, same.2]
        rfl
      constructor
      · rw [here, same.1]
        exact ok.counter
      · rw [here, same.1]
        exact ok.pending
      · rw [here]
        exact ok.covered
      · exact ok.synced
      · rw [same.2]
        exact ok.waiting
    · cases taken

theorem exec_then {s w x : IrqSystem T} {l : IrqLabel T} {ls : List (IrqLabel T)}
    (taken : s.next l = some w) (rest : Lts.exec IrqSystem.step w ls = some (x, [])) :
    Lts.exec IrqSystem.step s (l :: ls) = some (x, []) := by
  simp [Lts.exec, IrqSystem.step, taken, rest]

theorem next_deferred {s : IrqSystem T} (may : mayCall s.here = true) (inside : deferring s.kernel) :
    s.next .call = some ((s.setHere ((pastCall s.here).map (Activation.note .deferred))).setCounter
      (s.kernel.irqNestingCounter ||| schedPending)) := by
  simp [IrqSystem.next, may, inside]

theorem next_leave {s : IrqSystem T} {calls : List SchedCall} {rest : List (Activation T)}
    (here : s.here = ⟨.handling, calls⟩ :: rest) :
    s.next .leave = some ((s.setHere (⟨.unchecked, calls⟩ :: rest)).setCounter
      (s.kernel.irqNestingCounter - 1#32)) := by
  simp [IrqSystem.next, here]

/-- A call that no interrupt divides is the `scheduling` of the other modules. -/
theorem scheduling_undivided {s : IrqSystem T} (ok : Nested s) (may : mayCall s.here = true)
    (now : Duration) :
    ∃ ls w, Lts.exec IrqSystem.step s ls = some (w, []) ∧ w.kernel = scheduling now s.kernel := by
  by_cases inside : deferring s.kernel
  · refine ⟨[.call], _, exec_then (next_deferred may inside) rfl, ?_⟩
    exact (scheduling_nested inside).symm
  · have outside : ¬s.kernel.irqNestingCounter &&& outsideIrqs ≠ 0#32 := inside
    have called : s.next .call = some
        (s.setHere (⟨.tested, []⟩ :: (pastCall s.here).map (Activation.note .executed))) := by
      simp [IrqSystem.next, may, inside]
    set rest := (pastCall s.here).map (Activation.note .executed)
    have picked : (s.setHere (⟨.tested, []⟩ :: rest)).next .pick = some (s.setHere
        (⟨.picked ((getHeadSs s.kernel.activeThreads).1.getD s.kernel.idleThread), []⟩ :: rest)) := by
      simp [IrqSystem.next, IrqSystem.here, IrqSystem.setHere]
    set new := (getHeadSs s.kernel.activeThreads).1.getD s.kernel.idleThread with choice
    by_cases other : new ≠ s.kernel.currentThread
    · have switched : (s.setHere (⟨.picked new, []⟩ :: rest)).next (.switch now) =
          some (s.switchAway now new [] rest) := by
        simp [IrqSystem.next, IrqSystem.here, IrqSystem.setHere, other, IrqSystem.switchAway]
      cases stack : s.kernel.kentrySp new with
      | none =>
        refine ⟨[.call, .pick, .switch now], _, exec_then called (exec_then picked
          (exec_then switched rfl)), ?_⟩
        simp only [scheduling, if_neg outside, ← choice, if_pos other, contextSwitchTo, stack,
          IrqSystem.switchAway, switchTo]
      | some i =>
        obtain ⟨calls, below, away⟩ := (ok.waiting new other).away
        have here : (s.switchAway now new [] rest).here = ⟨.ending, calls⟩ :: below := by
          simp only [IrqSystem.here, IrqSystem.switchAway, switchTo_current, Function.update_self,
            stack, IrqSystem.setHere, Function.update_of_ne other, away]
          rfl
        have finished : (s.switchAway now new [] rest).next .finish =
            some (((s.switchAway now new [] rest).setHere below).setCounter 0#32) := by
          simp [IrqSystem.next, here]
        refine ⟨[.call, .pick, .switch now, .finish], _, exec_then called (exec_then picked
          (exec_then switched (exec_then finished rfl))), ?_⟩
        simp only [scheduling, if_neg outside, ← choice, if_pos other, contextSwitchTo, stack,
          IrqSystem.switchAway, switchTo, IrqSystem.setHere, IrqSystem.setCounter]
    · have stayed : (s.setHere (⟨.picked new, []⟩ :: rest)).next (.switch now) =
          some (s.setHere (⟨.ending, []⟩ :: rest)) := by
        simp only [IrqSystem.next, IrqSystem.here, IrqSystem.setHere, Function.update_self, if_neg other,
          Function.update_idem]
      have finished : (s.setHere (⟨.ending, []⟩ :: rest)).next .finish =
          some ((s.setHere rest).setCounter 0#32) := by
        simp [IrqSystem.next, IrqSystem.here, IrqSystem.setHere]
      refine ⟨[.call, .pick, .switch now, .finish], _, exec_then called (exec_then picked
        (exec_then stayed (exec_then finished rfl))), ?_⟩
      simp only [scheduling, if_neg outside, ← choice, if_neg other, IrqSystem.setHere,
        IrqSystem.setCounter]

theorem doIrq_undivided {s : IrqSystem T} {fuel : Nat} {now : Nat → Clocks} {w : Kernel T}
    {pr : Progress} (outside : s.kernel.irqNestingCounter = 0#32 ∨
      s.kernel.irqNestingCounter = schedPending) (ran : doIrq fuel now s.kernel = .ok (w, pr)) :
    ∃ ls x, Lts.exec IrqSystem.step s ls = some (x, []) ∧ x.kernel = w := by
  simp only [doIrq, clockHandler, bind, bind_ok, pure, Except.pure, Except.ok.injEq,
    Prod.mk.injEq] at ran
  obtain ⟨handled, ⟨r, update, rfl⟩, rfl, rfl⟩ := ran
  obtain ⟨woken, _⟩ := updateHwtimer_woken update
  have counter : r.kernel.irqNestingCounter = s.kernel.irqNestingCounter + 1#32 :=
    congrArg Kernel.irqNestingCounter woken.only
  have current : r.kernel.currentThread = s.kernel.currentThread := by
    have same := congrArg Kernel.currentThread woken.only
    exact same
  have inside : deferring r.kernel := by
    rw [deferring, counter]
    rcases outside with idle | waits
    · rw [idle]; decide
    · rw [waits]; decide
  set entered := (s.setHere (⟨.handling, []⟩ :: s.here)).setCounter (s.kernel.irqNestingCounter + 1#32)
  have served : entered.next (.work fun _ => r.kernel) = some { entered with kernel := r.kernel } :=
    if_pos ⟨counter, current⟩
  have here : IrqSystem.here { entered with kernel := r.kernel } = ⟨.handling, []⟩ :: s.here := by
    simp [IrqSystem.here, current, entered, IrqSystem.setHere, IrqSystem.setCounter]
  by_cases asked : r.action = needReesched
  · rw [if_pos asked, scheduling_nested inside]
    have called := next_deferred (s := { entered with kernel := r.kernel }) (by rw [here]; rfl) inside
    rw [here] at called
    have left := next_leave (here_moved { entered with kernel := r.kernel }
      (⟨.handling, [.deferred]⟩ :: s.here.map (Activation.note .deferred))
      (r.kernel.irqNestingCounter ||| schedPending))
    refine ⟨[.enter, .work fun _ => r.kernel, .call, .leave], _, exec_then rfl (exec_then served
      (exec_then called (exec_then left rfl))), ?_⟩
    rfl
  · rw [if_neg asked]
    refine ⟨[.enter, .work fun _ => r.kernel, .leave], _, exec_then rfl (exec_then served
      (exec_then (next_leave here) rfl)), ?_⟩
    rfl

theorem nested_start {k : Kernel T} (zero : k.irqNestingCounter = 0#32) : Nested (.start k) := by
  have here : (IrqSystem.start k).here = [] := if_pos rfl
  constructor
  · rw [here]
    exact congrArg (fun c => c.toNat % 2 ^ 31) zero
  · rw [here]
    intro f member
    cases member
  · rw [here]
    intro _
    trivial
  · intro t
    by_cases self : t = k.currentThread
    · simp [IrqSystem.start, self, Synced]
    · simp [IrqSystem.start, self, Synced, handlings]
  · intro t other
    have own : (IrqSystem.start k).stack t = [⟨.away, []⟩] := if_neg other
    rw [own]
    exact ⟨⟨[], [], rfl⟩, rfl, by simp [Activation.owes]⟩

/-- The laws of nesting and of deferred scheduling, in a state and for its next step. -/
structure IrqSystem.Lawful [Fintype T] (s : IrqSystem T) : Prop where
  counts : (s.kernel.irqNestingCounter &&& outsideIrqs).toNat = s.depth
  -- scheduling goes on with depth 0 and is put off with any other
  defers : deferring s.kernel ↔ 1 ≤ s.depth
  holds : ∀ l w es, s.step l = some (w, es) → w.kernel.currentThread ≠ s.kernel.currentThread →
    s.depth = 0
  -- an outermost do_irq that returns has seen scheduling go on after each put off call
  serves : ∀ f below w es, s.here = f :: below → handlings below = 0 → s.step .ret = some (w, es) →
    ∀ before after, f.calls = before ++ .deferred :: after → .executed ∈ after
  clears : ∀ w es, s.step .finish = some (w, es) →
    w.kernel.irqNestingCounter &&& schedPending = 0#32

theorem next_current {s w : IrqSystem T} {l : IrqLabel T} (taken : s.next l = some w)
    (changed : w.kernel.currentThread ≠ s.kernel.currentThread) :
    ∃ new calls rest, s.here = ⟨.picked new, calls⟩ :: rest := by
  cases l with
  | switch now =>
    simp only [IrqSystem.next] at taken
    split at taken
    · rename_i new calls rest here
      exact ⟨new, calls, rest, here⟩
    · cases taken
  | work code =>
    simp only [IrqSystem.next] at taken
    split at taken
    · rename_i same
      cases taken
      exact absurd same.2 changed
    · cases taken
  | enter =>
    cases taken
    exact absurd rfl changed
  | call =>
    simp only [IrqSystem.next] at taken
    split at taken
    · split at taken <;> cases taken <;> exact absurd rfl changed
    · cases taken
  | _ =>
    simp only [IrqSystem.next] at taken
    split at taken
    · cases taken
      exact absurd rfl changed
    · cases taken

theorem Nested.holds {s w : IrqSystem T} {l : IrqLabel T} (ok : Nested s) (taken : s.next l = some w)
    (changed : w.kernel.currentThread ≠ s.kernel.currentThread) : handlings s.here = 0 := by
  obtain ⟨new, calls, rest, here⟩ := next_current taken changed
  exact (ok.top here rfl).1

omit [DecidableEq T] in
theorem executed_of_last {calls before after : List SchedCall} (last : calls.getLast? ≠ some .deferred)
    (eq : calls = before ++ .deferred :: after) : .executed ∈ after := by
  cases after using List.reverseRecOn with
  | nil =>
    rw [eq] at last
    simp at last
  | append_singleton more call =>
    cases call with
    | deferred =>
      rw [eq, ← List.cons_append, ← List.append_assoc, List.getLast?_concat] at last
      exact absurd rfl last
    | executed => simp

theorem Nested.serves {s w : IrqSystem T} {f : Activation T} {below : List (Activation T)} (ok : Nested s)
    (here : s.here = f :: below) (outermost : handlings below = 0) (taken : s.next .ret = some w) :
    ¬f.owes := by
  simp only [IrqSystem.next, here] at taken
  split at taken
  · rename_i calls rest top
    cases top
    have none : handlings s.here = 0 := by
      rw [here, handlings_cons, outermost]
      rfl
    have covered := ok.covered none
    rw [here] at covered
    rcases covered with opened | ⟨served, _⟩
    · cases opened
    · exact served
  · cases taken

theorem Nested.lawful [Fintype T] {s : IrqSystem T} (ok : Nested s) : s.Lawful := by
  constructor
  · rw [outside_toNat, ok.counter, ok.depth]
  · rw [deferring_iff ok, ok.depth]
    exact Iff.rfl
  · intro l w es taken changed
    obtain ⟨x, next, eq⟩ := Option.map_eq_some_iff.mp taken
    cases eq
    rw [ok.depth]
    exact ok.holds next changed
  · intro f below w es here outermost taken before after eq
    obtain ⟨x, next, _⟩ := Option.map_eq_some_iff.mp taken
    exact executed_of_last (ok.serves here outermost next) eq
  · intro w es taken
    obtain ⟨x, next, eq⟩ := Option.map_eq_some_iff.mp taken
    cases eq
    simp only [IrqSystem.next] at next
    split at next
    · cases next
      exact BitVec.zero_and
    · cases next

theorem irq_nesting_lawful [Fintype T] (k : Kernel T) (zero : k.irqNestingCounter = 0#32)
    (ls : List (IrqLabel T)) (s : IrqSystem T) (es : List Unit)
    (shallow : Lts.Along IrqSystem.step IrqSystem.Shallow (.start k) ls)
    (run : Lts.exec IrqSystem.step (.start k) ls = some (s, es)) : s.Lawful := by
  have keeps : ∀ (s : IrqSystem T) l w first, Nested s → s.Shallow l →
      s.step l = some (w, first) → Nested w := by
    intro s l w first ok shallow taken
    obtain ⟨x, next, eq⟩ := Option.map_eq_some_iff.mp taken
    cases eq
    exact ok.next shallow next
  have final : Nested s :=
    Lts.exec_keeps (fun s => Nested s) keeps ls (nested_start zero) shallow run
  exact final.lawful

/-- An interrupt inside another wakes a more urgent thread and asks for it; the switch
    waits until both are over, and the interrupted thread comes back before its
    do_irq returns. -/
theorem irq_nesting_two :
    let k := changeThreadPrio (2 : Fin 3) 3 (createPthreadStruct (some 2) (startSystem 0 [(1, 5)]).kernel).1
    let ls : List (IrqLabel (Fin 3)) := [.enter, .enter, .work (activateThread 2), .call, .leave, .check,
      .ret, .leave, .check, .call, .pick, .switch 0, .work (suspendThread 2), .call, .pick, .switch 0,
      .finish]
    ∃ s, Lts.exec IrqSystem.step (.start k) ls = some (s, []) ∧ s.kernel.currentThread = 1 ∧
      s.here = [⟨.signals, [.deferred, .executed]⟩] ∧ s.Lawful := by
  intro k ls
  have final : (Lts.exec IrqSystem.step (.start k) ls).map
      (fun r => (r.1.kernel.currentThread, r.1.here, r.2)) =
        some (1, [⟨.signals, [.deferred, .executed]⟩], []) := by decide +kernel
  obtain ⟨⟨s, es⟩, run, eq⟩ := Option.map_eq_some_iff.mp final
  simp only [Prod.mk.injEq] at eq
  obtain ⟨current, here, rfl⟩ := eq
  have shallow : Lts.Along IrqSystem.step IrqSystem.Shallow (.start k) ls := by decide +kernel
  exact ⟨s, run, current, here, irq_nesting_lawful k (by decide +kernel) ls s [] shallow run⟩

end L4ertl
