import L4ertl.System.DividedOrder

/-!
Interrupts and scheduling between the statements of divided calls, and with them
every step of an orderly run.
-/
namespace L4ertl
open Intrusive
variable {T : Type} [DecidableEq T]

section
variable [Fintype T] {s w : DividedSystem T}

structure Interrupted (s w : DividedSystem T) : Prop where
  alike : ReadyAlike s.kernel w.kernel
  idle : w.kernel.idleThread = s.kernel.idleThread
  joining : w.kernel.joiningThread = s.kernel.joiningThread
  magic : w.kernel.magicNumber = s.kernel.magicNumber
  detach : ∀ t, getThreadDetachState (w.kernel.threadFlags t) =
    getThreadDetachState (s.kernel.threadFlags t)
  value : w.exitValue = s.exitValue
  freed : w.freed = s.freed

theorem Interrupted.stays (sane : s.Sane) (step : Interrupted s w) (nested : Nested w.irq)
    (choices : ∀ u, ∀ f ∈ w.irq.stack u, ∀ new, f.phase = .picked new → s.kernel.live new = true)
    (current : w.kernel.currentThread = s.kernel.currentThread)
    (others : ∀ u, u ≠ s.kernel.currentThread → w.frames u = s.frames u)
    (rest : w.rest = s.rest)
    (own : ∀ f ∈ w.here, ∃ g ∈ s.here, (f.activity.ends = true → g.activity.ends = true) ∧
      (∀ v, f.activity.target = some v → g.activity.target = some v) ∧
      (g.activity.isOps = true → f.activity.isOps = true))
    (fits : w.settled.state w.kernel.currentThread = readyThread ∨ w.Barred) : w.Sane := by
  have settled : ReadyAlike s.settled w.settled := by
    rw [DividedSystem.settled, DividedSystem.settled, rest]
    exact runStmts_alike s.rest step.alike
  have live := step.alike.live
  have members : ∀ u, ∀ f ∈ w.frames u, ∃ g ∈ s.frames u,
      (f.activity.ends = true → g.activity.ends = true) ∧
      (∀ v, f.activity.target = some v → g.activity.target = some v) ∧
      (g.activity.isOps = true → f.activity.isOps = true) := by
    intro u f member
    by_cases self : u = s.kernel.currentThread
    · rw [self] at member ⊢
      apply own
      rw [DividedSystem.here, current]
      exact member
    · rw [others u self] at member
      exact ⟨f, member, id, fun _ => id, id⟩
  constructor
  · exact nested
  · obtain ⟨r, inv⟩ := sane.ready
    exact ⟨r, settled.readyInv inv⟩
  · rw [live, current]
    exact sane.alive
  · rw [live, step.idle]
    exact sane.idle
  · rw [step.idle, settled.states]
    exact sane.idling
  · intro u other
    rw [current] at other
    rw [others u other]
    exact sane.quiet u other
  · exact fits
  · intro u gone
    rw [step.freed] at gone
    rw [live, settled.states]
    exact sane.gone u gone
  · intro u f member stopped
    obtain ⟨g, before, ends, _⟩ := members u f member
    rw [settled.states]
    exact sane.ended u g before (ends stopped)
  · intro u f member v target
    obtain ⟨g, before, _, targets, _⟩ := members u f member
    rw [live, step.idle]
    exact sane.targets u g before v (targets v target)
  · intro f member
    rw [step.idle] at member
    obtain ⟨g, before, _, _, ops⟩ := members _ f member
    exact ops (sane.idler g before)
  · intro u v joins
    rw [step.joining] at joins
    rw [live]
    exact sane.joiners u v joins
  · rw [live]
    exact choices

omit [DecidableEq T] [Fintype T] in
theorem HeldBack.push {t : T} {fs : List (Activation T)} (held : HeldBack t fs) (f : Activation T) :
    HeldBack t (f :: fs) := by
  rcases held with ⟨g, last, owes⟩ | ⟨g, member, leads⟩
  · refine Or.inl ⟨g, ?_, owes⟩
    rw [List.getLast?_cons, last]
    rfl
  · exact Or.inr ⟨g, List.mem_cons_of_mem _ member, leads⟩

omit [DecidableEq T] [Fintype T] in
theorem HeldBack.rephase {t : T} {p q : Phase T} {calls : List SchedCall} {rest : List (Activation T)}
    (held : HeldBack t (⟨p, calls⟩ :: rest)) (leads : p.leads t → q.leads t) :
    HeldBack t (⟨q, calls⟩ :: rest) := by
  rcases held with ⟨f, last, owes⟩ | ⟨f, member, is⟩
  · left
    cases rest with
    | nil =>
      cases last
      exact ⟨⟨q, calls⟩, rfl, owes⟩
    | cons g below =>
      rw [List.getLast?_cons_cons] at last
      exact ⟨f, by rw [List.getLast?_cons_cons, last], owes⟩
  · right
    rcases List.mem_cons.mp member with rfl | below
    · exact ⟨⟨q, calls⟩, List.mem_cons_self, leads is⟩
    · exact ⟨f, List.mem_cons_of_mem _ below, is⟩

omit [DecidableEq T] [Fintype T] in
theorem HeldBack.pop {t : T} {f : Activation T} {rest : List (Activation T)} (held : HeldBack t (f :: rest))
    (passes : ¬f.phase.leads t) (paid : rest = [] → ¬f.owes) : HeldBack t rest := by
  rcases held with ⟨g, last, owes⟩ | ⟨g, member, leads⟩
  · left
    cases rest with
    | nil =>
      cases last
      exact absurd owes (paid rfl)
    | cons h below =>
      rw [List.getLast?_cons_cons] at last
      exact ⟨g, last, owes⟩
  · right
    rcases List.mem_cons.mp member with rfl | below
    · exact absurd leads passes
    · exact ⟨g, below, leads⟩

omit [Fintype T] in
theorem IrqSystem.setHere_here {p : IrqSystem T} (fs : List (Activation T)) : (p.setHere fs).here = fs :=
  Function.update_self ..

omit [DecidableEq T] [Fintype T] in
theorem pastCall_nil {fs : List (Activation T)} : pastCall fs = [] ↔ fs = [] := by
  unfold pastCall
  split
  · simp
  · exact Iff.rfl

omit [Fintype T] in
theorem held_call {p q : IrqSystem T} (nested : Nested p) (taken : p.next .call = some q) (t : T) :
    HeldBack t q.here := by
  simp only [IrqSystem.next] at taken
  split at taken
  · split at taken
    · rename_i inside
      cases taken
      have called : pastCall p.here ≠ [] := by
        intro empty
        rw [deferring_iff nested, pastCall_nil.mp empty] at inside
        cases inside
      left
      rw [here_moved, List.getLast?_map, List.getLast?_eq_some_getLast called]
      exact ⟨_, rfl, (note_owes _ _).mpr rfl⟩
    · cases taken
      right
      rw [IrqSystem.setHere_here]
      exact ⟨_, List.mem_cons_self, trivial⟩
  · cases taken

omit [Fintype T] in
/-- What holds the running thread holds it through any step but its own choice. -/
theorem held_next {p q : IrqSystem T} (nested : Nested p) {l : IrqLabel T} (taken : p.next l = some q)
    (other : ∀ code, l ≠ .work code) (pick : l ≠ .pick) (switch : ∀ now, l ≠ .switch now)
    (held : HeldBack p.kernel.currentThread p.here) : HeldBack p.kernel.currentThread q.here := by
  cases l with
  | enter =>
    cases taken
    rw [here_moved]
    exact held.push _
  | leave =>
    simp only [IrqSystem.next] at taken
    split at taken
    · rename_i calls rest here
      cases taken
      rw [here_moved]
      exact (here ▸ held).rephase fun leads => leads.elim
    · cases taken
  | check =>
    simp only [IrqSystem.next] at taken
    split at taken
    · rename_i calls rest here
      cases taken
      rw [IrqSystem.setHere_here]
      exact (here ▸ held).rephase fun leads => leads.elim
    · cases taken
  | ret =>
    simp only [IrqSystem.next] at taken
    split at taken
    · rename_i calls rest here
      have served := nested.serves (w := p.setHere rest) here
      cases taken
      rw [IrqSystem.setHere_here]
      refine (here ▸ held).pop (fun leads => leads.elim) fun empty => ?_
      exact served (by rw [empty]; rfl) (by simp only [IrqSystem.next, here])
    · cases taken
  | call => exact held_call nested taken _
  | finish =>
    simp only [IrqSystem.next] at taken
    split at taken
    · rename_i calls rest here
      cases taken
      rw [here_moved]
      refine (here ▸ held).pop (fun leads => leads.elim) fun _ => ?_
      exact (nested.top here rfl).2 _ (here ▸ List.mem_cons_self)
    · cases taken
  | pick => exact absurd rfl pick
  | switch now => exact absurd rfl (switch now)
  | work code => exact absurd rfl (other code)

theorem Interrupted.switched (sane : s.Sane) (step : Interrupted s w) (nested : Nested w.irq)
    (choices : ∀ u, ∀ f ∈ w.irq.stack u, ∀ new, f.phase = .picked new → s.kernel.live new = true)
    (frames : w.frames = s.frames) (done : s.rest = [])
    (ready : s.kernel.state w.kernel.currentThread = readyThread)
    (alive : s.kernel.live w.kernel.currentThread = true) : w.Sane := by
  have none_ : ∀ u, restOf (s.frames u) = [] := by
    intro u
    by_cases self : u = s.kernel.currentThread
    · rw [self]
      exact done
    · exact sane.quiet u self
  have settled : ReadyAlike s.settled w.settled := by
    rw [s.settled_done done, w.settled_done (by rw [DividedSystem.rest, DividedSystem.here, frames, none_])]
    exact step.alike
  have live := step.alike.live
  constructor
  · exact nested
  · obtain ⟨r, inv⟩ := sane.ready
    exact ⟨r, settled.readyInv inv⟩
  · rw [live]
    exact alive
  · rw [live, step.idle]
    exact sane.idle
  · rw [step.idle, settled.states]
    exact sane.idling
  · intro u _
    rw [frames]
    exact none_ u
  · left
    rw [settled.states, s.settled_done done]
    exact ready
  · intro u gone
    rw [step.freed] at gone
    rw [live, settled.states]
    exact sane.gone u gone
  · intro u f member stopped
    rw [frames] at member
    rw [settled.states]
    exact sane.ended u f member stopped
  · intro u f member v target
    rw [frames] at member
    rw [live, step.idle]
    exact sane.targets u f member v target
  · intro f member
    rw [frames, step.idle] at member
    exact sane.idler f member
  · intro u v joins
    rw [step.joining] at joins
    rw [live]
    exact sane.joiners u v joins
  · rw [live]
    exact choices

omit [DecidableEq T] [Fintype T] in
theorem head_ready {k : Kernel T} {r : ReadyModel T} (inv : ReadyInv k r)
    (idle : k.live k.idleThread = true) (idling : k.state k.idleThread = readyThread) :
    k.live ((getHeadSs k.activeThreads).1.getD k.idleThread) = true ∧
      k.state ((getHeadSs k.activeThreads).1.getD k.idleThread) = readyThread := by
  have listed := (inv.listed k.idleThread _).mpr ⟨idle, idling, rfl⟩
  obtain ⟨c, t, head, first, _⟩ := getHeadSs_urgent inv.rep (List.ne_nil_of_mem listed)
  have facts := (inv.listed t c).mp (List.mem_of_head? first)
  rw [head]
  exact ⟨facts.1, facts.2.1⟩

omit [DecidableEq T] [Fintype T] in
theorem low_flags (flags other mask : Word) (low : mask &&& 0xf#32 = mask) :
    ((flags &&& 0xf#32) ||| (other &&& ~~~0xf#32)) &&& mask = flags &&& mask := by
  apply BitVec.eq_of_getLsbD_eq
  intro i inside
  have bit := congrArg (fun x => BitVec.getLsbD x i) low
  simp only [BitVec.getLsbD_and] at bit
  simp only [BitVec.getLsbD_and, BitVec.getLsbD_or, BitVec.getLsbD_not, inside]
  revert bit
  cases flags.getLsbD i <;> cases other.getLsbD i <;> cases mask.getLsbD i <;>
    cases (0xf#32).getLsbD i <;> simp

omit [DecidableEq T] [Fintype T] in
theorem elsewhere_alike (code : Kernel T → Kernel T) (k : Kernel T) : ReadyAlike k (elsewhere code k) :=
  ⟨rfl, rfl, rfl, fun t => low_flags (k.threadFlags t) _ 0x7#32 (by decide)⟩

omit [DecidableEq T] [Fintype T] in
theorem elsewhere_detach (code : Kernel T → Kernel T) (k : Kernel T) (t : T) :
    getThreadDetachState ((elsewhere code k).threadFlags t) = getThreadDetachState (k.threadFlags t) :=
  low_flags (k.threadFlags t) _ 0x8#32 (by decide)

omit [Fintype T] in
theorem switchTo_only (now : Duration) (new : T) (k : Kernel T) : SwitchOnly k (switchTo now new k) := by
  simp only [switchTo, allocKstack]
  split
  · rfl
  · rfl

omit [Fintype T] in
theorem irq_moves {l m : IrqLabel T} {q : IrqSystem T} (label : s.irqLabel l = some m)
    (taken : s.irq.next m = some q) :
    Interrupted s { s with irq := q } ∧ (q.kernel.currentThread = s.kernel.currentThread ∨
      ∃ new, chosen s.irq.here = some new ∧ new ≠ s.kernel.currentThread ∧
        q.kernel.currentThread = new ∧ ∃ now, l = .switch now) := by
  have counted : ∀ (stack : T → List (Activation T)) (c : Word),
      Interrupted s { s with irq := ⟨{ s.kernel with irqNestingCounter := c }, stack⟩ } := fun _ _ =>
    ⟨.of_flags rfl rfl rfl rfl, rfl, rfl, rfl, fun _ => rfl, rfl, rfl⟩
  cases l with
  | enter =>
    cases label
    cases taken
    exact ⟨counted _ _, Or.inl rfl⟩
  | work code =>
    simp only [DividedSystem.irqLabel] at label
    split at label
    · cases label
    · cases label
      simp only [IrqSystem.next] at taken
      split at taken
      · cases taken
        exact ⟨⟨elsewhere_alike code s.kernel, rfl, rfl, rfl, elsewhere_detach code s.kernel, rfl, rfl⟩,
          Or.inl rfl⟩
      · cases taken
  | switch now =>
    simp only [DividedSystem.irqLabel] at label
    split at label
    · cases label
    · cases label
      simp only [IrqSystem.next] at taken
      split at taken
      · rename_i new calls rest here
        split at taken
        · rename_i other
          cases taken
          have only := switchTo_only now new s.kernel
          have lists := congrArg Kernel.activeThreads only
          have live := congrArg Kernel.live only
          have param := congrArg Kernel.schedParam only
          have flags := congrArg Kernel.threadFlags only
          have idle := congrArg Kernel.idleThread only
          have joining := congrArg Kernel.joiningThread only
          have magic := congrArg Kernel.magicNumber only
          refine ⟨⟨.of_flags lists live param flags, idle, joining, magic, fun t => ?_, rfl, rfl⟩,
            Or.inr ⟨new, by rw [here]; rfl, other, switchTo_current now new s.kernel, now, rfl⟩⟩
          exact congrArg getThreadDetachState (congrFun flags t)
        · cases taken
          exact ⟨counted _ _, Or.inl rfl⟩
      · cases taken
  | call =>
    simp only [DividedSystem.irqLabel] at label
    split at label
    · cases label
    · cases label
      simp only [IrqSystem.next] at taken
      split at taken
      · split at taken
        · cases taken
          exact ⟨counted _ _, Or.inl rfl⟩
        · cases taken
          exact ⟨counted _ _, Or.inl rfl⟩
      · cases taken
  | _ =>
    simp only [DividedSystem.irqLabel] at label
    split at label
    · cases label
    · cases label
      simp only [IrqSystem.next] at taken
      split at taken
      · cases taken
        exact ⟨counted _ _, Or.inl rfl⟩
      · cases taken

omit [DecidableEq T] in
theorem DividedSystem.irqLabel_shallow {l m : IrqLabel T} (label : s.irqLabel l = some m)
    (shallow : s.irq.Shallow l) : s.irq.Shallow m := by
  cases l with
  | enter =>
    cases label
    exact shallow
  | _ =>
    simp only [DividedSystem.irqLabel] at label
    split at label
    · cases label
    · cases label
      trivial

theorem DividedSystem.Sane.picks (sane : s.Sane) (done : s.rest = []) {q : IrqSystem T}
    (taken : s.irq.next .pick = some q) :
    s.settled.state s.kernel.currentThread = readyThread ∨ HeldBack s.kernel.currentThread q.here := by
  simp only [IrqSystem.next] at taken
  split at taken
  · rename_i calls rest here
    cases taken
    obtain ⟨r, inv⟩ := sane.ready
    have idling := sane.idling
    rw [s.settled_done done] at inv idling ⊢
    have head := head_ready inv sane.idle idling
    rw [IrqSystem.setHere_here]
    by_cases self : (getHeadSs s.kernel.activeThreads).1.getD s.kernel.idleThread = s.kernel.currentThread
    · rw [self] at head
      exact Or.inl head.2
    · exact Or.inr (Or.inr ⟨_, List.mem_cons_self, self⟩)
  · cases taken

omit [DecidableEq T] [Fintype T] in
theorem resumed_picked {fs : List (Activation T)} {f : Activation T} {new : T} (member : f ∈ resumed fs)
    (picked : f.phase = .picked new) : f ∈ fs := by
  cases fs with
  | nil => exact member
  | cons g rest =>
    rcases List.mem_cons.mp member with rfl | below
    · cases picked
    · exact List.mem_cons_of_mem _ below

section
omit [DecidableEq T] [Fintype T]

def LivePicks (live : T → Bool) (fs : List (Activation T)) : Prop :=
  ∀ f ∈ fs, ∀ new, f.phase = .picked new → live new = true

theorem LivePicks.cons {live : T → Bool} {f : Activation T} {fs : List (Activation T)}
    (top : ∀ new, f.phase = .picked new → live new = true) (below : LivePicks live fs) :
    LivePicks live (f :: fs) :=
  List.forall_mem_cons.mpr ⟨top, below⟩

theorem LivePicks.called {live : T → Bool} {fs : List (Activation T)} (all : LivePicks live fs) (c : SchedCall) :
    LivePicks live ((pastCall fs).map (Activation.note c)) := by
  intro f member new picked
  obtain ⟨g, inside, rfl⟩ := List.mem_map.mp member
  unfold pastCall at inside
  split at inside
  · rcases List.mem_cons.mp inside with rfl | below
    · cases picked
    · exact all g (List.mem_cons_of_mem _ below) new picked
  · exact all g inside new picked

end

omit [Fintype T] in
theorem next_choices {p q : IrqSystem T} {l : IrqLabel T} (taken : p.next l = some q) {live : T → Bool}
    (before : ∀ u, LivePicks live (p.stack u))
    (choice : l = .pick → live ((getHeadSs p.kernel.activeThreads).1.getD p.kernel.idleThread) = true) :
    ∀ u, LivePicks live (q.stack u) := by
  have set : ∀ {fs}, LivePicks live fs → ∀ u, LivePicks live ((p.setHere fs).stack u) := by
    intro fs own u
    simp only [IrqSystem.setHere, Function.update_apply]
    split
    · exact own
    · exact before u
  have here : LivePicks live p.here := before _
  have below : ∀ {top rest}, p.here = top :: rest → LivePicks live rest := by
    intro top rest eq f member
    exact here f (eq ▸ List.mem_cons_of_mem _ member)
  cases l with
  | enter =>
    cases taken
    exact set (here.cons fun new picked => by cases picked)
  | call =>
    simp only [IrqSystem.next] at taken
    split at taken
    · split at taken
      · cases taken
        exact set (here.called _)
      · cases taken
        exact set ((here.called _).cons fun new picked => by cases picked)
    · cases taken
  | pick =>
    simp only [IrqSystem.next] at taken
    split at taken
    · rename_i calls rest top
      cases taken
      refine set ((below top).cons fun new picked => ?_)
      cases picked
      exact choice rfl
    · cases taken
  | switch now =>
    simp only [IrqSystem.next] at taken
    split at taken
    · rename_i new calls rest top
      split at taken
      · cases taken
        have left := set ((below top).cons (f := ⟨.away, calls⟩) fun new picked => by cases picked)
        intro u f member other picked
        simp only [IrqSystem.switchAway, Function.update_apply] at member
        split at member
        · split at member
          · cases member
          · exact left new f (resumed_picked member picked) other picked
        · exact left u f member other picked
      · cases taken
        exact set ((below top).cons fun new picked => by cases picked)
    · cases taken
  | work code =>
    simp only [IrqSystem.next] at taken
    split at taken
    · cases taken
      exact before
    · cases taken
  | check =>
    simp only [IrqSystem.next] at taken
    split at taken
    · rename_i calls rest top
      cases taken
      refine set ((below top).cons fun new picked => ?_)
      split at picked
      · cases picked
      · cases picked
    · cases taken
  | leave =>
    simp only [IrqSystem.next] at taken
    split at taken
    · rename_i calls rest top
      cases taken
      exact set ((below top).cons fun new picked => by cases picked)
    · cases taken
  | _ =>
    simp only [IrqSystem.next] at taken
    split at taken
    · rename_i calls rest top
      cases taken
      exact set (below top)
    · cases taken

theorem DividedSystem.Sane.choices_next (sane : s.Sane) {l m : IrqLabel T} (orderly : s.Orderly (.irq l))
    (label : s.irqLabel l = some m) {q : IrqSystem T} (taken : s.irq.next m = some q) :
    ∀ u, ∀ f ∈ q.stack u, ∀ new, f.phase = .picked new → s.kernel.live new = true := by
  refine next_choices taken sane.choices fun picks => ?_
  subst picks
  obtain ⟨r, inv⟩ := sane.ready
  have done : s.rest = [] := by
    cases l with
    | pick => exact orderly.apart rfl
    | enter => cases label
    | _ =>
      simp only [DividedSystem.irqLabel] at label
      split at label
      · cases label
      · cases label
  have idling := sane.idling
  rw [s.settled_done done] at inv idling
  exact (head_ready inv sane.idle idling).1

theorem DividedSystem.Sane.held_stays (sane : s.Sane) {l m : IrqLabel T} (orderly : s.Orderly (.irq l))
    (label : s.irqLabel l = some m) {q : IrqSystem T} (taken : s.irq.next m = some q)
    (current : q.kernel.currentThread = s.kernel.currentThread)
    (held : HeldBack s.kernel.currentThread s.irq.here) :
    s.settled.state s.kernel.currentThread = readyThread ∨ HeldBack s.kernel.currentThread q.here := by
  cases l with
  | pick =>
    simp only [DividedSystem.irqLabel] at label
    split at label
    · cases label
    · cases label
      exact sane.picks (orderly.apart rfl) taken
  | switch now =>
    simp only [DividedSystem.irqLabel] at label
    split at label
    · cases label
    · cases label
      simp only [IrqSystem.next] at taken
      split at taken
      · rename_i new calls rest top
        split at taken
        · rename_i other
          cases taken
          exact absurd ((switchTo_current now new s.kernel).symm.trans current) other
        · rename_i self
          cases taken
          right
          rw [IrqSystem.setHere_here]
          exact (top ▸ held).rephase fun leads => absurd leads self
      · cases taken
  | work code =>
    simp only [DividedSystem.irqLabel] at label
    split at label
    · cases label
    · cases label
      simp only [IrqSystem.next] at taken
      split at taken
      · cases taken
        exact Or.inr held
      · cases taken
  | enter =>
    cases label
    exact Or.inr (held_next sane.nested taken (fun _ same => by cases same) (fun same => by cases same)
      (fun _ same => by cases same) held)
  | _ =>
    simp only [DividedSystem.irqLabel] at label
    split at label
    · cases label
    · cases label
      exact Or.inr (held_next sane.nested taken (fun _ same => by cases same)
        (fun same => by cases same) (fun _ same => by cases same) held)

theorem DividedSystem.Sane.chosen_live (sane : s.Sane) {new : T} (chosen_ : chosen s.irq.here = some new) :
    s.kernel.live new = true := by
  cases here : s.irq.here with
  | nil =>
    rw [here] at chosen_
    cases chosen_
  | cons f rest =>
    have top : f ∈ s.irq.stack s.kernel.currentThread := by
      rw [← IrqSystem.here, here]
      exact List.mem_cons_self
    refine sane.choices s.kernel.currentThread f top new ?_
    rw [here] at chosen_
    unfold chosen at chosen_
    split at chosen_
    · rename_i same
      cases same
      cases chosen_
      rfl
    · cases chosen_

theorem DividedSystem.Sane.irq_step (sane : s.Sane) {l m : IrqLabel T} (orderly : s.Orderly (.irq l))
    (label : s.irqLabel l = some m) {q : IrqSystem T} (taken : s.irq.next m = some q) :
    DividedSystem.Sane { s with irq := q } := by
  have nested := sane.nested.next (s.irqLabel_shallow label orderly.shallow) taken
  have choices := sane.choices_next orderly label taken
  obtain ⟨step, current | ⟨new, chosen_, other, current, now, rfl⟩⟩ := irq_moves label taken
  · have here : DividedSystem.here { s with irq := q } = s.here := congrArg s.frames current
    have rest : DividedSystem.rest { s with irq := q } = s.rest := congrArg restOf here
    have settled : ReadyAlike s.settled (DividedSystem.settled { s with irq := q }) := by
      rw [DividedSystem.settled, DividedSystem.settled, rest]
      exact runStmts_alike s.rest step.alike
    refine step.stays sane nested choices current (fun _ _ => rfl) rest
      (fun f member => ⟨f, here ▸ member, id, fun _ => id, id⟩) ?_
    rw [current, settled.states]
    by_cases ready : s.settled.state s.kernel.currentThread = readyThread
    · exact Or.inl ready
    · have kept := sane.held_stays orderly label taken current
      cases sane.fits.resolve_left ready with
      | call f member bars => exact Or.inr (.call f (here ▸ member) bars)
      | held held =>
        rcases kept held with ready | held
        · exact Or.inl ready
        · exact Or.inr (.held (current.symm ▸ held))
  · have done := orderly.apart rfl
    have settled := s.settled_done done
    refine step.switched sane nested choices rfl done ?_ (current.symm ▸ sane.chosen_live chosen_)
    rcases orderly.current new chosen_ with self | idle | ready
    · exact absurd self other
    · have idling := sane.idling
      rw [settled] at idling
      rw [current, idle]
      exact idling
    · rw [current]
      exact ready

theorem DividedSystem.Sane.schedule (sane : s.Sane) {f : Frame T} {gs fs : List (Frame T)}
    (here : s.here = f :: gs) (done : s.rest = []) (taken : s.schedule fs = some w)
    (below : ∀ g ∈ fs, g ∈ gs ∨ g.activity.ends = false ∧ g.rest = [] ∧
      f.activity.isOps = false ∧ ∀ v, g.activity.target = some v → f.activity.target = some v) :
    w.Sane ∧ Interrupted s w ∧ w.kernel.currentThread = s.kernel.currentThread ∧
      w.frames = Function.update s.frames s.kernel.currentThread fs := by
  obtain ⟨q, next, rfl⟩ := Option.map_eq_some_iff.mp taken
  have nested : Nested q := sane.nested.next (l := .call) trivial next
  have moved : ∃ c, q.kernel = { s.kernel with irqNestingCounter := c } := by
    simp only [IrqSystem.next] at next
    split at next
    · split at next
      · cases next
        exact ⟨_, rfl⟩
      · cases next
        exact ⟨s.kernel.irqNestingCounter, rfl⟩
    · cases next
  obtain ⟨c, kernel⟩ := moved
  have current : q.kernel.currentThread = s.kernel.currentThread := by rw [kernel]
  have step : Interrupted s ⟨q, Function.update s.frames s.kernel.currentThread fs, s.exitValue, s.freed⟩ := by
    refine ⟨?_, ?_, ?_, ?_, fun t => ?_, rfl, rfl⟩
    · show ReadyAlike s.kernel q.kernel
      rw [kernel]
      exact .of_flags rfl rfl rfl rfl
    · show q.kernel.idleThread = _
      rw [kernel]
    · show q.kernel.joiningThread = _
      rw [kernel]
    · show q.kernel.magicNumber = _
      rw [kernel]
    · show getThreadDetachState (q.kernel.threadFlags t) = _
      rw [kernel]
  have hereNew : DividedSystem.here ⟨q, Function.update s.frames s.kernel.currentThread fs, s.exitValue,
      s.freed⟩ = fs := by
    show Function.update s.frames s.kernel.currentThread fs q.kernel.currentThread = fs
    rw [current, Function.update_self]
  have quiet : restOf fs = [] := by
    have all := done
    rw [DividedSystem.rest, here, restOf_cons] at all
    have old := (List.append_eq_nil_iff.mp all).2
    rw [restOf, List.flatMap_eq_nil_iff] at old ⊢
    intro g member
    rcases below g member with before | ⟨_, none_, _⟩
    · exact old g before
    · exact none_
  have choices := next_choices next sane.choices (fun same => by cases same)
  refine ⟨step.stays sane nested choices current (fun u other => Function.update_of_ne other ..) ?_ ?_ ?_,
    step, current, rfl⟩
  · rw [DividedSystem.rest, hereNew, quiet, done]
  · intro g member
    rw [hereNew] at member
    rw [here]
    rcases below g member with before | ⟨ends, _, call, target⟩
    · exact ⟨g, List.mem_cons_of_mem _ before, id, fun _ => id, id⟩
    · refine ⟨f, List.mem_cons_self, fun stopped => ?_, target, fun ops => ?_⟩
      · rw [ends] at stopped
        cases stopped
      · rw [call] at ops
        cases ops
  · right
    refine .held ?_
    exact held_call sane.nested next _

omit [Fintype T] in
theorem created_turned {k : Kernel T} {r : ReadyModel T} (inv : ReadyInv k r) {a : T}
    (unused : k.live a = false ∨ k.state a ≠ readyThread) (attr : Option PthreadAttr) :
    (∃ x, ReadyInv (configureThread a attr (createPthreadStruct (some a) k).1) x) ∧
      ∀ u, (configureThread a attr (createPthreadStruct (some a) k).1).state u =
        if u = a then suspendedThread else k.state u := by
  have asleep : (createPthreadStruct (some a) k).1.state a = suspendedThread := by
    simp [Kernel.state, createPthreadStruct]
  have states : ∀ u, (configureThread a attr (createPthreadStruct (some a) k).1).state u =
      if u = a then suspendedThread else k.state u := by
    intro u
    rw [configureThread_state]
    split
    · rename_i self
      rw [self, asleep]
    · rename_i other
      simp [Kernel.state, createPthreadStruct, other]
  refine ⟨⟨_, (createPthreadStruct_readyInv inv unused).adjust (configureThread_same a attr _) ?_ ?_⟩, states⟩
  · rw [asleep]
    decide
  · rw [states, if_pos rfl]
    decide

theorem DividedSystem.Sane.running (sane : s.Sane) (calls : s.calls = true) :
    s.kernel.state s.kernel.currentThread = readyThread ∧ s.rest = [] := by
  simp only [DividedSystem.calls, Bool.and_eq_true, List.isEmpty_iff] at calls
  have done : s.rest = [] := by
    rw [DividedSystem.rest, calls.1]
    rfl
  have fits := sane.fits
  rw [s.settled_done done] at fits
  refine ⟨fits.resolve_right fun barred => ?_, done⟩
  cases barred with
  | call f member bars =>
    rw [calls.1] at member
    cases member
  | held held =>
    rw [calls.2] at held
    rcases held with ⟨f, last, _⟩ | ⟨f, member, _⟩
    · cases last
    · cases member

theorem DividedSystem.Sane.unused (sane : s.Sane) (calls : s.calls = true) {a : T}
    (free : (s.freed a || !s.kernel.live a) = true) :
    a ≠ s.kernel.currentThread ∧ a ≠ s.kernel.idleThread ∧
      (s.kernel.live a = false ∨ s.kernel.state a ≠ readyThread) := by
  obtain ⟨running, done⟩ := sane.running calls
  have idling := sane.idling
  rw [s.settled_done done] at idling
  rw [Bool.or_eq_true, Bool.not_eq_true'] at free
  rcases free with freed | dead
  · have stopped := (sane.gone a freed).2
    rw [s.settled_done done] at stopped
    refine ⟨?_, ?_, Or.inr (by rw [stopped]; exact finished_ne_ready)⟩
    · rintro rfl
      rw [running] at stopped
      exact ready_ne_finished stopped
    · rintro rfl
      rw [idling] at stopped
      exact ready_ne_finished stopped
  · refine ⟨?_, ?_, Or.inl dead⟩
    · rintro rfl
      rw [sane.alive] at dead
      cases dead
    · rintro rfl
      rw [sane.idle] at dead
      cases dead

/-- What a new thread at `a` leaves of the others. -/
structure NewThread (a : T) (s w : DividedSystem T) : Prop where
  current : w.kernel.currentThread = s.kernel.currentThread
  idle : w.kernel.idleThread = s.kernel.idleThread
  counter : w.kernel.irqNestingCounter = s.kernel.irqNestingCounter
  live : w.kernel.live = Function.update s.kernel.live a true
  magic : w.kernel.magicNumber = Function.update s.kernel.magicNumber a pthreadMagicNumber
  joining : w.kernel.joiningThread = Function.update s.kernel.joiningThread a none
  frames : ∀ u, u ≠ a → w.frames u = s.frames u
  empty : w.frames a = []

omit [Fintype T] in
theorem DividedSystem.created_new (s : DividedSystem T) (a : T) (attr : Option PthreadAttr) :
    NewThread a s (s.created a attr) := by
  have only := configureThread_only a attr (createPthreadStruct (some a) s.kernel).1
  refine ⟨?_, ?_, ?_, ?_, ?_, ?_, fun u apart => Function.update_of_ne apart .., Function.update_self ..⟩
  · have same := congrArg Kernel.currentThread only
    exact same
  · have same := congrArg Kernel.idleThread only
    exact same
  · have same := congrArg Kernel.irqNestingCounter only
    exact same
  · have same := congrArg Kernel.live only
    exact same
  · have same := congrArg Kernel.magicNumber only
    exact same
  · have same := congrArg Kernel.joiningThread only
    exact same

omit [Fintype T] in
theorem NewThread.members {a : T} (new : NewThread a s w) {u : T} {f : Frame T} (member : f ∈ w.frames u) :
    u ≠ a ∧ f ∈ s.frames u := by
  by_cases self : u = a
  · rw [self, new.empty] at member
    cases member
  · rw [new.frames u self] at member
    exact ⟨self, member⟩

omit [Fintype T] in
theorem NewThread.rest {a : T} (new : NewThread a s w) (apart : a ≠ s.kernel.currentThread)
    (done : s.rest = []) : w.rest = [] := by
  rw [DividedSystem.rest, DividedSystem.here, new.current, new.frames _ apart.symm]
  exact done

theorem DividedSystem.Sane.create (sane : s.Sane) (calls : s.calls = true) {a : T}
    (free : (s.freed a || !s.kernel.live a) = true) (attr : Option PthreadAttr) :
    (s.created a attr).Sane := by
  obtain ⟨other, notIdle, unused⟩ := sane.unused calls free
  obtain ⟨running, done⟩ := sane.running calls
  obtain ⟨r, inv⟩ := sane.ready
  have idling := sane.idling
  have settled := s.settled_done done
  rw [settled] at inv idling
  obtain ⟨ready, states⟩ := created_turned inv unused attr
  have new := s.created_new a attr
  have stays : ∀ u, s.kernel.live u = true → (s.created a attr).kernel.live u = true := by
    intro u alive
    rw [new.live, Function.update_apply]
    split
    · rfl
    · exact alive
  have later : (s.created a attr).settled = (s.created a attr).kernel :=
    DividedSystem.settled_done (new.rest other done)
  have kept : ∀ u, u ≠ a → (s.created a attr).kernel.state u = s.kernel.state u := by
    intro u apart
    exact (states u).trans (if_neg apart)
  constructor
  · exact sane.nested.same rfl new.counter new.current
  · rw [later]
    exact ready
  · rw [new.current]
    exact stays _ sane.alive
  · rw [new.idle]
    exact stays _ sane.idle
  · rw [later, new.idle, kept _ notIdle.symm]
    exact idling
  · intro u apart
    rw [new.current] at apart
    by_cases self : u = a
    · rw [self, new.empty]
      rfl
    · rw [new.frames u self]
      exact sane.quiet u apart
  · left
    rw [later, new.current, kept _ other.symm]
    exact running
  · intro u gone
    simp only [DividedSystem.created, Function.update_apply] at gone
    split at gone
    · cases gone
    · rename_i apart
      have before := sane.gone u gone
      rw [settled] at before
      rw [later, kept u apart]
      exact ⟨stays u before.1, before.2⟩
  · intro u f member stopped
    obtain ⟨apart, before⟩ := new.members member
    have ended := sane.ended u f before stopped
    rw [settled] at ended
    rw [later, kept u apart]
    exact ended
  · intro u f member v target
    rw [new.idle]
    obtain ⟨alive, apart⟩ := sane.targets u f (new.members member).2 v target
    exact ⟨stays v alive, apart⟩
  · intro f member
    rw [new.idle] at member
    exact sane.idler f (new.members member).2
  · intro u v joins
    rw [new.joining, Function.update_apply] at joins
    split at joins
    · cases joins
    · exact stays v (sane.joiners u v joins)
  · intro u f member new picked
    exact stays new (sane.choices u f member new picked)

omit [DecidableEq T] in
theorem DividedSystem.Orderly.next_done (orderly : s.Orderly .next) {f : Frame T} {fs : List (Frame T)}
    (here : s.here = f :: fs) (call : f.activity.isOps = false) : s.rest = [] := by
  apply orderly.apart
  simp only [DividedSystem.begins, here]
  obtain ⟨d, a⟩ := f
  cases a with
  | ops rest => cases call
  | _ => rfl

theorem DividedSystem.Sane.next_step (sane : s.Sane) (orderly : s.Orderly .next) {d : Nat} {a : Ongoing T}
    {fs : List (Frame T)} (here : s.here = ⟨d, a⟩ :: fs) {es : List (JoinEvent T)}
    (taken : s.activityNext d fs a = some (w, es)) : w.Sane := by
  cases a with
  | ops rest =>
    cases rest with
    | nil =>
      cases taken
      exact sane.advance (DividedSystem.ops_end here)
    | cons stmt rest =>
      cases taken
      exact sane.advance (DividedSystem.ops_advance here)
  | join t p =>
    have done := orderly.next_done here rfl
    by_cases call : p = .call
    · subst call
      simp only [DividedSystem.activityNext, DividedSystem.joinNext, Option.map_eq_some_iff] at taken
      obtain ⟨x, scheduled, same⟩ := taken
      cases same
      refine (sane.schedule here done scheduled fun g member => ?_).1
      rcases List.mem_cons.mp member with rfl | below
      · exact Or.inr ⟨rfl, rfl, rfl, fun _ aimed => aimed⟩
      · exact Or.inl below
    · exact sane.advance (sane.join_advance here done call taken)
  | exit value p => exact sane.advance (sane.exit_advance here (orderly.next_done here rfl) taken)
  | detach t p => exact sane.advance (sane.detach_advance here (orderly.next_done here rfl) taken)
  | deleteNp t p => exact sane.advance (sane.deleteNp_advance here (orderly.next_done here rfl) taken)
  | block =>
    cases taken
    exact sane.advance (sane.block_advance here (orderly.next_done here rfl))
  | leave =>
    simp only [DividedSystem.activityNext, Option.map_eq_some_iff] at taken
    obtain ⟨x, scheduled, same⟩ := taken
    cases same
    exact (sane.schedule here (orderly.next_done here rfl) scheduled fun g member => Or.inl member).1

omit [DecidableEq T] [Fintype T] in
theorem DividedSystem.handle_iff [DecidableEq T] {t : T} : s.handle t = true ↔
    s.kernel.live t = true ∧ s.freed t = false ∧ t ≠ s.kernel.idleThread := by
  simp [DividedSystem.handle, and_assoc]

theorem DividedSystem.call_begins {a : Ongoing T} (call : a.isOps = false) (ends : a.ends = false) {t : T}
    (target : a.target = some t) (handle : s.handle t = true)
    (busy : s.kernel.currentThread ≠ s.kernel.idleThread) : Advance s (s.begin_ a) none none := by
  obtain ⟨alive, _, other⟩ := DividedSystem.handle_iff.mp handle
  refine DividedSystem.begin_advance call ends (fun v aimed => ?_) busy
  have same : t = v := Option.some.inj (target.symm.trans aimed)
  rw [← same]
  exact ⟨alive, other⟩

theorem DividedSystem.activate_advance (done : s.rest = []) {t : T} (alive : s.kernel.live t = true) :
    Advance s (s.operation (activateStmts t s.kernel)) none none := by
  refine DividedSystem.operation_advance done ?_
  rw [activateStmts_run]
  exact .activate alive

theorem DividedSystem.Sane.changePrio_advance (sane : s.Sane) (calls : s.calls = true) {t : T}
    (alive : s.kernel.live t = true) (p : Int) :
    Advance s (s.operation (changePrioStmts t p s.kernel)) none none := by
  refine DividedSystem.operation_advance (sane.running calls).2 ?_
  rw [changePrioStmts_run]
  exact .changePrio alive (.refl t s.kernel) p rfl

theorem DividedSystem.Sane.setschedparam_advance (sane : s.Sane) (calls : s.calls = true) {t : T}
    (alive : s.kernel.live t = true) (param : SchedParam) :
    Advance s (s.operation (setschedparamStmts t param s.kernel)) none none := by
  refine DividedSystem.operation_advance (sane.running calls).2 ?_
  rw [setschedparamStmts_run]
  have same : SameBut t s.kernel
      { s.kernel with schedParam := Function.update s.kernel.schedParam t param } := by
    refine ⟨rfl, rfl, fun u other => ⟨rfl, ?_⟩⟩
    simp [Kernel.prio, other]
  exact .changePrio alive same param.schedPriority rfl

theorem DividedSystem.Sane.yield_advance (sane : s.Sane) (calls : s.calls = true) :
    Advance s (s.operation (yieldStmts s.kernel.currentThread)) none none := by
  obtain ⟨running, done⟩ := sane.running calls
  refine DividedSystem.operation_advance done ?_
  rw [yieldStmts_run]
  exact .yield sane.alive running

theorem DividedSystem.Sane.step (sane : s.Sane) {l : DividedLabel T} (orderly : s.Orderly l)
    {es : List (JoinEvent T)} (taken : s.step l = some (w, es)) : w.Sane := by
  cases DividedSystem.step_move taken with
  | irq label next => exact sane.irq_step orderly label next
  | next here active taken => exact sane.next_step orderly here taken
  | join t calls handle busy =>
    exact sane.advance (DividedSystem.call_begins rfl rfl rfl handle busy)
  | detach t calls handle busy =>
    exact sane.advance (DividedSystem.call_begins rfl rfl rfl handle busy)
  | deleteNp t calls handle busy =>
    exact sane.advance (DividedSystem.call_begins rfl rfl rfl handle busy)
  | exit value user busy =>
    exact sane.advance (DividedSystem.begin_advance rfl rfl (fun v aimed => by cases aimed) busy)
  | block signals busy =>
    exact sane.advance (DividedSystem.begin_advance rfl rfl (fun v aimed => by cases aimed) busy)
  | activate t within alive => exact sane.advance (DividedSystem.activate_advance (orderly.apart rfl) alive)
  | changePrio t p calls alive => exact sane.advance (sane.changePrio_advance calls alive p)
  | setschedparam t param calls alive => exact sane.advance (sane.setschedparam_advance calls alive param)
  | yield calls => exact sane.advance (sane.yield_advance calls)
  | create a attr calls unused => exact sane.create calls unused attr

omit [Fintype T] in
theorem startSystem_counter (idle : T) (threads : List (T × Int)) :
    (startSystem idle threads).kernel.irqNestingCounter = 0#32 := by
  have spawned : ∀ (xs : List (T × Int)) (k : Kernel T), k.irqNestingCounter = 0#32 →
      (xs.foldl spawn k).irqNestingCounter = 0#32 := by
    intro xs
    induction xs with
    | nil => exact fun k zero => zero
    | cons x xs ih =>
      intro k zero
      refine ih _ ?_
      have set := congrArg Kernel.irqNestingCounter
        (changeThreadPrio_only x.1 x.2 (createPthreadStruct (some x.1) k).1)
      have woken := congrArg Kernel.irqNestingCounter
        (activateThread_only x.1 (changeThreadPrio x.1 x.2 (createPthreadStruct (some x.1) k).1))
      exact (woken.trans set).trans zero
  have zero := spawned threads (bootKernel idle) rfl
  simp only [startSystem, scheduling, contextSwitchTo, allocKstack]
  split
  · rename_i inside
    rw [zero] at inside
    exact absurd rfl inside
  · split
    · split
      · exact zero
      · rfl
    · rfl

theorem DividedSystem.sane_start (idle : T) (threads : List (T × Int))
    (nodup : (threads.map Prod.fst).Nodup) (p : Int) (member : (idle, p) ∈ threads) :
    (DividedSystem.start idle threads).Sane := by
  have start := startSystem_started idle threads nodup p member
  constructor
  · exact nested_start (startSystem_counter idle threads)
  · exact start.fresh.ready
  · exact start.current
  · exact start.idle
  · exact start.idling
  · intro u _
    rfl
  · exact Or.inl start.running
  · intro u gone
    cases gone
  · intro u f inside
    cases inside
  · intro u f inside
    cases inside
  · intro f inside
    cases inside
  · intro u v joins
    cases (start.fresh.joiners u).symm.trans joins
  · intro u f inside new picked
    simp only [DividedSystem.start, IrqSystem.start] at inside
    split at inside
    · cases inside
    · rw [List.mem_singleton] at inside
      rw [inside] at picked
      cases picked

end

end L4ertl
