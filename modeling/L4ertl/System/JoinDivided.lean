import L4ertl.System.JoinMeets

/-!
What every step of the system does to the meeting of a thread and its joiner: calls
that begin, interrupts and switches, and the statements of other threads.
-/
namespace L4ertl
open Intrusive
variable {T : Type} [DecidableEq T]

section
variable [Fintype T] {t j : T} {s w : DividedSystem T} {past es : List (JoinEvent T)}

structure Laid (t : T) (s w : DividedSystem T) (xs : List (Frame T)) : Prop where
  kernel : w.kernel = s.kernel
  freed : w.freed = s.freed
  value : w.exitValue = s.exitValue
  frames : w.frames = Function.update s.frames s.kernel.currentThread (xs ++ s.here)
  kept : ∀ x ∈ xs, x.activity.removes ≠ some t

theorem Laid.untouched {xs : List (Frame T)} (laid : Laid t s w xs) (advance : Advance s w none none) :
    Untouched t s w := by
  refine .of_turned advance.turned (fun same => by cases same) (by rw [laid.freed]) (by rw [laid.kernel])
    (by rw [laid.kernel]) fun u f member removes => ?_
  rw [laid.frames, Function.update_apply] at member
  split at member
  · rename_i self
    rcases List.mem_append.mp member with new | below
    · exact absurd removes (laid.kept f new)
    · rw [self]
      exact ⟨f, below, removes⟩
  · exact ⟨f, member, removes⟩

omit [Fintype T] in
theorem Laid.joins {xs : List (Frame T)} (laid : Laid t s w xs) (u : T) :
    w.joins t u = (if u = s.kernel.currentThread then joinsIn t xs else []) ++ s.joins t u := by
  rw [DividedSystem.joins, laid.frames, Function.update_apply]
  split
  · rename_i self
    rw [joinsIn, List.filterMap_append, ← joinsIn, self]
    rfl
  · rfl

omit [Fintype T] in
theorem Laid.exits {xs : List (Frame T)} (laid : Laid t s w xs) (u : T) :
    w.exits u = (if u = s.kernel.currentThread then exitsIn xs else []) ++ s.exits u := by
  rw [DividedSystem.exits, laid.frames, Function.update_apply]
  split
  · rename_i self
    rw [exitsIn, List.filterMap_append, ← exitsIn, self]
    rfl
  · rfl

theorem Laid.aside {xs : List (Frame T)} (laid : Laid t s w xs) (advance : Advance s w none none)
    (joins : joinsIn t xs = []) (exits : s.kernel.currentThread = t → exitsIn xs = []) :
    Aside t j s w := by
  refine ⟨laid.untouched advance, by rw [laid.value], ?_, advance.current, fun u p member => ?_,
    Or.inl (by rw [laid.kernel]), fun p _ _ => ?_⟩
  · rw [laid.exits]
    split
    · rename_i self
      rw [exits self.symm, List.nil_append]
    · rfl
  · rw [laid.joins, joins, ite_self, List.nil_append] at member
    exact member
  · rcases advance.turned.states j with same | ⟨_, ready⟩ | ⟨is, _⟩ | ⟨is, _⟩
    · exact Or.inl same
    · exact Or.inr (Or.inl ready)
    · cases is
    · cases is

omit [Fintype T] in
theorem DividedSystem.begin_laid {a : Ongoing T} (other : a.removes ≠ some t) :
    Laid t s (s.begin_ a) [⟨s.irq.here.length, a⟩] := by
  refine ⟨rfl, rfl, rfl, rfl, fun x member => ?_⟩
  rw [List.mem_singleton.mp member]
  exact other

omit [Fintype T] in
theorem DividedSystem.operation_laid (ops : List (SchedStmt T)) :
    ∃ xs, Laid t s (s.operation ops) xs ∧ joinsIn t xs = [] ∧ exitsIn xs = [] := by
  by_cases none_ : ops = []
  · refine ⟨[], ⟨rfl, rfl, rfl, ?_, List.forall_mem_nil _⟩, rfl, rfl⟩
    rw [none_]
    rfl
  · refine ⟨[⟨s.irq.here.length, .ops ops⟩], ⟨rfl, rfl, rfl, ?_, fun x member => ?_⟩, rfl, rfl⟩
    · simp only [DividedSystem.operation, DividedSystem.operate, if_neg none_]
      rfl
    · rw [List.mem_singleton.mp member]
      exact fun is => by cases is

theorem DividedSystem.operation_aside {ops : List (SchedStmt T)}
    (advance : Advance s (s.operation ops) none none) : Aside t j s (s.operation ops) := by
  obtain ⟨xs, laid, joins, exits⟩ := DividedSystem.operation_laid (s := s) (t := t) ops
  exact laid.aside advance joins fun _ => exits

theorem DividedLife.begin_join (life : DividedLife t j s past) (other : j ≠ t)
    (self : s.kernel.currentThread = j) (there : s.freed t = false)
    (advance : Advance s (s.begin_ (.join t .start)) none none) :
    DividedLife t j (s.begin_ (.join t .start)) past := by
  have laid : Laid t s (s.begin_ (.join t .start)) [⟨s.irq.here.length, .join t .start⟩] :=
    DividedSystem.begin_laid fun is => by cases is
  have away : s.kernel.currentThread ≠ t := fun is => other (self.symm.trans is)
  have joins : ∀ u, ∀ p ∈ (s.begin_ (.join t .start)).joins t u,
      u = j ∧ p = .start ∨ p ∈ s.joins t u := by
    intro u p member
    rw [laid.joins] at member
    rcases List.mem_append.mp member with new | old
    · split at new
      · rename_i mine
        rw [joinsIn_top] at new
        exact Or.inl ⟨mine.trans self, List.mem_singleton.mp new⟩
      · cases new
    · exact Or.inr old
  have mine : (∀ u, ∀ p ∈ s.joins t u, u = j) → ∀ u, ∀ p ∈ (s.begin_ (.join t .start)).joins t u, u = j := by
    intro before u p member
    rcases joins u p member with new | old
    · exact new.1
    · exact before u p old
  have exits : (s.begin_ (.join t .start)).exits t = s.exits t := by
    rw [laid.exits, if_neg away.symm, List.nil_append]
  have untouched := laid.untouched advance
  cases life with
  | running awaited active quits waits =>
    rw [← exits] at quits
    refine .running (awaited.untouched untouched (mine awaited.mine))
      (fun stopped => active (untouched.ended.mp stopped)) quits ⟨fun p member => ?_, fun member => ?_,
        fun p member sleeping => ?_⟩
    · rcases joins j p member with ⟨_, rfl⟩ | old
      · trivial
      · exact waits.place p old
    · rcases joins j _ member with ⟨_, is⟩ | old
      · cases is
      · exact waits.record old
    · rcases joins j p member with ⟨_, rfl⟩ | old
      · cases sleeping
      · rcases advance.turned.states j with same | ⟨_, ready⟩ | ⟨is, _⟩ | ⟨is, _⟩
        · rw [same]
          exact waits.asleep p old sleeping
        · exact Or.inr (Or.inl ready)
        · cases is
        · cases is
  | quitting value awaited stopped current => exact absurd current away
  | stored value awaited stopped current => exact absurd current away
  | ended awaited stopped left place woken =>
    refine .ended (awaited.untouched untouched (mine awaited.mine)) (untouched.ended.mpr stopped)
      (fun is => absurd is away) (fun p member => ?_) fun p member sleeping => ?_
    · rcases joins j p member with ⟨_, rfl⟩ | old
      · trivial
      · exact place p old
    · rcases joins j p member with ⟨_, rfl⟩ | old
      · cases sleeping
      · rcases advance.turned.states j with same | ⟨_, ready⟩ | ⟨is, _⟩ | ⟨is, _⟩
        · rw [same]
          exact woken p old sleeping
        · exact Or.inl ready
        · cases is
        · cases is
  | reaped value gone => cases gone.symm.trans there
  | joined value gone => cases gone.symm.trans there

theorem DividedLife.begin_exit (life : DividedLife t j s past) (self : s.kernel.currentThread = t)
    (first : s.exits t = []) (active : s.settled.state t ≠ finishedThread) {value : Word}
    (advance : Advance s (s.begin_ (.exit value .timer)) none none) :
    DividedLife t j (s.begin_ (.exit value .timer)) past := by
  have laid : Laid t s (s.begin_ (.exit value .timer)) [⟨s.irq.here.length, .exit value .timer⟩] :=
    DividedSystem.begin_laid fun is => by cases is
  have joins : ∀ u, (s.begin_ (.exit value .timer)).joins t u = s.joins t u := by
    intro u
    rw [laid.joins, show joinsIn t [⟨s.irq.here.length, .exit value .timer⟩] = [] from rfl, ite_self,
      List.nil_append]
  have untouched := laid.untouched advance
  cases life with
  | running awaited _ quits waits =>
    refine .running (awaited.untouched untouched fun u p member => ?_)
      (fun stopped => active (untouched.ended.mp stopped)) (Or.inr ⟨value, .timer, ?_, Or.inl rfl⟩)
      (waits.kept (joins j) rfl ?_)
    · rw [joins] at member
      exact awaited.mine u p member
    · rw [laid.exits, if_pos self.symm, first]
      rfl
    · rcases advance.turned.states j with same | ⟨_, ready⟩ | ⟨is, _⟩ | ⟨is, _⟩
      · exact Or.inl same
      · exact Or.inr (Or.inl ready)
      · cases is
      · cases is
  | quitting v awaited stopped => exact absurd stopped active
  | stored v awaited stopped => exact absurd stopped active
  | ended awaited stopped => exact absurd stopped active
  | reaped v gone away => exact absurd self away
  | joined v gone away => exact absurd self away

theorem Interrupted.aside {q : IrqSystem T} (step : Interrupted s { s with irq := q })
    (current : q.kernel.currentThread = s.kernel.currentThread) : Aside t j s { s with irq := q } := by
  have rest : DividedSystem.rest { s with irq := q } = s.rest :=
    congrArg restOf (congrArg s.frames current)
  have settled : ReadyAlike s.settled (DividedSystem.settled { s with irq := q }) := by
    rw [DividedSystem.settled, DividedSystem.settled, rest]
    exact runStmts_alike s.rest step.alike
  refine ⟨⟨fun alive => (congrFun step.alike.live t).trans alive, rfl, congrFun step.magic t, step.detach t, ?_,
    fun u f member removes => ⟨f, member, removes⟩⟩, rfl, rfl, current, fun u p member => member,
    Or.inl (congrFun step.joining t), fun p _ _ => Or.inl (settled.states j)⟩
  rw [settled.states]

theorem DividedLife.switch (life : DividedLife t j s past) (sane : s.Sane) (done : s.rest = [])
    {q : IrqSystem T} (step : Interrupted s { s with irq := q })
    (new : q.kernel.currentThread ≠ s.kernel.currentThread)
    (ready : s.kernel.state q.kernel.currentThread = readyThread)
    (through : s.kernel.currentThread = t →
      ∀ x ∈ s.exits t, x.2 ≠ .value ∧ (x.2 = .wake → ¬s.Deciding t j ∧ ¬s.Asleep t j)) :
    DividedLife t j { s with irq := q } past := by
  have rest : DividedSystem.rest { s with irq := q } = [] := sane.quiet q.kernel.currentThread new
  have settled : ReadyAlike s.settled (DividedSystem.settled { s with irq := q }) := by
    rw [DividedSystem.settled_done done, DividedSystem.settled_done rest]
    exact step.alike
  have untouched : Untouched t s { s with irq := q } :=
    ⟨fun alive => (congrFun step.alike.live t).trans alive, rfl, congrFun step.magic t, step.detach t,
      by rw [settled.states], fun u f member removes => ⟨f, member, removes⟩⟩
  have waits_kept : s.Waits t j → DividedSystem.Waits { s with irq := q } t j := fun waits =>
    waits.kept rfl (congrFun step.joining t) (Or.inl (settled.states j))
  have away : s.settled.state t = finishedThread → q.kernel.currentThread ≠ t := by
    intro stopped self
    rw [s.settled_done done, ← self, ready] at stopped
    exact ready_ne_finished stopped
  have switched : ∀ x : DividedSystem T, x = { s with irq := q } →
      x.kernel.currentThread = q.kernel.currentThread := by
    rintro x rfl
    rfl
  cases life with
  | running awaited active quits waits =>
    exact .running (awaited.untouched untouched awaited.mine)
      (fun stopped => active (untouched.ended.mp stopped)) quits (waits_kept waits)
  | quitting value awaited stopped self quits waits =>
    have there : (value, ExitPoint.value) ∈ s.exits t := by
      rw [quits]
      exact List.mem_singleton_self _
    exact absurd rfl (through self _ there).1
  | stored value awaited stopped self quits waits =>
    have there : (value, ExitPoint.wake) ∈ s.exits t := by
      rw [quits]
      exact List.mem_singleton_self _
    obtain ⟨still, awake⟩ := (through self _ there).2 rfl
    have gone := away stopped
    refine .ended (awaited.untouched untouched awaited.mine) (untouched.ended.mpr stopped)
      (fun is => absurd is gone) (fun p member => waits.past still _ p member) fun p member sleeping => ?_
    rw [settled.states]
    refine (waits.asleep p member sleeping).resolve_left fun asleep => awake ⟨?_, p, member, sleeping⟩
    rw [← s.settled_done done]
    exact asleep.1
  | ended awaited stopped left place woken =>
    have gone := away stopped
    refine .ended (awaited.untouched untouched awaited.mine) (untouched.ended.mpr stopped)
      (fun is => absurd is gone) place fun p member sleeping => ?_
    rw [settled.states]
    exact woken p member sleeping
  | reaped value gone _ kept mine place =>
    exact .reaped value gone (away (sane.gone t gone).2) kept mine place
  | joined value gone _ kept left => exact .joined value gone (away (sane.gone t gone).2) kept left

omit [Fintype T] in
theorem created_flags {k : Kernel T} {a u : T} (attr : Option PthreadAttr) (other : u ≠ a) :
    (configureThread a attr (createPthreadStruct (some a) k).1).threadFlags u = k.threadFlags u := by
  have made : (createPthreadStruct (some a) k).1.threadFlags u = k.threadFlags u :=
    Function.update_of_ne other ..
  rw [← made]
  unfold configureThread
  cases attr with
  | none => exact Function.update_of_ne other ..
  | some _ => exact Function.update_of_ne other ..

theorem DividedSystem.Sane.create_aside (sane : s.Sane) (calls : s.calls = true) {a : T}
    (free : (s.freed a || !s.kernel.live a) = true) (other : a ≠ t) (attr : Option PthreadAttr) :
    Aside t j s (s.created a attr) := by
  obtain ⟨apart, _, _⟩ := sane.unused calls free
  obtain ⟨_, done⟩ := sane.running calls
  have new := s.created_new a attr
  have flags : ∀ u, u ≠ a → (s.created a attr).kernel.threadFlags u = s.kernel.threadFlags u := fun u away =>
    created_flags attr away
  have rest : (s.created a attr).rest = [] := new.rest apart done
  have states : ∀ u, u ≠ a → (s.created a attr).settled.state u = s.settled.state u := by
    intro u away
    rw [DividedSystem.settled_done rest, DividedSystem.settled_done done]
    exact congrArg getThreadState (flags u away)
  refine ⟨⟨fun alive => ?_, Function.update_of_ne other.symm .., ?_, by rw [flags t other.symm],
    by rw [states t other.symm],
    fun u f member removes => ⟨f, (new.members member).2, removes⟩⟩, Function.update_of_ne other.symm ..,
    congrArg exitsIn (new.frames t other.symm), new.current, fun u p member => ?_, Or.inl ?_,
    fun p member _ => Or.inl ?_⟩
  · rw [new.live, Function.update_of_ne other.symm]
    exact alive
  · rw [new.magic, Function.update_of_ne other.symm]
  · obtain ⟨f, there, is⟩ := List.mem_filterMap.mp member
    exact List.mem_filterMap.mpr ⟨f, (new.members there).2, is⟩
  · rw [new.joining, Function.update_of_ne other.symm]
  · by_cases mine : j = a
    · rw [DividedSystem.joins, mine, new.empty] at member
      cases member
    · exact states j mine

theorem DividedLife.mine (life : DividedLife t j s past) : ∀ u, ∀ p ∈ s.joins t u, u = j := by
  cases life with
  | running awaited => exact awaited.mine
  | quitting value awaited => exact awaited.mine
  | stored value awaited => exact awaited.mine
  | ended awaited => exact awaited.mine
  | reaped value gone away kept mine => exact mine
  | joined value gone away kept left =>
    intro u p member
    rw [left u] at member
    cases member

theorem DividedLife.kept (life : DividedLife t j s past) :
    ∀ u, ∀ f ∈ s.frames u, f.activity.removes ≠ some t := by
  cases life with
  | running awaited => exact awaited.kept
  | quitting value awaited => exact awaited.kept
  | stored value awaited => exact awaited.kept
  | ended awaited => exact awaited.kept
  | reaped value gone away kept => exact kept
  | joined value gone away kept => exact kept

theorem DividedLife.next (life : DividedLife t j s past) (other : j ≠ t) (sane : s.Sane) (single : s.Single)
    (orderly : s.Orderly .next) (safe : s.NoMiss t j) {d : Nat} {a : Ongoing T} {fs : List (Frame T)}
    (here : s.here = ⟨d, a⟩ :: fs) (taken : s.activityNext d fs a = some (w, es)) :
    DividedLife t j w (past ++ es.filter (JoinEvent.about t)) := by
  have top : ⟨d, a⟩ ∈ s.frames s.kernel.currentThread := by
    rw [show s.frames s.kernel.currentThread = ⟨d, a⟩ :: fs from here]
    exact List.mem_cons_self
  by_cases apart : a.concerns t s.kernel.currentThread = false
  · obtain ⟨aside, quiet⟩ := sane.aside_next single orderly safe here taken apart
    rw [quiet, List.append_nil]
    exact life.aside other aside
  · have concerned : a.concerns t s.kernel.currentThread = true := by
      rw [Bool.not_eq_false] at apart
      exact apart
    cases a with
    | join u p =>
      cases of_decide_eq_true concerned
      have self : s.kernel.currentThread = j := by
        refine life.mine _ p ?_
        rw [DividedSystem.joins, show s.frames s.kernel.currentThread = _ from here, joinsIn_top]
        exact List.mem_cons_self
      exact life.join_next other sane single orderly self here taken
    | exit value p => exact life.exit_next other sane orderly safe (of_decide_eq_true concerned) here taken
    | detach u p =>
      cases of_decide_eq_true concerned
      exact absurd rfl (life.kept _ _ top)
    | deleteNp u p =>
      cases of_decide_eq_true concerned
      exact absurd rfl (life.kept _ _ top)
    | _ => cases concerned

theorem DividedLife.irq (life : DividedLife t j s past) (other : j ≠ t) (sane : s.Sane) {l : IrqLabel T}
    (orderly : s.Orderly (.irq l)) (meeting : s.Meeting t j (.irq l)) {m : IrqLabel T}
    (label : s.irqLabel l = some m) {q : IrqSystem T} (taken : s.irq.next m = some q) :
    DividedLife t j { s with irq := q } past := by
  obtain ⟨step, current | ⟨new, chosen_, away, current, now, rfl⟩⟩ := irq_moves label taken
  · exact life.aside other (step.aside current)
  · have done := orderly.apart rfl
    have moves : q.kernel.currentThread ≠ s.kernel.currentThread := by
      rw [current]
      exact away
    refine life.switch sane done step moves ?_ (meeting new chosen_ away)
    rw [current]
    rcases orderly.current new chosen_ with self | idle | ready
    · exact absurd self away
    · have idling := sane.idling
      rw [s.settled_done done] at idling
      rw [idle]
      exact idling
    · exact ready

theorem DividedLife.begun (life : DividedLife t j s past) (other : j ≠ t) {a : Ongoing T}
    (removes : a.removes ≠ some t) (joins : joinsIn t [⟨s.irq.here.length, a⟩] = [])
    (exits : s.kernel.currentThread = t → exitsIn [⟨s.irq.here.length, a⟩] = [])
    (advance : Advance s (s.begin_ a) none none) : DividedLife t j (s.begin_ a) past :=
  life.aside other ((DividedSystem.begin_laid removes).aside advance joins exits)

theorem DividedLife.begun_join (life : DividedLife t j s past) (other : j ≠ t) {u : T}
    (meeting : s.Meeting t j (.join u)) (handle : s.handle u = true)
    (busy : s.kernel.currentThread ≠ s.kernel.idleThread) :
    DividedLife t j (s.begin_ (.join u .start)) past := by
  have advance : Advance s (s.begin_ (.join u .start)) none none :=
    DividedSystem.call_begins rfl rfl rfl handle busy
  by_cases self : u = t
  · subst self
    exact life.begin_join other (meeting rfl) (DividedSystem.handle_iff.mp handle).2.1 advance
  · exact life.begun other (fun is => by cases is) (List.filterMap_cons_none (if_neg self)) (fun _ => rfl)
      advance

theorem DividedLife.begun_exit (life : DividedLife t j s past) (other : j ≠ t) {value : Word}
    (meeting : s.Meeting t j (.exit value)) (busy : s.kernel.currentThread ≠ s.kernel.idleThread) :
    DividedLife t j (s.begin_ (.exit value .timer)) past := by
  have advance : Advance s (s.begin_ (.exit value .timer)) none none :=
    DividedSystem.begin_advance rfl rfl (fun v aimed => by cases aimed) busy
  by_cases self : s.kernel.currentThread = t
  · obtain ⟨first, active⟩ := meeting self
    exact life.begin_exit self first active advance
  · exact life.begun other (fun is => by cases is) rfl (fun is => absurd is self) advance

theorem DividedLife.step (life : DividedLife t j s past) (other : j ≠ t) (sane : s.Sane) (single : s.Single)
    {l : DividedLabel T} (orderly : s.Orderly l) (meeting : s.Meeting t j l)
    (taken : s.step l = some (w, es)) : DividedLife t j w (past ++ es.filter (JoinEvent.about t)) := by
  have quiet : ∀ {x : DividedSystem T}, DividedLife t j x past →
      DividedLife t j x (past ++ [].filter (JoinEvent.about t)) := by
    intro x life
    rw [List.filter_nil, List.append_nil]
    exact life
  cases DividedSystem.step_move taken with
  | irq label next => exact quiet (life.irq other sane orderly meeting label next)
  | next here active taken => exact life.next other sane single orderly meeting here taken
  | join u calls handle busy => exact quiet (life.begun_join other meeting handle busy)
  | detach u calls handle busy =>
    refine quiet (life.begun other (fun is => meeting (Option.some.inj is)) rfl (fun _ => rfl) ?_)
    exact DividedSystem.call_begins rfl rfl rfl handle busy
  | deleteNp u calls handle busy =>
    refine quiet (life.begun other (fun is => meeting (Option.some.inj is)) rfl (fun _ => rfl) ?_)
    exact DividedSystem.call_begins rfl rfl rfl handle busy
  | exit value user busy => exact quiet (life.begun_exit other meeting busy)
  | block signals busy =>
    refine quiet (life.begun other (fun is => by cases is) rfl (fun _ => rfl) ?_)
    exact DividedSystem.begin_advance rfl rfl (fun v aimed => by cases aimed) busy
  | activate u within alive =>
    refine quiet (life.aside other (DividedSystem.operation_aside ?_))
    exact DividedSystem.activate_advance (orderly.apart rfl) alive
  | changePrio u p calls alive =>
    refine quiet (life.aside other (DividedSystem.operation_aside ?_))
    exact sane.changePrio_advance calls alive p
  | setschedparam u param calls alive =>
    refine quiet (life.aside other (DividedSystem.operation_aside ?_))
    exact sane.setschedparam_advance calls alive param
  | yield calls => exact quiet (life.aside other (DividedSystem.operation_aside (sane.yield_advance calls)))
  | create a attr calls unused => exact quiet (life.aside other (sane.create_aside calls unused meeting attr))

omit [Fintype T] in
theorem DividedSystem.Single.begin_call (single : s.Single) (calls : s.calls = true) (a : Ongoing T) :
    (s.begin_ a).Single := by
  simp only [DividedSystem.calls, Bool.and_eq_true, List.isEmpty_iff] at calls
  intro u
  simp only [DividedSystem.begin_, DividedSystem.setHere, Function.update_apply]
  split
  · rw [calls.1]
    exact List.countP_le_length
  · exact single u

omit [Fintype T] in
theorem DividedSystem.Single.begin_silent (single : s.Single) {a : Ongoing T} (silent : a.target = none) :
    (s.begin_ a).Single := by
  intro u
  simp only [DividedSystem.begin_, DividedSystem.setHere, Function.update_apply]
  split
  · rw [List.countP_cons, if_neg (by rw [silent]; exact Bool.false_ne_true)]
    exact single s.kernel.currentThread
  · exact single u

omit [Fintype T] in
theorem DividedSystem.Single.operation (single : s.Single) (ops : List (SchedStmt T)) :
    (s.operation ops).Single := by
  intro u
  simp only [DividedSystem.operation, DividedSystem.operate, DividedSystem.setHere, Function.update_apply]
  split
  · split
    · exact single s.kernel.currentThread
    · rw [List.countP_cons, if_neg (show ¬(Ongoing.ops ops).target.isSome = true from Bool.false_ne_true)]
      exact single s.kernel.currentThread
  · exact single u

theorem DividedSystem.Single.step (single : s.Single) {l : DividedLabel T} (taken : s.step l = some (w, es)) :
    w.Single := by
  cases DividedSystem.step_move taken with
  | irq label next => exact single
  | next here active taken => exact (DividedSystem.activityNext_continued taken).single here single
  | join u calls => exact single.begin_call calls _
  | detach u calls => exact single.begin_call calls _
  | deleteNp u calls => exact single.begin_call calls _
  | create a attr =>
    intro u
    simp only [DividedSystem.created, Function.update_apply]
    split
    · exact Nat.zero_le 1
    · exact single u
  | exit value => exact single.begin_silent rfl
  | block => exact single.begin_silent rfl
  | _ => exact single.operation _

end

end L4ertl
