import L4ertl.System.CeilingsHeld
import L4ertl.System.CondWakeups
import L4ertl.System.Reaping

/-!
Mutexes with PTHREAD_PRIO_PROTECT never block. If every thread locks only mutexes
whose ceiling is more urgent than its own base priority, gives them back in the
reverse order and neither sleeps nor ends while it holds one, a lock always finds
its mutex free, and once a thread runs, nobody that holds a mutex is more urgent
than its base priority.
-/
namespace L4ertl
open Intrusive

variable {T : Type} [DecidableEq T] [Fintype T] {base : T → Int} {h : LockHistory T}
  {k : Kernel T} {outcome : Outcome}

section
omit [DecidableEq T] [Fintype T]

theorem CeilingInv.free (inv : CeilingInv base h) (ok : SystemOk h.sys) {m : Nat}
    (guarded : Guarded base h.sys.kernel h.sys.kernel.currentThread m)
    (other : m ∉ h.held h.sys.kernel.currentThread) : Lockable h.sys.kernel m :=
  ⟨inv.holding.free ok.kernel.current inv.front guarded other, guarded.protect⟩

theorem CeilingInv.owns (inv : CeilingInv base h) {m : Nat} {t : T}
    (mine : (h.sys.kernel.mutex m).owner = some t) :
    m ∈ h.held t ∧ Guarded base h.sys.kernel t m := by
  have member := (inv.holding.tracks.owned t m).mpr mine
  exact ⟨member, inv.holding.guarded t m member⟩

end

section
omit [Fintype T]

theorem CeilingInv.rules (inv : CeilingInv base h) (ok : SystemOk h.sys) {w : Work T} {env : Env}
    (follows : h.Follows base (.enter w env)) : w.Level h.sys.kernel := by
  cases w with
  | irq => trivial
  | call c =>
    cases c with
    | mutexLock m => exact inv.free ok follows.1 follows.2
    | mutexTrylock m => exact inv.free ok follows.1 follows.2
    | mutexUnlock m =>
      intro mine
      exact ⟨(inv.owns mine).2.protect, (follows mine).2⟩
    | condWait c m =>
      intro mine
      exact ⟨(inv.owns mine).2.protect, (follows mine).2⟩
    | setschedparam t policy param => exact follows
    | _ => trivial

theorem CeilingInv.last (inv : CeilingInv base h) {w : Work T} {env : Env}
    (follows : h.Follows base (.enter w env)) {m : Nat} (locks : w.locks = some m)
    (mine : (h.sys.kernel.mutex m).owner = some h.sys.kernel.currentThread) :
    ∃ ms, h.held h.sys.kernel.currentThread = m :: ms ∧ ((∃ c, w = .call (.condWait c m)) → ms = []) := by
  have held := (inv.owns mine).1
  cases w with
  | irq => cases locks
  | call c =>
    cases c with
    | mutexLock n =>
      cases locks
      exact absurd held follows.2
    | mutexTrylock n =>
      cases locks
      exact absurd held follows.2
    | mutexUnlock n =>
      cases locks
      obtain ⟨ms, first⟩ := List.head?_eq_some_iff.mp (follows mine).1
      exact ⟨ms, first, nofun⟩
    | condWait c n =>
      cases locks
      exact ⟨[], (follows mine).1, fun _ => rfl⟩
    | _ => cases locks

theorem CeilingInv.sleeps (inv : CeilingInv base h) (ok : SystemOk h.sys) {w : Work T} {env : Env}
    (follows : h.Follows base (.enter w env)) (sleeps : w.Sleeps h.sys.kernel) :
    (h.held h.sys.kernel.currentThread = [] ∧ w.locks = none) ∨
      ∃ c m, w = .call (.condWait c m) ∧
        (h.sys.kernel.mutex m).owner = some h.sys.kernel.currentThread := by
  cases w with
  | irq => cases sleeps
  | call c =>
    cases c with
    | mutexLock m =>
      have free := inv.free ok follows.1 follows.2
      exact absurd free.1 sleeps.1
    | condWait c m => exact Or.inr ⟨c, m, rfl, sleeps⟩
    | semWait s =>
      refine Or.inl ⟨?_, rfl⟩
      by_contra holds
      exact follows holds sleeps
    | usleep usec => exact Or.inl ⟨follows, rfl⟩
    | exit => exact Or.inl ⟨follows, rfl⟩
    | _ => cases sleeps

end

theorem Work.run_stays {w : Work T} {env : Env} {x : Kernel T} {v : Int} (ok : KernelOk k)
    (legal : w.Legal k = true) (rules : w.Level k) (ran : w.run env k = .ok (x, .ret v)) :
    x.prio k.currentThread ≤ k.prio k.currentThread := by
  have move := Work.run_level ok legal rules ran
  generalize about : w.locks = o at move
  cases move with
  | kept o kept => exact le_of_eq (kept.prios _ ok.current)
  | taken m free raised others =>
    rw [raised.prio]
    exact min_le_right _ _
  | given m mine free lowered others =>
    cases w with
    | irq => cases about
    | call c =>
      cases c with
      | mutexLock n =>
        cases about
        rw [rules.1] at mine
        cases mine
      | mutexTrylock n =>
        cases about
        rw [rules.1] at mine
        cases mine
      | mutexUnlock n =>
        have steady : Steady (fun _ => True) k x :=
          pthreadMutexUnlockSys_steady (fun _ _ _ _ => trivial) (Except.ok.inj ran)
        exact le_of_eq (steady.prios _ ok.current)
      | condWait c n =>
        cases about
        have same : pthreadCondWaitSys c m k = (x, .ret v) := Except.ok.inj ran
        rcases pthreadCondWaitSys_cases c m k with ⟨foreign, _⟩ | ⟨_, u, _, eq⟩ | ⟨_, _, eq⟩
        · exact absurd mine foreign
        · rw [eq] at same
          cases same
        · rw [eq] at same
          cases same
      | _ => cases about

theorem LockHistory.Follows.waits {c m : Nat} {env : Env}
    (follows : h.Follows base (.enter (.call (.condWait c m)) env))
    (mine : (h.sys.kernel.mutex m).owner = some h.sys.kernel.currentThread) :
    noteLock h.sys.kernel.currentThread h.sys.kernel (pthreadCondWaitSys c m h.sys.kernel).1 h.held
      (some m) h.sys.kernel.currentThread = [] := by
  obtain ⟨alone, last⟩ := follows mine
  rw [noteLock_freed mine (pthreadCondWaitSys_frees mine last), alone, List.erase_cons_head]

theorem LockHistory.Follows.waited {w : Work T} {env : Env} {x : Kernel T} {pr : Progress} {c m : Nat}
    (follows : h.Follows base (.enter w env)) (ran : w.run env h.sys.kernel = .ok (x, pr))
    (same : w = .call (.condWait c m))
    (mine : (h.sys.kernel.mutex m).owner = some h.sys.kernel.currentThread) :
    noteLock h.sys.kernel.currentThread h.sys.kernel x h.held w.locks h.sys.kernel.currentThread = [] := by
  subst same
  obtain ⟨rfl, _⟩ := ran_pair ran
  exact follows.waits mine

theorem Work.run_created {w : Work T} {env : Env} {x : Kernel T} {pr : Progress} {u : T}
    (legal : w.Legal h.sys.kernel = true) (follows : h.Follows base (.enter w env))
    (ran : w.run env h.sys.kernel = .ok (x, pr)) (alive : x.live u = true) :
    h.sys.kernel.live u = true ∨ x.prio u = base u ∧ w.locks = none := by
  rcases Work.run_table legal ran with ⟨kept, _⟩ | ⟨a, creates, _⟩
  · rw [kept.live] at alive
    exact Or.inl alive
  · cases w with
    | irq => cases creates
    | call c =>
      cases c with
      | create addr stack attr =>
        obtain ⟨rfl, _⟩ := ran_pair ran
        cases addr with
        | none =>
          simp only [Work.creates] at creates
          split at creates <;> cases creates
        | some b =>
          rcases pthreadCreateSys_prio u alive with ⟨before, _⟩ | ⟨self, prio⟩
          · exact Or.inl before
          · right
            rw [self, ← follows b rfl]
            exact ⟨self ▸ prio, rfl⟩
      | _ => cases creates

theorem Work.run_guarded {w : Work T} {env : Env} {x : Kernel T} {pr : Progress} {m : Nat}
    (follows : h.Follows base (.enter w env)) (ran : w.run env h.sys.kernel = .ok (x, pr))
    (about : w.locks = some m) (free : (h.sys.kernel.mutex m).owner = none) (owned : (x.mutex m).owner ≠ none) :
    Guarded base h.sys.kernel h.sys.kernel.currentThread m := by
  cases w with
  | irq => cases about
  | call c =>
    cases c with
    | mutexLock n =>
      cases about
      exact follows.1
    | mutexTrylock n =>
      cases about
      exact follows.1
    | mutexUnlock n =>
      cases about
      obtain ⟨rfl, _⟩ := ran_pair ran
      have foreign : (h.sys.kernel.mutex m).owner ≠ some h.sys.kernel.currentThread := by
        rw [free]
        exact (Option.some_ne_none _).symm
      rw [pthreadMutexUnlockSys_kernel, mutexUnlock_foreign m _ foreign] at owned
      exact absurd free owned
    | condWait c n =>
      cases about
      obtain ⟨rfl, _⟩ := ran_pair ran
      rcases pthreadCondWaitSys_cases c m h.sys.kernel with ⟨_, eq⟩ | ⟨mine, _⟩ | ⟨mine, _⟩
      · rw [eq] at owned
        exact absurd free owned
      · rw [free] at mine
        cases mine
      · rw [free] at mine
        cases mine
    | _ => cases about

theorem condWait_scheduled {c m : Nat} {x : Kernel T} {p : Point}
    (same : pthreadCondWaitSys c m k = (x, .sched p)) :
    (k.mutex m).owner = some k.currentThread ∧ p ≠ .condLock m := by
  rcases pthreadCondWaitSys_cases c m k with ⟨_, eq⟩ | ⟨mine, v, _, eq⟩ | ⟨mine, _, eq⟩
  · rw [eq] at same
    cases same
  · rw [eq] at same
    cases same
    exact ⟨mine, fun other => by cases other⟩
  · rw [eq] at same
    cases same
    exact ⟨mine, fun other => by cases other⟩

theorem Work.run_place {w : Work T} {env : Env} {x : Kernel T} {p : Point} (inv : CeilingInv base h)
    (ok : SystemOk h.sys) (legal : w.Legal h.sys.kernel = true) (follows : h.Follows base (.enter w env))
    (ran : w.run env h.sys.kernel = .ok (x, .sched p)) :
    p.At base x h.sys.kernel.currentThread
      (noteLock h.sys.kernel.currentThread h.sys.kernel x h.held w.locks h.sys.kernel.currentThread) := by
  have rules := inv.rules ok follows
  have ceilings := (Work.run_level ok.kernel legal rules ran).ceilings
  have fits := Work.run_fits ran
  cases p with
  | lockLoop m =>
    cases fits
    have same : pthreadMutexLockSys m h.sys.kernel = (x, .sched (.lockLoop m)) := Except.ok.inj ran
    have open_ := (mutexLockLoop_free rules.1).1
    unfold pthreadMutexLockSys at same
    split at same
    · cases same
    · rename_i eq
      rw [eq] at open_
      exact absurd rfl open_
    · cases same
  | condUnlocked c m =>
    cases fits
    obtain ⟨mine, _⟩ := condWait_scheduled (Except.ok.inj ran)
    exact ⟨follows.waited ran rfl mine, (inv.owns mine).2.kept ceilings⟩
  | condWoken m =>
    obtain ⟨c, rfl⟩ := fits
    obtain ⟨mine, _⟩ := condWait_scheduled (Except.ok.inj ran)
    exact ⟨follows.waited ran rfl mine, (inv.owns mine).2.kept ceilings⟩
  | condLock m =>
    obtain ⟨c, rfl⟩ := fits
    exact absurd rfl (condWait_scheduled (Except.ok.inj ran)).2
  | signals mask signal pend rounds =>
    have irq := Work.run_outside ran trivial
    subst irq
    obtain ⟨_, _, _, _, _, progress⟩ := doIrq_cases ok.kernel.irq ran
    rcases progress with asks | ⟨returned, _⟩
    · cases asks
    · cases returned
  | _ => trivial

theorem Work.run_ceiling {w : Work T} {env : Env} {x : Kernel T} {pr : Progress}
    (inv : CeilingInv base h) (ok : SystemOk h.sys) (legal : w.Legal h.sys.kernel = true)
    (follows : h.Follows base (.enter w env)) (ran : w.run env h.sys.kernel = .ok (x, pr)) :
    CeilingStep base h.sys.kernel x h.held
      (noteLock h.sys.kernel.currentThread h.sys.kernel x h.held w.locks) pr.outcome := by
  have call := Work.run_ok ok.kernel ok.running legal ran
  have rules := inv.rules ok follows
  have move := Work.run_level ok.kernel legal rules ran
  apply CeilingStep.of_move inv.holding ok.kernel.current inv.front move call.sound.live
  · exact fun u alive => Work.run_created legal follows ran alive
  · exact fun m about free owned => Work.run_guarded follows ran about free owned
  · intro m about mine _
    obtain ⟨ms, first, _⟩ := inv.last follows about mine
    exact ⟨ms, first⟩
  · intro holds
    by_cases sleeps : w.Sleeps h.sys.kernel
    · rcases inv.sleeps ok follows sleeps with ⟨empty, nothing⟩ | ⟨c, m, same, mine⟩
      · rw [nothing] at holds
        exact absurd empty holds
      · exact absurd (follows.waited ran same mine) holds
    · exact Work.run_awake ok.kernel ok.running legal sleeps ran
  · intro returns
    cases pr with
    | ret v => exact Work.run_stays ok.kernel legal rules ran
    | sched p => exact absurd rfl (returns p)
  · intro p onward
    cases pr with
    | ret v => cases onward
    | sched q =>
      cases onward
      exact Work.run_place inv ok legal follows ran

omit [Fintype T] in
theorem condRelock_free {m : Nat} (free : (k.mutex m).owner = none) :
    (condRelock m k).2 ≠ .sched (.condLock m) ∧
      (∀ p, (condRelock m k).2.outcome.onward = some p → p = .done) ∧
      ∀ u, (condRelock m k).1.state u = k.state u := by
  obtain ⟨open_, states⟩ := mutexLockLoop_free free
  refine ⟨?_, ?_, ?_⟩
  · unfold condRelock
    split
    · intro same; cases same
    · rename_i eq
      rw [eq] at open_
      exact absurd rfl open_
    · intro same; cases same
  · intro p onward
    unfold condRelock at onward
    split at onward
    · cases onward
    · rename_i eq
      rw [eq] at open_
      exact absurd rfl open_
    · cases onward
      rfl
  · intro u
    rw [condRelock_kernel]
    exact states u

section
variable {w : Work T} {p : Point} {env : Env} {x : Kernel T}

omit [DecidableEq T] [Fintype T] in
theorem CeilingInv.relocks (inv : CeilingInv base h) (ok : SystemOk h.sys) {m : Nat}
    (here : h.sys.cont h.sys.kernel.currentThread = some (w, p)) (locks : p.locks = some m) :
    p = .condWoken m ∧ Guarded base h.sys.kernel h.sys.kernel.currentThread m ∧
      Lockable h.sys.kernel m := by
  have place := inv.places _ _ _ here
  cases p with
  | condWoken n =>
    cases locks
    obtain ⟨empty, guarded⟩ := place
    exact ⟨rfl, guarded, inv.free ok guarded (by rw [empty]; intro same; cases same)⟩
  | lockLoop n => cases place
  | condLock n => cases place
  | _ => cases locks

omit [Fintype T] in
theorem Point.run_ceiling (inv : CeilingInv base h) (ok : SystemOk h.sys)
    (follows : h.Follows base (.resume env))
    (here : h.sys.cont h.sys.kernel.currentThread = some (w, p))
    (ran : p.run env h.sys.kernel = .ok (x, outcome)) :
    CeilingStep base h.sys.kernel x h.held
      (noteLock h.sys.kernel.currentThread h.sys.kernel x h.held p.locks) outcome := by
  have done := Point.run_ok ok.kernel ok.running ran
  have place := inv.places _ _ _ here
  have move := Point.run_level (fun m locks => (inv.relocks ok here locks).2.2) ran
  apply CeilingStep.of_move inv.holding ok.kernel.current inv.front move done.sound.live
  · intro u alive
    rw [(Point.run_table ran).live] at alive
    exact Or.inl alive
  · intro m about _ _
    exact (inv.relocks ok here about).2.1
  · intro m about mine _
    rw [(inv.relocks ok here about).2.2.1] at mine
    cases mine
  · intro holds
    by_cases returns : ∀ q, outcome ≠ .sched q
    · exact done.stays returns
    · cases p with
      | done =>
        cases ran
        exact ok.running
      | lockLoop m => cases place
      | condLock m => cases place
      | condUnlocked c m => exact absurd place.1 holds
      | condWoken m =>
        have free := (inv.relocks ok here rfl).2.2.1
        cases ran
        rw [(condRelock_free free).2.2]
        exact ok.running
      | semWait s =>
        cases ran
        exact ok.running
      | semPost s =>
        cases ran
        exact absurd (fun q => by unfold semGive; split <;> nofun) returns
      | slept d =>
        obtain ⟨pr, finished, rfl⟩ := ran_slept ran
        obtain ⟨_, v, rfl⟩ := usleepDone_book finished
        exact absurd nofun returns
      | leave rounds =>
        obtain ⟨r, rfl, _⟩ := Point.leave_calm (follows _ here) holds ran
        exact absurd nofun returns
      | signals mask signal pend rounds => exact absurd place holds
  · intro returns
    generalize about : p.locks = o at move
    cases move with
    | kept o kept => exact le_of_eq (kept.prios _ ok.kernel.current)
    | taken m free raised others =>
      rw [raised.prio]
      exact min_le_right _ _
    | given m mine free lowered others =>
      rw [(inv.relocks ok here about).2.2.1] at mine
      cases mine
  · intro q onward
    cases p with
    | done =>
      cases ran
      cases onward
    | lockLoop m => cases place
    | condLock m => cases place
    | condUnlocked c m =>
      cases ran
      cases onward
      exact ⟨place.1, place.2.kept move.ceilings⟩
    | condWoken m =>
      have free := (inv.relocks ok here rfl).2.2.1
      cases ran
      rw [(condRelock_free free).2.1 q onward]
      trivial
    | semWait s =>
      cases ran
      cases onward
    | semPost s =>
      cases ran
      unfold semGive at onward
      split at onward <;> cases onward
    | slept d =>
      obtain ⟨pr, finished, rfl⟩ := ran_slept ran
      obtain ⟨_, v, rfl⟩ := usleepDone_book finished
      cases onward
    | leave rounds =>
      have leaves := (Point.run_quiet rfl ran).2.2 q onward
      cases q with
      | leave n => trivial
      | signals a b c d =>
        by_contra holds
        obtain ⟨r, rfl, leads⟩ := Point.leave_calm (follows _ here) holds ran
        obtain ⟨n, same⟩ := leads _ onward
        cases same
      | _ => cases leaves
    | signals mask signal pend rounds =>
      have leaves := (Point.run_quiet rfl ran).2.2 q onward
      cases q with
      | leave n => trivial
      | signals a b c d => exact place
      | _ => cases leaves

end

def BasesInRange (base : T → Int) : Prop :=
  ∀ t, maxSchedPriority ≤ base t ∧ base t ≤ idleSchedPriority

section
omit [DecidableEq T] [Fintype T]

theorem CeilingsHeld.inRange {held : T → List Nat} (inv : CeilingsHeld base k held)
    (range : BasesInRange base) : PriosInRange k := by
  intro t alive
  rw [inv.level t alive]
  constructor
  · exact ceilingOf_ge (range t).1 fun m member => (inv.guarded t m member).range
  · exact le_trans (ceilingOf_le _ k _).1 (range t).2

theorem Point.At.kept {p : Point} {t : T} {held : List Nat} {x : Kernel T}
    (place : p.At base k t held) (kept : CeilingsKept k x) : p.At base x t held := by
  cases p with
  | condUnlocked c m => exact ⟨place.1, place.2.kept kept⟩
  | condWoken m => exact ⟨place.1, place.2.kept kept⟩
  | _ => exact place

end

omit [Fintype T] in
theorem CeilingStep.settle {held' : T → List Nat} {x : Kernel T} {w : Work T} {env : Env}
    (range : BasesInRange base) (inv : CeilingInv base h)
    (step : CeilingStep base h.sys.kernel x h.held held' outcome)
    (sound : Sound h.sys.kernel.currentThread h.sys.kernel x)
    (settled : SystemOk (h.sys.settle w env x outcome).1) :
    CeilingInv base ⟨(h.sys.settle w env x outcome).1, held'⟩ := by
  have places : ∀ (y : Kernel T), (h.sys.settle w env x outcome).1.kernel = y → CeilingsKept x y →
      ∀ t v p, (h.sys.settle w env x outcome).1.cont t = some (v, p) → p.At base y t (held' t) := by
    intro y _ same t v p here
    rcases settle_cont here with ⟨other, before⟩ | ⟨self, _, onward | ⟨r, _, rfl⟩⟩
    · rw [step.away t other]
      exact ((inv.places t v p before).kept step.ceilings).kept same
    · rw [self]
      exact (step.place p onward).kept same
    · trivial
  have awake : ∀ t, held' t ≠ [] → x.state t = readyThread := by
    intro t holds
    by_cases self : t = h.sys.kernel.currentThread
    · subst self
      exact step.awake holds
    · rw [step.away t self] at holds
      rcases sound.others t (inv.holding.alive t holds) self with same | ⟨_, woke⟩
      · rw [same]
        exact inv.awake t holds
      · exact woke
  cases outcome with
  | ret v =>
    refine ⟨step.holding, awake, ?_, places x rfl fun m => ⟨rfl, rfl⟩⟩
    intro t holds
    simp only [System.settle, sound.current]
    exact step.front (fun _ same => by cases same) t holds
  | next p =>
    refine ⟨step.holding, awake, ?_, places x rfl fun m => ⟨rfl, rfl⟩⟩
    intro t holds
    simp only [System.settle, sound.current]
    exact step.front (fun _ same => by cases same) t holds
  | sched p =>
    have only := scheduling_only env.sched x
    have mutex := only.quiet.objects.1
    have param := congrArg Kernel.schedParam only
    have live := congrArg Kernel.live only
    have idle := congrArg Kernel.idleThread only
    have kept : LevelsKept x (scheduling env.sched x) := .of_same mutex param
    have holding : CeilingsHeld base (scheduling env.sched x) held' := by
      apply step.holding.kept kept
      · intro u alive
        rw [live]
        exact alive
      · intro u alive
        rw [live] at alive
        exact Or.inl alive
    have idling : x.state x.idleThread = readyThread := by
      have there : (scheduling env.sched x).state (scheduling env.sched x).idleThread = readyThread :=
        settled.idling
      rw [only.state] at there
      exact idle ▸ there
    have urgent : Urgent (scheduling env.sched x) :=
      scheduling_urgent sound.ok idling (holding.inRange range)
    refine ⟨holding, ?_, ?_, places _ rfl kept.ceilings⟩
    · intro t holds
      exact (only.state t).trans (awake t holds)
    · intro t holds
      exact urgent t (holding.alive t holds) ((only.state t).trans (awake t holds))

theorem CeilingInv.step {x : LockHistory T} {l : Label T} {es : List (Event T)}
    (range : BasesInRange base) (inv : CeilingInv base h) (ok : SystemOk h.sys)
    (follows : h.Follows base l) (taken : h.step l = some (x, es)) : CeilingInv base x := by
  obtain ⟨⟨y, now⟩, first, eq⟩ := Option.map_eq_some_iff.mp taken
  have settled := ok.step first
  cases eq
  rcases step_cases first with ⟨w, env, k, pr, rfl, user, legal, ran, rfl, _⟩ |
    ⟨w, p, env, k, outcome, rfl, here, ran, rfl, _⟩
  · have step := Work.run_ceiling inv ok legal follows ran
    have sound := (Work.run_ok ok.kernel ok.running legal ran).sound
    simp only [noteLock_settle, System.locks]
    exact step.settle range inv sound settled
  · have step := Point.run_ceiling inv ok follows here ran
    have sound := (Point.run_ok ok.kernel ok.running ran).sound
    simp only [noteLock_settle, System.locks, here, Option.bind_some]
    exact step.settle range inv sound settled

omit [DecidableEq T] [Fintype T] in
theorem ceilingInv_start {s : System T} (start : Started s)
    (prios : ∀ t, s.kernel.live t = true → s.kernel.prio t = base t) :
    CeilingInv base ⟨s, fun _ => []⟩ where
  holding := by
    refine ⟨tracks_start start, nofun, fun t => trivial, ?_, prios, ?_⟩
    · intro t holds
      exact absurd rfl holds
    · exact ⟨fun t holds => absurd rfl holds, fun t u holds => absurd rfl holds⟩
  awake t holds := absurd rfl holds
  front t holds := absurd rfl holds
  places t w p here := by
    rw [start.user t] at here
    cases here

/-- In every state of a run in which the threads keep to the rules: nobody waits in
    the lock of a mutex; each thread has the most urgent of its base priority and of
    the ceilings it holds; whatever the running thread may lock is free; and nobody
    else who holds a mutex is more urgent than its base priority. -/
theorem ceiling_never_blocks (base : T → Int) (range : BasesInRange base) (s : System T)
    (start : Started s) (prios : ∀ t, s.kernel.live t = true → s.kernel.prio t = base t)
    (ls : List (Label T)) (x : LockHistory T) (es : List (Event T))
    (run : Lts.exec LockHistory.step ⟨s, fun _ => []⟩ ls = some (x, es))
    (follows : Lts.Along LockHistory.step (LockHistory.Follows base) ⟨s, fun _ => []⟩ ls) :
    (∀ t m, ¬InLock x.sys t m) ∧
    (∀ t m, m ∈ x.held t ↔ (x.sys.kernel.mutex m).owner = some t) ∧
    (∀ t, x.sys.kernel.live t = true →
      x.sys.kernel.prio t = ceilingOf (base t) x.sys.kernel (x.held t)) ∧
    (∀ m, Guarded base x.sys.kernel x.sys.kernel.currentThread m →
      m ∉ x.held x.sys.kernel.currentThread → (x.sys.kernel.mutex m).owner = none) ∧
    ∀ u, u ≠ x.sys.kernel.currentThread → x.held u ≠ [] →
      base x.sys.kernel.currentThread ≤ x.sys.kernel.prio u := by
  have reached : SystemOk x.sys ∧ CeilingInv base x := by
    apply Lts.exec_keeps (fun h => SystemOk h.sys ∧ CeilingInv base h) _ ls
      ⟨start.ok, ceilingInv_start start prios⟩ follows run
    intro h l y first both allowed taken
    obtain ⟨r, step, eq⟩ := Option.map_eq_some_iff.mp taken
    have next : SystemOk y.sys := by
      cases eq
      exact both.1.step step
    exact ⟨next, both.2.step range both.1 allowed taken⟩
  obtain ⟨ok, inv⟩ := reached
  refine ⟨?_, inv.holding.tracks.owned, inv.holding.level, fun m guarded other => (inv.free ok guarded other).1, ?_⟩
  · intro t m inside
    obtain ⟨w, p, here, locks⟩ := inside
    have place := inv.places t w p here
    cases p with
    | lockLoop n => exact place
    | condLock n => exact place
    | _ => cases locks
  · intro u other holds
    apply inv.holding.nested.below inv.front _ holds other
    intro idle
    have here := inv.holding.level _ ok.kernel.current
    rw [not_not.mp idle] at here
    exact here

instance (base : T → Int) (k : Kernel T) (held : List Nat) : (c : Call T) → Decidable (c.Follows base k held)
  | .mutexLock m | .mutexTrylock m => inferInstanceAs (Decidable (Guarded base k _ m ∧ m ∉ held))
  | .mutexUnlock m => inferInstanceAs (Decidable ((k.mutex m).owner = _ → held.head? = some m ∧ HeldOnce k m))
  | .condWait _ m => inferInstanceAs (Decidable ((k.mutex m).owner = _ → held = [m] ∧ HeldOnce k m))
  | .semWait s => inferInstanceAs (Decidable (held ≠ [] → (k.sem s).value ≠ 0))
  | .usleep _ | .exit => inferInstanceAs (Decidable (held = []))
  | .create none _ _ | .setschedparam _ _ none => isTrue nofun
  | .create (some a) _ attr => decidable_of_iff (createdPrio attr = base a)
      ⟨fun same b here => by cases here; exact same, fun all => all a rfl⟩
  | .setschedparam t _ (some p) => decidable_of_iff (p.schedPriority = k.prio t)
      ⟨fun same q here => by cases here; exact same, fun all => all p rfl⟩
  | .condSignal _ | .condBroadcast _ | .semTrywait _ | .semPost _ | .kill _ _ | .cancel _ | .yield
  | .timerCreate _ _ | .timerDelete _ | .timerSettime _ _ _ => isTrue trivial

instance (base : T → Int) (h : LockHistory T) : (l : Label T) → Decidable (h.Follows base l)
  | .enter (.call c) _ => inferInstanceAs (Decidable (c.Follows base h.sys.kernel _))
  | .enter .irq _ => isTrue trivial
  | .resume _ => decidableGoesOn (h.sys.cont h.sys.kernel.currentThread)
      fun p => p.Follows h.sys.kernel (h.held h.sys.kernel.currentThread)

def ceilingBases : Fin 3 → Int := fun t => if t = 0 then 1023 else if t = 1 then 10 else 7

/-- Thread 2 waits for thread 1, which posts to it inside a critical section: thread 1
    goes on at the ceiling, and the mutex is given back before thread 2 runs. -/
theorem ceiling_never_blocks_two :
    let ls : List (Label (Fin 3)) := [.enter (.call (.semWait 0)) stillEnv,
      .enter (.call (.mutexLock 0)) stillEnv, .resume stillEnv, .resume stillEnv,
      .enter (.call (.semPost 0)) stillEnv]
    ∃ x es, Lts.exec LockHistory.step ⟨ceilingStart, fun _ => []⟩ ls = some (x, es) ∧
      x.sys.kernel.currentThread = 1 ∧ x.held 1 = [0] ∧ x.sys.kernel.state 2 = readyThread ∧
      ¬InLock x.sys 2 0 ∧ x.sys.kernel.prio 1 = ceilingOf 10 x.sys.kernel [0] := by
  intro ls
  have final : (Lts.exec LockHistory.step ⟨ceilingStart, fun _ => []⟩ ls).map (fun r =>
      (r.1.sys.kernel.currentThread, r.1.held 1, r.1.sys.kernel.state 2, r.1.sys.kernel.live 1)) =
      some (1, [0], readyThread, true) := by decide +kernel
  obtain ⟨⟨x, es⟩, run, there⟩ := Option.map_eq_some_iff.mp final
  simp only [Prod.mk.injEq] at there
  obtain ⟨current, held, ready, alive⟩ := there
  obtain ⟨nobody, _, level, _⟩ := ceiling_never_blocks ceilingBases (by unfold BasesInRange; decide)
    ceilingStart ceilingStart_started (by decide +kernel) ls x es run (by decide +kernel)
  have mine := level 1 alive
  rw [held] at mine
  exact ⟨x, es, run, current, held, ready, nobody 2 0, mine⟩

end L4ertl
