import L4ertl.Core.WaitQueue
import L4ertl.System.Step

/-!
Which steps leave the synchronisation objects alone. A call is quiet when it
only concerns threads, signals and timers; creating a thread is not, since the
nodes of the new structure are cleared.
-/
namespace L4ertl
open Intrusive
variable {T : Type} [DecidableEq T] [Fintype T]

omit [DecidableEq T] [Fintype T] in
def Call.quiet : Call T → Bool
  | .kill _ _ | .cancel _ | .setschedparam _ _ _ | .yield | .exit | .timerCreate _ _
  | .timerDelete _ | .timerSettime _ _ _ | .usleep _ => true
  | _ => false

omit [DecidableEq T] [Fintype T] in
def Work.quiet : Work T → Bool
  | .call c => c.quiet
  | .irq => true

def Point.quiet : Point → Bool
  | .done | .slept _ | .leave _ | .signals _ _ _ _ => true
  | _ => false

def Point.leaving : Point → Prop
  | .leave _ | .signals _ _ _ _ => True
  | _ => False

/-! What it says of the parts of a call or of a piece of one that it ran without a fault. -/
section
variable {env : Env} {k w : Kernel T} {pr : Progress} {outcome : Outcome}

omit [DecidableEq T] [Fintype T] in
theorem ran_pair {r : Kernel T × Progress} (ran : (Except.ok r : Except Fault _) = .ok (w, pr)) :
    w = r.1 ∧ pr = r.2 := by
  cases ran
  exact ⟨rfl, rfl⟩

theorem ran_exit (ran : (Work.call .exit).run env k = .ok (w, pr)) :
    pthreadExitSys k = .ok w ∧ pr = .sched .done := by
  simp only [Work.run, Call.run, bind, bind_ok, pure, Except.pure, Except.ok.injEq,
    Prod.mk.injEq] at ran
  obtain ⟨y, exited, rfl, rfl⟩ := ran
  exact ⟨exited, rfl⟩

theorem ran_timerCreate {clockid : Int} {evp : Option Int}
    (ran : (Work.call (.timerCreate clockid evp)).run env k = .ok (w, pr)) :
    ∃ v, timerCreateSys clockid evp k = .ok (w, v) ∧ pr = .ret v := by
  simp only [Work.run, Call.run, bind, bind_ok, pure, Except.pure, Except.ok.injEq,
    Prod.mk.injEq, Prod.exists] at ran
  obtain ⟨y, v, created, rfl, rfl⟩ := ran
  exact ⟨v, created, rfl⟩

theorem ran_timerDelete {id : Int} (ran : (Work.call (.timerDelete id)).run env k = .ok (w, pr)) :
    ∃ v, timerDeleteSys id k = .ok (w, v) ∧ pr = .ret v := by
  simp only [Work.run, Call.run, bind, bind_ok, pure, Except.pure, Except.ok.injEq,
    Prod.mk.injEq, Prod.exists] at ran
  obtain ⟨y, v, deleted, rfl, rfl⟩ := ran
  exact ⟨v, deleted, rfl⟩

theorem ran_timerSettime {id : Int} {flags : Word} {value : Option Itimerspec}
    (ran : (Work.call (.timerSettime id flags value)).run env k = .ok (w, pr)) :
    ∃ v o, timerSettimeSys env.fuel env.now id flags value k = .ok (w, v, o) ∧ pr = .ret v := by
  simp only [Work.run, Call.run, bind, bind_ok, pure, Except.pure, Except.ok.injEq,
    Prod.mk.injEq, Prod.exists] at ran
  obtain ⟨y, v, o, set, rfl, rfl⟩ := ran
  exact ⟨v, o, set, rfl⟩

theorem ran_usleep {usec : Word} (ran : (Work.call (.usleep usec)).run env k = .ok (w, pr)) :
    sleepFor env.fuel env.now ((usec * 1000#32).setWidth 64) k = .ok w ∧
      pr = .sched (.slept ((usec * 1000#32).setWidth 64)) := by
  simp only [Work.run, Call.run, bind, bind_ok, pure, Except.pure, Except.ok.injEq,
    Prod.mk.injEq] at ran
  obtain ⟨y, slept, rfl, rfl⟩ := ran
  exact ⟨slept, rfl⟩

omit [Fintype T] in
theorem ran_slept {d : Duration} (ran : (Point.slept d).run env k = .ok (w, outcome)) :
    ∃ pr, usleepDone (env.now 0) d k = .ok (w, pr) ∧ outcome = pr.outcome := by
  simp only [Point.run, bind, bind_ok, pure, Except.pure, Except.ok.injEq, Prod.mk.injEq,
    Prod.exists] at ran
  obtain ⟨y, pr, finished, rfl, rfl⟩ := ran
  exact ⟨pr, finished, rfl⟩

omit [Fintype T] in
theorem ran_leave {rounds : Nat} (ran : (Point.leave (rounds + 1)).run env k = .ok (w, outcome)) :
    ∃ q, doSignals rounds k = .ok (w, q) ∧ outcome = signalOutcome rounds q := by
  simp only [Point.run, bind, bind_ok, pure, Except.pure, Except.ok.injEq, Prod.mk.injEq,
    Prod.exists] at ran
  obtain ⟨y, q, signals, rfl, rfl⟩ := ran
  exact ⟨q, signals, rfl⟩

omit [Fintype T] in
theorem ran_signals {mask pend : Word} {signal rounds : Nat}
    (ran : (Point.signals mask signal pend rounds).run env k = .ok (w, outcome)) :
    ∃ q, signalLoop mask rounds (32 - signal) signal pend k = .ok (w, q) ∧
      outcome = signalOutcome rounds q := by
  simp only [Point.run, bind, bind_ok, pure, Except.pure, Except.ok.injEq, Prod.mk.injEq,
    Prod.exists] at ran
  obtain ⟨y, q, signals, rfl, rfl⟩ := ran
  exact ⟨q, signals, rfl⟩

end

omit [Fintype T] in
theorem pthreadSetschedparamSys_quiet (t : T) (policy : Int) (param : Option SchedParam)
    (k : Kernel T) : QuietOnly k (pthreadSetschedparamSys t policy param k).1 := by
  unfold pthreadSetschedparamSys
  split
  · rfl
  · cases param with
    | none => rfl
    | some p =>
      simp only
      refine QuietOnly.trans ?_ (changeThreadPrio_only t p.schedPriority _).quiet
      rfl

omit [Fintype T] in
theorem clockHandler_quiet {fuel : Nat} {now : Nat → Clocks} {k w : Kernel T}
    (ok : clockHandler fuel now k = .ok w) : QuietOnly k w := by
  simp only [clockHandler, bind, bind_ok, pure, Except.pure, Except.ok.injEq] at ok
  obtain ⟨r, update, rfl⟩ := ok
  have first := (updateHwtimer_woken update).1.only.quiet
  split
  · exact first.trans (scheduling_only _ r.kernel).quiet
  · exact first

omit [Fintype T] in
theorem doIrq_quiet {fuel : Nat} {now : Nat → Clocks} {k w : Kernel T} {pr : Progress}
    (ok : doIrq fuel now k = .ok (w, pr)) : QuietOnly k w := by
  simp only [doIrq, bind, bind_ok, pure, Except.pure, Except.ok.injEq, Prod.mk.injEq] at ok
  obtain ⟨x, handled, rfl, rfl⟩ := ok
  have entered : QuietOnly k { k with irqNestingCounter := k.irqNestingCounter + 1#32 } := rfl
  have left : QuietOnly x { x with irqNestingCounter := x.irqNestingCounter - 1#32 } := rfl
  exact (entered.trans (clockHandler_quiet handled)).trans left

omit [Fintype T] in
theorem pthreadExitSys_quiet {k w : Kernel T} (ok : pthreadExitSys k = .ok w) : QuietOnly k w :=
  (Stopped.exited ok).quiet

omit [Fintype T] in
theorem sleepFor_quiet {fuel : Nat} {now : Nat → Clocks} {d : Duration} {k w : Kernel T}
    (ok : sleepFor fuel now d k = .ok w) : QuietOnly k w := by
  obtain ⟨armed, only, _, woken, _⟩ := sleepFor_woken ok
  exact (only.quiet.trans (suspendThread_only _ armed).quiet).trans woken.only.quiet

theorem Work.run_quiet {w : Work T} {env : Env} {k x : Kernel T} {pr : Progress}
    (quiet : w.quiet = true) (ok : w.run env k = .ok (x, pr)) : QuietOnly k x := by
  cases w with
  | irq => exact doIrq_quiet ok
  | call c =>
    cases c with
    | kill t sig =>
      cases ok
      exact (pthreadKillSys_woken t sig k).only.quiet
    | cancel t =>
      cases ok
      exact (pthreadCancelSys_woken t k).only.quiet
    | setschedparam t policy param =>
      have same : pthreadSetschedparamSys t policy param k = (x, pr) := Except.ok.inj ok
      have only := pthreadSetschedparamSys_quiet t policy param k
      rw [same] at only
      exact only
    | yield =>
      cases ok
      rfl
    | exit =>
      obtain ⟨exited, _⟩ := ran_exit ok
      exact pthreadExitSys_quiet exited
    | timerCreate clockid evp =>
      obtain ⟨v, created, _⟩ := ran_timerCreate ok
      exact (timerCreateSys_book created).quiet
    | timerDelete id =>
      obtain ⟨v, deleted, _⟩ := ran_timerDelete ok
      exact (timerDeleteSys_book deleted).quiet
    | timerSettime id flags value =>
      obtain ⟨v, o, set, _⟩ := ran_timerSettime ok
      exact (timerSettimeSys_woken set).1.only.quiet
    | usleep usec =>
      obtain ⟨slept, _⟩ := ran_usleep ok
      exact sleepFor_quiet slept
    | _ => cases quiet

omit [Fintype T] in
theorem usleepDone_book {now : Clocks} {d : Duration} {k x : Kernel T} {pr : Progress}
    (ok : usleepDone now d k = .ok (x, pr)) : BookOnly k x ∧ ∃ v, pr = .ret v := by
  simp only [usleepDone, bind, bind_ok, pure, Except.pure] at ok
  obtain ⟨rest, _, ok⟩ := ok
  split at ok
  · cases ok
    exact ⟨rfl, _, rfl⟩
  · cases ok
    exact ⟨rfl, _, rfl⟩

theorem signalOutcome_onward {rounds : Nat} {q : Option Point} {r : Point}
    (leaving : ∀ p, q = some p → p.leaving) (next : (signalOutcome rounds q).onward = some r) :
    r.leaving := by
  cases q with
  | some p =>
    cases next
    exact leaving r rfl
  | none =>
    simp only [signalOutcome, Outcome.onward] at next
    split at next
    · cases next
    · cases next
      trivial

omit [Fintype T] in
theorem Point.run_quiet {p : Point} {env : Env} {k x : Kernel T} {outcome : Outcome}
    (quiet : p.quiet = true) (ok : p.run env k = .ok (x, outcome)) :
    QuietOnly k x ∧ (∀ v, outcome = .ret v → p = .done ∧ v = 0 ∨ ∃ d, p = .slept d) ∧
      ∀ q, outcome.onward = some q → q.leaving := by
  have delivered : ∀ {rounds : Nat} {w : Kernel T} {q : Option Point}, Delivered rounds k w q →
      QuietOnly k w ∧ (∀ v, signalOutcome rounds q = .ret v → p = .done ∧ v = 0 ∨ ∃ d, p = .slept d) ∧
        ∀ r, (signalOutcome rounds q).onward = some r → r.leaving := by
    intro rounds w q delivered
    cases delivered with
    | ended sig =>
      refine ⟨sig.book.quiet, ?_, ?_⟩
      · intro v eq; cases eq
      · intro r eq; exact signalOutcome_onward (fun p here => by cases here) eq
    | stopped mask next rest sig stop =>
      refine ⟨sig.book.quiet.trans stop.quiet, ?_, ?_⟩
      · intro v eq; cases eq
      · intro r eq; exact signalOutcome_onward (fun p here => by cases here; trivial) eq
  cases p with
  | done =>
    cases ok
    refine ⟨rfl, ?_, ?_⟩
    · intro v eq; cases eq; exact Or.inl ⟨rfl, rfl⟩
    · intro q eq; cases eq
  | slept d =>
    obtain ⟨pr, finished, rfl⟩ := ran_slept ok
    obtain ⟨only, v, rfl⟩ := usleepDone_book finished
    refine ⟨only.quiet, ?_, ?_⟩
    · intro u _; exact Or.inr ⟨d, rfl⟩
    · intro q eq; cases eq
  | leave rounds =>
    cases rounds with
    | zero =>
      cases ok
      refine ⟨rfl, ?_, ?_⟩
      · intro v eq; cases eq
      · intro q eq; cases eq
    | succ rounds =>
      obtain ⟨q, signals, rfl⟩ := ran_leave ok
      exact delivered (doSignals_delivered signals)
  | signals mask signal pend rounds =>
    obtain ⟨q, signals, rfl⟩ := ran_signals ok
    exact delivered (signalLoop_delivered _ signals)
  | _ => cases quiet

omit [Fintype T] in
theorem pthreadCreateSys_objects (addr : Option T) (stack : Bool) (attr : Option PthreadAttr)
    (k : Kernel T) :
    let x := (pthreadCreateSys addr stack attr k).1
    x.mutex = k.mutex ∧ x.cond = k.cond ∧ x.sem = k.sem ∧ x.currentThread = k.currentThread ∧
      x.idleThread = k.idleThread ∧
      ∀ t, addr ≠ some t → x.mutexNode t = k.mutexNode t ∧ x.condNode t = k.condNode t ∧
        x.semNode t = k.semNode t ∧ x.live t = k.live t := by
  intro x
  have created : ∀ t, addr = some t → ∀ u, addr ≠ some u → u ≠ t := by
    intro t here u other same
    exact other (same ▸ here)
  simp only [x]
  unfold pthreadCreateSys
  split
  · exact ⟨rfl, rfl, rfl, rfl, rfl, fun t _ => ⟨rfl, rfl, rfl, rfl⟩⟩
  · cases addr with
    | none => exact ⟨rfl, rfl, rfl, rfl, rfl, fun t _ => ⟨rfl, rfl, rfl, rfl⟩⟩
    | some t =>
      have configured : ∀ (w : Kernel T), SchedOnly w (configureThread t attr w) := by
        intro w
        unfold configureThread
        cases attr <;> rfl
      have base : ∀ w : Kernel T, SchedOnly (createPthreadStruct (some t) k).1 w →
          w.mutex = k.mutex ∧ w.cond = k.cond ∧ w.sem = k.sem ∧
          w.currentThread = k.currentThread ∧ w.idleThread = k.idleThread ∧
          ∀ u, some t ≠ some u → w.mutexNode u = k.mutexNode u ∧ w.condNode u = k.condNode u ∧
            w.semNode u = k.semNode u ∧ w.live u = k.live u := by
        intro w only
        have mutexes := congrArg Kernel.mutex only
        have conds := congrArg Kernel.cond only
        have sems := congrArg Kernel.sem only
        have current := congrArg Kernel.currentThread only
        have idle := congrArg Kernel.idleThread only
        refine ⟨mutexes, conds, sems, current, idle, ?_⟩
        intro u other
        have apart : u ≠ t := created t rfl u other
        rw [congrArg Kernel.mutexNode only, congrArg Kernel.condNode only,
          congrArg Kernel.semNode only, congrArg Kernel.live only]
        simp [createPthreadStruct, apart]
      have failed := base _ (configured _)
      have done := base _ ((configured _).trans (activateThread_only t _))
      simp only [createPthreadStruct] at failed done ⊢
      split
      · exact failed
      · exact done

omit [Fintype T] [DecidableEq T] in
def Point.fits (w : Work T) : Point → Prop
  | .lockLoop m => w = .call (.mutexLock m)
  | .condUnlocked c m => w = .call (.condWait c m)
  | .condWoken m | .condLock m => ∃ c, w = .call (.condWait c m)
  | .semWait s => w = .call (.semWait s)
  | .semPost s => w = .call (.semPost s)
  | .slept _ => ∃ usec, w = .call (.usleep usec)
  | .done => ∀ s, w ≠ .call (.semWait s) ∧ w ≠ .call (.semTrywait s) ∧ w ≠ .call (.semPost s)
  | .leave _ | .signals _ _ _ _ => True

theorem Work.run_fits {w : Work T} {env : Env} {k x : Kernel T} {p : Point}
    (ok : w.run env k = .ok (x, .sched p)) : p.fits w := by
  cases w with
  | irq =>
    simp only [Work.run, doIrq, bind, bind_ok, pure, Except.pure, Except.ok.injEq,
      Prod.mk.injEq] at ok
    obtain ⟨y, _, _, eq⟩ := ok
    split at eq
    · cases eq; trivial
    · cases eq
  | call c =>
    cases c with
    | mutexLock m =>
      have same : pthreadMutexLockSys m k = (x, .sched p) := Except.ok.inj ok
      unfold pthreadMutexLockSys at same
      split at same
      · cases same
      · cases same; rfl
      · cases same; exact fun s => ⟨nofun, nofun, nofun⟩
    | mutexTrylock m =>
      have same : pthreadMutexTrylockSys m k = (x, .sched p) := Except.ok.inj ok
      simp only [pthreadMutexTrylockSys] at same
      split at same
      · split at same
        · cases same
        · cases same; exact fun s => ⟨nofun, nofun, nofun⟩
      · split at same <;> cases same
    | mutexUnlock m =>
      have same : pthreadMutexUnlockSys m k = (x, .sched p) := Except.ok.inj ok
      unfold pthreadMutexUnlockSys at same
      split at same
      · cases same
      · cases same; exact fun s => ⟨nofun, nofun, nofun⟩
    | condSignal c =>
      have same : pthreadCondSignalSys c k = (x, .sched p) := Except.ok.inj ok
      unfold pthreadCondSignalSys at same
      split at same <;> cases same <;> exact fun s => ⟨nofun, nofun, nofun⟩
    | condBroadcast c =>
      cases ok; exact fun s => ⟨nofun, nofun, nofun⟩
    | condWait c m =>
      have same : pthreadCondWaitSys c m k = (x, .sched p) := Except.ok.inj ok
      unfold pthreadCondWaitSys at same
      split at same
      · cases same
      · split at same
        · cases same; exact ⟨c, rfl⟩
        · cases same; rfl
    | semWait s =>
      have same : semWaitSys s k = (x, .sched p) := Except.ok.inj ok
      unfold semWaitSys at same
      split at same
      · cases same; rfl
      · cases same
    | semTrywait s =>
      have same : semTrywaitSys s k = (x, .sched p) := Except.ok.inj ok
      unfold semTrywaitSys at same
      split at same <;> cases same
    | semPost s =>
      have same : semPostSys s k = (x, .sched p) := Except.ok.inj ok
      simp only [semPostSys, semGive] at same
      split at same
      · split at same
        · cases same; rfl
        · split at same <;> cases same
      · split at same <;> cases same
    | create addr stack attr =>
      have same : pthreadCreateSys addr stack attr k = (x, .sched p) := Except.ok.inj ok
      unfold pthreadCreateSys at same
      split at same
      · cases same
      · split at same
        · cases same
        · simp only at same
          split at same
          · cases same
          · cases same; exact fun s => ⟨nofun, nofun, nofun⟩
    | setschedparam t policy param =>
      have same : pthreadSetschedparamSys t policy param k = (x, .sched p) := Except.ok.inj ok
      unfold pthreadSetschedparamSys at same
      split at same
      · cases same
      · cases param with
        | none => cases same
        | some q => cases same; exact fun s => ⟨nofun, nofun, nofun⟩
    | yield => cases ok; exact fun s => ⟨nofun, nofun, nofun⟩
    | exit =>
      cases (ran_exit ok).2
      exact fun s => ⟨nofun, nofun, nofun⟩
    | usleep usec =>
      cases (ran_usleep ok).2
      exact ⟨usec, rfl⟩
    | kill t sig => cases ok
    | cancel t => cases ok
    | timerCreate clockid evp =>
      obtain ⟨v, _, eq⟩ := ran_timerCreate ok
      cases eq
    | timerDelete id =>
      obtain ⟨v, _, eq⟩ := ran_timerDelete ok
      cases eq
    | timerSettime id flags value =>
      obtain ⟨v, o, _, eq⟩ := ran_timerSettime ok
      cases eq

omit [Fintype T] [DecidableEq T] in
theorem Point.fits_of_leaving {q : Point} (w : Work T) (leaving : q.leaving) : q.fits w := by
  cases q with
  | leave rounds => trivial
  | signals mask signal pend rounds => trivial
  | _ => cases leaving

omit [Fintype T] in
theorem condRelock_fits {w : Work T} {m : Nat} {k : Kernel T} {q : Point}
    (fits : ∃ c, w = .call (.condWait c m)) (onward : (condRelock m k).2.outcome.onward = some q) :
    q.fits w := by
  obtain ⟨c, rfl⟩ := fits
  simp only [condRelock] at onward
  split at onward
  · cases onward
  · cases onward; exact ⟨c, rfl⟩
  · cases onward; exact fun s => ⟨nofun, nofun, nofun⟩

omit [Fintype T] in
theorem Point.run_fits {w : Work T} {p q : Point} {env : Env} {k x : Kernel T} {outcome : Outcome}
    (fits : p.fits w) (ok : p.run env k = .ok (x, outcome)) (onward : outcome.onward = some q) :
    q.fits w := by
  cases p with
  | done => exact fits_of_leaving w ((Point.run_quiet rfl ok).2.2 q onward)
  | slept d => exact fits_of_leaving w ((Point.run_quiet rfl ok).2.2 q onward)
  | leave rounds => exact fits_of_leaving w ((Point.run_quiet rfl ok).2.2 q onward)
  | signals mask signal pend rounds =>
    exact fits_of_leaving w ((Point.run_quiet rfl ok).2.2 q onward)
  | lockLoop m =>
    cases fits
    cases ok
    simp only [pthreadMutexLockSys] at onward
    split at onward
    · cases onward
    · cases onward; rfl
    · cases onward; exact fun s => ⟨nofun, nofun, nofun⟩
  | condUnlocked c m =>
    cases fits
    cases ok
    cases onward
    exact ⟨c, rfl⟩
  | condWoken m =>
    cases ok
    exact condRelock_fits fits onward
  | condLock m =>
    cases ok
    exact condRelock_fits fits onward
  | semWait s =>
    cases ok
    cases onward
  | semPost s =>
    cases ok
    simp only [semGive] at onward
    split at onward <;> cases onward

end L4ertl
