import L4ertl.Core.Prompt
import L4ertl.System.Start

/-!
Priority-driven dispatching: the thread that runs is one of the most urgent
READY threads. Every path through `scheduling` restores this, so it can only be
lost in a call that wakes a more urgent thread and returns without it: unlocking
a mutex, posting a signal, and setting a timer.
-/
namespace L4ertl
open Intrusive

section
variable {T : Type}

def Urgent (k : Kernel T) : Prop :=
  ∀ t, k.live t = true → k.state t = readyThread → k.prio k.currentThread ≤ k.prio t

def PriosInRange (k : Kernel T) : Prop :=
  ∀ t, k.live t = true → maxSchedPriority ≤ k.prio t ∧ k.prio t ≤ idleSchedPriority

theorem Steady.urgent {k w : Kernel T} (current : k.live k.currentThread = true)
    (steady : Steady (fun t => k.prio k.currentThread ≤ k.prio t) k w) (urgent : Urgent k) :
    Urgent w := by
  intro t alive ready
  obtain ⟨was, how⟩ := steady.ready t alive ready
  rw [steady.current, steady.prios _ current, steady.prios t was]
  rcases how with before | allowed
  · exact urgent t was before
  · exact allowed

end

variable {T : Type} [DecidableEq T]

theorem scheduling_urgent {k : Kernel T} (ok : KernelOk k)
    (idling : k.state k.idleThread = readyThread) {now : Duration}
    (range : PriosInRange (scheduling now k)) : Urgent (scheduling now k) := by
  obtain ⟨r, inv⟩ := ok.ready
  have only := scheduling_only now k
  have live := congrArg Kernel.live only
  have param := congrArg Kernel.schedParam only
  have queued : k.idleThread ∈ r.lists (prio2ij (k.prio k.idleThread)) :=
    (inv.listed _ _).mpr ⟨ok.idle, idling, rfl⟩
  obtain ⟨⟨c, head, least⟩, _⟩ := scheduling_head inv ok.irq (List.ne_nil_of_mem queued) now
  obtain ⟨runs, _, cell⟩ := (inv.listed _ _).mp (List.mem_of_mem_head? head)
  have prios : ∀ t, (scheduling now k).prio t = k.prio t := by
    intro t
    simp only [Kernel.prio]
    rw [param]
  intro t alive ready
  have alive' : k.live t = true := by
    rw [live] at alive
    exact alive
  rw [only.state] at ready
  have listed : t ∈ r.lists (prio2ij (k.prio t)) := (inv.listed _ _).mpr ⟨alive', ready, rfl⟩
  have order := least _ (List.ne_nil_of_mem listed)
  have mine := range _ (by rw [live]; exact runs)
  have yours := range t alive
  rw [prios] at mine yours
  rw [cell, ij2prio_prio2ij mine.1 mine.2, ij2prio_prio2ij yours.1 yours.2] at order
  rw [prios, prios]
  exact order

/-- The calls that may wake a thread and return do so only for threads that are
    not more urgent than the caller. -/
def Call.Prompt (env : Env) (k : Kernel T) : Call T → Prop
  | .mutexUnlock m => LastUnlock k m → ∀ t, Linked k.mutexNode (k.mutex m).mutexList t →
      k.state t ≠ finishedThread → k.prio k.currentThread ≤ k.prio t
  | .kill t sig => k.state t ≠ finishedThread → Hears k t sig → k.prio k.currentThread ≤ k.prio t
  | .cancel t =>
    k.state t ≠ finishedThread → Hears k t cancelSignal → k.prio k.currentThread ≤ k.prio t
  | .timerSettime id flags value => ∀ i v, timerAt id = .ok i → value = some v →
      (k.timerArray i).inUse = true → v.itValue.tvSec ||| v.itValue.tvNsec ≠ 0#32 →
      SettimeCalm env.now i flags v (fun t => k.prio k.currentThread ≤ k.prio t) k
  | _ => True

def Label.Prompt (k : Kernel T) : Label T → Prop
  | .enter (.call c) env => c.Prompt env k
  | _ => True

variable [Fintype T]

theorem Work.run_steady {w : Work T} {env : Env} {k x : Kernel T} {v : Int} (ok : KernelOk k)
    (legal : w.Legal k = true) (prompt : (Label.enter w env).Prompt k)
    (ran : w.run env k = .ok (x, .ret v)) :
    Steady (fun t => k.prio k.currentThread ≤ k.prio t) k x := by
  cases w with
  | irq =>
    obtain ⟨y, _, _, only, _, progress⟩ := doIrq_cases ok.irq ran
    rcases progress with asks | ⟨_, book⟩
    · cases asks
    · rw [only]
      have steady : Steady (fun t => k.prio k.currentThread ≤ k.prio t) k y := (Woken.book book).steady
      exact ⟨steady.current, steady.prios, steady.ready⟩
  | call c =>
    cases c with
    | mutexLock m =>
      exact pthreadMutexLockSys_steady (Except.ok.inj ran)
    | mutexTrylock m => exact pthreadMutexTrylockSys_steady (Except.ok.inj ran)
    | mutexUnlock m => exact pthreadMutexUnlockSys_steady prompt (Except.ok.inj ran)
    | condSignal c =>
      have returns := Except.ok.inj ran
      unfold pthreadCondSignalSys at returns
      split at returns
      · cases returns
      · cases returns
    | condBroadcast c => cases ran
    | condWait c m =>
      have returns := Except.ok.inj ran
      unfold pthreadCondWaitSys at returns
      split at returns
      · cases returns
        exact .same rfl rfl rfl rfl
      · split at returns
        · cases returns
        · cases returns
    | semWait s => exact semWaitSys_steady (Except.ok.inj ran)
    | semTrywait s => exact semTrywaitSys_steady (Except.ok.inj ran)
    | semPost s => exact semPostSys_steady (Except.ok.inj ran)
    | kill t sig =>
      obtain ⟨rfl, _⟩ := ran_pair ran
      have allowed : k.state t ≠ finishedThread → Hears k t sig →
          k.prio k.currentThread ≤ k.prio t := prompt
      exact (pthreadKillSys_wakes (P := fun t => k.prio k.currentThread ≤ k.prio t) allowed).steady
    | cancel t =>
      obtain ⟨rfl, _⟩ := ran_pair ran
      unfold pthreadCancelSys
      split
      · exact .same rfl rfl rfl rfl
      · have allowed : k.state t ≠ finishedThread → Hears k t cancelSignal →
            k.prio k.currentThread ≤ k.prio t := prompt
        exact (pthreadKillSys_wakes (P := fun t => k.prio k.currentThread ≤ k.prio t) allowed).steady
    | create addr stack attr =>
      apply pthreadCreateSys_steady _ (Except.ok.inj ran)
      intro a here
      subst here
      simpa [Work.Legal, Call.Legal] using legal
    | setschedparam t policy param => exact pthreadSetschedparamSys_steady (Except.ok.inj ran)
    | yield => cases ran
    | exit =>
      cases (ran_exit ran).2
    | timerCreate clockid evp =>
      obtain ⟨u, created, _⟩ := ran_timerCreate ran
      exact (Woken.book (timerCreateSys_book created)).steady
    | timerDelete id =>
      obtain ⟨u, deleted, _⟩ := ran_timerDelete ran
      exact (Woken.book (timerDeleteSys_book deleted)).steady
    | timerSettime id flags value =>
      obtain ⟨u, o, set, _⟩ := ran_timerSettime ran
      exact (timerSettimeSys_calm prompt set).steady
    | usleep usec =>
      cases (ran_usleep ran).2

omit [Fintype T] in
theorem Delivered.steady {P : T → Prop} {rounds : Nat} {k x : Kernel T} {p : Option Point}
    (delivered : Delivered rounds k x p) (stays : ∀ q, signalOutcome rounds p ≠ .sched q) :
    Steady P k x := by
  cases delivered with
  | ended sig => exact (Woken.book sig.book).steady
  | stopped mask next rest sig stop => exact absurd rfl (stays _)

omit [Fintype T] in
theorem Point.run_steady {P : T → Prop} {p : Point} {env : Env} {k x : Kernel T} {outcome : Outcome}
    (ran : p.run env k = .ok (x, outcome)) (stays : ∀ q, outcome ≠ .sched q) : Steady P k x := by
  have returns : ∀ pr : Progress, pr.outcome = outcome → ∃ v, pr = .ret v := by
    intro pr same
    cases pr with
    | ret v => exact ⟨v, rfl⟩
    | sched q => exact absurd same.symm (stays q)
  cases p with
  | done =>
    cases ran
    exact .same rfl rfl rfl rfl
  | lockLoop m =>
    cases ran
    obtain ⟨v, ret⟩ := returns _ rfl
    exact pthreadMutexLockSys_steady (v := v) (Prod.ext rfl ret)
  | condUnlocked c m =>
    cases ran
    obtain ⟨v, ret⟩ := returns _ rfl
    cases ret
  | condWoken m =>
    cases ran
    obtain ⟨v, ret⟩ := returns _ rfl
    exact condRelock_steady (v := v) (Prod.ext rfl ret)
  | condLock m =>
    cases ran
    obtain ⟨v, ret⟩ := returns _ rfl
    exact condRelock_steady (v := v) (Prod.ext rfl ret)
  | semWait s =>
    cases ran
    obtain ⟨v, ret⟩ := returns _ rfl
    exact semTake_steady (v := v) (Prod.ext rfl ret)
  | semPost s =>
    cases ran
    obtain ⟨v, ret⟩ := returns _ rfl
    exact semGive_steady (v := v) (Prod.ext rfl ret)
  | slept d =>
    obtain ⟨pr, finished, _⟩ := ran_slept ran
    exact (Woken.book (usleepDone_book finished).1).steady
  | leave rounds =>
    cases rounds with
    | zero =>
      cases ran
      exact .same rfl rfl rfl rfl
    | succ rounds =>
      obtain ⟨q, signals, rfl⟩ := ran_leave ran
      exact (doSignals_delivered signals).steady stays
  | signals mask signal pend rounds =>
    obtain ⟨q, signals, rfl⟩ := ran_signals ran
    exact (signalLoop_delivered _ signals).steady stays

theorem urgent_step {s x : System T} {l : Label T} {es : List (Event T)} (inv : SystemOk s)
    (urgent : Urgent s.kernel) (prompt : l.Prompt s.kernel) (taken : s.step l = some (x, es))
    (range : PriosInRange x.kernel) : Urgent x.kernel := by
  rcases step_cases taken with ⟨w, env, k, pr, rfl, _, legal, ran, rfl, _⟩ |
    ⟨w, p, env, k, outcome, rfl, here, ran, rfl, _⟩
  · cases pr with
    | ret v => exact (Work.run_steady inv.kernel legal prompt ran).urgent inv.kernel.current urgent
    | sched q =>
      have move := (Work.run_ok inv.kernel inv.running legal ran).move
      have idling := move.sound.idling inv.kernel inv.idling fun idle =>
        (Work.run_idle inv.kernel inv.running legal idle ran).1
      exact scheduling_urgent move.sound.ok idling range
  · have move := Point.run_ok inv.kernel inv.running ran
    cases outcome with
    | ret v => exact (Point.run_steady ran nofun).urgent inv.kernel.current urgent
    | next q => exact (Point.run_steady ran nofun).urgent inv.kernel.current urgent
    | sched q =>
      have idling := move.sound.idling inv.kernel inv.idling fun idle => by
        have quiet : s.kernel.sigpending s.kernel.currentThread = 0#32 := by
          rw [idle]
          exact inv.safe.signals
        exact (Point.run_idle inv.running quiet (inv.idler w p (idle ▸ here)) ran).1
      exact scheduling_urgent move.sound.ok idling range

/-- In every run with priorities in range, in which no call wakes a more urgent
    thread and returns without `scheduling`, no READY thread is ever more urgent
    than the one that runs; in particular not when a call returns. -/
theorem dispatch_most_urgent (start x : System T) (started : Started start)
    (first : Urgent start.kernel) (ls : List (Label T)) (es : List (Event T))
    (run : start.exec ls = some (x, es))
    (prompt : Lts.Along System.step (fun s l => PriosInRange s.kernel ∧ l.Prompt s.kernel) start ls)
    (range : PriosInRange x.kernel) (t : T) (alive : x.kernel.live t = true)
    (ready : x.kernel.state t = readyThread) :
    x.kernel.prio x.kernel.currentThread ≤ x.kernel.prio t := by
  have kept : SystemOk x ∧ (PriosInRange x.kernel → Urgent x.kernel) := by
    apply Lts.exec_keeps (fun s => SystemOk s ∧ (PriosInRange s.kernel → Urgent s.kernel)) _ ls
      ⟨started.ok, fun _ => first⟩ prompt run
    intro s l w events both allowed taken
    exact ⟨both.1.step taken, urgent_step both.1 (both.2 allowed.1) allowed.2 taken⟩
  exact kept.2 range t alive ready

instance (k : Kernel T) : Decidable (PriosInRange k) :=
  inferInstanceAs (Decidable (∀ t, k.live t = true →
    maxSchedPriority ≤ k.prio t ∧ k.prio t ≤ idleSchedPriority))

instance (k : Kernel T) : Decidable (Urgent k) :=
  inferInstanceAs (Decidable (∀ t, k.live t = true → k.state t = readyThread →
    k.prio k.currentThread ≤ k.prio t))

theorem dispatch_most_urgent_two :
    let s : System (Fin 3) := startSystem 0 [(0, 1023), (1, 5), (2, 9)]
    let ls : List (Label (Fin 3)) := [.enter (.call (.mutexLock 0)) stillEnv, .resume stillEnv,
      .enter (.call (.mutexUnlock 0)) stillEnv]
    ∃ x es, s.exec ls = some (x, es) ∧ x.kernel.state 2 = readyThread ∧
      .ret 1 (.call (.mutexUnlock 0)) 0 ∈ es ∧
      x.kernel.prio x.kernel.currentThread ≤ x.kernel.prio 2 := by
  intro s ls
  have final : (s.exec ls).map (fun r => (decide (PriosInRange r.1.kernel), r.1.kernel.live 2,
      r.1.kernel.state 2, decide (.ret 1 (.call (.mutexUnlock 0)) 0 ∈ r.2))) =
      some (true, true, readyThread, true) := by decide +kernel
  obtain ⟨⟨x, es⟩, run, there⟩ := Option.map_eq_some_iff.mp final
  simp only [Prod.mk.injEq, decide_eq_true_eq] at there
  obtain ⟨range, alive, ready, returned⟩ := there
  have locked : (s.step (.enter (.call (.mutexLock 0)) stillEnv)).map
      (fun r => decide (PriosInRange r.1.kernel)) = some true := by decide +kernel
  have left : ((s.step (.enter (.call (.mutexLock 0)) stillEnv)).bind fun r =>
      r.1.step (.resume stillEnv)).map
      (fun r => (decide (PriosInRange r.1.kernel), (r.1.kernel.mutex 0).mutexList)) =
      some (true, none) := by decide +kernel
  have prompt : Lts.Along System.step (fun s l => PriosInRange s.kernel ∧ l.Prompt s.kernel) s ls := by
    refine ⟨⟨by decide +kernel, trivial⟩, fun a _ first => ⟨⟨?_, trivial⟩, fun b _ second => ?_⟩⟩
    · rw [first] at locked
      simpa using locked
    · rw [first, Option.bind_some, second] at left
      simp only [Option.map_some, Option.some.injEq, Prod.mk.injEq, decide_eq_true_eq] at left
      refine ⟨⟨left.1, ?_⟩, fun _ _ _ => trivial⟩
      intro _ t linked
      rw [left.2] at linked
      cases linked
  have started : Started s := startSystem_started 0 _ (by decide) 1023 (by simp)
  exact ⟨x, es, run, ready, returned,
    dispatch_most_urgent s x started (by decide +kernel) ls es run prompt range 2 alive ready⟩

theorem dispatch_inverted :
    let s : System (Fin 3) := startSystem 0 [(0, 1023), (1, 5), (2, 9)]
    ∃ x es, s.exec [.enter (.call (.semWait 0)) stillEnv, .enter (.call (.mutexLock 0)) stillEnv,
        .resume stillEnv, .enter (.call (.semPost 0)) stillEnv, .resume stillEnv, .resume stillEnv,
        .enter (.call (.mutexLock 0)) stillEnv, .resume stillEnv, .resume stillEnv,
        .enter (.call (.mutexUnlock 0)) stillEnv] = some (x, es) ∧
      es.getLast? = some (.ret 2 (.call (.mutexUnlock 0)) 0) ∧ x.kernel.currentThread = 2 ∧
      PriosInRange x.kernel ∧ x.kernel.live 1 = true ∧ x.kernel.state 1 = readyThread ∧
      x.kernel.prio 1 < x.kernel.prio 2 := by
  intro s
  have final : (s.exec [.enter (.call (.semWait 0)) stillEnv, .enter (.call (.mutexLock 0)) stillEnv,
      .resume stillEnv, .enter (.call (.semPost 0)) stillEnv, .resume stillEnv, .resume stillEnv,
      .enter (.call (.mutexLock 0)) stillEnv, .resume stillEnv, .resume stillEnv,
      .enter (.call (.mutexUnlock 0)) stillEnv]).map (fun r => (r.2.getLast?,
        r.1.kernel.currentThread, decide (PriosInRange r.1.kernel), r.1.kernel.live 1,
        r.1.kernel.state 1, decide (r.1.kernel.prio 1 < r.1.kernel.prio 2))) =
      some (some (.ret 2 (.call (.mutexUnlock 0)) 0), 2, true, true, readyThread, true) := by
    decide +kernel
  obtain ⟨⟨x, es⟩, run, there⟩ := Option.map_eq_some_iff.mp final
  simp only [Prod.mk.injEq, decide_eq_true_eq] at there
  exact ⟨x, es, run, there⟩

end L4ertl
